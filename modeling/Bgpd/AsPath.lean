import Bgpd.Octets

/-!
# AS paths

An AS path is a list of segments, each of one of four kinds and of any length.
The wire form splits a segment into pieces of at most 255 members and stores
members in two octets when the peer does not speak four-octet AS numbers. The
internal form is normalised after parsing: runs of sequences are joined and the
members of sets are sorted without repetition.

Reference counts, the intern table and the cached string have no counterpart;
an interned path is its value. Segment lengths are unbounded naturals here,
where the daemon stores them in sixteen bits.
-/

namespace Bgpd.AsPath

open Octets

/-- `AS_SET`, `AS_SEQUENCE`, `AS_CONFED_SEQUENCE` and `AS_CONFED_SET`. -/
inductive SegmentType
  | asSet
  | asSequence
  | asConfedSequence
  | asConfedSet
  deriving DecidableEq, Repr

/-- The code of a segment type on the wire. -/
def SegmentType.code : SegmentType → U8
  | .asSet => 1
  | .asSequence => 2
  | .asConfedSequence => 3
  | .asConfedSet => 4

/-- The segment type of a wire code; any other code is malformed. -/
def SegmentType.ofCode (code : U8) : Option SegmentType :=
  if code = 1 then some .asSet
  else if code = 2 then some .asSequence
  else if code = 3 then some .asConfedSequence
  else if code = 4 then some .asConfedSet
  else none

/-- `struct assegment`, without the chain pointer. -/
structure Assegment where
  type : SegmentType
  as : List U32
  deriving DecidableEq, Repr

/-- `struct aspath`, without the reference count and the cached string. -/
structure Aspath where
  segments : List Assegment
  deriving DecidableEq, Repr

/-- `AS_SEGMENT_MAX`, the members one wire segment can hold. -/
def asSegmentMax : Nat := 255

/-- `BGP_AS_MAX`, the largest two-octet AS number. -/
def bgpAsMax : U32 := 65535

/-- `BGP_AS_TRANS`, which stands for a large AS number on a two-octet session. -/
def bgpAsTrans : U16 := 23456

/-- `ASSEGMENT_DATA_SIZE`: octets of `n` members. -/
def assegmentDataSize (n : Nat) (use32bit : Bool) : Nat := n * if use32bit then 4 else 2

/-- `ASSEGMENT_SIZE`: octets of a segment of `n` members with its header. -/
def assegmentSize (n : Nat) (use32bit : Bool) : Nat := 2 + assegmentDataSize n use32bit

/-- `aspath_empty_get` and `aspath_empty`: the path with no segments. -/
def aspathEmpty : Aspath := ⟨[]⟩

/-! ## Normal form -/

/-- One step of `assegment_normalise` at a segment whose followers are already
normalised: a set is sorted and freed of repetitions, a sequence absorbs a
sequence that follows it, and a confederation sequence is left alone. -/
def normaliseOne (seg : Assegment) (followers : List Assegment) : List Assegment :=
  match seg.type with
  | .asSet => ⟨.asSet, seg.as.dedup.insertionSort (· ≤ ·)⟩ :: followers
  | .asConfedSet => ⟨.asConfedSet, seg.as.dedup.insertionSort (· ≤ ·)⟩ :: followers
  | .asConfedSequence => seg :: followers
  | .asSequence =>
    match followers with
    | ⟨.asSequence, as⟩ :: rest => ⟨.asSequence, seg.as ++ as⟩ :: rest
    | _ => seg :: followers

/-- `assegment_normalise`. The daemon pins a segment and reads ahead; joining
from the tail yields the same chain, since only sequences are joined. -/
def assegmentNormalise (segments : List Assegment) : List Assegment :=
  segments.foldr normaliseOne []

/-! ## Reading -/

/-- `n` members from the front of the data, four or two octets each. -/
def getMembers (use32bit : Bool) : Nat → List U8 → List U32
  | 0, _ => []
  | n + 1, data =>
    if use32bit then getl data :: getMembers use32bit n (data.drop 4)
    else (getw data).setWidth 32 :: getMembers use32bit n (data.drop 2)

/-- The loop of `assegments_parse`. A remainder of at most a header, a segment
that runs past the end, an empty segment and an unknown type are errors. Every
turn consumes octets, so fuel equal to the length never runs out. -/
def assegmentsLoop (use32bit : Bool) : Nat → List U8 → Option (List Assegment)
  | _, [] => some []
  | 0, _ => none
  | _ + 1, [_] => none
  | fuel + 1, code :: length :: data =>
    if data.length + 2 ≤ 2 then none
    else if data.length + 2 < assegmentSize length.toNat use32bit ∨ length = 0 then none
    else
      match SegmentType.ofCode code with
      | none => none
      | some type =>
        let seg : Assegment := ⟨type, getMembers use32bit length.toNat data⟩
        match assegmentsLoop use32bit fuel
            (data.drop (assegmentDataSize length.toNat use32bit)) with
        | none => none
        | some rest => some (seg :: rest)

/-- `aspath_parse` on the octets of one attribute body. An odd length is
malformed and an empty body is the empty path. -/
def aspathParse (body : List U8) (use32bit : Bool) : Option Aspath :=
  if body.length % 2 ≠ 0 then none
  else (assegmentsLoop use32bit body.length body).map (⟨assegmentNormalise ·⟩)

/-! ## Writing -/

/-- `assegment_data_put`: a large AS number on a two-octet session is written
as `AS_TRANS`. -/
def assegmentDataPut (use32bit : Bool) (as : List U32) : List U8 :=
  as.flatMap fun member =>
    if use32bit then putl member
    else if member ≤ bgpAsMax then putw (member.setWidth 16)
    else putw bgpAsTrans

/-- `assegment_header_put`. -/
def assegmentHeaderPut (type : SegmentType) (length : Nat) : List U8 :=
  [type.code, BitVec.ofNat 8 length]

/-- The octets written by a put and the size it reports for them. The two are
computed separately, as in the daemon. -/
structure Put where
  octets : List U8
  bytes : Nat
  deriving DecidableEq, Repr

/-- One put after another. -/
def Put.append (first second : Put) : Put :=
  ⟨first.octets ++ second.octets, first.bytes + second.bytes⟩

/-- The inner loop of `aspath_put` over an overlength segment, from what is written of it
on. Each turn writes the first 255 members of the segment, and reports the size of
everything written so far; so from the second turn on it repeats those members and
reports more than it wrote. -/
def putOverlength (use32bit : Bool) (seg : Assegment) : Nat → Nat → Put × Nat
  | 0, written => (⟨[], 0⟩, written)
  | fuel + 1, written =>
    if seg.as.length - written > asSegmentMax then
      let written' := written + asSegmentMax
      let chunk : Put :=
        ⟨assegmentHeaderPut seg.type asSegmentMax
            ++ assegmentDataPut use32bit (seg.as.take asSegmentMax),
          assegmentSize written' use32bit⟩
      let (rest, done) := putOverlength use32bit seg fuel written'
      (chunk.append rest, done)
    else (⟨[], 0⟩, written)

/-- `ASSEGMENTS_PACKABLE`: both are sequences and fit one wire segment. -/
def assegmentsPackable (seg next : Assegment) : Bool :=
  seg.type = next.type ∧ seg.type = .asSequence ∧
    seg.as.length + next.as.length ≤ asSegmentMax

/-- One turn of the outer loop of `aspath_put`: the segment, then the packable
followers in the same wire segment. The stored length only counts the last
follower that was packed. -/
def putSegment (use32bit : Bool) (seg : Assegment) (packed : List Assegment) : Put :=
  let (chunks, written) := putOverlength use32bit seg seg.as.length 0
  let left := seg.as.drop written
  let shown := left.length + (packed.getLast?.map (·.as.length)).getD 0
  let followers := packed.flatMap (·.as)
  let last : Put :=
    ⟨assegmentHeaderPut seg.type shown ++ assegmentDataPut use32bit left
        ++ assegmentDataPut use32bit followers,
      assegmentSize (left.length + followers.length) use32bit⟩
  chunks.append last

/-- The outer loop of `aspath_put`. It stops at the first segment that does not
fit what is left of the stream. -/
def putSegments (use32bit : Bool) : Nat → Nat → List Assegment → Put
  | _, _, [] => ⟨[], 0⟩
  | 0, _, _ => ⟨[], 0⟩
  | fuel + 1, writeable, seg :: next =>
    if assegmentSize seg.as.length use32bit ≤ writeable then
      let packed := next.takeWhile (assegmentsPackable seg)
      let here := putSegment use32bit seg packed
      here.append (putSegments use32bit fuel (writeable - here.octets.length)
        (next.drop packed.length))
    else ⟨[], 0⟩

/-- `aspath_put` into a stream with the given room. A path whose first segment
is empty writes nothing. -/
def aspathPut (writeable : Nat) (path : Aspath) (use32bit : Bool) : Put :=
  match path.segments with
  | [] => ⟨[], 0⟩
  | seg :: _ =>
    if seg.as.length = 0 then ⟨[], 0⟩
    else putSegments use32bit path.segments.length writeable path.segments

/-! ## Tests on paths -/

/-- `aspath_count_confeds`. -/
def aspathCountConfeds (path : Aspath) : Nat :=
  (path.segments.map fun seg =>
    match seg.type with
    | .asConfedSequence => seg.as.length
    | .asConfedSet => 1
    | _ => 0).sum

/-- `aspath_count_hops`. -/
def aspathCountHops (path : Aspath) : Nat :=
  (path.segments.map fun seg =>
    match seg.type with
    | .asSequence => seg.as.length
    | .asSet => 1
    | _ => 0).sum

/-- `aspath_has_as4`. -/
def aspathHasAs4 (path : Aspath) : Bool :=
  path.segments.any fun seg => seg.as.any (bgpAsMax < ·)

/-- `aspath_firstas_check`. -/
def aspathFirstasCheck (path : Aspath) (asno : U32) : Bool :=
  match path.segments with
  | ⟨.asSequence, first :: _⟩ :: _ => first = asno
  | _ => false

/-- `aspath_loop_check`: how often the AS occurs. -/
def aspathLoopCheck (path : Aspath) (asno : U32) : Nat :=
  (path.segments.map fun seg => seg.as.count asno).sum

/-- `aspath_private_as_check`: a non-empty chain of private AS numbers only. -/
def aspathPrivateAsCheck (path : Aspath) : Bool :=
  path.segments ≠ [] ∧
    path.segments.all fun seg => seg.as.all fun member => 64512 ≤ member ∧ member ≤ 65535

/-- A segment of a confederation. -/
def Assegment.confed (seg : Assegment) : Bool :=
  seg.type = .asConfedSet ∨ seg.type = .asConfedSequence

/-- `aspath_confed_check`. -/
def aspathConfedCheck (path : Aspath) : Bool := path.segments.any Assegment.confed

/-- `aspath_left_confed_check`. -/
def aspathLeftConfedCheck (path : Aspath) : Bool :=
  match path.segments with
  | [] => false
  | seg :: _ => seg.confed

/-! ## Editing paths -/

/-- `aspath_add_one_as`. An empty first segment is replaced, and with it the
rest of the chain is dropped, as in the daemon. -/
def aspathAddOneAs (path : Aspath) (asno : U32) (type : SegmentType) : Aspath :=
  match path.segments with
  | [] => ⟨[⟨type, [asno]⟩]⟩
  | seg :: rest =>
    if seg.as.length = 0 then ⟨[⟨type, [asno]⟩]⟩
    else if seg.type = type then ⟨⟨type, asno :: seg.as⟩ :: rest⟩
    else ⟨⟨type, [asno]⟩ :: seg :: rest⟩

/-- `aspath_add_seq`. -/
def aspathAddSeq (path : Aspath) (asno : U32) : Aspath := aspathAddOneAs path asno .asSequence

/-- `aspath_add_confed_seq`. -/
def aspathAddConfedSeq (path : Aspath) (asno : U32) : Aspath :=
  aspathAddOneAs path asno .asConfedSequence

/-- `aspath_delete_confed_seq`: only a path that starts with a confederation
sequence loses its leading confederation segments. -/
def aspathDeleteConfedSeq (path : Aspath) : Aspath :=
  match path.segments with
  | ⟨.asConfedSequence, _⟩ :: _ => ⟨path.segments.dropWhile Assegment.confed⟩
  | _ => path

/-- The copying loop of `aspath_reconcile_as4`: the leading segments that stand
for the given number of hops. A confederation sequence is never split. -/
def reconcileHops : List Assegment → Int → List Assegment
  | [], _ => []
  | seg :: rest, hops =>
    if hops ≤ 0 then []
    else
      match seg.type with
      | .asSet | .asConfedSet => seg :: reconcileHops rest (hops - 1)
      | .asConfedSequence => seg :: reconcileHops rest (max hops seg.as.length - seg.as.length)
      | .asSequence =>
        ⟨.asSequence, seg.as.take (min (seg.as.length : Int) hops).toNat⟩
          :: reconcileHops rest (hops - seg.as.length)

/-- `aspath_reconcile_as4`. -/
def aspathReconcileAs4 (path as4path : Aspath) : Aspath :=
  let apart : Int := aspathCountHops path + aspathCountConfeds path - aspathCountHops as4path
  let hops : Int := if apart < 0 then aspathCountHops path else apart
  if hops = 0 then as4path
  else ⟨assegmentNormalise (reconcileHops path.segments hops ++ as4path.segments)⟩

end Bgpd.AsPath
