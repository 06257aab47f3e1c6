import Bgpd.AttrStream

/-!
# Every handler stays inside its attribute

Each handler of the attribute section returns without failing an assertion. It
touches no octet outside its attribute, leaves the read pointer between the
start and the end of the body, and hands on a slice only if it is an MP handler,
and then only of its own body.

The walk checks that an attribute ends inside the section before it calls the
handler, and this is all the handlers rely on.
-/

namespace Bgpd.AttrBounds

open Octets Attributes Neighbors InputStream AttrStream
open AsPath (assegmentSize assegmentDataSize SegmentType Assegment)
open AttrParse (ParseState ParseRet)

/-- An aggregator is flagged only where the extra block exists. -/
def Backed (attr : Attr) : Prop := attr.has .aggregator = true → attr.extra.isSome = true

theorem Backed.mark {attr : Attr} {type : AttrType} (backed : Backed attr)
    (other : type ≠ .aggregator) : Backed (attr.mark type) := by
  intro flagged
  rw [Attr.has_mark, decide_eq_false other, Bool.or_false] at flagged
  exact backed flagged

theorem Backed.withExtra (attr : Attr) (change : AttrExtra → AttrExtra) :
    Backed (attr.withExtra change) := fun _ => rfl

/-- A slice lies in a window. -/
def Slice.Inside (first last : Nat) (slice : Slice) : Prop :=
  first ≤ slice.nlri ∧ slice.nlri + slice.length ≤ last

/-- The body is at the read pointer, right behind the header, and ends before
the data does. -/
structure Placed (hdr : Header) (r : Reading) : Prop where
  header : hdr.startp + hdr.width = r.stream.getp
  room : r.stream.getp + hdr.length ≤ r.stream.endp

/-- What the code between two readings may have done, inside an attribute whose
octets begin at `first`, whose body begins at `body` and which ends at `last`. -/
structure Confined (first body last : Nat) (type : U8) (before after : Reading) : Prop where
  within : Within first last before.stream after.stream
  met : after.met = before.met
  seen : after.st.seen = before.st.seen
  backed : Backed before.st.attr → Backed after.st.attr
  mpUpdate : after.mpUpdate = before.mpUpdate ∨ AttrType.ofCode type = some .mpReachNlri ∧
    ∃ slice, after.mpUpdate = some slice ∧ Slice.Inside body last slice
  mpWithdraw : after.mpWithdraw = before.mpWithdraw ∨
    AttrType.ofCode type = some .mpUnreachNlri ∧
      ∃ slice, after.mpWithdraw = some slice ∧ Slice.Inside body last slice

namespace Confined

variable {first body last : Nat} {type : U8} {r after : Reading}

theorem refl (inside : r.stream.getp ≤ last) : Confined first body last type r r :=
  ⟨.refl inside, rfl, rfl, fun backed => backed, .inl rfl, .inl rfl⟩

/-- Going on from the stream of a confined reading. -/
theorem stream {s : Stream} (confined : Confined first body last type r after)
    (onward : Within first last after.stream s) :
    Confined first body last type r { after with stream := s } :=
  { confined with within := confined.within.trans onward }

/-- Changing values other than the bitmap. -/
theorem values {st : ParseState} (confined : Confined first body last type r after)
    (seen : st.seen = after.st.seen) (backed : Backed after.st.attr → Backed st.attr) :
    Confined first body last type r { after with st } :=
  { confined with
    seen := seen.trans confined.seen
    backed := fun earlier => backed (confined.backed earlier) }

theorem modify {change : Attr → Attr} (confined : Confined first body last type r after)
    (backed : Backed after.st.attr → Backed (change after.st.attr)) :
    Confined first body last type r (after.modify change) :=
  confined.values rfl backed

/-- Changing the attributes in a given way. -/
theorem changed (confined : Confined first body last type r after) (change : Attr → Attr)
    (backed : Backed after.st.attr → Backed (change after.st.attr)) :
    Confined first body last type r (after.modify change) := confined.modify backed

theorem accepted {flagged : AttrType} (confined : Confined first body last type r after)
    (other : flagged ≠ .aggregator) : Confined first body last type r (after.accepted flagged).1 :=
  confined.changed (·.mark flagged) fun backed => backed.mark other

variable {subcode : U8}

theorem notifySend (confined : Confined first body last type r after) :
    Confined first body last type r (after.notifySend subcode) :=
  confined.values rfl fun backed => backed

theorem notifySendWithData {data datalen : Nat} (confined : Confined first body last type r after)
    (lower : first ≤ data) (upper : data + datalen ≤ last) :
    Confined first body last type r (after.notifySendWithData subcode data datalen) :=
  (confined.stream ((Within.refl confined.within.stops).touch lower upper)).values rfl
    fun backed => backed

end Confined

variable (s : Stream) (length : Nat) (use32bit : Bool)

/-! ## Paths -/

theorem getAs_moves (s : Stream) (room : s.getp + assegmentDataSize 1 use32bit ≤ s.endp) :
    Ensures (getAs use32bit s) fun read =>
      read.2 = s.advance (assegmentDataSize 1 use32bit) ∧
        ∀ count more, assegmentDataSize 1 use32bit ≤ more →
          AsPath.getMembers use32bit (count + 1) (s.octetsAt s.getp more) =
            read.1 :: AsPath.getMembers use32bit count
              (read.2.octetsAt read.2.getp (more - assegmentDataSize 1 use32bit)) := by
  cases use32bit with
  | false =>
    refine .map (.of_eq (s.streamGetw_eq room)) ?_
    rintro _ rfl
    refine ⟨rfl, fun count more enough => ?_⟩
    rw [AsPath.getMembers, if_neg Bool.false_ne_true, s.octetsAt_drop, Stream.octetsAt,
      getw_take enough]
    congr 2
    exact (getw_take (Nat.le_refl 2) _).symm
  | true =>
    refine .mono (.of_eq (s.streamGetl_eq room)) ?_
    rintro _ rfl
    refine ⟨rfl, fun count more enough => ?_⟩
    rw [AsPath.getMembers, if_pos rfl, s.octetsAt_drop, Stream.octetsAt, getl_take enough]
    congr 1
    exact (getl_take (Nat.le_refl 4) _).symm

/-- The members of a segment are read as far as their number says. -/
theorem getMembers_within (count : Nat) (s : Stream)
    (room : s.getp + assegmentDataSize count use32bit ≤ s.endp) :
    Ensures (getMembers use32bit count s) fun read =>
      Within s.getp (s.getp + assegmentDataSize count use32bit) s read.2 ∧
        read.2.getp = s.getp + assegmentDataSize count use32bit ∧
        ∀ more, assegmentDataSize count use32bit ≤ more →
          read.1 = AsPath.getMembers use32bit count (s.octetsAt s.getp more) := by
  induction count generalizing s with
  | zero => exact .intro ⟨.refl (Nat.le_add_right _ _), by simp [assegmentDataSize], fun _ _ => rfl⟩
  | succ count ih =>
    have size : assegmentDataSize (count + 1) use32bit =
        assegmentDataSize 1 use32bit + assegmentDataSize count use32bit := by
      simp only [assegmentDataSize, Nat.add_mul, Nat.one_mul, Nat.add_comm]
    rw [size] at room ⊢
    rw [getMembers]
    refine .bind (getAs_moves use32bit s (by omega)) ?_
    rintro ⟨member, after⟩ ⟨rfl, value⟩
    refine .bind (ih _ (Stream.advance_room (by omega))) ?_
    rintro ⟨members, after⟩ ⟨within, moved, values⟩
    simp only [Stream.advance_getp] at within moved
    refine .intro ⟨?_, by simp only; omega, fun more enough => ?_⟩
    · exact (Within.advance (.refl (by omega)) le_rfl (by omega)).trans
        (within.widen (by omega) (by omega))
    · rw [value count more (by omega), ← values _ (by omega)]

/-- The loop has read `bytes` octets and has fuel for the others. -/
theorem assegmentsLoop_within (length fuel bytes : Nat) (head : List Assegment) (s : Stream)
    (last : Nat) (here : s.getp + (length - bytes) = last) (room : last ≤ s.endp)
    (enough : length - bytes ≤ fuel) :
    Ensures (assegmentsLoop use32bit length fuel bytes head s) fun read =>
      Within s.getp last s read.2 ∧ read.1 = (AsPath.assegmentsLoop use32bit fuel
        (s.octetsAt s.getp (length - bytes))).map (head ++ ·) := by
  have ended (fuel : Nat) (s : Stream) (bytes : Nat) (head : List Assegment)
      (none : length - bytes = 0) : some head = (AsPath.assegmentsLoop use32bit fuel
        (s.octetsAt s.getp (length - bytes))).map (head ++ ·) := by
    rw [none, Stream.octetsAt, List.take_zero]
    cases fuel <;> simp [AsPath.assegmentsLoop]
  induction fuel generalizing bytes head s with
  | zero =>
    rw [assegmentsLoop, if_neg (by omega)]
    exact .intro ⟨.refl (by omega), ended 0 s bytes head (by omega)⟩
  | succ fuel ih =>
    rw [assegmentsLoop]
    split
    · rename_i more
      have sized := s.sized
      have size : (s.octetsAt s.getp (length - bytes)).length = length - bytes :=
        s.octetsAt_length (by omega)
      split
      · refine .intro ⟨.refl (by omega), ?_⟩
        generalize s.octetsAt s.getp (length - bytes) = octets at size ⊢
        rcases octets with _ | ⟨_, _ | ⟨_, _ | ⟨_, _⟩⟩⟩
        · rw [List.length_nil] at size
          omega
        · rfl
        · rfl
        · simp only [List.length_cons] at size
          omega
      · obtain ⟨code, read, octets⟩ := s.streamGetc_cons (by omega)
        obtain ⟨members, read', octets'⟩ :=
          (s.advance 1).streamGetc_cons (Stream.advance_room (by omega))
        refine .bind (.of_eq read) ?_
        rintro _ rfl
        refine .bind (.of_eq read') ?_
        rintro _ rfl
        have header : Within s.getp last s ((s.advance 1).advance 1) :=
          .twice le_rfl (by omega)
        have whole : s.octetsAt s.getp (length - bytes) =
            code :: members :: s.octetsAt (s.getp + 2) (length - bytes - 1 - 1) := by
          rw [octets _ (by omega)]
          exact congrArg (code :: ·) (octets' _ (by omega))
        have left : (s.octetsAt (s.getp + 2) (length - bytes - 1 - 1)).length =
            length - bytes - 1 - 1 := s.octetsAt_length (by omega)
        have wanted : assegmentSize members.toNat use32bit =
            2 + assegmentDataSize members.toNat use32bit := rfl
        rw [whole, AsPath.assegmentsLoop, left,
          if_neg (show ¬ length - bytes - 1 - 1 + 2 ≤ 2 by omega)]
        dsimp only
        split
        · rename_i refused
          rw [if_pos (refused.imp_left fun short => by omega)]
          exact .intro ⟨header, rfl⟩
        · rename_i fits
          rw [if_neg fun refused => fits (refused.imp_left fun short => by omega)]
          cases SegmentType.ofCode code with
          | none => exact .intro ⟨header, rfl⟩
          | some type =>
            refine .bind (getMembers_within use32bit _ _ (by
              simp only [Stream.advance_getp, Stream.advance_endp]; omega)) ?_
            rintro ⟨as, s₃⟩ ⟨members_read, moved, value⟩
            simp only [Stream.advance_getp] at members_read moved
            have so_far : Within s.getp last s s₃ :=
              header.trans (members_read.widen (by omega) (by omega))
            refine (ih _ _ s₃ (by omega) (by rw [so_far.endp]; exact room) (by omega)).mono ?_
            rintro ⟨segments, after⟩ ⟨onward, rfl⟩
            refine ⟨so_far.trans (onward.widen so_far.forward le_rfl), ?_⟩
            have behind : s₃.octetsAt s₃.getp
                (length - (bytes + assegmentSize members.toNat use32bit)) =
                (s.octetsAt (s.getp + 2) (length - bytes - 1 - 1)).drop
                  (assegmentDataSize members.toNat use32bit) := by
              rw [s.octetsAt_drop, Stream.octetsAt, drop_ahead so_far le_rfl, moved, wanted]
              congr 1
              omega
            obtain rfl := value (length - bytes - 1 - 1) (by omega)
            rw [behind]
            cases AsPath.assegmentsLoop use32bit fuel _ <;> simp [Stream.octetsAt]
    · exact .intro ⟨.refl (by omega), ended _ s bytes head (by omega)⟩

/-- A path of the stated length is read inside that length, and is the path its
octets stand for. -/
theorem aspathParse_within (room : s.getp + length ≤ s.endp) :
    Ensures (aspathParse s length use32bit) fun read =>
      Within s.getp (s.getp + length) s read.2 ∧
        read.1 = AsPath.aspathParse (s.octetsAt s.getp length) use32bit := by
  have nothing : Within s.getp (s.getp + length) s s := .refl (Nat.le_add_right _ _)
  rw [aspathParse, AsPath.aspathParse, s.octetsAt_length (room.trans s.sized)]
  split
  · exact .intro ⟨nothing, rfl⟩
  · rename_i even
    rw [assegmentsParse]
    split
    · rename_i empty
      subst empty
      exact .intro ⟨nothing, rfl⟩
    · rw [if_neg (by omega)]
      rw [Option.map_map]
      refine .map (assegmentsLoop_within use32bit length length 0 [] s _ (by omega) room
        (by omega)) ?_
      rintro ⟨segments, after⟩ ⟨within, rfl⟩
      exact ⟨within, by simp [Function.comp_def]⟩

/-! ## Prefixes and communities -/

/-- The check reads prefixes up to the end of the slice, whatever they say. -/
theorem nlriSanityLoop_within (afi : U16) (first last fuel pnt : Nat) (s : Stream)
    (lower : first ≤ pnt) (stops : s.getp ≤ last) (room : last ≤ s.data.length) (upper : pnt ≤ last)
    (enough : last - pnt ≤ fuel) :
    Ensures (nlriSanityLoop afi last fuel pnt s) fun read =>
      Within first last s read.2 ∧ read.2.getp = s.getp ∧
        read.1 = AttrParse.nlriSanityLoop afi fuel (s.octetsAt pnt (last - pnt)) := by
  induction fuel generalizing pnt s with
  | zero =>
    obtain rfl : pnt = last := by omega
    rw [nlriSanityLoop, if_neg (by omega)]
    exact .intro ⟨.refl stops, rfl, by simp [Stream.octetsAt, AttrParse.nlriSanityLoop]⟩
  | succ fuel ih =>
    rw [nlriSanityLoop]
    split
    · rename_i more
      have prefixlen : Within first last s (s.touch pnt 1) :=
        (Within.refl stops).touch lower (by omega)
      obtain ⟨octet, octets⟩ := s.octetsAt_cons (more.trans_le room)
      have left : (s.octetsAt (pnt + 1) (last - pnt - 1)).length = last - pnt - 1 :=
        s.octetsAt_length (by omega)
      rw [octets (last - pnt) (by omega), AttrParse.nlriSanityLoop, left, s.octetsAt_drop]
      dsimp only [Stream.readAt]
      rw [octets 1 Nat.one_pos, getc]
      split
      · exact .intro ⟨prefixlen, rfl, rfl⟩
      · split
        · rw [if_pos (by omega)]
          exact .intro ⟨prefixlen, rfl, rfl⟩
        · rw [if_neg (by omega)]
          refine (ih _ (s.touch pnt 1) (by omega) stops room (by omega) (by omega)).mono ?_
          rintro read ⟨onward, still, rest⟩
          refine ⟨prefixlen.trans onward, still, rest.trans ?_⟩
          rw [show last - (pnt + 1 + Prefixes.psize octet.toNat) =
            last - pnt - 1 - Prefixes.psize octet.toNat by omega]
          rfl
    · obtain rfl : pnt = last := by omega
      exact .intro ⟨.refl stops, rfl, by simp [Stream.octetsAt, AttrParse.nlriSanityLoop]⟩

theorem communityParse_within :
    Within s.getp (s.getp + length) s (communityParse s s.getp length).2 ∧
      (communityParse s s.getp length).2.getp = s.getp := by
  unfold communityParse
  have nothing : Within s.getp (s.getp + length) s s := .refl (Nat.le_add_right _ _)
  split
  · exact ⟨nothing, rfl⟩
  · exact ⟨nothing.touch le_rfl le_rfl, rfl⟩

theorem ecommunityParse_within :
    Within s.getp (s.getp + length) s (ecommunityParse s s.getp length).2 ∧
      (ecommunityParse s s.getp length).2.getp = s.getp := by
  unfold ecommunityParse
  have nothing : Within s.getp (s.getp + length) s s := .refl (Nat.le_add_right _ _)
  split
  · exact ⟨nothing, rfl⟩
  · exact ⟨nothing.touch le_rfl le_rfl, rfl⟩

/-! ## Handlers -/

section Handlers

variable (bgp : Bgp) (peer : Peer) (cap : PeerCap) {hdr : Header} {r : Reading}
variable {after : Reading}

/-- The window of an attribute, its body at the read pointer. -/
def Inside (hdr : Header) (r after : Reading) : Prop :=
  Confined hdr.startp r.stream.getp (r.stream.getp + hdr.length) hdr.type r after

theorem Inside.refl (hdr : Header) (r : Reading) : Inside hdr r r :=
  Confined.refl (Nat.le_add_right _ _)

theorem Placed.before (placed : Placed hdr r) : hdr.startp ≤ r.stream.getp := by
  have := placed.header
  omega

/-- The octets a notification reports are those of the attribute. -/
theorem Placed.whole (placed : Placed hdr r) :
    hdr.startp + hdr.total ≤ r.stream.getp + hdr.length := by
  have fits : hdr.total ≤ hdr.length + hdr.width := Nat.mod_le _ _
  have := placed.header
  omega

theorem Inside.reported {subcode : U8} (inside : Inside hdr r after) (placed : Placed hdr r) :
    Inside hdr r (after.notifySendWithData subcode hdr.startp hdr.total) :=
  inside.notifySendWithData le_rfl placed.whole

theorem bgpAttrMalformed_inside (type flag subcode : U8) (startp length : Nat)
    (inside : Inside hdr r after)
    (reset : Inside hdr r (after.notifySendWithData subcode startp length)) :
    Inside hdr r (bgpAttrMalformed bgp peer type flag subcode startp length after).1 := by
  unfold bgpAttrMalformed
  split
  · exact reset
  · split
    · exact inside
    · exact inside
    · exact inside
    · split <;> exact inside
    · split <;> exact inside
    · exact reset

theorem malformed_inside (type : AttrType) (subcode : U8) (placed : Placed hdr r)
    (inside : Inside hdr r after) : Inside hdr r (malformed bgp peer type hdr subcode after).1 :=
  bgpAttrMalformed_inside bgp peer _ _ _ _ _ inside (inside.reported placed)

/-- Without data nothing is read. -/
theorem malformedBare_inside (type : AttrType) (subcode : U8) (inside : Inside hdr r after) :
    Inside hdr r (malformedBare bgp peer type hdr subcode after).1 :=
  bgpAttrMalformed_inside bgp peer _ _ _ _ _ inside (inside.values rfl fun backed => backed)

/-- The reading after a handler has read the front of the body. -/
theorem Placed.read {count : Nat} (placed : Placed hdr r) (fits : count ≤ hdr.length) :
    Inside hdr r { r with stream := r.stream.advance count } :=
  (Inside.refl hdr r).stream
    ((Within.refl (Nat.le_add_right _ _)).advance placed.before (by omega))

/-- The reading after a handler has passed the body, some of it through a raw
pointer. -/
theorem Placed.pass {stream : Stream} (placed : Placed hdr r)
    (within : Within r.stream.getp (r.stream.getp + hdr.length) r.stream stream)
    (still : stream.getp = r.stream.getp) :
    Inside hdr r { r with stream := stream.skip hdr.length } :=
  (Inside.refl hdr r).stream
    ((within.widen placed.before le_rfl).skip (by rw [still]))

theorem bgpAttrOrigin_inside (placed : Placed hdr r) :
    Ensures (bgpAttrOrigin bgp peer hdr r) fun out => Inside hdr r out.1 := by
  have room := placed.room
  unfold bgpAttrOrigin
  split
  · exact .intro (malformed_inside bgp peer _ _ placed (.refl hdr r))
  · split
    · exact .intro (malformed_inside bgp peer _ _ placed (.refl hdr r))
    · refine .bind (.streamGetc (by omega)) ?_
      rintro ⟨origin, stream⟩ rfl
      have fetched : Inside hdr r
          ({ r with stream := r.stream.advance 1 }.modify fun attr => { attr with origin }) :=
        (placed.read (by omega)).modify fun backed => backed
      dsimp only
      split
      · exact .intro (malformed_inside bgp peer _ _ placed fetched)
      · exact .intro (fetched.accepted (by decide))

theorem bgpAttrAspath_inside (placed : Placed hdr r) :
    Ensures (bgpAttrAspath bgp peer cap hdr r) fun out => Inside hdr r out.1 := by
  unfold bgpAttrAspath
  split
  · exact .intro (malformed_inside bgp peer _ _ placed (.refl hdr r))
  · refine .bind (aspathParse_within r.stream hdr.length _ placed.room) ?_
    rintro ⟨aspath, stream⟩ ⟨within, -⟩
    have fetched : Inside hdr r
        ({ r with stream }.modify fun attr => { attr with aspath }) :=
      ((Inside.refl hdr r).stream (within.widen placed.before le_rfl)).modify fun backed => backed
    dsimp only
    split
    · exact .intro (malformedBare_inside bgp peer _ _ fetched)
    · exact .intro (fetched.accepted (by decide))

theorem bgpAttrAs4Path_inside (placed : Placed hdr r) :
    Ensures (bgpAttrAs4Path bgp peer hdr r) fun out => Inside hdr r out.1 := by
  unfold bgpAttrAs4Path
  split
  · exact .intro (malformed_inside bgp peer _ _ placed (.refl hdr r))
  · refine .bind (aspathParse_within r.stream hdr.length _ placed.room) ?_
    rintro ⟨as4Path, stream⟩ ⟨within, -⟩
    have fetched : Inside hdr r { r with stream, st := { r.st with as4Path } } :=
      ((Inside.refl hdr r).stream (within.widen placed.before le_rfl)).values rfl
        fun backed => backed
    dsimp only
    split
    · exact .intro (malformedBare_inside bgp peer _ _ fetched)
    · exact .intro (fetched.accepted (by decide))

theorem bgpAttrNexthop_inside (placed : Placed hdr r) :
    Ensures (bgpAttrNexthop bgp peer hdr r) fun out => Inside hdr r out.1 := by
  have room := placed.room
  unfold bgpAttrNexthop
  split
  · exact .intro (malformed_inside bgp peer _ _ placed (.refl hdr r))
  · split
    · exact .intro (malformed_inside bgp peer _ _ placed (.refl hdr r))
    · refine .bind (.streamGetl (by omega)) ?_
      rintro ⟨nexthop, stream⟩ rfl
      have fetched : Inside hdr r
          ({ r with stream := r.stream.advance 4 }.modify fun attr => { attr with nexthop }) :=
        (placed.read (by omega)).modify fun backed => backed
      exact .intro (fetched.accepted (by decide))

theorem bgpAttrMed_inside (placed : Placed hdr r) :
    Ensures (bgpAttrMed bgp peer hdr r) fun out => Inside hdr r out.1 := by
  have room := placed.room
  unfold bgpAttrMed
  split
  · exact .intro ((Inside.refl hdr r).reported placed)
  · split
    · exact .intro (malformed_inside bgp peer _ _ placed (.refl hdr r))
    · refine .bind (.streamGetl (by omega)) ?_
      rintro ⟨metric, stream⟩ rfl
      have fetched : Inside hdr r ({ r with stream := r.stream.advance 4 }.modify fun attr =>
          { attr with med := metric + r.st.localMed }) :=
        (placed.read (by omega)).modify fun backed => backed
      exact .intro (fetched.accepted (by decide))

theorem bgpAttrLocalPref_inside (placed : Placed hdr r) :
    Ensures (bgpAttrLocalPref hdr r) fun out => Inside hdr r out.1 := by
  have room := placed.room
  unfold bgpAttrLocalPref
  split
  · exact .intro ((Inside.refl hdr r).reported placed)
  · split
    · exact .intro ((Inside.refl hdr r).reported placed)
    · have reads : Ensures
          (if hdr.length = 4 then r.stream.streamGetl else some (0, r.stream))
          fun read => Inside hdr r { r with stream := read.2 } := by
        split
        · refine (Ensures.streamGetl (by omega)).mono ?_
          rintro ⟨localPref, stream⟩ rfl
          exact placed.read (by omega)
        · exact .intro (.refl hdr r)
      refine .bind reads ?_
      rintro ⟨localPref, stream⟩ inside
      have fetched : Inside hdr r
          ({ r with stream }.modify fun attr => { attr with localPref }) :=
        inside.modify fun backed => backed
      dsimp only
      split
      · refine .intro (Confined.accepted ?_ (by decide))
        have adopted := @Confined.values _ _ _ _ _ _
          { r.st with attr := { r.st.attr with localPref }, localMed := localPref } fetched rfl
          fun backed => backed
        exact adopted.changed (fun attr => { attr with med := attr.med + localPref })
          fun backed => backed
      · exact .intro (fetched.accepted (by decide))

theorem bgpAttrAtomic_inside (placed : Placed hdr r) :
    Ensures (bgpAttrAtomic bgp peer hdr r) fun out => Inside hdr r out.1 := by
  have reported : Inside hdr r
      (r.notifySendWithData AttrParse.notifyUpdateAttrFlagErr hdr.startp hdr.total) :=
    (Inside.refl hdr r).reported placed
  unfold bgpAttrAtomic
  split
  · exact .intro reported
  · split
    · exact .intro reported
    · split
      · exact .intro reported
      · split
        · exact .intro (malformedBare_inside bgp peer _ _ (.refl hdr r))
        · exact .intro ((Inside.refl hdr r).accepted (by decide))

theorem bgpAttrAggregator_inside (placed : Placed hdr r) :
    Ensures (bgpAttrAggregator bgp peer cap hdr r) fun out => Inside hdr r out.1 := by
  have room := placed.room
  have allocated : Inside hdr r (r.modify (·.withExtra id)) :=
    (Inside.refl hdr r).changed (·.withExtra id) fun _ => .withExtra _ _
  unfold bgpAttrAggregator
  by_cases length : hdr.length = if cap.as4Rcv then 8 else 6
  case neg =>
    rw [if_pos length]
    exact .intro (malformedBare_inside bgp peer _ _ allocated)
  case pos =>
    rw [if_neg (not_not_intro length)]
    have size : hdr.length = assegmentDataSize 1 cap.as4Rcv + 4 := by
      rw [length]
      cases cap.as4Rcv <;> rfl
    refine .bind (getAs_moves cap.as4Rcv r.stream (by omega)) ?_
    rintro ⟨aggregatorAs, stream⟩ ⟨rfl, -⟩
    refine .bind (.streamGetl (Stream.advance_room (by omega))) ?_
    rintro ⟨aggregatorAddr, stream⟩ rfl
    refine .intro ?_
    -- the flag that wants the extra block is set by this handler, which allocates it
    exact (allocated.stream (Within.twice (s := r.stream) placed.before (by omega))).values rfl
      fun _ _ => rfl

theorem bgpAttrAs4Aggregator_inside (placed : Placed hdr r) :
    Ensures (bgpAttrAs4Aggregator bgp peer hdr r) fun out => Inside hdr r out.1 := by
  have room := placed.room
  unfold bgpAttrAs4Aggregator
  split
  · exact .intro (malformedBare_inside bgp peer _ _ (.refl hdr r))
  · refine .bind (.streamGetl (by omega)) ?_
    rintro ⟨as4Aggregator, stream⟩ rfl
    refine .bind (.streamGetl (Stream.advance_room (by omega))) ?_
    rintro ⟨as4AggregatorAddr, stream⟩ rfl
    refine .intro (Confined.accepted ?_ (by decide))
    exact ((Inside.refl hdr r).stream (.twice placed.before (by omega))).values rfl
      fun backed => backed

theorem bgpAttrCommunity_inside (placed : Placed hdr r) :
    Ensures (bgpAttrCommunity bgp peer hdr r) fun out => Inside hdr r out.1 := by
  unfold bgpAttrCommunity
  split
  · exact .intro ((Inside.refl hdr r).changed
      (fun attr => { attr with community := none }) fun backed => backed)
  · obtain ⟨within, still⟩ := communityParse_within r.stream hdr.length
    have room : (communityParse r.stream r.stream.getp hdr.length).2.getp + hdr.length ≤
        (communityParse r.stream r.stream.getp hdr.length).2.endp := by
      rw [still, within.endp]
      exact placed.room
    dsimp only
    refine .bind (.streamForwardGetp room) ?_
    rintro stream rfl
    have fetched := (placed.pass within still).changed
      (fun attr =>
        { attr with community := (communityParse r.stream r.stream.getp hdr.length).1 })
      fun backed => backed
    split
    · exact .intro (malformed_inside bgp peer _ _ placed fetched)
    · exact .intro (fetched.accepted (by decide))

theorem bgpAttrExtCommunities_inside (placed : Placed hdr r) :
    Ensures (bgpAttrExtCommunities bgp peer hdr r) fun out => Inside hdr r out.1 := by
  unfold bgpAttrExtCommunities
  split
  · refine .intro ((Inside.refl hdr r).values rfl fun backed flagged => ?_)
    rw [Option.isSome_map]
    exact backed flagged
  · obtain ⟨within, still⟩ := ecommunityParse_within r.stream hdr.length
    have room : (ecommunityParse r.stream r.stream.getp hdr.length).2.getp + hdr.length ≤
        (ecommunityParse r.stream r.stream.getp hdr.length).2.endp := by
      rw [still, within.endp]
      exact placed.room
    dsimp only
    refine .bind (.streamForwardGetp room) ?_
    rintro stream rfl
    have fetched := (placed.pass within still).changed
      (·.withExtra fun extra =>
        { extra with ecommunity := (ecommunityParse r.stream r.stream.getp hdr.length).1 })
      fun _ => .withExtra _ _
    split
    · exact .intro (malformed_inside bgp peer _ _ placed fetched)
    · exact .intro (fetched.accepted (by decide))

theorem bgpAttrOriginatorId_inside (placed : Placed hdr r) :
    Ensures (bgpAttrOriginatorId bgp peer hdr r) fun out => Inside hdr r out.1 := by
  have room := placed.room
  unfold bgpAttrOriginatorId
  split
  · exact .intro (malformedBare_inside bgp peer _ _ (.refl hdr r))
  · refine .bind (.streamGetl (by omega)) ?_
    rintro ⟨originatorId, stream⟩ rfl
    refine .intro (Confined.accepted ?_ (by decide))
    exact (placed.read (by omega)).modify fun _ => .withExtra _ _

theorem bgpAttrClusterList_inside (placed : Placed hdr r) :
    Ensures (bgpAttrClusterList bgp peer hdr r) fun out => Inside hdr r out.1 := by
  unfold bgpAttrClusterList
  split
  · exact .intro (malformedBare_inside bgp peer _ _ (.refl hdr r))
  · dsimp only [Stream.readAt]
    refine .bind (.streamForwardGetp placed.room) ?_
    rintro stream rfl
    have list : Within r.stream.getp (r.stream.getp + hdr.length) r.stream
        (r.stream.touch r.stream.getp hdr.length) :=
      (Within.refl (Nat.le_add_right _ _)).touch le_rfl le_rfl
    refine .intro (Confined.accepted ?_ (by decide))
    exact (placed.pass list rfl).modify fun _ => .withExtra _ _

theorem bgpAttrUnknown_inside (placed : Placed hdr r) :
    Ensures (bgpAttrUnknown bgp peer hdr r) fun out => Inside hdr r out.1 := by
  unfold bgpAttrUnknown
  refine .bind (.streamForwardGetp placed.room) ?_
  rintro stream rfl
  have passed : Inside hdr r { r with stream := r.stream.skip hdr.length } :=
    placed.pass (.refl (Nat.le_add_right _ _)) rfl
  split
  · exact .intro (bgpAttrMalformed_inside bgp peer _ _ _ _ _ passed (passed.reported placed))
  · split
    · exact .intro passed
    · have header : hdr.startp < r.stream.getp := by
        have := placed.header
        unfold Header.width at this
        split at this <;> omega
      have whole := placed.whole
      have kept : Within hdr.startp (r.stream.getp + hdr.length) r.stream
          ((((r.stream.skip hdr.length).touch hdr.startp 1).writeAt hdr.startp
            (FlagWord.set (getc ((r.stream.skip hdr.length).octetsAt hdr.startp 1))
              attrFlagPartial)).touch hdr.startp hdr.total) :=
        ((passed.within.touch le_rfl (by omega)).writeAt le_rfl (by omega)
          (by simp only [Stream.touch_getp, Stream.skip_getp]; omega)).touch le_rfl whole
      exact .intro (((Inside.refl hdr r).stream kept).values rfl fun _ => .withExtra _ _)

/-- A next hop is read inside the length its field states. -/
theorem mpReachNexthop_within (length : U8) (attr : Attr) (s : Stream)
    (room : s.getp + length.toNat ≤ s.endp) :
    Ensures (mpReachNexthop length attr s) fun read =>
      Within s.getp (s.getp + length.toNat) s read.2 ∧
        ∀ updated, read.1 = some updated → Backed updated := by
  have nothing : Within s.getp (s.getp + length.toNat) s s := .refl (Nat.le_add_right _ _)
  unfold mpReachNexthop
  split
  · rename_i four
    refine .bind (.streamGet (by omega)) ?_
    rintro ⟨octets, after⟩ rfl
    have moved := @Within.advance _ _ _ _ 4 nothing le_rfl (by omega)
    dsimp only
    split
    · exact .intro ⟨moved, by rintro _ ⟨⟩ _; rfl⟩
    · exact .intro ⟨moved, by rintro _ ⟨⟩ _; rfl⟩
  · rename_i twelve
    refine .bind (.streamGetl (by omega)) ?_
    rintro ⟨rdHigh, after⟩ rfl
    refine .bind (.streamGetl (Stream.advance_room (by omega))) ?_
    rintro ⟨rdLow, after⟩ rfl
    refine .bind (.streamGet (by
      simp only [Stream.advance_getp, Stream.advance_endp]; omega)) ?_
    rintro ⟨octets, after⟩ rfl
    have moved : Within s.getp (s.getp + length.toNat) s
        (((s.advance 4).advance 4).advance 4) :=
      (Within.twice le_rfl (by omega)).advance (by simp only [Stream.advance_getp]; omega)
        (by simp only [Stream.advance_getp]; omega)
    exact .intro ⟨moved, by rintro _ ⟨⟩ _; rfl⟩
  · rename_i sixteen
    refine .bind (.streamGet (by omega)) ?_
    rintro ⟨octets, after⟩ rfl
    exact .intro ⟨nothing.advance le_rfl (by omega), by rintro _ ⟨⟩ _; rfl⟩
  · rename_i both
    refine .bind (.streamGet (by omega)) ?_
    rintro ⟨first, after⟩ rfl
    refine .bind (.streamGet (Stream.advance_room (by omega))) ?_
    rintro ⟨second, after⟩ rfl
    exact .intro ⟨.twice le_rfl (by omega), by rintro _ ⟨⟩ _; rfl⟩
  · exact .intro ⟨nothing, by rintro _ ⟨⟩⟩

/-- The end of an MP handler with `length` octets of its body left. -/
theorem mpSlice_inside (afi : U16) (safi : U8) (length : Nat) (placed : Placed hdr r)
    (inside : Inside hdr r after)
    (exact_length : after.stream.getp + length = r.stream.getp + hdr.length) :
    Ensures (mpSlice afi safi length after) fun out =>
      Inside hdr r out.1 ∧ out.1.mpUpdate = after.mpUpdate ∧
        out.1.mpWithdraw = after.mpWithdraw ∧
        ∀ slice, out.2 = some slice →
          Slice.Inside r.stream.getp (r.stream.getp + hdr.length) slice := by
  have forward := inside.within.forward
  have checked : Ensures (if safi ≠ AttrParse.bgpSafiVpnv4 then
      bgpNlriSanityCheck after.stream afi after.stream.getp length else some (true, after.stream))
      fun read => Within hdr.startp (r.stream.getp + hdr.length) after.stream read.2 ∧
        read.2.getp = after.stream.getp := by
    split
    · unfold bgpNlriSanityCheck
      rw [exact_length]
      have fits := placed.room.trans (inside.within.endp ▸ after.stream.sized)
      exact (nlriSanityLoop_within afi _ _ _ _ _ (placed.before.trans forward) (by omega) fits
        (by omega) (by omega)).mono fun _ read => ⟨read.1, read.2.1⟩
    · exact .intro ⟨.refl (by omega), rfl⟩
  unfold mpSlice
  refine .bind checked ?_
  rintro ⟨sane, stream⟩ ⟨within, still⟩
  dsimp only at still within ⊢
  split
  · refine .bind (.streamForwardGetp ?_) ?_
    · rw [still, exact_length, within.endp, inside.within.endp]
      exact placed.room
    · rintro _ rfl
      refine .intro ⟨inside.stream (within.skip (by omega)), rfl, rfl, ?_⟩
      rintro slice ⟨⟩
      exact ⟨by dsimp only; omega, by dsimp only; omega⟩
  · exact .intro ⟨(inside.stream within).notifySend, rfl, rfl, by rintro _ ⟨⟩⟩

theorem bgpMpUnreachParse_inside (placed : Placed hdr r)
    (type : AttrType.ofCode hdr.type = some .mpUnreachNlri) :
    Ensures (bgpMpUnreachParse hdr r) fun out => Inside hdr r out.1 := by
  unfold bgpMpUnreachParse
  split
  · exact .intro (.refl hdr r)
  · refine .bind (.streamGetw (by omega)) ?_
    rintro ⟨afi, stream⟩ rfl
    refine .bind (.streamGetc (Stream.advance_room (by omega))) ?_
    rintro ⟨safi, stream⟩ rfl
    have header : Inside hdr r { r with stream := (r.stream.advance 2).advance 1 } :=
      (Inside.refl hdr r).stream (.twice placed.before (by omega))
    refine .bind (mpSlice_inside afi safi (hdr.length - 3) placed header
      (by simp only [Stream.advance_getp]; omega)) ?_
    rintro ⟨after, slice⟩ ⟨inside, _, _, slices⟩
    cases slice with
    | none => exact .intro inside
    | some slice =>
      exact .intro { inside with mpWithdraw := .inr ⟨type, slice, rfl, slices slice rfl⟩ }

/-- Behind the fixed header every read is checked against what is left. -/
theorem mpReachBehind_inside (afi : U16) (safi mpNexthopLen : U8) (placed : Placed hdr r)
    (type : AttrType.ofCode hdr.type = some .mpReachNlri) (inside : Inside hdr r after) :
    Ensures (mpReachBehind hdr r.stream.getp afi safi mpNexthopLen after) fun out =>
      Inside hdr r out.1 := by
  have room := placed.room
  have before := placed.before
  have forward := inside.within.forward
  have stops := inside.within.stops
  have same_end := inside.within.endp
  unfold mpReachBehind lenLeft
  split
  · exact .intro inside
  · refine .bind (mpReachNexthop_within mpNexthopLen _ after.stream (by omega)) ?_
    rintro ⟨attr, stream⟩ ⟨nexthop, backed⟩
    have read := inside.stream (nexthop.widen (by omega) (by omega))
    cases attr with
    | none => exact .intro read
    | some attr =>
      have kept := @Confined.values _ _ _ _ _ _ { after.st with attr } read rfl
        fun _ => backed attr rfl
      have forward := read.within.forward
      have stops := read.within.stops
      have same_end := read.within.endp
      dsimp only at forward stops same_end ⊢
      split
      · exact .intro kept
      · refine .bind (.streamGetc (s := stream) (by omega)) ?_
        rintro ⟨snpa, _⟩ rfl
        have passed := kept.stream (s := stream.advance 1)
          ((Within.refl stops).advance (by omega) (by omega))
        split
        · exact .intro passed
        · refine .bind (mpSlice_inside afi safi _ placed passed
            (by simp only [Stream.advance_getp]; omega)) ?_
          rintro ⟨final, slice⟩ ⟨inside, _, _, slices⟩
          cases slice with
          | none => exact .intro inside
          | some slice =>
            exact .intro { inside with mpUpdate := .inr ⟨type, slice, rfl, slices slice rfl⟩ }

theorem bgpMpReachParse_inside (placed : Placed hdr r)
    (type : AttrType.ofCode hdr.type = some .mpReachNlri) :
    Ensures (bgpMpReachParse hdr r) fun out => Inside hdr r out.1 := by
  have room := placed.room
  have before := placed.before
  have allocated : Inside hdr r (r.modify (·.withExtra id)) :=
    (Inside.refl hdr r).changed (·.withExtra id) fun _ => .withExtra _ _
  unfold bgpMpReachParse
  dsimp only
  split
  · exact .intro allocated
  · rename_i sizes
    refine .bind (.streamGetw (s := r.stream) (by omega)) ?_
    rintro ⟨afi, stream⟩ rfl
    refine .bind (.streamGetc (Stream.advance_room (by omega))) ?_
    rintro ⟨safi, stream⟩ rfl
    refine .bind (.streamGetc (by
      simp only [Stream.advance_getp, Stream.advance_endp]; omega)) ?_
    rintro ⟨mpNexthopLen, stream⟩ rfl
    have fixed : Within hdr.startp (r.stream.getp + hdr.length) r.stream
        (((r.stream.advance 2).advance 1).advance 1) :=
      (Within.twice before (by omega)).advance (by simp only [Stream.advance_getp]; omega)
        (by simp only [Stream.advance_getp]; omega)
    exact mpReachBehind_inside afi safi mpNexthopLen placed type
      ((allocated.stream fixed).changed (·.withExtra fun extra => { extra with mpNexthopLen })
        fun _ => .withExtra _ _)

/-- Whatever the type of an attribute, its handler returns and stays inside it. -/
theorem bgpAttrHandle_inside (placed : Placed hdr r) :
    Ensures (bgpAttrHandle bgp peer cap hdr r) fun out => Inside hdr r out.1 := by
  unfold bgpAttrHandle
  cases type : AttrType.ofCode hdr.type with
  | none => exact bgpAttrUnknown_inside bgp peer placed
  | some known =>
    cases known with
    | origin => exact bgpAttrOrigin_inside bgp peer placed
    | asPath => exact bgpAttrAspath_inside bgp peer cap placed
    | as4Path => exact bgpAttrAs4Path_inside bgp peer placed
    | nextHop => exact bgpAttrNexthop_inside bgp peer placed
    | multiExitDisc => exact bgpAttrMed_inside bgp peer placed
    | localPref => exact bgpAttrLocalPref_inside placed
    | atomicAggregate => exact bgpAttrAtomic_inside bgp peer placed
    | aggregator => exact bgpAttrAggregator_inside bgp peer cap placed
    | as4Aggregator => exact bgpAttrAs4Aggregator_inside bgp peer placed
    | communities => exact bgpAttrCommunity_inside bgp peer placed
    | originatorId => exact bgpAttrOriginatorId_inside bgp peer placed
    | clusterList => exact bgpAttrClusterList_inside bgp peer placed
    | mpReachNlri => exact bgpMpReachParse_inside placed type
    | mpUnreachNlri => exact bgpMpUnreachParse_inside placed type
    | extCommunities => exact bgpAttrExtCommunities_inside bgp peer placed

end Handlers

end Bgpd.AttrBounds
