import Bgpd.HashChains
import Bgpd.AttrHash
import Bgpd.CommunityText

/-!
# The table of AS paths

Interned paths are filed in a chained hash table. The key is the hash of a path's
string, two paths are the same if their segments are: the table relies on each
string being the one of its segments.

A path is built in a private structure, by functions most of which bring the string
up to date, and interned when it is done.
-/

namespace Bgpd.PathTable

open Octets AsPath Interning PathStore HashChains
open AttrHash (aspathKeyMake)
open Aggregation (aspathAggregate)
open CommunityText (isSpace)

/-! ## Paths from text -/

/-- `enum as_token`, with the number of an AS. -/
inductive AsToken
  | asval (asno : U32)
  | setStart
  | setEnd
  | confedSeqStart
  | confedSeqEnd
  | confedSetStart
  | confedSetEnd
  | unknown
  deriving DecidableEq, Repr

/-- The digits of an AS number, which wraps around. -/
def readAsval : U32 → List Char → U32 × List Char
  | asval, [] => (asval, [])
  | asval, c :: rest =>
    if c.isDigit then readAsval (asval * 10 + BitVec.ofNat 32 (c.toNat - '0'.toNat)) rest
    else (asval, c :: rest)

/-- `aspath_gettoken`. An unknown character is not skipped, but nothing is read after
it. -/
def aspathGettoken (buf : List Char) : Option (AsToken × List Char) :=
  match buf.dropWhile fun c => isSpace c ∨ c = ',' with
  | [] => none
  | c :: rest =>
    if c = '\x7b' then some (.setStart, rest)
    else if c = '\x7d' then some (.setEnd, rest)
    else if c = '(' then some (.confedSeqStart, rest)
    else if c = ')' then some (.confedSeqEnd, rest)
    else if c = '[' then some (.confedSetStart, rest)
    else if c = ']' then some (.confedSetEnd, rest)
    else if c.isDigit then
      let (asval, rest) := readAsval 0 (c :: rest)
      some (.asval asval, rest)
    else some (.unknown, c :: rest)

/-- `aspath_as_add`: a member at the end of the last segment. -/
def aspathAsAdd (asno : U32) : List Assegment → List Assegment
  | [] => []
  | [seg] => [{ seg with as := seg.as ++ [asno] }]
  | seg :: rest => seg :: aspathAsAdd asno rest

/-- `aspath_segment_add`. -/
def aspathSegmentAdd (type : SegmentType) (segments : List Assegment) : List Assegment :=
  segments ++ [⟨type, []⟩]

/-- The loop of `aspath_str2aspath`. Every token takes a character, so that fuel of the
length is enough. -/
def str2aspathLoop : Nat → SegmentType → Bool → List Assegment → List Char → Option (List Assegment)
  | 0, _, _, segments, _ => some segments
  | fuel + 1, asType, needtype, segments, str =>
    match aspathGettoken str with
    | none => some segments
    | some (.asval asno, str) =>
      let segments := if needtype then aspathSegmentAdd asType segments else segments
      str2aspathLoop fuel asType false (aspathAsAdd asno segments) str
    | some (.setStart, str) =>
      str2aspathLoop fuel .asSet false (aspathSegmentAdd .asSet segments) str
    | some (.confedSeqStart, str) =>
      str2aspathLoop fuel .asConfedSequence false (aspathSegmentAdd .asConfedSequence segments) str
    | some (.confedSetStart, str) =>
      str2aspathLoop fuel .asConfedSet false (aspathSegmentAdd .asConfedSet segments) str
    | some (.setEnd, str) => str2aspathLoop fuel .asSequence true segments str
    | some (.confedSeqEnd, str) => str2aspathLoop fuel .asSequence true segments str
    | some (.confedSetEnd, str) => str2aspathLoop fuel .asSequence true segments str
    | some (.unknown, _) => none

/-- The segments that `aspath_str2aspath` makes of a text. -/
def aspathStr2aspath (str : List Char) : Option (List Assegment) :=
  str2aspathLoop (str.length + 1) .asSequence true [] str

/-! ## The table -/

/-- The paths in memory and `ashash`. -/
structure Ashash where
  paths : Paths
  chains : Chains U32 Nat

/-- No path was ever made. -/
def Ashash.start : Ashash := ⟨⟨Store.empty, []⟩, fun _ => []⟩

/-- The chain of a key. -/
def slot (key : U32) : Nat := key.toNat % 32767

/-- What `aspath_cmp` sees of a path. -/
def segmentsAt (s : Store PathData) (aspath : Nat) : Option (List Assegment) :=
  (s.read aspath).map (·.segments)

/-- The path has its string afterwards. -/
def makeStr (data : PathData) : PathData :=
  { data with str := some (data.str.getD (aspathMakeStrCount data.segments)) }

/-- A new path with its string. -/
def newPath (segments : List Assegment) : PathData :=
  ⟨segments, some (aspathMakeStrCount segments)⟩

/-- The interned path that is the same as some path, by `hash_get`. -/
def aspathFind (m : Ashash) (data : PathData) : Option Nat :=
  hashGet slot (aspathKeyMake data) (valued (segmentsAt m.paths.store) data.segments) m.chains

/-- `aspath_intern`. The key is made first, and with it the string. -/
def aspathIntern (m : Ashash) (aspath : Nat) : Option (Nat × Ashash) := do
  let cell ← m.paths.store.cells aspath
  if cell.refcnt ≠ 0 then none
  else
    let data := makeStr cell.value
    let store ← m.paths.store.write aspath data
    match aspathFind { m with paths := { m.paths with store } } data with
    | some find =>
      let store ← store.free aspath
      let store ← store.addRef find
      let found ← store.read find
      let store ← store.write find (makeStr found)
      some (find, { m with paths := { m.paths with store } })
    | none =>
      let store ← store.addRef aspath
      some (aspath,
        { paths := { m.paths with store }
          chains := hashPut slot (aspathKeyMake data) aspath m.chains })

/-- `aspath_parse`. What is malformed makes no path. -/
def aspathParse (m : Ashash) (body : List U8) (use32bit : Bool) : Option (Option Nat × Ashash) :=
  match AsPath.aspathParse body use32bit with
  | none => some (none, m)
  | some path =>
    let as := newPath path.segments
    match aspathFind m as with
    | some find => do
      let store ← m.paths.store.addRef find
      some (some find, { m with paths := { m.paths with store } })
    | none => do
      let (new, store) := m.paths.store.alloc as
      let store ← store.addRef new
      some (some new,
        { paths := { m.paths with store }
          chains := hashPut slot (aspathKeyMake as) new m.chains })

/-- `aspath_unintern`. The path must be in the table when it goes. -/
def aspathUnintern (m : Ashash) (aspath : Nat) : Option Ashash := do
  let cell ← m.paths.store.cells aspath
  let refcnt := cell.refcnt - 1
  if refcnt ≠ 0 then
    some { m with
      paths := { m.paths with store := m.paths.store.put aspath (some { cell with refcnt }) } }
  else
    let (_, chains) ← hashRelease slot (aspathKeyMake cell.value)
      (valued (segmentsAt m.paths.store) cell.value.segments) m.chains
    let store ← m.paths.store.free aspath
    some { paths := { m.paths with store }, chains }

/-! ## Runs -/

/-- What happens to paths. -/
inductive Event
  | parse (body : List U8) (use32bit : Bool)
  | str2aspath (str : List Char)
  | dup (aspath : Nat)
  | addSeq (aspath : Nat) (asno : U32)
  | addConfedSeq (aspath : Nat) (asno : U32)
  | deleteConfedSeq (aspath : Nat)
  | prepend (as1 as2 : Nat)
  | filterExclude (source exclude : Nat)
  | aggregate (as1 as2 : Nat)
  | reconcileAs4 (aspath as4path : Nat)
  | intern (aspath : Nat)
  | unintern (aspath : Nat)

/-- A new private path. -/
def Ashash.alloc (m : Ashash) (segments : List Assegment) : Ashash :=
  { m with paths := { m.paths with store := (m.paths.store.alloc (newPath segments)).2 } }

/-- One event. It fails where the code reads what is not there, or by an assertion. -/
def Ashash.step (m : Ashash) : Event → Option Ashash
  | .parse body use32bit => (aspathParse m body use32bit).map (·.2)
  | .str2aspath str => some ((aspathStr2aspath str).elim m m.alloc)
  | .dup aspath => (aspathDup m.paths aspath).map fun (_, paths) => { m with paths }
  | .addSeq aspath asno => (aspathAddSeq m.paths aspath asno).map fun paths => { m with paths }
  | .addConfedSeq aspath asno =>
    (aspathAddConfedSeq m.paths aspath asno).map fun paths => { m with paths }
  | .deleteConfedSeq aspath =>
    (aspathDeleteConfedSeq m.paths aspath).map fun paths => { m with paths }
  | .prepend as1 as2 => do
    let data ← m.paths.store.read as1
    let paths ← aspathPrepend m.paths data.path as2
    some { m with paths }
  | .filterExclude source exclude => do
    let data ← m.paths.store.read exclude
    let (_, paths) ← aspathFilterExclude m.paths source data.path
    some { m with paths }
  | .aggregate as1 as2 => do
    let data1 ← m.paths.store.read as1
    let data2 ← m.paths.store.read as2
    some (m.alloc (aspathAggregate data1.path data2.path).segments)
  | .reconcileAs4 aspath as4path => do
    let data ← m.paths.store.read aspath
    let data4 ← m.paths.store.read as4path
    some (m.alloc (aspathReconcileAs4 data.path data4.path).segments)
  | .intern aspath => (aspathIntern m aspath).map (·.2)
  | .unintern aspath => aspathUnintern m aspath

end Bgpd.PathTable
