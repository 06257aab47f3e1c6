import Bgpd.AsPath
import Bgpd.Interning

/-!
# AS paths in memory

An AS path as the daemon holds it: a structure at an address with a reference
count, its chain of segments and its string, shared through the intern table.
The functions that edit a path write to the structure they are given and return
the same pointer, whoever else refers to it; only `aspath_dup` makes a copy.

What an edit does to the chain is the value-level edit of `Bgpd.AsPath`. The
chain belongs to its structure, except for the segments that
`aspath_add_one_as` unlinks without freeing them, which are kept apart here.
-/

namespace Bgpd.PathStore

open Octets AsPath Interning

/-- `struct aspath` without its count. -/
structure PathData where
  segments : List Assegment
  str : Option (List Char)
  deriving DecidableEq, Repr

/-- The paths in memory, and the segments that no path holds any more. -/
structure Paths where
  store : Store PathData
  lost : List Assegment

/-- Nothing about the paths changed. -/
structure Paths.Same (s t : Paths) : Prop where
  store : Interning.Same s.store t.store
  lost : t.lost = s.lost

theorem Paths.Same.refl (s : Paths) : s.Same s := ⟨Interning.Same.refl _, rfl⟩

/-- The value of a path. -/
def PathData.path (data : PathData) : Aspath := ⟨data.segments⟩

/-! ## The string -/

/-- `aspath_delimiter_char`. -/
def aspathDelimiterChar (type : SegmentType) : Char × Char :=
  match type with
  | .asSet => ('\x7b', '\x7d')
  | .asConfedSet => ('[', ']')
  | .asConfedSequence => ('(', ')')
  | .asSequence => (' ', ' ')

/-- The members of a segment with their separators. -/
def segmentStr (seg : Assegment) : List Char :=
  let separator := match seg.type with
    | .asSet | .asConfedSet => ','
    | .asSequence | .asConfedSequence => ' '
  let members := (seg.as.map fun member => Nat.toDigits 10 member.toNat).intersperse [separator]
  let delimiters := aspathDelimiterChar seg.type
  if seg.type = .asSequence then members.flatten
  else delimiters.1 :: members.flatten ++ [delimiters.2]

/-- `aspath_make_str_count`. -/
def aspathMakeStrCount (segments : List Assegment) : List Char :=
  ((segments.map segmentStr).intersperse [' ']).flatten

/-! ## Operations -/

/-- `aspath_dup`: a private copy. -/
def aspathDup (s : Paths) (aspath : Nat) : Option (Nat × Paths) := do
  let data ← s.store.read aspath
  let (new, store) := s.store.alloc ⟨data.segments, some (aspathMakeStrCount data.segments)⟩
  return (new, { s with store })

/-- `aspath_free`. -/
def aspathFree (s : Paths) (aspath : Nat) : Option Paths := do
  let store ← s.store.free aspath
  return { s with store }

/-- The segments behind an empty first one: `aspath_add_one_as` frees that one
and forgets its followers. -/
def orphaned (segments : List Assegment) : List Assegment :=
  match segments with
  | ⟨_, []⟩ :: rest => rest
  | _ => []

/-- `aspath_add_one_as`, in place. The string is not brought up to date. -/
def aspathAddOneAs (s : Paths) (aspath : Nat) (asno : U32) (type : SegmentType) :
    Option Paths := do
  let data ← s.store.read aspath
  let edited := AsPath.aspathAddOneAs data.path asno type
  let store ← s.store.write aspath { data with segments := edited.segments }
  return ⟨store, orphaned data.segments ++ s.lost⟩

/-- `aspath_add_seq`. -/
def aspathAddSeq (s : Paths) (aspath : Nat) (asno : U32) : Option Paths :=
  aspathAddOneAs s aspath asno .asSequence

/-- `aspath_add_confed_seq`. -/
def aspathAddConfedSeq (s : Paths) (aspath : Nat) (asno : U32) : Option Paths :=
  aspathAddOneAs s aspath asno .asConfedSequence

/-- The path starts with a confederation sequence. -/
def startsConfed (segments : List Assegment) : Bool :=
  match segments with
  | [] => false
  | seg :: _ => seg.type = .asConfedSequence

/-- `aspath_delete_confed_seq`, in place and with the string brought up to
date. A path that starts otherwise is left alone. -/
def aspathDeleteConfedSeq (s : Paths) (aspath : Nat) : Option Paths := do
  let data ← s.store.read aspath
  if startsConfed data.segments then
    let segments := data.segments.dropWhile Assegment.confed
    let store ← s.store.write aspath ⟨segments, some (aspathMakeStrCount segments)⟩
    return { s with store }
  else return s

/-- A chain of segments put into a path, and its string with it. -/
def rewriteSegments (s : Paths) (aspath : Nat) (segments : List Assegment) : Option Paths := do
  let store ← s.store.write aspath ⟨segments, some (aspathMakeStrCount segments)⟩
  return { s with store }

/-- `aspath_prepend`: a chain in front of a path, in place. A confederation
sequence in front of the path is deleted before a sequence, and then its type is
compared all the same: the code reads a segment that is not there any more. -/
def aspathPrepend (s : Paths) (as1 : Aspath) (as2 : Nat) : Option Paths := do
  let data ← s.store.read as2
  match data.segments, as1.segments.getLast? with
  | [], _ => rewriteSegments s as2 as1.segments
  | _ :: _, none => return s
  | seg2 :: next, some seg1 =>
    if seg1.type = .asSequence ∧ seg2.type = .asConfedSequence then none
    else if seg1.type ≠ seg2.type then rewriteSegments s as2 (as1.segments ++ data.segments)
    else if seg1.type = .asSequence then
      rewriteSegments s as2
        (as1.segments.dropLast ++ ⟨.asSequence, seg1.as ++ seg2.as⟩ :: next)
    else rewriteSegments s as2 (as1.segments ++ data.segments)

/-- A segment without the members of an exclude list. -/
def excluded (exclude : Aspath) (seg : Assegment) : Assegment :=
  { seg with as := seg.as.filter fun asno => !exclude.segments.any fun other => asno ∈ other.as }

/-- `aspath_filter_exclude`: a new path, the source is freed. Segments that
lose all their members are left out. -/
def aspathFilterExclude (s : Paths) (source : Nat) (exclude : Aspath) : Option (Nat × Paths) := do
  let data ← s.store.read source
  let segments := (data.segments.map (excluded exclude)).filter fun seg => !seg.as.isEmpty
  let (newpath, store) := s.store.alloc ⟨segments, some (aspathMakeStrCount segments)⟩
  let s ← aspathFree { s with store } source
  return (newpath, s)

/-- `aspath_cmp`. -/
def aspathCmp (first second : PathData) : Bool := first.segments = second.segments

/-- `aspath_intern`, which makes sure that the path it finds has a string. -/
def aspathIntern (s : Store PathData) (aspath : Nat) : Option (Nat × Store PathData) := do
  let (find, s) ← s.intern aspathCmp aspath
  let data ← s.read find
  match data.str with
  | some _ => return (find, s)
  | none =>
    let s ← s.write find { data with str := some (aspathMakeStrCount data.segments) }
    return (find, s)

/-- Interned paths have their strings. -/
def Named (s : Store PathData) : Prop :=
  ∀ address count data, s.cells address = some ⟨count + 1, data⟩ → data.str.isSome = true

/-! ## A private path -/

/-- `t` is `s` with one more, private path at `aspath`, and with these segments
lost on the way. -/
structure Private (s : Paths) (aspath : Nat) (path : Aspath) (gone : List Assegment)
    (t : Paths) : Prop where
  scratch : ∃ str, Scratch s.store aspath ⟨path.segments, str⟩ t.store
  lost : t.lost = gone ++ s.lost

/-- The value-level edit in the terms of the test. -/
theorem aspathDeleteConfedSeq_eq (path : Aspath) :
    AsPath.aspathDeleteConfedSeq path =
      if startsConfed path.segments then ⟨path.segments.dropWhile Assegment.confed⟩ else path := by
  unfold AsPath.aspathDeleteConfedSeq startsConfed
  rcases path with ⟨_ | ⟨⟨_ | _ | _ | _, as⟩, rest⟩⟩ <;> rfl

/-- A path that starts with a confederation sequence gets shorter. -/
theorem aspathDeleteConfedSeq_ne {path : Aspath} (starts : startsConfed path.segments = true) :
    AsPath.aspathDeleteConfedSeq path ≠ path := by
  rw [aspathDeleteConfedSeq_eq, if_pos starts]
  intro same
  obtain ⟨segments⟩ := path
  have segmentsSame : segments.dropWhile Assegment.confed = segments := congrArg (·.segments) same
  rcases segments with _ | ⟨seg, rest⟩
  · cases starts
  · have confed : seg.confed = true := by
      have type : seg.type = .asConfedSequence := by simpa [startsConfed] using starts
      simp [Assegment.confed, type]
    have shorter := (List.dropWhile_sublist (p := Assegment.confed) (l := rest)).length_le
    rw [List.dropWhile_cons_of_pos confed] at segmentsSame
    have := congrArg List.length segmentsSame
    rw [List.length_cons] at this
    omega

variable {aspath : Nat} {data : PathData}

/-- The edit in place, of any path that can be read. -/
theorem aspathDeleteConfedSeq_read {s : Paths} (read : s.store.read aspath = some data) :
    ∃ t edited, aspathDeleteConfedSeq s aspath = some t ∧ t.store.read aspath = some edited ∧
      edited.path = AsPath.aspathDeleteConfedSeq data.path ∧
      (startsConfed data.segments = false → t = s) := by
  unfold aspathDeleteConfedSeq
  rw [aspathDeleteConfedSeq_eq, read]
  by_cases starts : startsConfed data.segments = true
  · let segments := data.segments.dropWhile Assegment.confed
    obtain ⟨store, written, readBack⟩ := Store.write_some read
      ⟨segments, some (aspathMakeStrCount segments)⟩
    refine ⟨{ s with store }, _, ?_, readBack, ?_, fun other => ?_⟩
    · simp [starts, written, segments]
    · exact (if_pos starts).symm
    · rw [starts] at other
      cases other
  · refine ⟨s, data, ?_, read, ?_, fun _ => rfl⟩
    · simp [starts]
    · exact (if_neg starts).symm

/-- An edited path does not start with an empty segment. -/
theorem orphaned_addOneAs (path : Aspath) (asno : U32) (type : SegmentType) :
    orphaned (AsPath.aspathAddOneAs path asno type).segments = [] := by
  unfold AsPath.aspathAddOneAs
  split
  · rfl
  · split
    · rfl
    · split <;> rfl

theorem aspathDup_private {s : Paths} (read : s.store.read aspath = some data) :
    ∃ new t, aspathDup s aspath = some (new, t) ∧ Private s new data.path [] t := by
  let copy : PathData := ⟨data.segments, some (aspathMakeStrCount data.segments)⟩
  refine ⟨s.store.next, { s with store := (s.store.alloc copy).2 }, ?_,
    ⟨copy.str, alloc_scratch s.store copy⟩, rfl⟩
  unfold aspathDup
  rw [read]
  rfl

namespace Private

variable {s t : Paths} {aspath : Nat} {path : Aspath} {gone : List Assegment}

/-- The private path can be read, whatever its string. -/
theorem read (made : Private s aspath path gone t) :
    ∃ data, t.store.read aspath = some data ∧ data.path = path := by
  obtain ⟨str, scratch⟩ := made.scratch
  exact ⟨_, scratch.read_here, rfl⟩

/-- A path there was before is another one. -/
theorem ne (made : Private s aspath path gone t) {other : Nat}
    (read : s.store.read other = some data) : other ≠ aspath := by
  obtain ⟨str, scratch⟩ := made.scratch
  rcases live : s.store.cells other with _ | cell
  · simp [Store.read, live] at read
  · exact scratch.apart live

theorem addOneAs (made : Private s aspath path gone t) (asno : U32) (type : SegmentType) :
    ∃ u, aspathAddOneAs t aspath asno type = some u ∧
      Private s aspath (AsPath.aspathAddOneAs path asno type)
        (orphaned path.segments ++ gone) u := by
  obtain ⟨str, scratch⟩ := made.scratch
  obtain ⟨store, written, scratch'⟩ := scratch.write
    ⟨(AsPath.aspathAddOneAs path asno type).segments, str⟩
  refine ⟨⟨store, orphaned path.segments ++ t.lost⟩, ?_, ⟨str, scratch'⟩, ?_⟩
  · unfold aspathAddOneAs
    rw [scratch.read_here]
    simp [written, PathData.path]
  · rw [made.lost, List.append_assoc]

theorem deleteConfedSeq (made : Private s aspath path gone t) :
    ∃ u, aspathDeleteConfedSeq t aspath = some u ∧
      Private s aspath (AsPath.aspathDeleteConfedSeq path) gone u := by
  obtain ⟨str, scratch⟩ := made.scratch
  unfold aspathDeleteConfedSeq
  rw [scratch.read_here, aspathDeleteConfedSeq_eq]
  by_cases starts : startsConfed path.segments = true
  · obtain ⟨store, written, scratch'⟩ := scratch.write
      ⟨path.segments.dropWhile Assegment.confed,
        some (aspathMakeStrCount (path.segments.dropWhile Assegment.confed))⟩
    refine ⟨{ t with store }, ?_, ?_⟩
    · simp [starts, written]
    · rw [if_pos starts]
      exact ⟨⟨_, scratch'⟩, made.lost⟩
  · refine ⟨t, ?_, ?_⟩
    · simp [starts]
    · rw [if_neg starts]
      exact made

/-- Freeing the private path restores everything but the lost segments. -/
theorem free (made : Private s aspath path gone t) :
    ∃ u, aspathFree t aspath = some u ∧ Interning.Same s.store u.store ∧
      u.lost = gone ++ s.lost := by
  obtain ⟨str, scratch⟩ := made.scratch
  obtain ⟨store, freed, same⟩ := scratch.free
  refine ⟨{ t with store }, ?_, same, made.lost⟩
  unfold aspathFree
  rw [freed]
  rfl

end Private

variable {s : Store PathData} {t : Paths} {aspath : Nat}

/-! ## The own path of a policy -/

/-- The path ends in a sequence. -/
def endsInSequence (segments : List Assegment) : Bool :=
  segments.getLast?.any fun seg => seg.type = .asSequence

/-- `aspath_prepend` reads a segment that it has deleted. -/
def readsDeleted (as1 : Aspath) (segments : List Assegment) : Bool :=
  endsInSequence as1.segments && startsConfed segments

/-- A private path with its string, among the paths of `s`. -/
def Own (s : Store PathData) (aspath : Nat) (t : Store PathData) : Prop :=
  ∃ data, Scratch s aspath data t ∧ data.str.isSome = true

theorem rewriteSegments_own (own : Own s aspath t.store) (segments : List Assegment) :
    ∃ u, rewriteSegments t aspath segments = some u ∧ Own s aspath u.store ∧ u.lost = t.lost := by
  obtain ⟨data, scratch, _⟩ := own
  obtain ⟨store, written, after⟩ := scratch.write ⟨segments, some (aspathMakeStrCount segments)⟩
  refine ⟨{ t with store }, ?_, ⟨_, after, rfl⟩, rfl⟩
  simp [rewriteSegments, written]

theorem aspathPrepend_own (own : Own s aspath t.store) (as1 : Aspath)
    (live : ∀ data, t.store.read aspath = some data → readsDeleted as1 data.segments = false) :
    ∃ u, aspathPrepend t as1 aspath = some u ∧ Own s aspath u.store ∧ u.lost = t.lost := by
  obtain ⟨data, scratch, named⟩ := own
  have kept := live data scratch.read_here
  have rewrite := rewriteSegments_own ⟨data, scratch, named⟩
  unfold aspathPrepend
  rw [scratch.read_here]
  obtain ⟨segments, str⟩ := data
  rcases segments with _ | ⟨seg2, next⟩
  · exact rewrite as1.segments
  · rcases last : as1.segments.getLast? with _ | seg1
    · exact ⟨t, rfl, ⟨_, scratch, named⟩, rfl⟩
    · have deleted : ¬ (seg1.type = .asSequence ∧ seg2.type = .asConfedSequence) := by
        simpa [readsDeleted, endsInSequence, startsConfed, last] using kept
      simp only [Option.bind_eq_bind, Option.bind_some, if_neg deleted]
      split
      · exact rewrite _
      · split
        · exact rewrite _
        · exact rewrite _

theorem aspathPrepend_deleted {as1 : Aspath} (read : t.store.read aspath = some data)
    (deleted : readsDeleted as1 data.segments = true) : aspathPrepend t as1 aspath = none := by
  unfold aspathPrepend
  rw [read]
  obtain ⟨segments, str⟩ := data
  rcases segments with _ | ⟨seg2, next⟩
  · simp [readsDeleted, startsConfed] at deleted
  · rcases last : as1.segments.getLast? with _ | seg1
    · simp [readsDeleted, endsInSequence, last] at deleted
    · have both : seg1.type = .asSequence ∧ seg2.type = .asConfedSequence := by
        simpa [readsDeleted, endsInSequence, startsConfed, last] using deleted
      simp [if_pos both]

theorem aspathFilterExclude_own (own : Own s aspath t.store) (exclude : Aspath) :
    ∃ new u, aspathFilterExclude t aspath exclude = some (new, u) ∧ Own s new u.store ∧
      u.lost = t.lost := by
  obtain ⟨data, scratch, _⟩ := own
  let segments := (data.segments.map (excluded exclude)).filter fun seg => !seg.as.isEmpty
  let value : PathData := ⟨segments, some (aspathMakeStrCount segments)⟩
  obtain ⟨store, freed, after⟩ := (alloc_scratch t.store value).free_under scratch
  refine ⟨t.store.next, { t with store }, ?_, ⟨value, after, rfl⟩, rfl⟩
  unfold aspathFilterExclude
  rw [scratch.read_here]
  have free : aspathFree { t with store := (t.store.alloc value).2 } aspath =
      some { t with store } := by
    unfold aspathFree
    simp [freed]
  exact congrArg (fun after : Option Paths => after.bind fun s => some (t.store.next, s)) free

theorem aspathDup_own {s : Paths} (read : s.store.read aspath = some data) :
    ∃ new t, aspathDup s aspath = some (new, t) ∧ Own s.store new t.store ∧ t.lost = s.lost ∧
      (t.store.read new).map (·.segments) = some data.segments := by
  let copy : PathData := ⟨data.segments, some (aspathMakeStrCount data.segments)⟩
  have scratch := alloc_scratch s.store copy
  refine ⟨s.store.next, { s with store := (s.store.alloc copy).2 }, ?_,
    ⟨copy, scratch, rfl⟩, rfl, ?_⟩
  · unfold aspathDup
    rw [read]
    rfl
  · exact congrArg (Option.map (·.segments)) scratch.read_here

theorem aspathIntern_own {s t : Store PathData} (named : Named s) (own : Own s aspath t) :
    ∃ found data u, aspathIntern t aspath = some (found, u) ∧ Referred s found data u := by
  obtain ⟨data, scratch, str⟩ := own
  have reflexive : aspathCmp data data = true := decide_eq_true rfl
  obtain ⟨found, data', u, interned, referred, _, same⟩ := scratch.intern aspathCmp reflexive
  refine ⟨found, data', u, ?_, referred⟩
  have has : data'.str.isSome = true := by
    rcases referred.here with ⟨fresh, _⟩ | ⟨count, live, _⟩
    · rw [same fresh]
      exact str
    · exact named found count data' live
  obtain ⟨chars, present⟩ := Option.isSome_iff_exists.mp has
  unfold aspathIntern
  rw [interned]
  simp [referred.read_here, present]

end Bgpd.PathStore
