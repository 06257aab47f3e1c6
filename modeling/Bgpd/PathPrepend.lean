import Bgpd.Chains
import Bgpd.PathNormal
import Bgpd.PathStore

/-!
# A path in front of another

`aspath_prepend` works on the cells of two chains. It keeps a pointer to the first segment
of the path behind, which `aspath_delete_confed_seq` may free, and looks at the type there
afterwards. Where it packs two sequences into one, their lengths are added in sixteen bits.

A read of a segment that is not there any more gives no result. `joins_iff_packable` says
for which paths there is one, and that it is the two paths joined.
-/

namespace Bgpd.PathPrepend

open Octets AsPath Chains PathCodec PathStore

/-! ## Segments in memory -/

/-- `struct assegment`, with the array as it was allocated. -/
structure Segment where
  type : SegmentType
  length : U16
  as : List U32
  fits : length.toNat ≤ as.length := by decide
  deriving DecidableEq

/-- The members that count. -/
def Segment.members (seg : Segment) : List U32 := seg.as.take seg.length.toNat

def Segment.value (seg : Segment) : Assegment := ⟨seg.type, seg.members⟩

/-- The segments there are. -/
abbrev Segments := Memory Segment

/-- `struct aspath`, without the reference count. -/
structure AspathData where
  segments : Option Nat
  str : List Char
  deriving DecidableEq

theorem Segment.members_length (seg : Segment) : seg.members.length = seg.length.toNat :=
  List.length_take_of_le seg.fits

/-- `assegment_dup`. -/
def assegmentDup (seg : Segment) : Segment where
  type := seg.type
  length := seg.length
  as := seg.members
  fits := seg.members_length.ge

/-- `assegment_append_asns`. -/
def assegmentAppendAsns (seg : Segment) (asnos : List U32) : Segment where
  type := seg.type
  length := seg.length + BitVec.ofNat 16 asnos.length
  as := seg.members ++ asnos
  fits := by
    rw [List.length_append, seg.members_length, BitVec.toNat_add, BitVec.toNat_ofNat,
      Nat.add_mod_mod]
    exact Nat.mod_le _ _

/-- The new segment says what `PathNormal` makes of what the old one said. -/
theorem assegmentAppendAsns_value (seg : Segment) (asnos : List U32) :
    (assegmentAppendAsns seg asnos).value = PathNormal.assegmentAppendAsns seg.value asnos := by
  have length : (assegmentAppendAsns seg asnos).length.toNat =
      (seg.members.length + asnos.length) % 2 ^ 16 := by
    rw [assegmentAppendAsns, BitVec.toNat_add, BitVec.toNat_ofNat, Nat.add_mod_mod,
      seg.members_length]
  rw [Segment.value, Segment.members, length]
  rfl

section Paths

variable (fuel : Nat)

/-- `aspath_str_update`. -/
def aspathStrUpdate (path : AspathData) (m : Segments) : Option (AspathData × Segments) :=
  (m.collect fuel path.segments).map fun segs =>
    ({ path with str := aspathMakeStrCount (segs.map Segment.value) }, m)

/-- The loop of `aspath_delete_confed_seq`. -/
def deleteConfeds : Nat → Option Nat → Segments → Option (Option Nat × Segments)
  | 0, _, _ => none
  | _ + 1, none, m => some (none, m)
  | fuel + 1, some seg, m =>
    (m.cells seg).bind fun cell =>
      if cell.value.type = .asConfedSequence ∨ cell.value.type = .asConfedSet then
        (m.free seg).bind fun m => deleteConfeds fuel cell.next m
      else some (some seg, m)

/-- `aspath_delete_confed_seq`. -/
def aspathDeleteConfedSeq (path : AspathData) (m : Segments) : Option (AspathData × Segments) :=
  match path.segments with
  | none => some (path, m)
  | some seg =>
    (m.cells seg).bind fun cell =>
      if cell.value.type ≠ .asConfedSequence then some (path, m)
      else
        (deleteConfeds fuel path.segments m).bind fun left =>
          aspathStrUpdate fuel { path with segments := left.1 } left.2

/-- `aspath_merge`. -/
def aspathMerge (as1 as2 : AspathData) (m : Segments) : Option (AspathData × Segments) :=
  (m.copyAll assegmentDup fuel as1.segments).bind fun copied =>
    copied.1.bind fun new =>
      (copied.2.last fuel new).bind fun last =>
        (copied.2.link last as2.segments).bind fun m =>
          aspathStrUpdate fuel { as2 with segments := some new } m

/-- The first path is copied in front of the second, whose first segment is packed into the
last one of the copy. -/
def pack (as1 as2 : AspathData) (seg2 : Nat) (m : Segments) : Option (AspathData × Segments) :=
  (m.copyAll assegmentDup fuel as1.segments).bind fun copied =>
    copied.1.bind fun new =>
      (copied.2.last fuel new).bind fun seg1 =>
        (copied.2.cells seg2).bind fun cell2 =>
          (copied.2.cells seg1).bind fun cell1 =>
            (copied.2.write seg1 (assegmentAppendAsns cell1.value cell2.value.members)).bind
              fun m =>
                (m.link seg1 cell2.next).bind fun m =>
                  (m.free seg2).bind fun m =>
                    aspathStrUpdate fuel { as2 with segments := some new } m

/-- `aspath_prepend`. -/
def aspathPrepend (as1 as2 : AspathData) (m : Segments) : Option (AspathData × Segments) :=
  match as2.segments, as1.segments with
  | none, segments =>
    (m.copyAll assegmentDup fuel segments).bind fun copied =>
      aspathStrUpdate fuel { as2 with segments := copied.1 } copied.2
  | some _, none => some (as2, m)
  | some seg2, some first =>
    (m.last fuel first).bind fun seg1 =>
      (m.cells seg1).bind fun cell1 =>
        (m.cells seg2).bind fun cell2 =>
          (if cell1.value.type = .asSequence ∧ cell2.value.type = .asConfedSequence then
              aspathDeleteConfedSeq fuel as2 m
            else some (as2, m)).bind fun (as2, m) =>
            -- the type of the second segment is read again, whether or not it was freed
            (m.cells seg1).bind fun cell1 =>
              (m.cells seg2).bind fun cell2 =>
                if cell1.value.type ≠ cell2.value.type then aspathMerge fuel as1 as2 m
                else if cell1.value.type = .asSequence then pack fuel as1 as2 seg2 m
                else aspathMerge fuel as1 as2 m

end Paths

/-! ## The paths joined -/

/-- What is left of a path behind one that ends in a sequence. -/
def remaining (as1 as2 : List Assegment) : List Assegment :=
  if as1.getLast?.map Assegment.type = some .asSequence then
    as2.dropWhile fun seg => seg.type = .asConfedSequence
  else as2

/-- The segments of one path and then those of the other, with one sequence where two meet. -/
def joined (as1 as2 : List Assegment) : List Assegment :=
  match as1.getLast?, remaining as1 as2 with
  | some seg1, seg2 :: rest =>
    if seg1.type = .asSequence ∧ seg2.type = .asSequence then
      as1.dropLast ++ ⟨.asSequence, seg1.as ++ seg2.as⟩ :: rest
    else as1 ++ seg2 :: rest
  | _, left => as1 ++ left

/-- A sequence does not meet a confederation sequence, nor one with which it is too long. -/
def Packable (as1 as2 : List Assegment) : Prop :=
  ∀ seg1 ∈ as1.getLast?, ∀ seg2 ∈ as2.head?, seg1.type = .asSequence →
    seg2.type ≠ .asConfedSequence ∧
      (seg2.type = .asSequence → seg1.as.length + seg2.as.length < 65536)

/-- The values of the segments of a chain. -/
def values (l : List (Nat × Segment)) : List Assegment := l.map fun cell => cell.2.value

/-- A path and its string result, and the first path is as it was. -/
structure Yields (as1 : AspathData) (l₁ : List (Nat × Segment)) (path : List Assegment)
    (result : AspathData) (m : Segments) : Prop where
  chain : ∃ l, Holds m result.segments l none ∧ values l = path
  unchanged : Holds m as1.segments l₁ none
  str : result.str = aspathMakeStrCount path

/-- The joined path results, and is in normal form where the first one is. -/
structure Joins (as1 : AspathData) (l₁ : List (Nat × Segment)) (path₂ : List Assegment)
    (result : AspathData) (m : Segments) : Prop where
  yields : Yields as1 l₁ (joined (values l₁) path₂) result m
  normal : Normal (values l₁) → Normal (joined (values l₁) path₂)

/-! ## What the parts do -/

theorem assegmentDup_value (seg : Segment) : (assegmentDup seg).value = seg.value := by
  simp [Segment.value, Segment.members, assegmentDup]

theorem values_of_copied {m m' : Segments} {l l' : List (Nat × Segment)}
    (copied : Copied assegmentDup m m' l l') : values l' = values l := by
  have same : l'.map (Segment.value ∘ Prod.snd) = l.map (Segment.value ∘ Prod.snd) := by
    rw [← List.map_map, copied.values, List.map_map]
    exact List.map_congr_left fun cell _ => assegmentDup_value cell.2
  exact same

theorem values_append (l l' : List (Nat × Segment)) : values (l ++ l') = values l ++ values l' :=
  List.map_append

section Parts

variable {m : Segments} {as1 as2 : AspathData} {front₁ l₂ : List (Nat × Segment)}
  {seg1 : Nat} {s1 : Segment}

theorem aspathStrUpdate_eq (path : AspathData) {l : List (Nat × Segment)}
    (holds : Holds m path.segments l none) (fuel : Nat) :
    aspathStrUpdate fuel path m =
      if l.length < fuel then some ({ path with str := aspathMakeStrCount (values l) }, m)
      else none := by
  rw [aspathStrUpdate, collect_eq holds fuel]
  split
  · rw [Option.map_some, List.map_map]
    rfl
  · rfl

variable {m' : Segments}

/-- A copy of a chain with a last segment has a last segment. -/
theorem copied_last {l' : List (Nat × Segment)}
    (copied : Copied assegmentDup m m' (front₁ ++ [(seg1, s1)]) l') :
    ∃ front addr, l' = front ++ [(addr, assegmentDup s1)] ∧ front.length = front₁.length ∧
      values front = values front₁ ∧ m.fresh ≤ addr := by
  have same := copied.values
  rw [List.map_append] at same
  obtain ⟨front, last, rfl, frontValues, lastValue⟩ := List.map_eq_append_iff.mp same
  obtain ⟨⟨addr, value⟩, rfl, held⟩ := List.map_eq_singleton_iff.mp lastValue
  obtain rfl : value = assegmentDup s1 := held
  refine ⟨front, addr, rfl, ?_, ?_, copied.new addr (by simp)⟩
  · simpa using congrArg List.length frontValues
  · have values_ := congrArg (List.map Segment.value) frontValues
    rw [List.map_map, List.map_map] at values_
    exact values_.trans (List.map_congr_left fun cell _ => assegmentDup_value cell.2)

/-- A merge puts the segments of both paths one behind the other. -/
theorem aspathMerge_spec (bounded : m.Bounded)
    (chain₁ : Holds m as1.segments (front₁ ++ [(seg1, s1)]) none)
    (chain₂ : Holds m as2.segments l₂ none) (fuel : Nat) :
    (fuel ≤ front₁.length + 1 + l₂.length ∧ aspathMerge fuel as1 as2 m = none) ∨
      ∃ result m', aspathMerge fuel as1 as2 m = some (result, m') ∧
        Yields as1 (front₁ ++ [(seg1, s1)]) (values (front₁ ++ [(seg1, s1)]) ++ values l₂)
          result m' := by
  rw [aspathMerge]
  rcases copyAll_spec assegmentDup bounded chain₁ fuel with
    ⟨short, stops⟩ | ⟨enough, head, m₁, l', run, holds, copied⟩
  · rw [List.length_append, List.length_singleton] at short
    exact Or.inl ⟨by omega, by rw [stops, Option.bind_none]⟩
  rw [List.length_append, List.length_singleton] at enough
  obtain ⟨front, addr, rfl, size, valuesFront, fresh⟩ := copied_last copied
  obtain ⟨new, rfl⟩ : ∃ new, head = some new := by
    cases front <;> exact ⟨_, holds.head_eq.1⟩
  have notOld {a : Nat} (below : a < m.fresh) : a ≠ addr := by omega
  let m₂ := m₁.put addr (some ⟨assegmentDup s1, as2.segments⟩)
  have kept {a : Nat} (below : a < m.fresh) : m₂.cells a = m.cells a :=
    (Memory.put_cells_other _ _ (notOld below)).trans (copied.old a below)
  have linked : m₁.link addr as2.segments = some m₂ := by
    rw [Memory.link, holds.last_found.2]
    rfl
  have whole : Holds m₂ (some new) (front ++ [(addr, assegmentDup s1)] ++ l₂) none :=
    (holds.put_last _ _).append
      (chain₂.congr fun a member => kept (chain₂.lt_fresh bounded member))
  have path : values (front ++ [(addr, assegmentDup s1)] ++ l₂) =
      values (front₁ ++ [(seg1, s1)]) ++ values l₂ := by
    rw [values_append, values_of_copied copied]
  rw [run, Option.bind_some, Option.bind_some, last_eq holds fuel, if_pos (by omega),
    Option.bind_some, linked, Option.bind_some,
    aspathStrUpdate_eq { as2 with segments := some new } whole fuel]
  split
  · refine Or.inr ⟨_, _, rfl, ⟨_, whole, path⟩, ?_, ?_⟩
    · exact chain₁.congr fun a member => kept (chain₁.lt_fresh bounded member)
    · rw [path]
  · rename_i short
    refine Or.inl ⟨?_, rfl⟩
    simp only [List.length_append, List.length_singleton, size] at short
    omega

/-- What packing leaves of the two segments that meet. -/
def packed (s1 s2 : Segment) : Segment := assegmentAppendAsns (assegmentDup s1) s2.members

variable {seg2 : Nat}

/-- The members of both are packed into one segment. -/
theorem pack_spec (bounded : m.Bounded)
    (chain₁ : Holds m as1.segments (front₁ ++ [(seg1, s1)]) none) {s2 : Segment}
    {rest₂ : List (Nat × Segment)} (chain₂ : Holds m (some seg2) ((seg2, s2) :: rest₂) none)
    (apart : seg2 ∉ (front₁ ++ [(seg1, s1)]).map Prod.fst) (fuel : Nat) :
    (fuel ≤ front₁.length + 1 + rest₂.length ∧ pack fuel as1 as2 seg2 m = none) ∨
      ∃ result m', pack fuel as1 as2 seg2 m = some (result, m') ∧
        Yields as1 (front₁ ++ [(seg1, s1)])
          (values front₁ ++ (packed s1 s2).value :: values rest₂) result m' := by
  rw [pack]
  rcases copyAll_spec assegmentDup bounded chain₁ fuel with
    ⟨short, stops⟩ | ⟨enough, head, m₁, l', run, holds, copied⟩
  · rw [List.length_append, List.length_singleton] at short
    exact Or.inl ⟨by omega, by rw [stops, Option.bind_none]⟩
  rw [List.length_append, List.length_singleton] at enough
  obtain ⟨front, addr, rfl, size, valuesFront, fresh⟩ := copied_last copied
  obtain ⟨new, rfl⟩ : ∃ new, head = some new := by
    cases front <;> exact ⟨_, holds.head_eq.1⟩
  obtain ⟨-, next, found₂, behind⟩ := chain₂.head_eq
  have inside₂ := bounded.lt found₂
  have notOld {a : Nat} (below : a < m.fresh) : a ≠ addr := by omega
  -- the last copied segment is written, then linked, and the first segment of the other is freed
  let m₂ := m₁.put addr (some ⟨packed s1 s2, none⟩)
  let m₃ := m₂.put addr (some ⟨packed s1 s2, next⟩)
  let m₄ := m₃.put seg2 none
  have lastFound := holds.last_found.2
  have second : m₁.cells seg2 = some ⟨s2, next⟩ := (copied.old seg2 inside₂).trans found₂
  have written : m₁.write addr (packed s1 s2) = some m₂ := by
    rw [Memory.write, lastFound]
    rfl
  have linked : m₂.link addr next = some m₃ := by
    rw [Memory.link, Memory.put_cells_same]
    rfl
  have third : m₃.cells seg2 = some ⟨s2, next⟩ := by
    rw [Memory.put_cells_other _ _ (notOld inside₂), Memory.put_cells_other _ _ (notOld inside₂),
      second]
  have freed : m₃.free seg2 = some m₄ := by
    rw [Memory.free, third]
    rfl
  have kept {a : Nat} (below : a < m.fresh) (other : a ≠ seg2) : m₄.cells a = m.cells a := by
    rw [Memory.put_cells_other _ _ other, Memory.put_cells_other _ _ (notOld below),
      Memory.put_cells_other _ _ (notOld below), copied.old a below]
  have joint : Holds m₃ (some new) (front ++ [(addr, packed s1 s2)]) next :=
    (holds.put_last _ none).put_last _ next
  have copies : ∀ a ∈ (front ++ [(addr, packed s1 s2)]).map Prod.fst, a ≠ seg2 := by
    intro a member
    have above := copied.new a (by simpa using member)
    omega
  have whole : Holds m₄ (some new) (front ++ [(addr, packed s1 s2)] ++ rest₂) none := by
    refine Holds.append (joint.congr fun a member => ?_) (behind.congr fun a member => ?_)
    · exact Memory.put_cells_other _ _ (copies a member)
    · refine kept (behind.lt_fresh bounded member) ?_
      rintro rfl
      exact (List.nodup_cons.mp chain₂.nodup).1 member
  have path : values (front ++ [(addr, packed s1 s2)] ++ rest₂) =
      values front₁ ++ (packed s1 s2).value :: values rest₂ := by
    rw [values_append, values_append, valuesFront, List.append_assoc]
    rfl
  have run₁ : (m₁.cells addr).bind (fun cell1 =>
      (m₁.write addr (assegmentAppendAsns cell1.value s2.members)).bind fun m =>
        (m.link addr next).bind fun m =>
          (m.free seg2).bind fun m =>
            aspathStrUpdate fuel { as2 with segments := some new } m) =
      aspathStrUpdate fuel { as2 with segments := some new } m₄ := by
    rw [lastFound, Option.bind_some]
    show (m₁.write addr (packed s1 s2)).bind _ = _
    rw [written, Option.bind_some, linked, Option.bind_some, freed, Option.bind_some]
  rw [run, Option.bind_some, Option.bind_some, last_eq holds fuel, if_pos (by omega),
    Option.bind_some, second, Option.bind_some, run₁,
    aspathStrUpdate_eq { as2 with segments := some new } whole fuel]
  split
  · refine Or.inr ⟨_, _, rfl, ⟨_, whole, path⟩, ?_, ?_⟩
    · refine chain₁.congr fun a member => kept (chain₁.lt_fresh bounded member) ?_
      rintro rfl
      exact apart member
    · rw [path]
  · rename_i short
    refine Or.inl ⟨?_, rfl⟩
    simp only [List.length_append, List.length_singleton, size] at short
    omega

variable {fuel : Nat}

/-- Cells that are not there any more do not come back. -/
theorem deleteConfeds_gone {head left : Option Nat} {addr : Nat} (gone : m.cells addr = none)
    (run : deleteConfeds fuel head m = some (left, m')) : m'.cells addr = none := by
  induction fuel generalizing m head with
  | zero => contradiction
  | succ fuel ih =>
    cases head with
    | none =>
      obtain ⟨-, rfl⟩ := Prod.mk.inj (Option.some.inj run)
      exact gone
    | some seg =>
      obtain ⟨cell, found, run⟩ := Option.bind_eq_some_iff.mp run
      split at run
      · obtain ⟨m₁, freed, run⟩ := Option.bind_eq_some_iff.mp run
        obtain ⟨-, -, rfl⟩ := Option.map_eq_some_iff.mp freed
        refine ih ?_ run
        by_cases same : addr = seg
        · rw [same, Memory.put_cells_same]
        · rw [Memory.put_cells_other _ _ same, gone]
      · obtain ⟨-, rfl⟩ := Prod.mk.inj (Option.some.inj run)
        exact gone

/-- The first segment is not there any more where it is a confederation sequence. -/
theorem aspathDeleteConfedSeq_frees {path result : AspathData} {cell : Cell Segment}
    (first : path.segments = some seg2) (found : m.cells seg2 = some cell)
    (confed : cell.value.type = .asConfedSequence)
    (run : aspathDeleteConfedSeq fuel path m = some (result, m')) : m'.cells seg2 = none := by
  simp only [aspathDeleteConfedSeq, first, found, Option.bind_some, confed, ne_eq,
    not_true_eq_false, if_false] at run
  obtain ⟨⟨left, m₁⟩, deleted, updated⟩ := Option.bind_eq_some_iff.mp run
  obtain ⟨segs, -, same⟩ := Option.map_eq_some_iff.mp updated
  obtain ⟨-, rfl⟩ := Prod.mk.inj same
  cases fuel with
  | zero => contradiction
  | succ fuel =>
    rw [deleteConfeds, found, Option.bind_some, if_pos (Or.inl confed), Memory.free,
      found] at deleted
    exact deleteConfeds_gone (Memory.put_cells_same ..) deleted

end Parts

/-! ## The joined path -/

section Joined

variable {front rest : List Assegment} {seg1 seg2 : Assegment}

theorem joined_nil (path : List Assegment) : joined path [] = path := by
  have left : remaining path [] = [] := by
    rw [remaining, List.dropWhile_nil, ite_self]
  rw [joined, left]
  cases path.getLast? <;> exact List.append_nil path

theorem joined_cons (apart : seg1.type = .asSequence → seg2.type ≠ .asConfedSequence) :
    joined (front ++ [seg1]) (seg2 :: rest) =
      if seg1.type = .asSequence ∧ seg2.type = .asSequence then
        front ++ ⟨.asSequence, seg1.as ++ seg2.as⟩ :: rest
      else front ++ [seg1] ++ seg2 :: rest := by
  have left : remaining (front ++ [seg1]) (seg2 :: rest) = seg2 :: rest := by
    simp only [remaining, List.getLast?_append, List.getLast?_singleton, Option.some_or,
      Option.map_some, Option.some.injEq]
    split
    · rename_i sequence
      exact List.dropWhile_cons_of_neg (by simpa using apart sequence)
    · rfl
  simp [joined, left]

variable {l r : List Assegment}

/-- Two normal chains that do not meet in sequences are a normal chain. -/
theorem normal_append (left : Normal l) (right : Normal r)
    (apart : ∀ seg ∈ l.getLast?, ∀ next ∈ r.head?, Unjoinable seg next) : Normal (l ++ r) where
  filled seg member := (List.mem_append.mp member).elim (left.filled seg) (right.filled seg)
  apart := left.apart.append right.apart apart
  sorted seg member := (List.mem_append.mp member).elim (left.sorted seg) (right.sorted seg)

theorem normal_left (normal : Normal (l ++ r)) : Normal l where
  filled seg member := normal.filled seg (List.mem_append_left r member)
  apart := (List.isChain_append.mp normal.apart).1
  sorted seg member := normal.sorted seg (List.mem_append_left r member)

/-- The joined path is in normal form where both paths are. -/
theorem joined_normal (apart : seg1.type = .asSequence → seg2.type ≠ .asConfedSequence)
    (first : Normal (front ++ [seg1])) (second : Normal (seg2 :: rest)) :
    Normal (joined (front ++ [seg1]) (seg2 :: rest)) := by
  rw [joined_cons apart]
  split
  · rename_i sequences
    have ⟨_, _, meeting⟩ := List.isChain_append.mp first.apart
    refine normal_append (normal_left first) (second.tail.cons ?_ ?_ nofun) ?_
    · exact fun none => first.filled seg1 (by simp) (List.append_eq_nil_iff.mp none).1
    · -- the packed sequence has the follower that the second one had
      intro next member both
      cases rest with
      | nil => contradiction
      | cons follower rest =>
        obtain rfl := Option.some.inj member
        exact (List.isChain_cons_cons.mp second.apart).1 ⟨sequences.2, both.2⟩
    · intro seg last next member both
      obtain rfl := Option.some.inj member
      exact meeting seg last seg1 rfl ⟨both.1, sequences.1⟩
  · rename_i other
    refine normal_append first second ?_
    intro seg last next member both
    rw [List.getLast?_concat] at last
    obtain rfl := Option.some.inj last
    obtain rfl := Option.some.inj member
    exact other both

end Joined

/-! ## The function -/

section Results

variable {m : Segments} {as1 as2 : AspathData} {front₁ rest₂ : List (Nat × Segment)}
  {seg1 seg2 : Nat} {s1 s2 : Segment}

theorem packed_value (sequence : s1.type = .asSequence) :
    (packed s1 s2).value = ⟨.asSequence, s1.value.as ++ s2.value.as⟩ ↔
      s1.value.as.length + s2.value.as.length < 65536 := by
  have value : (packed s1 s2).value = PathNormal.assegmentAppendAsns s1.value s2.value.as := by
    rw [packed, assegmentAppendAsns_value, assegmentDup_value]
    rfl
  have type : s1.value.type = .asSequence := sequence
  rw [value, PathNormal.assegmentAppendAsns, type, Assegment.mk.injEq, and_iff_right rfl,
    List.take_eq_self_iff, List.length_append]
  omega

variable {first : Nat}

/-- Before the two paths are put together, nothing was done unless the second one begins with
a confederation sequence behind a sequence. -/
theorem aspathPrepend_eq (segments₁ : as1.segments = some first)
    (segments₂ : as2.segments = some seg2)
    (chain₁ : Holds m (some first) (front₁ ++ [(seg1, s1)]) none)
    (chain₂ : Holds m (some seg2) ((seg2, s2) :: rest₂) none)
    (apart : ¬(s1.type = .asSequence ∧ s2.type = .asConfedSequence)) (fuel : Nat) :
    aspathPrepend fuel as1 as2 m =
      if front₁.length < fuel then
        if s1.type = .asSequence ∧ s2.type = .asSequence then pack fuel as1 as2 seg2 m
        else aspathMerge fuel as1 as2 m
      else none := by
  obtain ⟨-, next, found₂, -⟩ := chain₂.head_eq
  simp only [aspathPrepend, segments₁, segments₂, last_eq chain₁ fuel]
  split
  · simp only [Option.bind_some, chain₁.last_found.2, found₂, if_neg apart]
    by_cases same : s1.type = s2.type
    · rw [if_neg (not_not_intro same), ← same]
      simp
    · rw [if_pos same, if_neg fun both => same (both.1.trans both.2.symm)]
  · rfl

/-- Behind a sequence, a confederation sequence is freed and then read. -/
theorem aspathPrepend_stuck (segments₁ : as1.segments = some first)
    (segments₂ : as2.segments = some seg2)
    (chain₁ : Holds m (some first) (front₁ ++ [(seg1, s1)]) none)
    (chain₂ : Holds m (some seg2) ((seg2, s2) :: rest₂) none) (sequence : s1.type = .asSequence)
    (confed : s2.type = .asConfedSequence) (fuel : Nat) : aspathPrepend fuel as1 as2 m = none := by
  obtain ⟨-, next, found₂, -⟩ := chain₂.head_eq
  simp only [aspathPrepend, segments₁, segments₂, last_eq chain₁ fuel]
  split
  · simp only [Option.bind_some, chain₁.last_found.2, found₂, if_pos (And.intro sequence confed)]
    cases run : aspathDeleteConfedSeq fuel as2 m with
    | none => rfl
    | some left =>
      obtain ⟨path, m'⟩ := left
      have gone := aspathDeleteConfedSeq_frees segments₂ found₂ confed run
      simp only [Option.bind_some, gone, Option.bind_none]
      cases m'.cells seg1 <;> rfl
  · rfl

/-- A first path in front of an empty one is copied. -/
theorem aspathPrepend_empty {l₁ : List (Nat × Segment)} (bounded : m.Bounded)
    (chain₁ : Holds m as1.segments l₁ none) (segments₂ : as2.segments = none) :
    ∃ fuel result m', aspathPrepend fuel as1 as2 m = some (result, m') ∧
      Yields as1 l₁ (values l₁) result m' := by
  rcases copyAll_spec assegmentDup bounded chain₁ (l₁.length + 1) with
    ⟨short, -⟩ | ⟨-, head, m', l', run, holds, copied⟩
  · omega
  have path := values_of_copied copied
  have size : l'.length = l₁.length := by
    have lengths := congrArg List.length path
    simpa [values] using lengths
  refine ⟨l₁.length + 1, { as2 with segments := head, str := aspathMakeStrCount (values l') }, m',
    ?_, ⟨l', holds, path⟩, ?_, congrArg aspathMakeStrCount path⟩
  · simp only [aspathPrepend, segments₂, run, Option.bind_some]
    rw [aspathStrUpdate_eq { as2 with segments := head } holds, if_pos (by omega)]
  · exact chain₁.congr fun a member => copied.old a (chain₁.lt_fresh bounded member)

/-- What is asked of the two segments that meet. -/
def Meets (s1 s2 : Assegment) : Prop :=
  s1.type = .asSequence →
    s2.type ≠ .asConfedSequence ∧
      (s2.type = .asSequence → s1.as.length + s2.as.length < 65536)

variable (front₁ rest₂ seg1 seg2) in
theorem joined_values (free : s1.type = .asSequence → s2.type ≠ .asConfedSequence) :
    joined (values (front₁ ++ [(seg1, s1)])) (values ((seg2, s2) :: rest₂)) =
      if s1.type = .asSequence ∧ s2.type = .asSequence then
        values front₁ ++ ⟨.asSequence, s1.value.as ++ s2.value.as⟩ :: values rest₂
      else values (front₁ ++ [(seg1, s1)]) ++ values ((seg2, s2) :: rest₂) := by
  rw [values_append]
  have free' : s1.value.type = .asSequence → s2.value.type ≠ .asConfedSequence := free
  exact joined_cons free'

/-- Where both paths have segments. -/
theorem joins_iff_meets (bounded : m.Bounded)
    (chain₁ : Holds m as1.segments (front₁ ++ [(seg1, s1)]) none)
    (chain₂ : Holds m as2.segments ((seg2, s2) :: rest₂) none)
    (apart : seg2 ∉ (front₁ ++ [(seg1, s1)]).map Prod.fst)
    (normal : Normal (values ((seg2, s2) :: rest₂))) :
    (∃ fuel result m', aspathPrepend fuel as1 as2 m = some (result, m') ∧
        Joins as1 (front₁ ++ [(seg1, s1)]) (values ((seg2, s2) :: rest₂)) result m') ↔
      Meets s1.value s2.value := by
  obtain ⟨segments₂, -⟩ := chain₂.head_eq
  obtain ⟨first, segments₁⟩ : ∃ first, as1.segments = some first := by
    cases front₁ <;> exact ⟨_, chain₁.head_eq.1⟩
  have begins₁ := segments₁ ▸ chain₁
  have begins₂ := segments₂ ▸ chain₂
  by_cases stuck : s1.type = .asSequence ∧ s2.type = .asConfedSequence
  · constructor
    · rintro ⟨fuel, result, m', run, -⟩
      rw [aspathPrepend_stuck segments₁ segments₂ begins₁ begins₂ stuck.1 stuck.2] at run
      contradiction
    · exact fun meets => absurd stuck.2 (meets stuck.1).1
  have free : s1.type = .asSequence → s2.type ≠ .asConfedSequence := fun sequence confed =>
    stuck ⟨sequence, confed⟩
  have form (path : Normal (values (front₁ ++ [(seg1, s1)]))) :
      Normal (joined (values (front₁ ++ [(seg1, s1)])) (values ((seg2, s2) :: rest₂))) := by
    rw [values_append] at path ⊢
    exact joined_normal free path normal
  by_cases sequences : s1.type = .asSequence ∧ s2.type = .asSequence
  · have shape := joined_values front₁ rest₂ seg1 seg2 free
    rw [if_pos sequences] at shape
    constructor
    · rintro ⟨fuel, result, m', run, joins⟩ sequence
      refine ⟨free sequence, fun _ => (packed_value sequence).mp ?_⟩
      rw [aspathPrepend_eq segments₁ segments₂ begins₁ begins₂ stuck, if_pos sequences] at run
      split at run
      · rcases pack_spec bounded chain₁ begins₂ apart fuel with
          ⟨-, stops⟩ | ⟨result', m'', run', yields⟩
        · rw [stops] at run
          contradiction
        · obtain ⟨rfl, rfl⟩ := Prod.mk.inj (Option.some.inj (run'.symm.trans run))
          obtain ⟨l, holds, path⟩ := joins.yields.chain
          obtain ⟨l', holds', path'⟩ := yields.chain
          rw [holds.unique holds', path, shape] at path'
          exact (List.cons.inj (List.append_cancel_left path')).1.symm
      · contradiction
    · intro meets
      have small := (meets sequences.1).2 sequences.2
      have packs : ∃ result m', pack (front₁.length + 1 + rest₂.length + 1) as1 as2 seg2 m =
          some (result, m') ∧ Yields as1 (front₁ ++ [(seg1, s1)])
            (values front₁ ++ (packed s1 s2).value :: values rest₂) result m' :=
        (pack_spec bounded chain₁ begins₂ apart _).resolve_left fun short => by omega
      obtain ⟨result, m', run, yields⟩ := packs
      refine ⟨front₁.length + 1 + rest₂.length + 1, result, m', ?_, ?_, form⟩
      · rw [aspathPrepend_eq segments₁ segments₂ begins₁ begins₂ stuck, if_pos (by omega),
          if_pos sequences, run]
      · rw [shape, ← (packed_value sequences.1).mpr small]
        exact yields
  · have shape := joined_values front₁ rest₂ seg1 seg2 free
    rw [if_neg sequences] at shape
    refine ⟨fun _ sequence => ⟨free sequence, fun other => absurd ⟨sequence, other⟩ sequences⟩,
      fun _ => ?_⟩
    rcases aspathMerge_spec bounded chain₁ chain₂
        (front₁.length + 1 + ((seg2, s2) :: rest₂).length + 1) with
      ⟨short, -⟩ | ⟨result, m', run, yields⟩
    · omega
    · refine ⟨front₁.length + 1 + ((seg2, s2) :: rest₂).length + 1, result, m', ?_,
        shape ▸ yields, form⟩
      rw [aspathPrepend_eq segments₁ segments₂ begins₁ begins₂ stuck, if_pos (by omega),
        if_neg sequences, run]

end Results

/-- For two paths in memory, the first one not empty and the second one in normal form: the
function ends without a read of what was freed, and gives the joined path, exactly where a
sequence at the end of the first does not meet a confederation sequence, nor a sequence with
which it has 65536 members or more. -/
theorem joins_iff_packable (m : Segments) (as1 as2 : AspathData) (l₁ l₂ : List (Nat × Segment))
    (bounded : m.Bounded) (chain₁ : Holds m as1.segments l₁ none)
    (chain₂ : Holds m as2.segments l₂ none)
    (apart : ∀ addr ∈ l₂.map Prod.fst, addr ∉ l₁.map Prod.fst) (filled : l₁ ≠ [])
    (normal : Normal (values l₂)) :
    (∃ fuel result m', aspathPrepend fuel as1 as2 m = some (result, m') ∧
        Joins as1 l₁ (values l₂) result m') ↔
      Packable (values l₁) (values l₂) := by
  cases l₂ with
  | nil =>
    cases segments₂ : as2.segments with
    | some seg2 =>
      rw [segments₂] at chain₂
      cases chain₂
    | none =>
      obtain ⟨fuel, result, m', run, yields⟩ := aspathPrepend_empty bounded chain₁ segments₂
      refine ⟨fun _ => fun _ _ _ none => absurd none (by simp [values]), fun _ => ?_⟩
      refine ⟨fuel, result, m', run, ?_, fun form => ?_⟩
      · rw [show values [] = [] from rfl, joined_nil]
        exact yields
      · rw [show values [] = [] from rfl, joined_nil]
        exact form
  | cons first₂ rest₂ =>
    obtain ⟨seg2, s2⟩ := first₂
    obtain ⟨front₁, ⟨seg1, s1⟩, rfl⟩ := (List.eq_nil_or_concat' l₁).resolve_left filled
    rw [joins_iff_meets bounded chain₁ chain₂ (apart seg2 List.mem_cons_self) normal, values_append,
      Packable, List.getLast?_append]
    simp [values, Meets]

/-- Two segments, one after the other in memory. -/
def two (s1 s2 : Segment) : Segments := (Memory.alloc ⟨fun _ => none, 0⟩ s1).alloc s2

theorem two_bounded (s1 s2 : Segment) : (two s1 s2).Bounded :=
  ((show Memory.Bounded ⟨fun _ => none, 0⟩ from fun _ _ => rfl).alloc s1).alloc s2

theorem two_chains (s1 s2 : Segment) :
    Holds (two s1 s2) (some 0) [(0, s1)] none ∧ Holds (two s1 s2) (some 1) [(1, s2)] none :=
  ⟨.cons rfl (.nil none), .cons rfl (.nil none)⟩

/-- Segments with a single member. -/
def sequence (as : U32) : Segment := ⟨.asSequence, 1, [as], Nat.le_refl 1⟩
def confedSequence (as : U32) : Segment := ⟨.asConfedSequence, 1, [as], Nat.le_refl 1⟩

theorem normal_single (type : SegmentType) (as : U32) : Normal [⟨type, [as]⟩] where
  filled := by simp
  apart := .singleton _
  sorted := by simp

/-- The paths 1 and 2 are joined. -/
theorem joins_iff_packable_two :
    ∃ fuel result m', aspathPrepend fuel ⟨some 0, []⟩ ⟨some 1, []⟩ (two (sequence 1) (sequence 2)) =
        some (result, m') ∧
      Joins ⟨some 0, []⟩ [(0, sequence 1)] (values [(1, sequence 2)]) result m' :=
  (joins_iff_packable (two (sequence 1) (sequence 2)) ⟨some 0, []⟩ ⟨some 1, []⟩ [(0, sequence 1)]
    [(1, sequence 2)] (two_bounded _ _) (two_chains _ _).1 (two_chains _ _).2 (by decide)
    (by decide) (normal_single .asSequence 2)).mpr (by simp [Packable, values, sequence,
      Segment.value, Segment.members])

/-- The path (2) behind the path 1 is read when it was freed. -/
theorem confed_read_freed :
    Normal (values [(1, confedSequence 2)]) ∧
      ∀ fuel, aspathPrepend fuel ⟨some 0, []⟩ ⟨some 1, []⟩ (two (sequence 1) (confedSequence 2)) =
        none :=
  ⟨normal_single .asConfedSequence 2, aspathPrepend_stuck rfl rfl
    (List.nil_append [(0, sequence 1)] ▸ (two_chains _ _).1) (two_chains _ _).2 rfl rfl⟩

end Bgpd.PathPrepend
