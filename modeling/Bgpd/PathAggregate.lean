import Bgpd.Aggregation
import Bgpd.PathRoundTrip

/-!
# Aggregating two AS paths

The aggregate of two paths is their longest common leading part, with a set of all
members behind it. The walk over the common part counts how many members of a pair of
segments agree, and the collection of the set skips so many members of the first
segment that is left of each path. Where the paths part between two segments, the
count is still that of the pair before, so that members are skipped that nothing has
taken.
-/

namespace Bgpd.PathAggregate

open Octets AsPath PathCodec Aggregation

/-! ## The set -/

variable {left right : List U32}

/-- Sorted and without repetition, two lists are the same if they have the same members. -/
theorem sort_congr :
    left.dedup.insertionSort (· ≤ ·) = right.dedup.insertionSort (· ≤ ·) ↔
      ∀ a, a ∈ left ↔ a ∈ right := by
  have mem (as : List U32) (a : U32) : a ∈ as.dedup.insertionSort (· ≤ ·) ↔ a ∈ as := by
    rw [List.mem_insertionSort, List.mem_dedup]
  constructor
  · intro same a
    rw [← mem left, same, mem right]
  · intro same
    refine (sort_strict left).eq_of_mem_iff (sort_strict right) fun a => ?_
    rw [mem, mem]
    exact same a

/-- Normalising leaves a set at the end, in order. -/
theorem normalise_set (segments : List Assegment) (as : List U32) :
    assegmentNormalise (segments ++ [⟨.asSet, as⟩]) =
      assegmentNormalise segments ++ [⟨.asSet, as.dedup.insertionSort (· ≤ ·)⟩] := by
  induction segments with
  | nil => rfl
  | cons seg later ih =>
    change normaliseOne seg (assegmentNormalise (later ++ [⟨.asSet, as⟩])) =
      normaliseOne seg (assegmentNormalise later) ++ _
    rw [ih]
    obtain ⟨type, members⟩ := seg
    cases type with
    | asSet => rfl
    | asConfedSet => rfl
    | asConfedSequence => rfl
    | asSequence => rcases assegmentNormalise later with _ | ⟨⟨_ | _ | _ | _, _⟩, _⟩ <;> rfl

/-! ## Leading parts -/

/-- The members of some segments. -/
def members (segments : List Assegment) : List U32 := segments.flatMap Assegment.as

/-- Segments that stand at the front of a chain; the last may be cut short. -/
inductive Leading : List Assegment → List Assegment → Prop
  | nil (segments : List Assegment) : Leading [] segments
  | within (seg : Assegment) (n : Nat) (rest : List Assegment) :
      Leading [⟨seg.type, seg.as.take n⟩] (seg :: rest)
  | whole (seg : Assegment) {part rest : List Assegment} (leading : Leading part rest) :
      Leading (seg :: part) (seg :: rest)

/-- The longest part at the front of both chains. -/
structure Longest (part segs1 segs2 : List Assegment) : Prop where
  left : Leading part segs1
  right : Leading part segs2
  longest : ∀ other, Leading other segs1 → Leading other segs2 →
    (members other).length ≤ (members part).length

/-- The members of a chain behind a leading part. -/
def behind (part segments : List Assegment) : List U32 :=
  (members segments).drop (members part).length

/-- The segments that have members. -/
def filled (segments : List Assegment) : List Assegment := segments.filter fun seg => seg.as ≠ []

/-- What an aggregate is to be: it has the members of both paths and no others, and is the
longest common leading part with at most one set, of what is behind. -/
structure Aggregates (as1 as2 result : Aspath) : Prop where
  complete : ∀ a, a ∈ members result.segments ↔ a ∈ members as1.segments ∨ a ∈ members as2.segments
  shape : ∃ part, Longest part as1.segments as2.segments ∧ ∃ rest : Option (List U32),
    result.segments =
        assegmentNormalise (filled part ++ (rest.map (Assegment.mk .asSet)).toList) ∧
      ∀ a, a ∈ rest.getD [] ↔ a ∈ behind part as1.segments ∨ a ∈ behind part as2.segments

/-! ## The condition -/

/-- The chains start differently: one is at its end, or the first segments differ in
type. -/
def Parted : List Assegment → List Assegment → Prop
  | seg1 :: _, seg2 :: _ => seg1.type ≠ seg2.type
  | _, _ => True

/-- The first members of the first segment. -/
def skipped (n : Nat) : List Assegment → List U32
  | [] => []
  | seg :: _ => seg.as.take n

/-- Where the paths part between two segments, the first members behind that place, as many
as the last common segment has, are found among the others there. -/
def NothingLost (as1 as2 : Aspath) : Prop :=
  ∀ whole seg later1 later2, as1.segments = whole ++ seg :: later1 →
    as2.segments = whole ++ seg :: later2 → Parted later1 later2 →
    ∀ a, a ∈ skipped seg.as.length later1 ∨ a ∈ skipped seg.as.length later2 →
      a ∈ leftMembers seg.as.length later1 ∨ a ∈ leftMembers seg.as.length later2

/-! ## Where the walk stops -/

theorem matching_le (left right : List U32) :
    matching left right ≤ left.length ∧ matching left right ≤ right.length := by
  fun_induction matching left right with
  | case1 lefts a rights ih =>
    simp only [List.length_cons]
    omega
  | case2 => simp
  | case3 => simp

/-- What agrees is a front of both. -/
theorem take_matching (left right : List U32) :
    left.take (matching left right) = right.take (matching left right) := by
  fun_induction matching left right with
  | case1 lefts a rights ih => simp [ih]
  | case2 => rfl
  | case3 => rfl

/-- And the longest such front. -/
theorem prefix_matching {part : List U32} (onLeft : part <+: left) (onRight : part <+: right) :
    part.length ≤ matching left right := by
  induction part generalizing left right with
  | nil => exact Nat.zero_le _
  | cons a part ih =>
    obtain ⟨lefts, rfl⟩ := onLeft
    obtain ⟨rights, rfl⟩ := onRight
    have rest := ih (List.prefix_append part lefts) (List.prefix_append part rights)
    simp only [List.cons_append, matching, if_true, List.length_cons]
    omega

/-- Where the walk over the common part stops: inside a pair of segments of one type, or
between two segments. -/
inductive Stop (skip : Nat) (segs1 segs2 : List Assegment) :
    List Assegment × Nat × List Assegment × List Assegment → Prop
  | inside (whole : List Assegment) (seg1 seg2 : Assegment) (rest1 rest2 : List Assegment)
      (left : segs1 = whole ++ seg1 :: rest1) (right : segs2 = whole ++ seg2 :: rest2)
      (type : seg1.type = seg2.type) (apart : seg1 ≠ seg2) :
      Stop skip segs1 segs2
        (filled (whole ++ [⟨seg1.type, seg1.as.take (matching seg1.as seg2.as)⟩]),
          matching seg1.as seg2.as, seg1 :: rest1, seg2 :: rest2)
  | between (whole later1 later2 : List Assegment) (left : segs1 = whole ++ later1)
      (right : segs2 = whole ++ later2) (parted : Parted later1 later2) :
      Stop skip segs1 segs2
        (filled whole, (whole.getLast?.map fun seg => seg.as.length).getD skip, later1, later2)

theorem filled_append (first second : List Assegment) :
    filled (first ++ second) = filled first ++ filled second := List.filter_append ..

/-- The part of a segment the walk takes. -/
theorem head_filled (seg : Assegment) {same : Nat} (bound : same ≤ seg.as.length) :
    (if same ≠ 0 then [(⟨seg.type, seg.as.take same⟩ : Assegment)] else []) =
      filled [⟨seg.type, seg.as.take same⟩] := by
  by_cases zero : same = 0
  · simp [filled, zero]
  · have some : seg.as ≠ [] := by
      rintro none
      rw [none, List.length_nil] at bound
      omega
    simp [filled, zero, some]

theorem leadingPart_stop (skip : Nat) (segs1 segs2 : List Assegment) :
    Stop skip segs1 segs2 (leadingPart skip segs1 segs2) := by
  fun_induction leadingPart skip segs1 segs2 with
  | case1 skip seg1 later1 seg2 later2 other =>
    exact .between [] (seg1 :: later1) (seg2 :: later2) rfl rfl other
  | case2 skip seg1 later1 seg2 later2 type same head apart =>
    have bound := (matching_le seg1.as seg2.as).1
    have differ : seg1 ≠ seg2 := by
      rintro rfl
      have all := prefix_matching (List.prefix_refl seg1.as) (List.prefix_refl seg1.as)
      omega
    have front : head = filled [⟨seg1.type, seg1.as.take same⟩] := head_filled seg1 bound
    rw [front]
    exact .inside [] seg1 seg2 later1 later2 rfl rfl (not_not.mp type) differ
  | case3 skip seg1 later1 seg2 later2 type same head whole more skip' left1 left2 walk ih =>
    have bound := (matching_le seg1.as seg2.as).1
    obtain ⟨all, equal⟩ : same = seg1.as.length ∧ seg1.as.length = seg2.as.length := by
      simpa only [not_or, not_not] using whole
    have agree := take_matching seg1.as seg2.as
    rw [show matching seg1.as seg2.as = seg1.as.length from all, List.take_length, equal,
      List.take_length] at agree
    obtain rfl : seg1 = seg2 := by
      cases seg1
      cases seg2
      simp only [Assegment.mk.injEq] at *
      exact ⟨not_not.mp type, agree⟩
    have front : head = filled [seg1] :=
      calc head = filled [⟨seg1.type, seg1.as.take same⟩] := head_filled seg1 bound
        _ = filled [seg1] := by rw [all, List.take_length]
    rw [front]
    rw [walk] at ih
    cases ih with
    | inside whole seg1' seg2' rest1 rest2 left right type' apart =>
      rw [← filled_append]
      exact .inside (seg1 :: whole) seg1' seg2' rest1 rest2 (by rw [left]; rfl) (by rw [right]; rfl)
        type' apart
    | between whole left1 left2 left right parted =>
      subst left right
      have last : ((seg1 :: whole).getLast?.map fun seg => seg.as.length).getD skip =
          (whole.getLast?.map fun seg => seg.as.length).getD same := by
        rw [List.getLast?_cons]
        cases whole.getLast? with
        | none => exact all.symm
        | some last => rfl
      rw [← filled_append, ← last]
      exact .between (seg1 :: whole) left1 left2 rfl rfl parted
  | case4 skip segs1 segs2 ended =>
    refine .between [] segs1 segs2 rfl rfl ?_
    cases segs1 with
    | nil => trivial
    | cons seg1 later1 =>
      cases segs2 with
      | nil => trivial
      | cons seg2 later2 => exact (ended seg1 later1 seg2 later2 rfl rfl).elim

/-! ## Leading parts of both paths -/

section Leading

variable {part other segments whole rest : List Assegment}

theorem members_cons (seg : Assegment) (segments : List Assegment) :
    members (seg :: segments) = seg.as ++ members segments := List.flatMap_cons ..

theorem members_append (first second : List Assegment) :
    members (first ++ second) = members first ++ members second := List.flatMap_append ..

/-- Empty segments have no members. -/
theorem members_filled (segments : List Assegment) :
    members (filled segments) = members segments := by
  induction segments with
  | nil => rfl
  | cons seg later ih =>
    by_cases empty : seg.as = []
    · rw [filled, List.filter_cons_of_neg (by simpa using empty), members_cons, empty]
      exact ih
    · rw [filled, List.filter_cons_of_pos (by simpa using empty), members_cons, members_cons]
      exact congrArg _ ih

/-- Behind whole segments comes the start of another leading part. -/
theorem Leading.append (leading : Leading part rest) (whole : List Assegment) :
    Leading (whole ++ part) (whole ++ rest) := by
  induction whole with
  | nil => exact leading
  | cons seg later ih => exact .whole seg ih

/-- The members of a leading part come first. -/
theorem Leading.members (leading : Leading part segments) :
    PathAggregate.members part <+: PathAggregate.members segments := by
  induction leading with
  | nil segments => exact List.nil_prefix
  | within seg n rest =>
    rw [members_cons, members_cons]
    exact (List.append_nil _).symm ▸ (List.take_prefix n seg.as).trans (List.prefix_append _ _)
  | whole seg leading ih =>
    rw [members_cons, members_cons]
    exact (List.prefix_append_right_inj seg.as).mpr ih

/-- The first members of a chain, in their segments. -/
def cut : Nat → List Assegment → List Assegment
  | _, [] => []
  | n, seg :: rest =>
    if n ≤ seg.as.length then filled [⟨seg.type, seg.as.take n⟩]
    else filled [seg] ++ cut (n - seg.as.length) rest

theorem cut_zero (segments : List Assegment) : cut 0 segments = [] := by
  cases segments with
  | nil => rfl
  | cons seg rest =>
    rw [cut, if_pos (Nat.zero_le _), List.take_zero]
    rfl

/-- A leading part is known by the number of its members, but for empty segments. -/
theorem Leading.filled_eq (leading : Leading part segments) :
    filled part = cut (PathAggregate.members part).length segments := by
  induction leading with
  | nil segments => exact (cut_zero segments).symm
  | within seg n rest =>
    have count : (PathAggregate.members [⟨seg.type, seg.as.take n⟩]).length =
        min n seg.as.length := by
      simp [PathAggregate.members]
    rw [count, cut, if_pos (Nat.min_le_right _ _), ← List.take_take, List.take_length]
  | @whole seg part rest leading ih =>
    rw [members_cons, List.length_append, cut]
    have split : filled (seg :: part) = filled [seg] ++ filled part := filled_append [seg] part
    split
    · rename_i none
      have zero : (PathAggregate.members part).length = 0 := by omega
      rw [split, ih, zero, cut_zero, List.append_nil, Nat.add_zero, List.take_length]
    · rw [split, ih, Nat.add_sub_cancel_left]

/-- A leading part is empty, or starts with a front of the first segment; behind a front
that is not the whole of it nothing comes. -/
theorem Leading.start {seg : Assegment} (leading : Leading part (seg :: rest)) :
    part = [] ∨ ∃ head tail, part = head :: tail ∧ head.type = seg.type ∧ head.as <+: seg.as ∧
      (tail = [] ∨ head = seg ∧ Leading tail rest) := by
  cases leading with
  | nil => exact Or.inl rfl
  | within _ n _ => exact Or.inr ⟨_, [], rfl, rfl, List.take_prefix n seg.as, Or.inl rfl⟩
  | whole _ leading => exact Or.inr ⟨seg, _, rfl, rfl, List.prefix_refl _, Or.inr ⟨rfl, leading⟩⟩

variable {rest1 rest2 : List Assegment}

/-- Behind common segments, a part at the front of both paths is as long as one of the
rests allows. -/
theorem leading_bound {bound : Nat} (rests : ∀ other, Leading other rest1 → Leading other rest2 →
      (PathAggregate.members other).length ≤ bound) (left : Leading other (whole ++ rest1))
    (right : Leading other (whole ++ rest2)) :
    (PathAggregate.members other).length ≤ (PathAggregate.members whole).length + bound := by
  induction whole generalizing other with
  | nil =>
    have short := rests other left right
    exact short.trans (Nat.le_add_left _ _)
  | cons seg later ih =>
    rw [members_cons, List.length_append]
    rcases left.start with rfl | ⟨head, tail, rfl, -, front, last | ⟨rfl, left'⟩⟩
    · exact Nat.zero_le _
    · have short := front.length_le
      rw [last, members_cons, List.length_append]
      simp only [PathAggregate.members, List.flatMap_nil, List.length_nil]
      omega
    · rcases right.start with none | ⟨head', tail', same, -, front, last | ⟨-, right'⟩⟩
      · exact absurd none (List.cons_ne_nil _ _)
      · obtain ⟨rfl, rfl⟩ := List.cons.inj same
        rw [last, members_cons, List.length_append]
        simp only [PathAggregate.members, List.flatMap_nil, List.length_nil]
        omega
      · obtain ⟨rfl, rfl⟩ := List.cons.inj same
        have short := ih left' right'
        rw [members_cons, List.length_append]
        omega

/-- Inside a pair of segments a common part ends where the members differ. -/
theorem leading_inside {seg1 seg2 : Assegment} (apart : seg1 ≠ seg2)
    (left : Leading other (seg1 :: rest1)) (right : Leading other (seg2 :: rest2)) :
    (PathAggregate.members other).length ≤ matching seg1.as seg2.as := by
  rcases left.start with rfl | ⟨head, tail, rfl, -, front1, last⟩
  · exact Nat.zero_le _
  · rcases right.start with none | ⟨head', tail', same, -, front2, last'⟩
    · exact absurd none (List.cons_ne_nil _ _)
    · obtain ⟨rfl, rfl⟩ := List.cons.inj same
      have alone : tail = [] := by
        rcases last with none | ⟨whole1, -⟩
        · exact none
        · rcases last' with none | ⟨whole2, -⟩
          · exact none
          · exact absurd (whole1.symm.trans whole2) apart
      rw [alone, members_cons]
      simpa [PathAggregate.members] using prefix_matching front1 front2

/-- Between two segments it ends. -/
theorem leading_parted {later1 later2 : List Assegment} (parted : Parted later1 later2)
    (left : Leading other later1) (right : Leading other later2) : other = [] := by
  cases later1 with
  | nil => cases left with | nil => rfl
  | cons seg1 rest1 =>
    cases later2 with
    | nil => cases right with | nil => rfl
    | cons seg2 rest2 =>
      rcases left.start with none | ⟨head, tail, rfl, type1, -, -⟩
      · exact none
      · rcases right.start with none | ⟨head', tail', same, type2, -, -⟩
        · exact none
        · obtain ⟨rfl, rfl⟩ := List.cons.inj same
          exact absurd (type1.symm.trans type2) parted

end Leading

/-- The common segments and the common front of the pair behind them are the longest common
part where the paths differ inside a pair of segments. -/
theorem longest_inside {seg1 seg2 : Assegment} (type : seg1.type = seg2.type) (apart : seg1 ≠ seg2)
    (whole rest1 rest2 : List Assegment) :
    Longest (whole ++ [⟨seg1.type, seg1.as.take (matching seg1.as seg2.as)⟩])
      (whole ++ seg1 :: rest1) (whole ++ seg2 :: rest2) := by
  refine ⟨(Leading.within seg1 _ rest1).append whole, ?_, fun other left right => ?_⟩
  · rw [type, take_matching]
    exact (Leading.within seg2 _ rest2).append whole
  · rw [members_append, List.length_append]
    have bound := leading_bound (fun other => leading_inside apart) left right
    have taken : (members [⟨seg1.type, seg1.as.take (matching seg1.as seg2.as)⟩]).length =
        matching seg1.as seg2.as := by
      simpa [members] using (matching_le seg1.as seg2.as).1
    omega

/-- The common segments are the longest common part where the paths part behind them. -/
theorem longest_between {later1 later2 : List Assegment} (parted : Parted later1 later2)
    (whole : List Assegment) : Longest whole (whole ++ later1) (whole ++ later2) := by
  refine ⟨?_, ?_, fun other left right => ?_⟩
  · simpa using (Leading.nil later1).append whole
  · simpa using (Leading.nil later2).append whole
  · have behind : ∀ other, Leading other later1 → Leading other later2 →
        (PathAggregate.members other).length ≤ 0 := by
      intro other left right
      rw [leading_parted parted left right]
      exact le_refl 0
    exact leading_bound behind left right

/-- The longest common parts are the same, but for empty segments. -/
theorem Longest.unique {part part' segs1 segs2 : List Assegment}
    (longest : Longest part segs1 segs2) (longest' : Longest part' segs1 segs2) :
    filled part = filled part' ∧ (members part).length = (members part').length := by
  have same : (members part).length = (members part').length :=
    le_antisymm (longest'.longest part longest.left longest.right)
      (longest.longest part' longest'.left longest'.right)
  exact ⟨by rw [longest.left.filled_eq, longest'.left.filled_eq, same], same⟩

/-! ## What is collected -/

/-- Normalising keeps the members. -/
theorem mem_normalise (segments : List Assegment) (a : U32) :
    a ∈ members (assegmentNormalise segments) ↔ a ∈ members segments := by
  induction segments with
  | nil => rfl
  | cons seg later ih =>
    have kept (followers : List Assegment) : a ∈ members (normaliseOne seg followers) ↔
        a ∈ seg.as ∨ a ∈ members followers := by
      obtain ⟨type, as⟩ := seg
      cases type with
      | asSet => simp [normaliseOne, members]
      | asConfedSet => simp [normaliseOne, members]
      | asConfedSequence => simp [normaliseOne, members]
      | asSequence =>
        rcases followers with _ | ⟨⟨_ | _ | _ | _, _⟩, _⟩ <;> simp [normaliseOne, members]
    change a ∈ members (normaliseOne seg (assegmentNormalise later)) ↔ _
    rw [kept, ih, members_cons, List.mem_append]

/-- A set of the members, where there are any. -/
def setOf (added : List U32) : Option (List U32) := if added = [] then none else some added

theorem mem_setOf (added : List U32) (a : U32) : a ∈ (setOf added).getD [] ↔ a ∈ added := by
  unfold setOf
  split
  · rename_i none
    rw [none]
    rfl
  · rfl

/-- The set at the end is known from what comes out. -/
theorem set_known (front : List Assegment) (set set' : Option (List U32))
    (same : assegmentNormalise (front ++ (set.map (Assegment.mk .asSet)).toList) =
      assegmentNormalise (front ++ (set'.map (Assegment.mk .asSet)).toList)) (a : U32) :
    a ∈ set.getD [] ↔ a ∈ set'.getD [] := by
  cases set with
  | none =>
    cases set' with
    | none => rfl
    | some as' =>
      simp only [Option.map_none, Option.map_some, Option.toList_none, Option.toList_some,
        List.append_nil, normalise_set] at same
      exact absurd (List.self_eq_append_right.mp same) (List.cons_ne_nil _ _)
  | some as =>
    cases set' with
    | none =>
      simp only [Option.map_none, Option.map_some, Option.toList_none, Option.toList_some,
        List.append_nil, normalise_set] at same
      exact absurd (List.append_right_eq_self.mp same) (List.cons_ne_nil _ _)
    | some as' =>
      simp only [Option.map_some, Option.toList_some, normalise_set, List.append_cancel_left_eq,
        List.cons.injEq, Assegment.mk.injEq, true_and, and_true] at same
      exact sort_congr.mp same a

section Collected

variable {as1 as2 : Aspath} {part left1 left2 : List Assegment} {skip : Nat}

theorem aspathAggregate_eq
    (walk : leadingPart 0 as1.segments as2.segments = (filled part, skip, left1, left2)) :
    aspathAggregate as1 as2 = ⟨assegmentNormalise (filled part ++
      ((setOf (leftMembers skip left1 ++ leftMembers skip left2)).map
        (Assegment.mk .asSet)).toList)⟩ := by
  unfold aspathAggregate setOf
  rw [walk]
  dsimp only
  split <;> rfl

theorem Longest.members_left {segs1 segs2 : List Assegment} (longest : Longest part segs1 segs2) :
    members segs1 = members part ++ behind part segs1 ∧
      members segs2 = members part ++ behind part segs2 :=
  ⟨(List.prefix_iff_eq_append.mp longest.left.members).symm,
    (List.prefix_iff_eq_append.mp longest.right.members).symm⟩

/-- The aggregate is as it is to be exactly if everything behind the common part is
collected. -/
theorem aggregates_iff
    (walk : leadingPart 0 as1.segments as2.segments = (filled part, skip, left1, left2))
    (longest : Longest part as1.segments as2.segments)
    (inside : ∀ a, a ∈ leftMembers skip left1 ++ leftMembers skip left2 →
      a ∈ behind part as1.segments ∨ a ∈ behind part as2.segments) :
    Aggregates as1 as2 (aspathAggregate as1 as2) ↔
      ∀ a, a ∈ behind part as1.segments ∨ a ∈ behind part as2.segments →
        a ∈ leftMembers skip left1 ++ leftMembers skip left2 := by
  rw [aspathAggregate_eq walk]
  generalize leftMembers skip left1 ++ leftMembers skip left2 = added at *
  constructor
  · rintro ⟨-, part', longest', rest, same, held⟩ a remains
    obtain ⟨same', count⟩ := longest'.unique longest
    rw [same'] at same
    unfold behind at held remains
    rw [count] at held
    have collected := set_known (filled part) (setOf added) rest same a
    rw [mem_setOf] at collected
    exact collected.mpr ((held a).mpr remains)
  · intro collects
    obtain ⟨split1, split2⟩ := longest.members_left
    refine ⟨fun a => ?_, part, longest, setOf added, rfl, fun a => ?_⟩
    · have set : a ∈ members (((setOf added).map (Assegment.mk .asSet)).toList) ↔ a ∈ added := by
        rw [← mem_setOf added a]
        cases setOf added <;> simp [members]
      rw [mem_normalise, members_append, List.mem_append, members_filled, set, split1, split2,
        List.mem_append, List.mem_append]
      constructor
      · rintro (front | held)
        · exact Or.inl (Or.inl front)
        · exact (inside a held).imp Or.inr Or.inr
      · rintro ((front | rest) | (front | rest))
        · exact Or.inl front
        · exact Or.inr (collects a (Or.inl rest))
        · exact Or.inl front
        · exact Or.inr (collects a (Or.inr rest))
    · rw [mem_setOf]
      exact ⟨inside a, collects a⟩

end Collected

/-! ## Where the paths part -/

section Parting

variable {whole whole' later1 later2 later1' later2' rest1 rest2 : List Assegment}

/-- Chains with the same first segment do not part there. -/
theorem not_parted (seg : Assegment) : ¬ Parted (seg :: rest1) (seg :: rest2) :=
  fun parted => parted rfl

/-- There is one place where two chains part. -/
theorem parting_unique (left : whole ++ later1 = whole' ++ later1')
    (right : whole ++ later2 = whole' ++ later2') (parted : Parted later1 later2)
    (parted' : Parted later1' later2') : whole = whole' ∧ later1 = later1' ∧ later2 = later2' := by
  induction whole generalizing whole' with
  | nil =>
    cases whole' with
    | nil => exact ⟨rfl, left, right⟩
    | cons seg whole' =>
      obtain rfl : later1 = seg :: (whole' ++ later1') := left
      obtain rfl : later2 = seg :: (whole' ++ later2') := right
      exact absurd parted (not_parted seg)
  | cons seg whole ih =>
    cases whole' with
    | nil =>
      obtain rfl : seg :: (whole ++ later1) = later1' := left
      obtain rfl : seg :: (whole ++ later2) = later2' := right
      exact absurd parted' (not_parted seg)
    | cons seg' whole' =>
      obtain ⟨rfl, later⟩ := List.cons.inj left
      obtain ⟨rfl, rest⟩ := ih later (List.cons.inj right).2
      exact ⟨rfl, rest⟩

/-- Chains that differ inside a pair of segments of one type do not part between two. -/
theorem inside_not_parted {seg1 seg2 : Assegment} (type : seg1.type = seg2.type)
    (apart : seg1 ≠ seg2) (left : whole ++ seg1 :: rest1 = whole' ++ later1')
    (right : whole ++ seg2 :: rest2 = whole' ++ later2') : ¬ Parted later1' later2' := by
  induction whole generalizing whole' with
  | nil =>
    cases whole' with
    | nil =>
      obtain rfl : seg1 :: rest1 = later1' := left
      obtain rfl : seg2 :: rest2 = later2' := right
      exact fun parted => parted type
    | cons seg whole' =>
      exact absurd ((List.cons.inj left).1.trans (List.cons.inj right).1.symm) apart
  | cons seg whole ih =>
    cases whole' with
    | nil =>
      obtain rfl : seg :: (whole ++ seg1 :: rest1) = later1' := left
      obtain rfl : seg :: (whole ++ seg2 :: rest2) = later2' := right
      exact not_parted seg
    | cons seg' whole' => exact ih (List.cons.inj left).2 (List.cons.inj right).2

theorem behind_append (whole later : List Assegment) :
    behind whole (whole ++ later) = members later := by
  rw [behind, members_append, List.drop_left]

/-- Behind the front of a segment comes what is left of it. -/
theorem behind_inside (whole rest : List Assegment) (seg : Assegment) (type : SegmentType)
    {front : List U32} (bound : front.length ≤ seg.as.length) :
    behind (whole ++ [⟨type, front⟩]) (whole ++ seg :: rest) =
      leftMembers front.length (seg :: rest) := by
  rw [behind, members_append, members_append, List.length_append, ← List.drop_drop, List.drop_left,
    members_cons, members_cons, List.length_append, leftMembers]
  simp only [members, List.flatMap_nil, List.length_nil, Nat.add_zero]
  rw [List.drop_append_of_le_length bound]

theorem skipped_leftMembers (n : Nat) (later : List Assegment) :
    members later = skipped n later ++ leftMembers n later := by
  cases later with
  | nil => rfl
  | cons seg later =>
    rw [members_cons, skipped, leftMembers, ← List.append_assoc, List.take_append_drop]
    rfl

end Parting

end Bgpd.PathAggregate
