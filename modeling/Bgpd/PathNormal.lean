import Bgpd.PathCodec
import Mathlib.Data.Finset.Sort
import Mathlib.Data.List.Destutter

/-!
# Normal form in one pass

`assegment_normalise` goes over the chain once: it pins a segment, sorts it in place if it
is a set, and appends to it the sequences that follow. What comes out depends on nothing
but what the chain says, a run of sequences being one list and a set having no order.
The length of a segment has 16 bits, which joined sequences of more members overflow.
-/

namespace Bgpd.PathNormal

open Octets AsPath PathCodec

/-! ## The pass -/

/-- The loop that weeds out duplicates, with `n` turns to go. -/
def weedOutDupes (as : List U32) (tail i : Nat) : Nat → List U32 × Nat
  | 0 => (as, tail)
  | n + 1 =>
    if as.getD tail 0 = as.getD i 0 then weedOutDupes as tail (i + 1) n
    else
      weedOutDupes (if tail + 1 < i then as.set (tail + 1) (as.getD i 0) else as) (tail + 1)
        (i + 1) n

/-- The values of a set segment. -/
def sortValues (as : List U32) : List U32 :=
  let sorted := as.insertionSort (· ≤ ·)
  let (as, tail) := weedOutDupes sorted 0 1 (sorted.length - 1)
  if sorted.length ≠ 0 then as.take (tail + 1) else as

/-- What is done to a segment when it is pinned. -/
def pin (seg : Assegment) : Assegment :=
  if seg.type = .asSet ∨ seg.type = .asConfedSet then { seg with as := sortValues seg.as } else seg

/-- `assegment_append_asns`, where `length` is an `unsigned short`. -/
def assegmentAppendAsns (seg : Assegment) (asnos : List U32) : Assegment :=
  { seg with as := (seg.as ++ asnos).take ((seg.as.length + asnos.length) % 2 ^ 16) }

/-- `ASSEGMENT_TYPES_PACKABLE`. -/
def assegmentTypesPackable (x y : Assegment) : Prop := x.type = y.type ∧ x.type = .asSequence

instance (x y : Assegment) : Decidable (assegmentTypesPackable x y) :=
  inferInstanceAs (Decidable (_ ∧ _))

/-- Both loops, from the pinned segment on. -/
def normaliseFrom (pinned : Assegment) : List Assegment → List Assegment
  | [] => [pinned]
  | next :: rest =>
    if assegmentTypesPackable pinned next then
      normaliseFrom (assegmentAppendAsns pinned next.as) rest
    else pinned :: normaliseFrom (pin next) rest

/-- `assegment_normalise` as it goes over the chain. -/
def normalisePass : List Assegment → List Assegment
  | [] => []
  | seg :: rest => normaliseFrom (pin seg) rest

/-! ## What a chain says -/

/-- A run of sequences, a set, or a segment of a confederation. -/
inductive Part
  | sequence (as : List U32)
  | set (as : Finset U32)
  | confedSequence (as : List U32)
  | confedSet (as : Finset U32)

/-- A segment in front of what is said behind it. -/
def partsWith (seg : Assegment) (parts : List Part) : List Part :=
  match seg.type with
  | .asSet => .set seg.as.toFinset :: parts
  | .asConfedSet => .confedSet seg.as.toFinset :: parts
  | .asConfedSequence => .confedSequence seg.as :: parts
  | .asSequence =>
    match parts with
    | .sequence as :: parts => .sequence (seg.as ++ as) :: parts
    | _ => .sequence seg.as :: parts

def parts (segments : List Assegment) : List Part := segments.foldr partsWith []

/-- The segment that says it. -/
def Part.segment : Part → Assegment
  | .sequence as => ⟨.asSequence, as⟩
  | .set as => ⟨.asSet, as.sort (· ≤ ·)⟩
  | .confedSequence as => ⟨.asConfedSequence, as⟩
  | .confedSet as => ⟨.asConfedSet, as.sort (· ≤ ·)⟩

/-! ## Weeding out duplicates -/

/-- What was kept is in front and what is still to be looked at behind; between them is what
was passed over. -/
theorem weedOutDupes_eq (rest front gap : List U32) (last : U32) :
    let weeded := weedOutDupes (front ++ last :: (gap ++ rest)) front.length
      (front.length + 1 + gap.length) rest.length
    weeded.1.take (weeded.2 + 1) = front ++ rest.destutter' (· ≠ ·) last := by
  induction rest generalizing front gap last with
  | nil => simp [weedOutDupes, List.take_append]
  | cons a rest ih =>
    have kept : (front ++ last :: (gap ++ a :: rest)).getD front.length 0 = last := by
      simp
    have looked :
        (front ++ last :: (gap ++ a :: rest)).getD (front.length + 1 + gap.length) 0 = a := by
      simp [List.getD_eq_getElem?_getD, Nat.add_assoc, Nat.add_comm 1]
    simp only [List.length_cons, weedOutDupes, kept, looked]
    by_cases same : last = a
    · have passed := ih front (gap ++ [a]) last
      simp only [List.append_assoc, List.singleton_append, List.length_append,
        List.length_singleton, ← Nat.add_assoc] at passed
      rw [if_pos same, passed, List.destutter'_cons_neg _ (not_not.mpr same)]
    · rw [if_neg same, List.destutter'_cons_pos _ same]
      cases gap with
      | nil =>
        have moved := ih (front ++ [last]) [] a
        simpa [Nat.add_assoc] using moved
      | cons g gap =>
        have moved := ih (front ++ [last]) (gap ++ [a]) a
        rw [if_pos (by simp)]
        simpa [Nat.add_assoc, Nat.add_comm, Nat.add_left_comm] using moved

/-- The values are in order, each once. -/
theorem sortValues_eq (as : List U32) : sortValues as = as.dedup.insertionSort (· ≤ ·) := by
  have ordered : (as.insertionSort (· ≤ ·)).Pairwise (· ≤ ·) := List.pairwise_insertionSort _ as
  have member (x : U32) : x ∈ as.insertionSort (· ≤ ·) ↔ x ∈ as := List.mem_insertionSort _
  have weeded : sortValues as = (as.insertionSort (· ≤ ·)).dedup := by
    rw [← ordered.destutter_eq_dedup]
    unfold sortValues
    cases as.insertionSort (· ≤ ·) with
    | nil => rfl
    | cons first rest => exact weedOutDupes_eq rest [] [] first
  have once : (as.insertionSort (· ≤ ·)).dedup.Pairwise (· < ·) :=
    (ordered.sublist (List.dedup_sublist _)).imp₂
      (fun _ _ less apart => BitVec.lt_of_le_ne less apart) (List.nodup_dedup _)
  rw [weeded]
  refine once.eq_of_mem_iff (sort_strict as) fun x => ?_
  rw [List.mem_dedup, member, List.mem_insertionSort, List.mem_dedup]

/-- Pinning a segment and reading ahead is one step from the tail. -/
theorem pin_followers (seg : Assegment) (followers : List Assegment) :
    (if (pin seg).type = .asSequence then normaliseOne (pin seg) followers
      else pin seg :: followers) = normaliseOne seg followers := by
  obtain ⟨type, as⟩ := seg
  cases type with
  | asSet => exact congrArg (Assegment.mk .asSet · :: followers) (sortValues_eq as)
  | asConfedSet => exact congrArg (Assegment.mk .asConfedSet · :: followers) (sortValues_eq as)
  | asConfedSequence => rfl
  | asSequence => rfl

/-! ## The pass is the normal form -/

/-- The members of a chain, in all. -/
def held (segments : List Assegment) : Nat := (segments.map (·.as.length)).sum

/-- Nothing is cut off where there is room. -/
theorem append_whole {seg : Assegment} {asnos : List U32}
    (few : seg.as.length + asnos.length < 2 ^ 16) :
    assegmentAppendAsns seg asnos = ⟨seg.type, seg.as ++ asnos⟩ := by
  rw [assegmentAppendAsns, Nat.mod_eq_of_lt few, List.take_of_length_le (by simp)]

/-- Pinning drops duplicates of a set at most. -/
theorem pin_size (seg : Assegment) : (pin seg).as.length ≤ seg.as.length := by
  unfold pin
  split
  · rw [sortValues_eq, List.length_insertionSort]
    exact (List.dedup_sublist _).length_le
  · exact Nat.le_refl _

/-- What stands behind a pinned segment joins it only if both are sequences. -/
theorem normaliseFrom_eq {pinned : Assegment} {rest : List Assegment}
    (few : pinned.as.length + held rest < 2 ^ 16) :
    normaliseFrom pinned rest =
      if pinned.type = .asSequence then normaliseOne pinned (assegmentNormalise rest)
      else pinned :: assegmentNormalise rest := by
  induction rest generalizing pinned with
  | nil =>
    obtain ⟨type, as⟩ := pinned
    cases type <;> rfl
  | cons next rest ih =>
    have behind : pinned.as.length + (next.as.length + held rest) < 2 ^ 16 := few
    change _ = if pinned.type = .asSequence then
      normaliseOne pinned (normaliseOne next (assegmentNormalise rest)) else _
    rw [normaliseFrom]
    split
    · rename_i packable
      obtain ⟨same, sequence⟩ := packable
      obtain ⟨_, members⟩ := pinned
      obtain ⟨_, asnos⟩ := next
      cases same
      cases sequence
      have room : members.length + (asnos.length + held rest) < 2 ^ 16 := behind
      rw [append_whole (show members.length + asnos.length < _ by omega),
        ih (by rw [List.length_append]; omega), if_pos rfl, if_pos rfl]
      exact (normalise_join members asnos rest).symm
    · rename_i apart
      have size := pin_size next
      have step : normaliseFrom (pin next) rest = normaliseOne next (assegmentNormalise rest) := by
        rw [ih (by omega), pin_followers]
      rw [step]
      split
      · rename_i sequence
        have other : next.type ≠ .asSequence :=
          fun same => apart ⟨sequence.trans same.symm, sequence⟩
        obtain ⟨_, members⟩ := pinned
        obtain ⟨type, asnos⟩ := next
        cases sequence
        cases type with
        | asSequence => exact absurd rfl other
        | asSet => rfl
        | asConfedSequence => rfl
        | asConfedSet => rfl
      · rfl

theorem normalisePass_eq {segments : List Assegment} (few : held segments < 2 ^ 16) :
    normalisePass segments = assegmentNormalise segments := by
  cases segments with
  | nil => rfl
  | cons seg rest =>
    have few : seg.as.length + held rest < 2 ^ 16 := few
    have size := pin_size seg
    rw [normalisePass, normaliseFrom_eq (by omega), pin_followers]
    rfl

/-! ## What the chain says is all that counts -/

theorem sort_toFinset (as : List U32) :
    as.toFinset.sort (· ≤ ·) = as.dedup.insertionSort (· ≤ ·) := by
  have strict := sort_strict as
  have same : as.toFinset = (as.dedup.insertionSort (· ≤ ·)).toFinset := by
    ext x
    simp
  rw [same]
  exact (List.toFinset_sort (· ≤ ·) (strict.imp fun less => BitVec.ne_of_lt less)).mpr
    (strict.imp fun less => BitVec.le_of_lt less)

/-- Saying it again is normalising. -/
theorem normalise_said (segments : List Assegment) :
    assegmentNormalise segments = (parts segments).map Part.segment := by
  induction segments with
  | nil => rfl
  | cons seg rest ih =>
    change normaliseOne seg (assegmentNormalise rest) =
      (partsWith seg (parts rest)).map Part.segment
    rw [ih]
    generalize parts rest = behind
    obtain ⟨type, as⟩ := seg
    cases type with
    | asSet => exact congrArg (Assegment.mk .asSet · :: _) (sort_toFinset as).symm
    | asConfedSet => exact congrArg (Assegment.mk .asConfedSet · :: _) (sort_toFinset as).symm
    | asConfedSequence => rfl
    | asSequence => rcases behind with _ | ⟨_ | _ | _ | _, behind⟩ <;> rfl

/-- Normalising changes nothing about what is said. -/
theorem parts_normalise (segments : List Assegment) :
    parts (assegmentNormalise segments) = parts segments := by
  induction segments with
  | nil => rfl
  | cons seg rest ih =>
    have step (followers : List Assegment) :
        parts (normaliseOne seg followers) = partsWith seg (parts followers) := by
      obtain ⟨type, as⟩ := seg
      cases type with
      | asSet => exact congrArg (Part.set · :: parts followers) (by ext; simp)
      | asConfedSet => exact congrArg (Part.confedSet · :: parts followers) (by ext; simp)
      | asConfedSequence => rfl
      | asSequence =>
        rcases followers with _ | ⟨⟨_ | _ | _ | _, as'⟩, followers⟩
        · rfl
        · rfl
        · change partsWith ⟨.asSequence, as ++ as'⟩ (parts followers) =
            partsWith ⟨.asSequence, as⟩ (partsWith ⟨.asSequence, as'⟩ (parts followers))
          generalize parts followers = behind
          rcases behind with _ | ⟨_ | _ | _ | _, behind⟩ <;> simp [partsWith]
        · rfl
        · rfl
    exact (step _).trans (congrArg (partsWith seg) ih)

/-- There are not more members than before. -/
theorem held_normalise (segments : List Assegment) :
    held (assegmentNormalise segments) ≤ held segments := by
  induction segments with
  | nil => exact Nat.le_refl _
  | cons seg rest ih =>
    have step (followers : List Assegment) :
        held (normaliseOne seg followers) ≤ seg.as.length + held followers := by
      obtain ⟨type, as⟩ := seg
      have fewer := (List.dedup_sublist as).length_le
      cases type with
      | asSet => simpa [normaliseOne, held] using fewer
      | asConfedSet => simpa [normaliseOne, held] using fewer
      | asConfedSequence => exact Nat.le_refl _
      | asSequence =>
        rcases followers with _ | ⟨⟨_ | _ | _ | _, as'⟩, followers⟩ <;>
          simp [normaliseOne, held, Nat.add_assoc]
    exact (step _).trans (Nat.add_le_add_left ih _)

/-- The pass gives every chain its one normal form: no two sequences next to each other, sets
in order, the same parts, and nothing left to do. The bounds keep the joined sequences
within the sixteen bits of their length. -/
theorem normalisePass_canonical (segments segments' : List Assegment)
    (filled : ∀ seg ∈ segments, seg.as ≠ []) (few : held segments ≤ 65535)
    (few' : held segments' ≤ 65535) :
    (normalisePass segments).IsChain Unjoinable ∧
    (∀ seg ∈ normalisePass segments, seg.type = .asSet ∨ seg.type = .asConfedSet →
      seg.as.Pairwise (· < ·)) ∧
    parts (normalisePass segments) = parts segments ∧
    normalisePass (normalisePass segments) = normalisePass segments ∧
    (normalisePass segments = normalisePass segments' ↔ parts segments = parts segments') := by
  have normal := assegmentNormalise_normal filled
  have size := held_normalise segments
  rw [@normalisePass_eq segments (by omega), @normalisePass_eq segments' (by omega),
    @normalisePass_eq (assegmentNormalise segments) (by omega)]
  refine ⟨normal.apart, normal.sorted, parts_normalise segments, normal.fixed, ?_⟩
  constructor
  · intro same
    rw [← parts_normalise, same, parts_normalise]
  · intro same
    rw [normalise_said, normalise_said, same]

theorem normalisePass_canonical_split :
    parts [⟨.asSequence, [1]⟩, ⟨.asSequence, [2]⟩, ⟨.asSet, [4, 3]⟩] =
        parts [⟨.asSequence, [1, 2]⟩, ⟨.asSet, [3, 4]⟩] ∧
      normalisePass [⟨.asSequence, [1]⟩, ⟨.asSequence, [2]⟩, ⟨.asSet, [4, 3]⟩] =
        normalisePass [⟨.asSequence, [1, 2]⟩, ⟨.asSet, [3, 4]⟩] := by
  have same : parts [⟨.asSequence, [1]⟩, ⟨.asSequence, [2]⟩, ⟨.asSet, [4, 3]⟩] =
      parts [⟨.asSequence, [1, 2]⟩, ⟨.asSet, [3, 4]⟩] :=
    congrArg (fun set => [Part.sequence [1, 2], Part.set set])
      (show ([4, 3] : List U32).toFinset = [3, 4].toFinset by decide)
  have canonical := normalisePass_canonical
    [⟨.asSequence, [1]⟩, ⟨.asSequence, [2]⟩, ⟨.asSet, [4, 3]⟩]
    [⟨.asSequence, [1, 2]⟩, ⟨.asSet, [3, 4]⟩] (by decide) (by decide) (by decide)
  exact ⟨same, canonical.2.2.2.2.mpr same⟩

end Bgpd.PathNormal
