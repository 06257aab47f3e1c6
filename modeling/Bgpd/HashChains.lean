import Mathlib.Data.List.Pairwise
import Mathlib.Logic.Function.Basic

/-!
# Chained hash tables

A table files objects in chains, by a key that is computed once and kept beside the
object. A lookup goes along one chain and compares keys before objects.

Objects have a value, and the key is meant to be a function of the value. As long as it
is, and each value is filed once, a lookup finds an object exactly if its value is
filed.
-/

namespace Bgpd.HashChains

open Function (update update_of_ne update_self)

variable {κ α β : Type}

/-- An object in a chain with its key. -/
structure Backet (κ α : Type) where
  key : κ
  data : α
  deriving DecidableEq, Repr

/-- The chains of a table by their index. -/
abbrev Chains (κ α : Type) := Nat → List (Backet κ α)

/-- The comparison along a chain. -/
def meant [DecidableEq κ] (key : κ) (same : α → Bool) (backet : Backet κ α) : Bool :=
  backet.key = key && same backet.data

/-- The first object of a key that is the same. -/
def hashGet [DecidableEq κ] (slot : κ → Nat) (key : κ) (same : α → Bool) (chains : Chains κ α) :
    Option α :=
  ((chains (slot key)).find? (meant key same)).map (·.data)

/-- A new object stands first in its chain. -/
def hashPut (slot : κ → Nat) (key : κ) (data : α) (chains : Chains κ α) : Chains κ α :=
  update chains (slot key) (⟨key, data⟩ :: chains (slot key))

/-- The first object of a key that is the same leaves its chain. -/
def hashRelease [DecidableEq κ] (slot : κ → Nat) (key : κ) (same : α → Bool)
    (chains : Chains κ α) : Option (α × Chains κ α) :=
  ((chains (slot key)).find? (meant key same)).map fun backet =>
    (backet.data,
      update chains (slot key) ((chains (slot key)).eraseP (meant key same)))

/-- The object is in the table. -/
def Holds (chains : Chains κ α) (data : α) : Prop := ∃ i, ∃ backet ∈ chains i, backet.data = data

/-- Each object is filed under the key of its value, and each value once. -/
structure Filed (slot : κ → Nat) (keyOf : β → κ) (view : α → Option β) (chains : Chains κ α) :
    Prop where
  placed : ∀ i, ∀ backet ∈ chains i, ∃ value,
    view backet.data = some value ∧ backet.key = keyOf value ∧ i = slot backet.key
  unique : ∀ i, (chains i).Pairwise fun first second => view first.data ≠ view second.data

variable {slot : κ → Nat} {keyOf : β → κ} {view : α → Option β} {chains : Chains κ α}

theorem Filed.empty : Filed slot keyOf view (fun _ => []) := ⟨nofun, fun _ => List.Pairwise.nil⟩

/-- What is filed depends on the values of the filed objects only. -/
theorem Filed.congr {view' : α → Option β} (filed : Filed slot keyOf view chains)
    (same : ∀ data, Holds chains data → view' data = view data) :
    Filed slot keyOf view' chains where
  placed i backet member := by
    rw [same _ ⟨i, backet, member, rfl⟩]
    exact filed.placed i backet member
  unique i := by
    refine (filed.unique i).imp_of_mem fun first second apart => ?_
    rw [same _ ⟨i, _, first, rfl⟩, same _ ⟨i, _, second, rfl⟩]
    exact apart

/-- A held object stands in the chain of its value. -/
theorem Filed.chain (filed : Filed slot keyOf view chains) {data : α} {value : β}
    (held : Holds chains data) (is : view data = some value) :
    ⟨keyOf value, data⟩ ∈ chains (slot (keyOf value)) := by
  obtain ⟨i, ⟨key, _⟩, member, rfl⟩ := held
  obtain ⟨value', is', rfl, rfl⟩ := filed.placed i _ member
  obtain rfl := Option.some.inj (is'.symm.trans is)
  exact member

/-- Of two held objects with one value both are the same. -/
theorem Filed.injective (filed : Filed slot keyOf view chains) {first second : α}
    (held : Holds chains first) (held' : Holds chains second) (same : view first = view second) :
    first = second := by
  obtain ⟨i, backet, member, rfl⟩ := id held
  obtain ⟨value, is, _⟩ := filed.placed i backet member
  have here := filed.chain held is
  have there := filed.chain held' (same ▸ is)
  by_contra apart
  have : Std.Symm fun first second : Backet κ α => view first.data ≠ view second.data :=
    ⟨fun _ _ other equal => other equal.symm⟩
  refine (filed.unique _).forall here there (fun equal => ?_) same
  exact apart (congrArg (·.data) equal)

theorem holds_put (key : κ) (data other : α) :
    Holds (hashPut slot key data chains) other ↔ Holds chains other ∨ other = data := by
  unfold Holds hashPut
  constructor
  · rintro ⟨i, backet, member, rfl⟩
    by_cases here : i = slot key
    · subst here
      rw [update_self] at member
      rcases List.mem_cons.mp member with rfl | member
      · exact Or.inr rfl
      · exact Or.inl ⟨_, backet, member, rfl⟩
    · rw [update_of_ne here] at member
      exact Or.inl ⟨i, backet, member, rfl⟩
  · rintro (⟨i, backet, member, rfl⟩ | rfl)
    · refine ⟨i, backet, ?_, rfl⟩
      by_cases here : i = slot key
      · subst here
        rw [update_self]
        exact List.mem_cons_of_mem _ member
      · rwa [update_of_ne here]
    · refine ⟨slot key, ⟨key, other⟩, ?_, rfl⟩
      rw [update_self]
      exact List.mem_cons_self

section Lookup

variable [DecidableEq κ] [DecidableEq β]

/-- The object has the value. -/
def valued (view : α → Option β) (value : β) (data : α) : Bool := view data = some value

/-- A lookup finds exactly the object that has the value. -/
theorem Filed.find (filed : Filed slot keyOf view chains) (value : β) (backet : Backet κ α) :
    (chains (slot (keyOf value))).find? (meant (keyOf value) (valued view value)) = some backet ↔
      Holds chains backet.data ∧ view backet.data = some value ∧ backet.key = keyOf value := by
  constructor
  · intro found
    have is := List.find?_some found
    unfold meant valued at is
    rw [Bool.and_eq_true, decide_eq_true_eq, decide_eq_true_eq] at is
    exact ⟨⟨_, backet, List.mem_of_find?_eq_some found, rfl⟩, is.2, is.1⟩
  · rintro ⟨held, is, key⟩
    have here := filed.chain held is
    cases found : (chains (slot (keyOf value))).find? (meant (keyOf value) (valued view value)) with
    | none =>
      have missed := List.find?_eq_none.mp found _ here
      simp [meant, valued, is] at missed
    | some other =>
      have is' := List.find?_some found
      unfold meant valued at is'
      rw [Bool.and_eq_true, decide_eq_true_eq, decide_eq_true_eq] at is'
      have same := filed.injective ⟨_, other, List.mem_of_find?_eq_some found, rfl⟩ held
        (is'.2.trans is.symm)
      obtain ⟨key', data'⟩ := other
      obtain ⟨key'', data''⟩ := backet
      dsimp only at is' key same
      rw [is'.1, key, same]

theorem Filed.get (filed : Filed slot keyOf view chains) (value : β) (data : α) :
    hashGet slot (keyOf value) (valued view value) chains = some data ↔
      Holds chains data ∧ view data = some value := by
  unfold hashGet
  rw [Option.map_eq_some_iff]
  constructor
  · rintro ⟨backet, found, rfl⟩
    obtain ⟨held, is, _⟩ := (filed.find value backet).mp found
    exact ⟨held, is⟩
  · rintro ⟨held, is⟩
    exact ⟨⟨keyOf value, data⟩, (filed.find value _).mpr ⟨held, is, rfl⟩, rfl⟩

variable {value : β} {data : α}

/-- An object whose value is not filed can be filed. -/
theorem Filed.put (filed : Filed slot keyOf view chains) (is : view data = some value)
    (missing : hashGet slot (keyOf value) (valued view value) chains = none) :
    Filed slot keyOf view (hashPut slot (keyOf value) data chains) := by
  have absent (other : α) (held : Holds chains other) : view other ≠ some value := by
    intro is'
    rw [(filed.get value other).mpr ⟨held, is'⟩] at missing
    cases missing
  unfold hashPut
  constructor
  · intro i backet member
    by_cases here : i = slot (keyOf value)
    · subst here
      rw [update_self] at member
      rcases List.mem_cons.mp member with rfl | member
      · exact ⟨value, is, rfl, rfl⟩
      · exact filed.placed _ backet member
    · rw [update_of_ne here] at member
      exact filed.placed i backet member
  · intro i
    by_cases here : i = slot (keyOf value)
    · subst here
      rw [update_self]
      refine List.pairwise_cons.mpr ⟨fun backet member equal => ?_, filed.unique _⟩
      exact absent backet.data ⟨_, backet, member, rfl⟩ (equal.symm.trans is)
    · rw [update_of_ne here]
      exact filed.unique i

/-- A filed object can be released, and nothing else goes with it. -/
theorem Filed.release (filed : Filed slot keyOf view chains) (held : Holds chains data)
    (is : view data = some value) :
    ∃ chains', hashRelease slot (keyOf value) (valued view value) chains = some (data, chains') ∧
      Filed slot keyOf view chains' ∧
      ∀ other, Holds chains' other ↔ Holds chains other ∧ other ≠ data := by
  have found := (filed.find value ⟨keyOf value, data⟩).mpr ⟨held, is, rfl⟩
  refine ⟨update chains (slot (keyOf value))
    ((chains (slot (keyOf value))).eraseP (meant (keyOf value) (valued view value))), ?_, ?_, ?_⟩
  · unfold hashRelease
    rw [found]
    rfl
  · constructor
    · intro i backet member
      by_cases here : i = slot (keyOf value)
      · subst here
        rw [update_self] at member
        exact filed.placed _ backet (List.mem_of_mem_eraseP member)
      · rw [update_of_ne here] at member
        exact filed.placed i backet member
    · intro i
      by_cases here : i = slot (keyOf value)
      · subst here
        rw [update_self]
        exact (filed.unique _).sublist List.eraseP_sublist
      · rw [update_of_ne here]
        exact filed.unique i
  · obtain ⟨_, first, rest, shape, before⟩ := List.find?_eq_some_iff_append.mp found
    have erased : (chains (slot (keyOf value))).eraseP (meant (keyOf value) (valued view value)) =
        first ++ rest := by
      rw [shape,
        List.eraseP_append_right _ (fun other member => by simpa using before other member),
        List.eraseP_cons_of_pos (by assumption)]
    have apart := filed.unique (slot (keyOf value))
    rw [shape] at apart
    intro other
    constructor
    · rintro ⟨i, backet, member, rfl⟩
      by_cases here : i = slot (keyOf value)
      · subst here
        rw [update_self, erased] at member
        refine ⟨⟨slot (keyOf value), backet, ?_, rfl⟩, fun equal => ?_⟩
        · rw [shape]
          rcases List.mem_append.mp member with member | member
          · exact List.mem_append_left _ member
          · exact List.mem_append_right _ (List.mem_cons_of_mem _ member)
        · rcases List.mem_append.mp member with member | member
          · exact (List.pairwise_append.mp apart).2.2 backet member _ List.mem_cons_self
              (congrArg view equal)
          · exact (List.pairwise_cons.mp (List.pairwise_append.mp apart).2.1).1 backet member
              (congrArg view equal.symm)
      · rw [update_of_ne here] at member
        refine ⟨⟨i, backet, member, rfl⟩, fun equal => ?_⟩
        obtain ⟨value', is', key, place⟩ := filed.placed i backet member
        rw [equal, is] at is'
        obtain rfl := Option.some.inj is'
        exact here (place.trans (congrArg slot key))
    · rintro ⟨⟨i, backet, member, rfl⟩, other⟩
      refine ⟨i, backet, ?_, rfl⟩
      by_cases here : i = slot (keyOf value)
      · subst here
        rw [update_self, erased]
        rw [shape] at member
        rcases List.mem_append.mp member with member | member
        · exact List.mem_append_left _ member
        · rcases List.mem_cons.mp member with rfl | member
          · exact absurd rfl other
          · exact List.mem_append_right _ member
      · rwa [update_of_ne here]

end Lookup

end Bgpd.HashChains
