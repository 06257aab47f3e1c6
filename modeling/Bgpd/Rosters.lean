import Mathlib.Data.List.Nodup
import Mathlib.Data.List.Perm.Basic
import Mathlib.Logic.Function.Basic
import Mathlib.Data.Option.Basic
import Mathlib.Tactic.Basic

/-!
# Lists that others point into

Records sit at places, at most one at each, and every record has an address. A list of
addresses is a roster when it has the address of every record of some kind, once, and
nothing else. When a record comes to a place, or leaves it, the rosters are kept by adding
its address to those of its kind, or by deleting it wherever it may be.
-/

namespace Bgpd.Rosters

open Function (update update_apply update_of_ne update_self)

universe u v w
variable {κ : Type u} {α : Type v} {ι : Type w}

/-- No two places have records with one address. -/
def Distinct (items : κ → Option α) (key : α → ι) : Prop :=
  ∀ ⦃k k' a a'⦄, items k = some a → items k' = some a' → key a = key a' → k = k'

/-- The addresses of the records of a kind. -/
structure Roster (items : κ → Option α) (key : α → ι) (kind : κ → α → Prop) (l : List ι) :
    Prop where
  nodup : l.Nodup
  mem : ∀ i, i ∈ l ↔ ∃ k a, items k = some a ∧ kind k a ∧ key a = i

variable {items : κ → Option α} {key : α → ι} {kind : κ → α → Prop} {l l' : List ι} {k : κ} {a : α}

theorem Distinct.empty : Distinct (fun _ : κ => (none : Option α)) key :=
  fun _ _ _ _ here _ _ => nomatch here

theorem Roster.empty : Roster (fun _ : κ => (none : Option α)) key kind [] where
  nodup := List.nodup_nil
  mem _ := iff_of_false List.not_mem_nil fun ⟨_, _, here, _⟩ => nomatch here

/-- An address that no record has is on no roster. -/
theorem Roster.not_mem (roster : Roster items key kind l) {i : ι}
    (unused : ∀ k a, items k = some a → key a ≠ i) : i ∉ l := by
  intro listed
  obtain ⟨k, a, here, -, address⟩ := (roster.mem i).mp listed
  exact unused k a here address

theorem Roster.listed (roster : Roster items key kind l) (here : items k = some a)
    (ofKind : kind k a) : key a ∈ l :=
  (roster.mem _).mpr ⟨k, a, here, ofKind, rfl⟩

/-- Deleting what has a property that one element has. -/
theorem eraseP_eq_erase [DecidableEq ι] {found : ι → Bool} {i : ι}
    (only : ∀ j ∈ l, found j = true ↔ j = i) : l.eraseP found = l.erase i := by
  induction l with
  | nil => rfl
  | cons j rest ih =>
    have later := ih fun j' member => only j' (List.mem_cons_of_mem _ member)
    by_cases own : j = i
    · rw [List.eraseP_cons_of_pos ((only j List.mem_cons_self).mpr own), own, List.erase_cons_head]
    · rw [List.eraseP_cons_of_neg fun also => own ((only j List.mem_cons_self).mp also), later,
        List.erase_cons_tail fun same => own (beq_iff_eq.mp same)]

variable [DecidableEq κ]

/-- A record with an address of its own comes to a place. -/
theorem Distinct.put (distinct : Distinct items key)
    (unused : ∀ k' a', items k' = some a' → key a' ≠ key a) :
    Distinct (update items k (some a)) key := by
  intro k₁ k₂ a₁ a₂ first second same
  by_cases here : k₁ = k <;> by_cases there : k₂ = k
  · exact here.trans there.symm
  · rw [here, update_self] at first
    rw [update_of_ne there] at second
    cases first
    exact absurd same.symm (unused k₂ a₂ second)
  · rw [update_of_ne here] at first
    rw [there, update_self] at second
    cases second
    exact absurd same (unused k₁ a₁ first)
  · rw [update_of_ne here] at first
    rw [update_of_ne there] at second
    exact distinct first second same

/-- A record leaves its place. -/
theorem Distinct.drop (distinct : Distinct items key) (k : κ) :
    Distinct (update items k none) key := by
  intro k₁ k₂ a₁ a₂ first second same
  rw [update_apply] at first second
  split at first
  · cases first
  · split at second
    · cases second
    · exact distinct first second same

/-- The addresses of a kind, with a record in a place that was empty. -/
theorem address_update (vacant : items k = none) {i : ι} :
    (∃ k' a', update items k (some a) k' = some a' ∧ kind k' a' ∧ key a' = i) ↔
      (kind k a ∧ key a = i) ∨ ∃ k' a', items k' = some a' ∧ kind k' a' ∧ key a' = i := by
  constructor
  · rintro ⟨k', a', there, kind', address⟩
    by_cases here : k' = k
    · rw [here, update_self] at there
      cases there
      exact .inl ⟨here ▸ kind', address⟩
    · rw [update_of_ne here] at there
      exact .inr ⟨k', a', there, kind', address⟩
  · rintro (⟨own, address⟩ | ⟨k', a', there, kind', address⟩)
    · exact ⟨k, a, update_self .., own, address⟩
    · have apart : k' ≠ k := by
        rintro rfl
        rw [vacant] at there
        cases there
      exact ⟨k', a', (update_of_ne apart ..).trans there, kind', address⟩

/-- A record of the kind comes to an empty place, and its address is added. -/
theorem Roster.put (roster : Roster items key kind l) (vacant : items k = none)
    (ofKind : kind k a) (unused : ∀ k' a', items k' = some a' → key a' ≠ key a)
    (added : l'.Perm (key a :: l)) : Roster (update items k (some a)) key kind l' where
  nodup := added.nodup_iff.mpr (List.nodup_cons.mpr ⟨roster.not_mem unused, roster.nodup⟩)
  mem i := by
    rw [added.mem_iff, List.mem_cons, roster.mem, address_update vacant, eq_comm,
      and_iff_right ofKind]

/-- A record of another kind comes to an empty place. -/
theorem Roster.put_other (roster : Roster items key kind l) (vacant : items k = none)
    (other : ¬ kind k a) : Roster (update items k (some a)) key kind l where
  nodup := roster.nodup
  mem i := by
    rw [roster.mem, address_update vacant, or_iff_right fun both => other both.1]

/-- A record leaves its place, and its address is deleted. -/
theorem Roster.drop [DecidableEq ι] (distinct : Distinct items key)
    (roster : Roster items key kind l) (here : items k = some a) :
    Roster (update items k none) key kind (l.erase (key a)) where
  nodup := roster.nodup.erase _
  mem i := by
    rw [roster.nodup.mem_erase_iff, roster.mem]
    constructor
    · rintro ⟨apart, k', a', there, kind', rfl⟩
      have elsewhere : k' ≠ k := by
        rintro rfl
        rw [here] at there
        cases there
        exact apart rfl
      exact ⟨k', a', (update_of_ne elsewhere ..).trans there, kind', rfl⟩
    · rintro ⟨k', a', there, kind', rfl⟩
      rw [update_apply] at there
      split at there
      · cases there
      · rename_i elsewhere
        exact ⟨fun same => elsewhere (distinct there here same), k', a', there, kind', rfl⟩

end Bgpd.Rosters
