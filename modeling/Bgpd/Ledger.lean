import Mathlib.Algebra.BigOperators.Group.List.Basic
import Mathlib.Algebra.Group.Pi.Basic
import Mathlib.Tactic.Abel

/-!
# Ledgers of references

A program takes references to things and releases them. The ledger has, for each thing,
how often it was taken less how often it was released, so that what is left of a thing is
what some holder still has to give back. Taking and releasing are additions, so their order
does not matter, and the balance of a piece of code is a ledger of its own.
-/

namespace Bgpd.References

universe u
variable {α : Type u} [DecidableEq α]

/-- For each thing how many references to it are left. -/
abbrev Ledger (α : Type u) := α → ℤ

/-- One reference to a thing. -/
def one (a : α) : Ledger α := fun b => if b = a then 1 else 0

theorem one_same (a : α) : one a a = 1 := if_pos rfl

theorem one_apart {a b : α} (apart : b ≠ a) : one a b = 0 := if_neg apart

/-- A reference is taken. -/
def take (ledger : Ledger α) (a : α) : Ledger α := ledger + one a

/-- A reference is released. -/
def giveBack (ledger : Ledger α) (a : α) : Ledger α := ledger - one a

/-- What holders of the given things have. -/
def holding (things : List α) : Ledger α := (things.map one).sum

@[simp] theorem holding_nil : holding ([] : List α) = 0 := rfl

@[simp] theorem holding_cons (a : α) (things : List α) :
    holding (a :: things) = one a + holding things := by
  simp [holding]

theorem holding_append (things things' : List α) :
    holding (things ++ things') = holding things + holding things' := by
  simp [holding]

/-- The order in which things are held does not matter. -/
theorem holding_perm {things things' : List α} (perm : things.Perm things') :
    holding things = holding things' :=
  (perm.map one).sum_eq

theorem holding_nonneg (things : List α) (a : α) : 0 ≤ holding things a := by
  induction things with
  | nil => exact Int.le_refl 0
  | cons first later ih =>
    rw [holding_cons, Pi.add_apply]
    have own : 0 ≤ one first a := by
      unfold one
      split <;> omega
    omega

/-- Whoever holds something holds a reference. -/
theorem holding_ne_zero {things : List α} (any : things ≠ []) : holding things ≠ 0 := by
  cases things with
  | nil => exact absurd rfl any
  | cons a later =>
    intro none
    have count := congrFun none a
    rw [holding_cons, Pi.add_apply, one_same, Pi.zero_apply] at count
    have rest := holding_nonneg later a
    omega

/-- What is taken and released leaves nothing. -/
@[simp] theorem giveBack_take (ledger : Ledger α) (a : α) :
    giveBack (take ledger a) a = ledger := by
  simp [giveBack, take]

end Bgpd.References
