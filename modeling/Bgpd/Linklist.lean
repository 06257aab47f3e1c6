import Mathlib.Data.List.TakeWhile
import Mathlib.Order.Basic

/-!
# Linked lists

The lists of the library that all daemons share. `listnode_add_sort` asks a
comparison function where a value belongs, and the list stays in order exactly
when the answers are right up to the place it finds.
-/

namespace Bgpd.Linklist

variable {α : Type}
variable {cmp : α → α → Int} {val n : α} {l : List α}

/-- `listnode_add_sort`: in front of the first element that is compared
greater. -/
def listnodeAddSort (cmp : α → α → Int) : List α → α → List α
  | [], val => [val]
  | n :: rest, val => if cmp val n < 0 then val :: n :: rest else n :: listnodeAddSort cmp rest val

/-- The elements that the value is put behind. -/
def passed (cmp : α → α → Int) (val : α) (l : List α) : List α :=
  l.takeWhile fun n => 0 ≤ cmp val n

/-- The elements that it is put in front of. -/
def kept (cmp : α → α → Int) (val : α) (l : List α) : List α :=
  l.dropWhile fun n => 0 ≤ cmp val n

theorem passed_append_kept (cmp : α → α → Int) (val : α) (l : List α) :
    passed cmp val l ++ kept cmp val l = l :=
  List.takeWhile_append_dropWhile

theorem listnodeAddSort_eq (cmp : α → α → Int) (val : α) (l : List α) :
    listnodeAddSort cmp l val = passed cmp val l ++ val :: kept cmp val l := by
  induction l with
  | nil => rfl
  | cons n rest ih =>
    unfold listnodeAddSort passed kept
    by_cases before : cmp val n < 0
    · simp [before]
    · have behind : 0 ≤ cmp val n := Int.not_lt.mp before
      simp only [if_neg before, ih, List.takeWhile_cons, List.dropWhile_cons, behind, decide_true,
        if_true, List.cons_append]
      rfl

theorem mem_listnodeAddSort :
    n ∈ listnodeAddSort cmp l val ↔ n = val ∨ n ∈ l := by
  rw [listnodeAddSort_eq]
  conv => rhs; rw [← passed_append_kept cmp val l]
  simp only [List.mem_append, List.mem_cons]
  exact or_left_comm

theorem not_before_of_passed (member : n ∈ passed cmp val l) : ¬ cmp val n < 0 := by
  have found := List.mem_takeWhile_imp member
  exact Int.not_lt.mpr (of_decide_eq_true found)

theorem passed_or_kept (member : n ∈ l) : n ∈ passed cmp val l ∨ n ∈ kept cmp val l := by
  rw [← passed_append_kept cmp val l] at member
  exact List.mem_append.mp member

theorem mem_of_passed (member : n ∈ passed cmp val l) : n ∈ l :=
  (List.takeWhile_sublist _).mem member

theorem mem_of_kept (member : n ∈ kept cmp val l) : n ∈ l :=
  (List.dropWhile_sublist _).mem member

/-- An element compared greater is not passed. -/
theorem kept_of_before (member : n ∈ l) (before : cmp val n < 0) : n ∈ kept cmp val l :=
  (passed_or_kept member).resolve_left fun found => not_before_of_passed found before

/-- The first element that is not passed is compared greater. -/
theorem kept_head {first : α} (head : (kept cmp val l).head? = some first) : cmp val first < 0 := by
  have found := List.head?_dropWhile_not (fun n => decide (0 ≤ cmp val n)) l
  have same : (l.dropWhile fun n => 0 ≤ cmp val n).head? = some first := head
  rw [same] at found
  exact Int.not_le.mp (of_decide_eq_false found)

/-- The elements stand in ascending order of a key. -/
def Ascending (key : α → Nat) (l : List α) : Prop :=
  l.Pairwise fun a b => key a ≤ key b

variable {key : α → Nat}

/-- The parts of a list in order are in order. -/
theorem Ascending.split (sorted : Ascending key l) (cmp : α → α → Int) (val : α) :
    Ascending key (passed cmp val l) ∧ Ascending key (kept cmp val l) ∧
      ∀ a ∈ passed cmp val l, ∀ b ∈ kept cmp val l, key a ≤ key b := by
  unfold Ascending at sorted
  rw [← passed_append_kept cmp val l] at sorted
  exact List.pairwise_append.mp sorted

/-- A value added to a list in order leaves it in order exactly when it is not
less than what it passes and not greater than what it does not. -/
theorem listnodeAddSort_ascending_iff (sorted : Ascending key l) :
    Ascending key (listnodeAddSort cmp l val) ↔
      (∀ n ∈ passed cmp val l, key n ≤ key val) ∧ ∀ n ∈ kept cmp val l, key val ≤ key n := by
  obtain ⟨before, behind, across⟩ := sorted.split cmp val
  unfold Ascending
  rw [listnodeAddSort_eq, List.pairwise_append, List.pairwise_cons]
  constructor
  · rintro ⟨_, ⟨greater, _⟩, less⟩
    exact ⟨fun n member => less n member val List.mem_cons_self, greater⟩
  · rintro ⟨less, greater⟩
    refine ⟨before, ⟨greater, behind⟩, fun n member other within => ?_⟩
    rcases List.mem_cons.mp within with rfl | later
    · exact less n member
    · exact across n member other later

/-- The last element of a list in order has the greatest key. -/
theorem Ascending.last (sorted : Ascending key l) {last : α} (found : last ∈ l.getLast?) :
    ∀ n ∈ l, key n ≤ key last := by
  obtain ⟨front, rfl⟩ := List.getLast?_eq_some_iff.mp found
  intro n member
  rcases List.mem_append.mp member with within | same
  · exact (List.pairwise_append.mp sorted).2.2 n within last List.mem_cons_self
  · rw [List.mem_singleton.mp same]

end Bgpd.Linklist
