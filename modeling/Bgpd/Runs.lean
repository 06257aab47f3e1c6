import Mathlib.Tactic

/-!
# Runs of a deterministic machine

A machine is a state type and a total step function that takes an action. A
run folds a list of actions, oldest first. Two rules carry a property over a
run: one for a property every step preserves, and one for a property that is
only preserved by steps taken under a guard, in which case every step of the
run has to meet the guard in the state in which it is taken.

The guard is a condition on the state before a step and on the action, so it
never looks at the state the step produces.
-/

namespace Bgpd.Runs

universe u v
variable {σ : Type u} {α : Type v}
variable (step : σ → α → σ) (guard : σ → α → Prop) (s : σ)

/-- The state after the actions, taken oldest first. -/
def run (step : σ → α → σ) (start : σ) (actions : List α) : σ := actions.foldl step start

/-- Every action meets the guard in the state in which it is taken. -/
def Guarded (step : σ → α → σ) (guard : σ → α → Prop) : σ → List α → Prop
  | _, [] => True
  | s, action :: rest => guard s action ∧ Guarded step guard (step s action) rest

@[simp] theorem run_nil : run step s [] = s := rfl

@[simp] theorem run_cons (action : α) (rest : List α) :
    run step s (action :: rest) = run step (step s action) rest := rfl

theorem run_append (first second : List α) :
    run step s (first ++ second) = run step (run step s first) second :=
  List.foldl_append

/-- Two machines that run beside each other. -/
theorem run_both {τ : Type*} (first : σ → α → σ) (second : τ → α → τ) (s : σ) (t : τ)
    (actions : List α) :
    run (fun both action => (first both.1 action, second both.2 action)) (s, t) actions =
      (run first s actions, run second t actions) := by
  induction actions generalizing s t with
  | nil => rfl
  | cons action rest ih => exact ih (first s action) (second t action)

/-- A guarded run can be cut at any point; both halves are guarded, the second
from the state the first one reaches. -/
theorem guarded_append (first second : List α) :
    Guarded step guard s (first ++ second) ↔
      Guarded step guard s first ∧ Guarded step guard (run step s first) second := by
  induction first generalizing s with
  | nil => simp [Guarded]
  | cons action rest ih => simp [Guarded, ih, run_cons, and_assoc]

/-- A guard that looks at one of two machines is a guard of that machine. -/
theorem guarded_both {τ : Type*} (first : σ → α → σ) (second : τ → α → τ) (guard : σ → α → Prop)
    (s : σ) (t : τ) (actions : List α) :
    Guarded (fun both action => (first both.1 action, second both.2 action))
        (fun both action => guard both.1 action) (s, t) actions ↔
          Guarded first guard s actions := by
  induction actions generalizing s t with
  | nil => exact Iff.rfl
  | cons action rest ih => exact and_congr_right fun _ => ih (first s action) (second t action)

/-- Where two machines take the same guarded steps, the guard is met all along the one run
exactly if it is met along the other. -/
theorem guarded_congr (step' : σ → α → σ) (inv : σ → Prop)
    (preserved : ∀ s action, inv s → inv (step s action))
    (same : ∀ s action, inv s → guard s action → step s action = step' s action) (s : σ)
    (actions : List α) (initially : inv s) :
    Guarded step guard s actions ↔ Guarded step' guard s actions := by
  induction actions generalizing s with
  | nil => exact Iff.rfl
  | cons action rest ih =>
    refine and_congr_right fun met => ?_
    rw [← same s action initially met]
    exact ih (step s action) (preserved s action initially)

/-- A property that every guarded step preserves holds at the end of every
guarded run from a state that has it. -/
theorem guarded_invariant (inv : σ → Prop)
    (preserved : ∀ s action, inv s → guard s action → inv (step s action)) (s : σ)
    (actions : List α) (initially : inv s) (guarded : Guarded step guard s actions) :
    inv (run step s actions) := by
  induction actions generalizing s with
  | nil => exact initially
  | cons action rest ih =>
    exact ih (step s action) (preserved s action initially guarded.1) guarded.2

/-- A property that every step preserves holds at the end of every run. -/
theorem invariant (inv : σ → Prop) (preserved : ∀ s action, inv s → inv (step s action)) (s : σ)
    (actions : List α) (initially : inv s) : inv (run step s actions) := by
  induction actions generalizing s with
  | nil => exact initially
  | cons action rest ih => exact ih (step s action) (preserved s action initially)

/-- Where a step keeps a property exactly under the guard, the property holds in every
state of a run exactly if all its steps meet the guard. -/
theorem everywhere_iff_guarded (inv holds : σ → Prop)
    (preserved : ∀ s action, inv s → inv (step s action))
    (exact : ∀ s action, inv s → holds s → (holds (step s action) ↔ guard s action)) (s : σ)
    (actions : List α) (initially : inv s) (start : holds s) :
    (∀ front later, actions = front ++ later → holds (run step s front)) ↔
      Guarded step guard s actions := by
  constructor
  · intro everywhere
    induction actions generalizing s with
    | nil => trivial
    | cons action rest ih =>
      have next : holds (step s action) := everywhere [action] rest rfl
      refine ⟨(exact s action initially start).mp next, ?_⟩
      refine ih (step s action) (preserved s action initially) next fun front later same => ?_
      exact everywhere (action :: front) later (by rw [same, List.cons_append])
  · intro guarded front later same
    rw [same, guarded_append] at guarded
    refine (guarded_invariant step guard (fun s => inv s ∧ holds s) ?_ s front
      ⟨initially, start⟩ guarded.1).2
    exact fun s action before met =>
      ⟨preserved s action before.1, (exact s action before.1 before.2).mpr met⟩

end Bgpd.Runs
