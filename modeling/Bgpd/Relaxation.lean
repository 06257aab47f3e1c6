import Mathlib.Order.Bounds.Basic

/-!
# Least distances

Every place may hold a distance. Where no link could improve one, and each one but
the origin's came over a link from a smaller one, the distances are the least sums
of weights over the walks from the origin. The places need not be finitely many.
-/

namespace Bgpd.Relaxation

variable {ι : Type} {weight : ι → ι → Option Nat} {origin : ι} {start : Nat}
  {distance : ι → Option Nat}

/-- A walk from the origin, with the sum of its weights on top of what it starts with. -/
inductive Walk (weight : ι → ι → Option Nat) (origin : ι) (start : Nat) : ι → Nat → Prop
  | nil : Walk weight origin start origin start
  | snoc {i j : ι} {sum step : Nat} : Walk weight origin start i sum → weight i j = some step →
      Walk weight origin start j (sum + step)

/-- The distances do not change any more. -/
structure Settled (weight : ι → ι → Option Nat) (origin : ι) (start : Nat)
    (distance : ι → Option Nat) : Prop where
  source : ∃ d ≤ start, distance origin = some d
  supported : ∀ j d, distance j = some d → (j = origin ∧ d = start) ∨
    ∃ i before step, distance i = some before ∧ weight i j = some step ∧ 0 < step ∧
      d = before + step
  relaxed : ∀ i j before step, distance i = some before → weight i j = some step →
    ∃ d ≤ before + step, distance j = some d

/-- A distance is the sum of a walk. -/
theorem Settled.walk (settled : Settled weight origin start distance) (d : Nat) :
    ∀ j, distance j = some d → Walk weight origin start j d := by
  induction d using Nat.strong_induction_on with
  | _ d shorter =>
    intro j held
    rcases settled.supported j d held with ⟨rfl, rfl⟩ | ⟨i, before, step, behind, link, grows, rfl⟩
    · exact Walk.nil
    · exact (shorter before (by omega) i behind).snoc link

/-- No walk has a smaller sum than the distance. -/
theorem Settled.below (settled : Settled weight origin start distance) {j : ι} {sum : Nat}
    (walk : Walk weight origin start j sum) : ∃ d ≤ sum, distance j = some d := by
  induction walk with
  | nil => exact settled.source
  | snoc walk link ih =>
    obtain ⟨before, least, held⟩ := ih
    obtain ⟨d, improved, held'⟩ := settled.relaxed _ _ before _ held link
    exact ⟨d, by omega, held'⟩

/-- The distances are the least sums of walks. -/
theorem Settled.least_iff (settled : Settled weight origin start distance) (j : ι) (d : Nat) :
    distance j = some d ↔ IsLeast {sum | Walk weight origin start j sum} d := by
  constructor
  · intro held
    refine ⟨settled.walk d j held, fun sum walk => ?_⟩
    obtain ⟨d', least, held'⟩ := settled.below walk
    have same : d = d' := Option.some.inj (held.symm.trans held')
    omega
  · rintro ⟨walk, least⟩
    obtain ⟨d', below, held⟩ := settled.below walk
    have above := least (settled.walk d' j held)
    have same : d' = d := by omega
    rw [held, same]

end Bgpd.Relaxation
