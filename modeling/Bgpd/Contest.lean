import Mathlib.Data.List.Lex
import Mathlib.Data.List.MinMax
import Mathlib.Data.List.Perm.Basic
import Mathlib.Order.Basic

/-!
# Contests

A contest goes over its entrants once and holds one of them, which gives way to a
later one where a comparison prefers it. The comparison need not be an order. An
entrant that is preferred to every other wins whatever the order is; and if of any
two distinct entrants exactly one is preferred, then nothing less than that makes
the winner independent of the order.
-/

namespace Bgpd.Contest

variable {α : Type} (prefers : α → α → Bool)

/-- The entrant that is held at the end. -/
def champion : α → List α → α
  | held, [] => held
  | held, entrant :: later => champion (if prefers entrant held then entrant else held) later

/-- The winner among all entrants. -/
def winner : List α → Option α
  | [] => none
  | first :: later => some (champion prefers first later)

/-- The entrant is preferred to every other. -/
def Leads (entrants : List α) (best : α) : Prop :=
  best ∈ entrants ∧ ∀ other ∈ entrants, other ≠ best →
    prefers best other = true ∧ prefers other best = false

/-- Of two distinct entrants one is preferred. -/
def Decided (entrants : List α) : Prop :=
  ∀ left ∈ entrants, ∀ right ∈ entrants, left ≠ right → prefers left right = !prefers right left

variable {prefers}

theorem champion_append (held : α) (entrants : List α) (last : α) :
    champion prefers held (entrants ++ [last]) =
      if prefers last (champion prefers held entrants) then last
      else champion prefers held entrants := by
  induction entrants generalizing held with
  | nil => rfl
  | cons entrant later ih => exact ih _

theorem champion_mem (held : α) (entrants : List α) :
    champion prefers held entrants ∈ held :: entrants := by
  induction entrants generalizing held with
  | nil => exact List.mem_singleton_self held
  | cons entrant later ih =>
    have among := ih (if prefers entrant held then entrant else held)
    rw [champion]
    rcases List.mem_cons.mp among with same | behind
    · rw [same]
      split
      · exact .tail _ List.mem_cons_self
      · exact List.mem_cons_self
    · exact .tail _ (.tail _ behind)

variable {entrants : List α} {best : α}

theorem winner_mem (won : winner prefers entrants = some best) : best ∈ entrants := by
  cases entrants with
  | nil => cases won
  | cons first later =>
    rw [← Option.some.inj won]
    exact champion_mem first later

theorem exists_winner (filled : entrants ≠ []) : ∃ best, winner prefers entrants = some best := by
  cases entrants with
  | nil => exact absurd rfl filled
  | cons first later => exact ⟨_, rfl⟩

theorem Leads.of_perm {entrants' : List α} (leads : Leads prefers entrants best)
    (permuted : entrants'.Perm entrants) : Leads prefers entrants' best :=
  ⟨permuted.mem_iff.mpr leads.1, fun other member => leads.2 other (permuted.mem_iff.mp member)⟩

/-- Whoever leads holds the contest once it has entered. -/
theorem Leads.champion {held : α} (leads : Leads prefers (held :: entrants) best) :
    champion prefers held entrants = best := by
  induction entrants generalizing held with
  | nil => exact (List.mem_singleton.mp leads.1).symm
  | cons entrant later ih =>
    obtain ⟨among, beats⟩ := leads
    refine ih ⟨?_, fun other member => beats other ?_⟩
    · rcases List.mem_cons.mp among with rfl | behind
      · by_cases same : entrant = best
        · rw [same, ite_self]
          exact List.mem_cons_self
        · have loses := (beats entrant (.tail _ List.mem_cons_self) same).2
          rw [loses]
          exact List.mem_cons_self
      · rcases List.mem_cons.mp behind with rfl | later
        · by_cases same : held = best
          · rw [same, ite_self]
            exact List.mem_cons_self
          · have wins := (beats held List.mem_cons_self same).1
            rw [wins]
            exact List.mem_cons_self
        · exact .tail _ later
    · rcases List.mem_cons.mp member with rfl | behind
      · split
        · exact .tail _ List.mem_cons_self
        · exact List.mem_cons_self
      · exact .tail _ (.tail _ behind)

/-- Whoever leads wins. -/
theorem Leads.wins (leads : Leads prefers entrants best) : winner prefers entrants = some best := by
  cases entrants with
  | nil => exact absurd leads.1 List.not_mem_nil
  | cons first later => exact congrArg some leads.champion

theorem winner_append (entrants : List α) (last : α) :
    winner prefers (entrants ++ [last]) =
      match winner prefers entrants with
      | none => some last
      | some held => some (if prefers last held then last else held) := by
  cases entrants with
  | nil => rfl
  | cons first later => exact congrArg some (champion_append first later last)

/-- What the comparison does not look at may be changed. -/
theorem winner_map (change : α → α)
    (blind : ∀ left right, prefers (change left) (change right) = prefers left right)
    (entrants : List α) :
    winner prefers (entrants.map change) = (winner prefers entrants).map change := by
  have held (first : α) (later : List α) :
      champion prefers (change first) (later.map change) =
          change (champion prefers first later) := by
    induction later generalizing first with
    | nil => rfl
    | cons entrant later ih =>
      rw [List.map_cons, champion, champion, blind, ← ih]
      split <;> rfl
  cases entrants with
  | nil => rfl
  | cons first later => exact congrArg some (held first later)

/-- Where the comparison never goes against a key, the winner has the least one. -/
theorem winner_least {β : Type} [Preorder β] (key : α → β)
    (wins : ∀ left right, prefers left right = true → key left ≤ key right)
    (loses : ∀ left right, prefers left right = false → key right ≤ key left)
    (won : winner prefers entrants = some best) : ∀ other ∈ entrants, key best ≤ key other := by
  have least (held : α) (later : List α) :
      ∀ other ∈ held :: later, key (champion prefers held later) ≤ key other := by
    induction later generalizing held with
    | nil => simp [champion]
    | cons entrant later ih =>
      intro other member
      by_cases better : prefers entrant held = true
      · rw [champion, if_pos better]
        rcases List.mem_cons.mp member with rfl | behind
        · exact (ih entrant _ List.mem_cons_self).trans (wins _ _ better)
        · exact ih entrant other behind
      · rw [champion, if_neg better]
        have beaten := loses entrant held (Bool.eq_false_iff.mpr better)
        rcases List.mem_cons.mp member with rfl | behind
        · exact ih other other List.mem_cons_self
        · rcases List.mem_cons.mp behind with rfl | inside
          · exact (ih held _ List.mem_cons_self).trans beaten
          · exact ih held other (.tail _ inside)
  cases entrants with
  | nil => cases won
  | cons first later => exact Option.some.inj won ▸ least first later

/-- Whoever wins in every order leads, because any other entrant may come last. -/
theorem leads_of_wins (decided : Decided prefers entrants)
    (wins : ∀ entrants' : List α, entrants'.Perm entrants → winner prefers entrants' = some best) :
    Leads prefers entrants best := by
  classical
  have among : best ∈ entrants := winner_mem (wins entrants (List.Perm.refl _))
  refine ⟨among, fun other member different => ?_⟩
  have moved : (entrants.erase other ++ [other]).Perm entrants :=
    (List.perm_append_singleton other _).trans (List.perm_cons_erase member).symm
  have last := wins _ moved
  rw [winner_append] at last
  have loses : prefers other best = false := by
    split at last
    · exact absurd (Option.some.inj last) different
    · rename_i held _
      by_cases preferred : prefers other held = true
      · rw [if_pos preferred] at last
        exact absurd (Option.some.inj last) different
      · rw [if_neg preferred] at last
        rw [← Option.some.inj last]
        exact Bool.eq_false_iff.mpr preferred
  rw [decided best among other member different.symm, loses]
  exact ⟨rfl, rfl⟩

/-- Where the comparison follows a key that tells the entrants apart, the entrant with
the least key leads. -/
theorem leads_of_key {β : Type} [LinearOrder β] (key : α → β) (filled : entrants ≠ [])
    (follows : ∀ left ∈ entrants, ∀ right ∈ entrants, left ≠ right →
      key left ≠ key right ∧ (prefers left right = true ↔ key left < key right)) :
    ∃ best, Leads prefers entrants best := by
  classical
  cases least : entrants.argmin key with
  | none => exact absurd (List.argmin_eq_none.mp least) filled
  | some best =>
    have among := List.argmin_mem least
    refine ⟨best, among, fun other member different => ?_⟩
    obtain ⟨apart, wins⟩ := follows best among other member different.symm
    obtain ⟨_, loses⟩ := follows other member best among different
    have below : key best < key other := lt_of_le_of_ne (List.le_of_mem_argmin member least) apart
    exact ⟨wins.mpr below, Bool.eq_false_iff.mpr fun preferred => below.asymm (loses.mp preferred)⟩

end Bgpd.Contest
