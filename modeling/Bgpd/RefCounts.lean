import Mathlib.Data.List.Count

/-!
# Counted references

A table says of every content how many references there are to the object that
holds it; where there is no such object, there are none. Code that takes references
owes them back: a table is what it was exactly when nothing is owed.
-/

namespace Bgpd.RefCounts

variable {α : Type} [DecidableEq α]

/-- One more reference. -/
def take (table : α → Nat) (content : α) : α → Nat := fun other =>
  if other = content then table other + 1 else table other

/-- One reference less, if there is one. -/
def give (table : α → Nat) (content : α) : α → Nat := fun other =>
  if other = content then table other - 1 else table other

/-- The object with this content is no longer in the table. -/
def forget (table : α → Nat) (content : α) : α → Nat := fun other =>
  if other = content then 0 else table other

/-- References that are taken one after the other. -/
def takeAll (table : α → Nat) (contents : List α) : α → Nat := contents.foldl take table

/-- References that are given back one after the other. -/
def giveAll (table : α → Nat) (contents : List α) : α → Nat := contents.foldl give table

theorem takeAll_apply (table : α → Nat) (contents : List α) (content : α) :
    takeAll table contents content = table content + contents.count content := by
  induction contents generalizing table with
  | nil => rfl
  | cons first later ih =>
    refine (ih (take table first)).trans ?_
    rw [List.count_cons, take]
    by_cases same : content = first
    · rw [if_pos same, if_pos (beq_iff_eq.mpr same.symm), Nat.add_assoc, Nat.add_comm 1]
    · rw [if_neg same, if_neg fun other => same (beq_iff_eq.mp other).symm, Nat.add_zero]

theorem giveAll_apply (table : α → Nat) (contents : List α) (content : α) :
    giveAll table contents content = table content - contents.count content := by
  induction contents generalizing table with
  | nil => rfl
  | cons first later ih =>
    refine (ih (give table first)).trans ?_
    rw [List.count_cons, give]
    by_cases same : content = first
    · rw [if_pos same, if_pos (beq_iff_eq.mpr same.symm), Nat.sub_sub, Nat.add_comm 1]
    · rw [if_neg same, if_neg fun other => same (beq_iff_eq.mp other).symm, Nat.add_zero]

/-- Objects that are taken out of the table one after the other. -/
def forgetAll (table : α → Nat) (contents : List α) : α → Nat := contents.foldl forget table

theorem forgetAll_apply (table : α → Nat) (contents : List α) (content : α) :
    forgetAll table contents content = if content ∈ contents then 0 else table content := by
  induction contents generalizing table with
  | nil => rfl
  | cons first later ih =>
    refine (ih (forget table first)).trans ?_
    unfold forget
    by_cases behind : content ∈ later
    · rw [if_pos behind, if_pos (List.mem_cons_of_mem first behind)]
    · by_cases same : content = first
      · rw [if_neg behind, if_pos same, if_pos (same ▸ List.mem_cons_self)]
      · rw [if_neg behind, if_neg same, if_neg fun among =>
          (List.mem_cons.mp among).elim same behind]

/-- The second table has the references of the first one and those that are owed. -/
def Owes (before after : α → Nat) (owed : List α) : Prop :=
  ∀ content, after content = before content + owed.count content

namespace Owes

variable {before after : α → Nat} {owed owed' : List α}

theorem refl (table : α → Nat) : Owes table table [] := fun _ => rfl

theorem congr (owes : Owes before after owed)
    (same : ∀ content, owed.count content = owed'.count content) : Owes before after owed' :=
  fun content => (owes content).trans (congrArg (before content + ·) (same content))

theorem perm (owes : Owes before after owed) (permuted : owed.Perm owed') :
    Owes before after owed' := owes.congr fun content => permuted.count_eq content

theorem takeAll (owes : Owes before after owed) (more : List α) :
    Owes before (takeAll after more) (owed ++ more) := by
  intro content
  rw [takeAll_apply, owes content, List.count_append, Nat.add_assoc]

theorem giveAll {rest : List α} (owes : Owes before after (rest ++ owed)) :
    Owes before (giveAll after owed) rest := by
  intro content
  rw [giveAll_apply, owes content, List.count_append, ← Nat.add_assoc, Nat.add_sub_cancel]

/-- The table is what it was exactly when nothing is owed. -/
theorem eq_iff (owes : Owes before after owed) : after = before ↔ owed = [] := by
  constructor
  · intro same
    rw [List.eq_nil_iff_forall_not_mem]
    intro content among
    have counted := owes content
    rw [same] at counted
    have some_ : 0 < owed.count content := List.count_pos_iff.mpr among
    omega
  · rintro rfl
    exact funext owes

end Owes

end Bgpd.RefCounts
