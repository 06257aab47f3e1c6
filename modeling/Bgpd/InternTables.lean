import Bgpd.WorkingCopy

/-!
# One object for each value

Interning promises that equal shared objects are one object, so that comparing
two pointers compares what they lead to. Objects are equal when a view of them is:
what an intern table compares may leave something out.

The promise is an invariant of the operations on a store. Whatever interning
does, the objects that were shared stay where they are and keep their view.
-/

namespace Bgpd.InternTables

open Interning WorkingCopy

variable {α β : Type} {view : α → β} {same : α → α → Bool}
variable {s t : Store α}

/-- Shared objects with the same view are one object. -/
def Canonical (view : α → β) (s : Store α) : Prop :=
  ∀ ⦃address other count count' value value'⦄,
    s.cells address = some ⟨count + 1, value⟩ → s.cells other = some ⟨count' + 1, value'⟩ →
      view value = view value' → address = other

/-- Shared objects stay shared, and keep their view. -/
def Retains (view : α → β) (s t : Store α) : Prop :=
  ∀ ⦃address count value⦄, s.cells address = some ⟨count + 1, value⟩ →
    ∃ count' value', t.cells address = some ⟨count' + 1, value'⟩ ∧ view value' = view value

/-- The comparison of a table goes by the view. -/
def Compares (view : α → β) (same : α → α → Bool) : Prop :=
  ∀ first second, same first second = true ↔ view first = view second

theorem Retains.refl (s : Store α) : Retains view s s := fun _ _ _ live => ⟨_, _, live, rfl⟩

variable {u : Store α}

theorem Retains.trans (first : Retains view s t) (second : Retains view t u) :
    Retains view s u := by
  intro address count value live
  obtain ⟨count', value', live', kept⟩ := first live
  obtain ⟨count'', value'', live'', kept'⟩ := second live'
  exact ⟨count'', value'', live'', kept'.trans kept⟩

/-- No shared object appears. -/
theorem Canonical.of_retained (canonical : Canonical view s) (retained : Retains view t s) :
    Canonical view t := by
  intro address other count count' value value' live live' equal
  obtain ⟨_, _, before, kept⟩ := retained live
  obtain ⟨_, _, before', kept'⟩ := retained live'
  exact canonical before before' (kept.trans (equal.trans kept'.symm))

variable {address count : Nat} {value : α}

/-- One shared object appears, and none had its view. -/
theorem Canonical.of_new (canonical : Canonical view s)
    (here : t.cells address = some ⟨count, value⟩)
    (elsewhere : ∀ other, other ≠ address → t.cells other = s.cells other)
    (new : ∀ other count' value', s.cells other = some ⟨count' + 1, value'⟩ →
      view value' ≠ view value) :
    Canonical view t := by
  intro one other count₁ count₂ value₁ value₂ live live' equal
  by_cases left : one = address <;> by_cases right : other = address
  · exact left.trans right.symm
  · rw [left, here] at live
    cases live
    rw [elsewhere other right] at live'
    exact (new other _ _ live' equal.symm).elim
  · rw [right, here] at live'
    cases live'
    rw [elsewhere one left] at live
    exact (new one _ _ live equal).elim
  · rw [elsewhere one left] at live
    rw [elsewhere other right] at live'
    exact canonical live live' equal

/-! ## Pointers and what they lead to -/

variable {value' : α}

/-- Pointers to shared objects are as good as the objects. -/
theorem Canonical.read_injective (canonical : Canonical view s) {other : Nat}
    (shared : Shared s (some address)) (shared' : Shared s (some other))
    (read : s.read address = some value) (read' : s.read other = some value')
    (equal : view value = view value') : address = other := by
  obtain ⟨count, found, live⟩ := shared address rfl
  obtain ⟨count', found', live'⟩ := shared' other rfl
  unfold Store.read at read read'
  rw [live] at read
  rw [live'] at read'
  cases read
  cases read'
  exact canonical live live' equal

variable {pointer : Option Nat}

theorem Retains.shared (retains : Retains view s t) (shared : Shared s pointer) :
    Shared t pointer := by
  intro address here
  obtain ⟨count, value, live⟩ := shared address here
  obtain ⟨count', value', live', _⟩ := retains live
  exact ⟨count', value', live'⟩

theorem Retains.read (retains : Retains view s t) (shared : Shared s (some address))
    (read : s.read address = some value) :
    ∃ value', t.read address = some value' ∧ view value' = view value := by
  obtain ⟨count, found, live⟩ := shared address rfl
  unfold Store.read at read
  rw [live] at read
  cases read
  obtain ⟨count', value', live', kept⟩ := retains live
  refine ⟨value', ?_, kept⟩
  unfold Store.read
  rw [live']
  rfl

/-! ## Interning -/

/-- Nothing is found where no shared object is equal. -/
theorem lookup_none (miss : s.lookup same value = none)
    (live : s.cells address = some ⟨count + 1, value'⟩) : same value' value = false := by
  have all := List.find?_eq_none.mp miss address (List.mem_range.mpr (Store.lt_next live))
  rw [live] at all
  simpa using all

/-- An object with the view of `value` is shared at `found`; the store is still
canonical, and retains what was shared. -/
structure Settled (view : α → β) (s : Store α) (value : α) (found : Nat) (t : Store α) : Prop where
  retains : Retains view s t
  canonical : Canonical view t
  here : ∃ count value', t.cells found = some ⟨count + 1, value'⟩ ∧ view value' = view value

/-- Another reference to a shared object. -/
theorem addRef_settled (canonical : Canonical view s)
    (live : s.cells address = some ⟨count + 1, value⟩) (run : s.addRef address = some t) :
    Settled view s value address t := by
  unfold Store.addRef at run
  rw [live] at run
  cases run
  have retains : Retains view s (s.put address (some ⟨count + 2, value⟩)) := by
    intro other count' value' live'
    by_cases here : other = address
    · subst here
      rw [live] at live'
      cases live'
      exact ⟨_, _, s.put_here .., rfl⟩
    · exact ⟨_, _, (s.put_elsewhere _ _ here).trans live', rfl⟩
  refine ⟨retains, canonical.of_retained ?_, _, _, s.put_here .., rfl⟩
  intro other count' value' live'
  by_cases here : other = address
  · subst here
    rw [s.put_here] at live'
    cases live'
    exact ⟨_, _, live, rfl⟩
  · rw [s.put_elsewhere _ _ here] at live'
    exact ⟨_, _, live', rfl⟩

/-- The first reference to an object whose view no shared object has. -/
theorem addRef_first (canonical : Canonical view s) (live : s.cells address = some ⟨0, value⟩)
    (new : ∀ other count value', s.cells other = some ⟨count + 1, value'⟩ →
      view value' ≠ view value)
    (run : s.addRef address = some t) : Settled view s value address t := by
  unfold Store.addRef at run
  rw [live] at run
  cases run
  refine ⟨fun other count' value' live' => ?_,
    canonical.of_new (s.put_here ..) (fun other apart => s.put_elsewhere _ _ apart) new, _, _,
    s.put_here .., rfl⟩
  by_cases here : other = address
  · subst here
    rw [live] at live'
    cases live'
  · exact ⟨_, _, (s.put_elsewhere _ _ here).trans live', rfl⟩

/-- A private object goes, is written, or comes to be: no shared object is
touched. -/
theorem put_private (here : ∀ count value,
    s.cells address ≠ some ⟨count + 1, value⟩) {cell : Option (Cell α)}
    (private_ : ∀ count value, cell ≠ some ⟨count + 1, value⟩) :
    Retains view s (s.put address cell) ∧ Retains view (s.put address cell) s := by
  constructor
  · intro other count value live
    have apart : other ≠ address := fun equal => here _ _ (equal ▸ live)
    exact ⟨_, _, (s.put_elsewhere _ _ apart).trans live, rfl⟩
  · intro other count value live
    by_cases equal : other = address
    · rw [equal, s.put_here] at live
      exact (private_ _ _ live).elim
    · rw [s.put_elsewhere _ _ equal] at live
      exact ⟨_, _, live, rfl⟩

variable {found : Nat}

theorem Settled.after (settled : Settled view t value found u) (retains : Retains view s t) :
    Settled view s value found u :=
  ⟨retains.trans settled.retains, settled.canonical, settled.here⟩

/-- A copy that is interned is there already, or is the one new object. -/
theorem internCopy_cases (run : s.internCopy same value = some (found, t)) :
    (∃ count there, s.cells found = some ⟨count + 1, there⟩ ∧ same there value = true ∧
        t = s.put found (some ⟨count + 2, there⟩)) ∨
      s.lookup same value = none ∧ t.cells found = some ⟨1, value⟩ ∧
        ∀ other, other ≠ found → t.cells other = s.cells other := by
  unfold Store.internCopy at run
  rcases hit : s.lookup same value with _ | there
  · rw [hit] at run
    obtain ⟨u, added, equal⟩ := Option.map_eq_some_iff.mp run
    cases equal
    right
    simp only [Store.addRef, Store.put_here, Option.map_some, Option.some.injEq] at added
    subst added
    refine ⟨rfl, Store.put_here .., fun other apart => ?_⟩
    exact (Store.put_elsewhere _ _ _ apart).trans (s.put_elsewhere _ _ apart)
  · rw [hit] at run
    obtain ⟨u, added, equal⟩ := Option.map_eq_some_iff.mp run
    cases equal
    left
    obtain ⟨count, value', live, equal⟩ := lookup_some hit
    unfold Store.addRef at added
    rw [live] at added
    cases added
    exact ⟨count, value', live, equal, rfl⟩

section Tables

variable (compares : Compares view same)
include compares
variable {value : α} {found : Nat}

/-- The object that is looked up is canonical for its value. -/
theorem lookup_settled (canonical : Canonical view s) (hit : s.lookup same value = some found)
    (run : s.addRef found = some t) : Settled view s value found t := by
  obtain ⟨count, value', live, equal⟩ := lookup_some hit
  obtain ⟨retains, canonical', count', value'', live', kept⟩ := addRef_settled canonical live run
  exact ⟨retains, canonical', count', value'', live', kept.trans ((compares _ _).mp equal)⟩

/-- No shared object has the view of a value that is not found. -/
theorem lookup_new (miss : s.lookup same value = none) (other count : Nat) (value' : α)
    (live : s.cells other = some ⟨count + 1, value'⟩) : view value' ≠ view value := by
  intro equal
  have apart := lookup_none miss live
  rw [(compares value' value).mpr equal] at apart
  cases apart

theorem intern_settled (canonical : Canonical view s) (live : s.cells address = some ⟨count, value⟩)
    (run : s.intern same address = some (found, t)) : Settled view s value found t := by
  simp only [Store.intern, live, Option.bind_eq_bind, Option.bind_some] at run
  rcases count with _ | count
  · rw [if_neg (by simp)] at run
    rcases hit : s.lookup same value with _ | there
    · rw [hit] at run
      obtain ⟨u, added, equal⟩ := Option.map_eq_some_iff.mp run
      cases equal
      exact addRef_first canonical live (lookup_new compares hit) added
    · rw [hit] at run
      obtain ⟨u, freed, run⟩ := Option.bind_eq_some_iff.mp run
      obtain ⟨v, added, equal⟩ := Option.map_eq_some_iff.mp run
      cases equal
      -- the private object is not the one that was found
      simp only [Store.free, live, Option.map_some, Option.some.injEq] at freed
      subst freed
      have free : ∀ count value, s.cells address ≠ some ⟨count + 1, value⟩ := by
        intro count value shared
        rw [live] at shared
        cases shared
      obtain ⟨retains, back⟩ : Retains view s (s.put address none) ∧
          Retains view (s.put address none) s := by
        apply put_private free
        intro count value shared
        cases shared
      obtain ⟨count', value', live', equal⟩ := lookup_some hit
      have apart : found ≠ address := fun same => free _ _ (same ▸ live')
      have settled := addRef_settled (canonical.of_retained back)
        ((s.put_elsewhere address none apart).trans live') added
      obtain ⟨count'', value'', live'', kept⟩ := settled.here
      exact ⟨retains.trans settled.retains, settled.canonical, count'', value'', live'',
        kept.trans ((compares _ _).mp equal)⟩
  · rw [if_pos (by simp)] at run
    cases run

theorem internCopy_settled (canonical : Canonical view s)
    (run : s.internCopy same value = some (found, t)) : Settled view s value found t := by
  unfold Store.internCopy at run
  rcases hit : s.lookup same value with _ | there
  · rw [hit] at run
    obtain ⟨u, added, equal⟩ := Option.map_eq_some_iff.mp run
    cases equal
    have absent : s.cells s.next = none := s.beyond _ (Nat.le_refl _)
    have fresh (count : Nat) (other : α) : some (Cell.mk 0 value) ≠ some ⟨count + 1, other⟩ := nofun
    obtain ⟨retains, back⟩ : Retains view s (s.put s.next (some ⟨0, value⟩)) ∧
        Retains view (s.put s.next (some ⟨0, value⟩)) s :=
      put_private (fun _ _ live => by rw [absent] at live; cases live) fresh
    refine (addRef_first (canonical.of_retained back) (s.put_here ..) ?_ added).after retains
    intro other count value' live
    obtain ⟨_, _, live', kept⟩ := back live
    rw [← kept]
    exact lookup_new compares hit other _ _ live'
  · rw [hit] at run
    obtain ⟨u, added, equal⟩ := Option.map_eq_some_iff.mp run
    cases equal
    exact lookup_settled compares canonical hit added

/-- A private object can be interned. -/
theorem intern_total (live : s.cells address = some ⟨0, value⟩) :
    ∃ found t, s.intern same address = some (found, t) := by
  have scratch : Scratch (s.put address none) address value s :=
    ⟨s.put_here .., live, fun other apart => (s.put_elsewhere _ _ apart).symm⟩
  obtain ⟨found, _, t, run, _⟩ := scratch.intern same ((compares value value).mpr rfl)
  exact ⟨found, t, run⟩

theorem internCopy_total (s : Store α) (value : α) :
    ∃ found t, s.internCopy same value = some (found, t) := by
  obtain ⟨found, _, t, run, _⟩ :=
    internCopy_referred same (fun value => (compares value value).mpr rfl) s value
  exact ⟨found, t, run⟩

end Tables

/-! ## Counted pointers -/

/-- The value behind a pointer that may be null. -/
def At (view : α → β) (s : Store α) : Option Nat → Option β → Prop
  | none, seen => seen = none
  | some address, seen => ∃ value, s.read address = some value ∧ seen = some (view value)

variable {seen : Option β}

/-- Pointers to shared objects with one view are one pointer. -/
theorem Canonical.at_injective (canonical : Canonical view s) {other : Option Nat}
    (shared : Shared s pointer) (shared' : Shared s other) (leads : At view s pointer seen)
    (leads' : At view s other seen) : pointer = other := by
  cases pointer with
  | none =>
    cases other with
    | none => rfl
    | some other =>
      obtain ⟨value, _, equal⟩ := leads'
      cases leads
      cases equal
  | some address =>
    obtain ⟨value, read, rfl⟩ := leads
    cases other with
    | none => cases leads'
    | some other =>
      obtain ⟨value', read', equal⟩ := leads'
      exact congrArg some
        (canonical.read_injective shared shared' read read' (Option.some.inj equal))

theorem Retains.at_ (retains : Retains view s t) (shared : Shared s pointer)
    (leads : At view s pointer seen) : At view t pointer seen := by
  cases pointer with
  | none => exact leads
  | some address =>
    obtain ⟨value, read, rfl⟩ := leads
    obtain ⟨value', read', kept⟩ := retains.read shared read
    exact ⟨value', read', congrArg some kept.symm⟩

/-- What a pointer led to is what the counted one leads to. -/
structure PointerSettled (view : α → β) (s : Store α) (pointer pointer' : Option Nat)
    (t : Store α) : Prop where
  retains : Retains view s t
  canonical : Canonical view t
  shared : Shared t pointer'
  at_ : ∀ seen, At view s pointer seen → At view t pointer' seen

variable {intern : Store α → Nat → Option (Nat × Store α)}

theorem internPointer_settled
    (interns : ∀ address value found u, s.cells address = some ⟨0, value⟩ →
      intern s address = some (found, u) → Settled view s value found u)
    (canonical : Canonical view s) {pointer' : Option Nat}
    (run : internPointer intern s pointer = some (pointer', t)) :
    PointerSettled view s pointer pointer' t := by
  have settle : ∀ {address : Nat} {cell : Cell α} {found : Nat},
      s.cells address = some cell → Settled view s cell.value found t →
        PointerSettled view s (some address) (some found) t := by
    intro address cell found live settled
    obtain ⟨retains, canonical', count, value', live', kept⟩ := settled
    refine ⟨retains, canonical', fun _ here => ?_, ?_⟩
    · cases here
      exact ⟨count, value', live'⟩
    · rintro seen ⟨value, read, rfl⟩
      unfold Store.read at read
      rw [live] at read
      cases read
      refine ⟨value', ?_, congrArg some kept.symm⟩
      unfold Store.read
      rw [live']
      rfl
  cases pointer with
  | none =>
    cases run
    exact ⟨Retains.refl s, canonical, nofun, fun _ seen => seen⟩
  | some address =>
    unfold internPointer at run
    obtain ⟨⟨count, value⟩, live, run⟩ := Option.bind_eq_some_iff.mp run
    rcases count with _ | count
    · rw [if_pos rfl] at run
      obtain ⟨⟨found, u⟩, interned, run⟩ := Option.bind_eq_some_iff.mp run
      cases run
      exact settle live (interns address value found t live interned)
    · rw [if_neg (Nat.succ_ne_zero count)] at run
      obtain ⟨u, added, run⟩ := Option.bind_eq_some_iff.mp run
      cases run
      exact settle live (addRef_settled canonical live added)

/-- A pointer that can be followed can be counted. -/
theorem internPointer_total (interns : ∀ address value, s.cells address = some ⟨0, value⟩ →
      ∃ found t, intern s address = some (found, t)) (leads : At view s pointer seen) :
    ∃ pointer' t, internPointer intern s pointer = some (pointer', t) ∧
      pointer'.isSome = pointer.isSome := by
  cases pointer with
  | none => exact ⟨none, s, rfl, rfl⟩
  | some address =>
    obtain ⟨value, read, _⟩ := leads
    obtain ⟨count, live⟩ := Store.read_some read
    rcases count with _ | count
    · obtain ⟨found, t, interned⟩ := interns address value live
      exact ⟨some found, t, by simp [internPointer, live, interned], rfl⟩
    · obtain ⟨t, added, _⟩ := addRef_referred live
      exact ⟨some address, t, by simp [internPointer, live, added], rfl⟩

/-! ## Overwriting -/

/-- An object that is overwritten is shared as before, and with the view of what
is written. -/
theorem put_retained {count' : Nat} {old : α} (live : s.cells address = some ⟨count, old⟩)
    (counted : 0 < count' → 0 < count) (keeps : 0 < count' → view value = view old) :
    Retains view (s.put address (some ⟨count', value⟩)) s := by
  intro other counted' value' live'
  by_cases here : other = address
  · subst here
    rw [s.put_here] at live'
    cases live'
    obtain ⟨before, rfl⟩ := Nat.exists_eq_succ_of_ne_zero (Nat.ne_of_gt (counted (Nat.succ_pos _)))
    exact ⟨before, old, live, (keeps (Nat.succ_pos _)).symm⟩
  · rw [s.put_elsewhere _ _ here] at live'
    exact ⟨_, _, live', rfl⟩

end Bgpd.InternTables
