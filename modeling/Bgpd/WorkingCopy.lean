import Bgpd.Interning

/-!
# A pointer that is worked on

Code that holds a pointer to a shared object and wants a changed one copies the
object, changes the copy and keeps the pointer to it: from then on the object is
its own, to be changed in place, freed or replaced. In the end the pointer is
either counted, and uncounted again later, or dropped, and an own object with
it. Both ways leave the objects there were.

Two slips break this. A pointer that is overwritten while it points to an own
object leaves that object behind, and a counted copy put in the place of an
object whose reference was not the code's own takes a reference that is not its
to take.
-/

namespace Bgpd.WorkingCopy

open Interning

variable {α : Type}

/-- A pointer that may be null points to a shared object. -/
def Shared (s : Store α) (pointer : Option Nat) : Prop :=
  ∀ address, pointer = some address → ∃ count value, s.cells address = some ⟨count + 1, value⟩

/-- What may have become of the objects `s` and of a pointer `origin` to a shared
one: nothing, the pointer was cleared, or it points to an own object. -/
inductive Working (s : Store α) (origin : Option Nat) : Option Nat → Store α → Prop
  | kept {t : Store α} (same : Same s t) : Working s origin origin t
  | cleared {t : Store α} (same : Same s t) : Working s origin none t
  | owned {t : Store α} {address : Nat} {value : α} (scratch : Scratch s address value t) :
      Working s origin (some address) t

variable {s t : Store α} {address : Nat}
variable {origin : Option Nat}

/-- The count of an object tells whether it is the code's own. -/
theorem Working.split (shared : Shared s origin) (working : Working s origin (some address) t) :
    (∃ count value, t.cells address = some ⟨count + 1, value⟩ ∧ Same s t) ∨
      ∃ value, t.cells address = some ⟨0, value⟩ ∧ Scratch s address value t := by
  generalize held : some address = pointer at working
  cases working with
  | kept same =>
    obtain ⟨count, value, live⟩ := shared address held.symm
    exact Or.inl ⟨count, value, (same address).trans live, same⟩
  | cleared _ => cases held
  | owned scratch =>
    cases held
    exact Or.inr ⟨_, scratch.here, scratch⟩

/-- Only an own object, or the pointer there was, can be pointed to. -/
theorem Working.live (shared : Shared s origin) (working : Working s origin (some address) t) :
    ∃ cell, t.cells address = some cell := by
  rcases working.split shared with ⟨count, value, live, _⟩ | ⟨value, live, _⟩
  · exact ⟨_, live⟩
  · exact ⟨_, live⟩

/-! ## The two ways it ends -/

/-- Count the pointer: an own object is interned, a shared one gets a reference
more. -/
def internPointer (intern : Store α → Nat → Option (Nat × Store α)) (s : Store α) :
    Option Nat → Option (Option Nat × Store α)
  | none => some (none, s)
  | some address => do
    let cell ← s.cells address
    if cell.refcnt = 0 then
      let (found, s) ← intern s address
      return (some found, s)
    else
      let s ← s.addRef address
      return (some address, s)

/-- Take the reference back. -/
def uninternPointer (s : Store α) : Option Nat → Option (Store α)
  | none => some s
  | some address => s.unintern address

/-- Drop the pointer, and an own object with it. -/
def flushPointer (s : Store α) : Option Nat → Option (Store α)
  | none => some s
  | some address => do
    let cell ← s.cells address
    if cell.refcnt = 0 then s.free address else return s

/-- The objects are `s` but for the one reference of the pointer. -/
def Counted (s : Store α) (pointer : Option Nat) (t : Store α) : Prop :=
  match pointer with
  | none => Same s t
  | some address => ∃ value, Referred s address value t

variable {pointer : Option Nat}

theorem Counted.unintern (counted : Counted s pointer t) :
    ∃ u, uninternPointer t pointer = some u ∧ Same s u := by
  cases pointer with
  | none => exact ⟨t, rfl, counted⟩
  | some address =>
    obtain ⟨value, referred⟩ := counted
    exact referred.unintern

section Ends

variable {s t : Store α} {origin pointer : Option Nat}

theorem Working.intern {intern : Store α → Nat → Option (Nat × Store α)}
    (interns : ∀ address value, Scratch s address value t → pointer = some address →
      ∃ found value' u, intern t address = some (found, u) ∧ Referred s found value' u)
    (shared : Shared s origin) (working : Working s origin pointer t) :
    ∃ pointer' u, internPointer intern t pointer = some (pointer', u) ∧ Counted s pointer' u := by
  rcases pointer with _ | address
  · refine ⟨none, t, rfl, ?_⟩
    cases working with
    | kept same => exact same
    | cleared same => exact same
  · unfold internPointer
    rcases working.split shared with ⟨count, value, live, same⟩ | ⟨value, live, scratch⟩
    · obtain ⟨u, added, referred⟩ := addRef_referred live
      refine ⟨some address, u, ?_, value, referred.of_same same⟩
      simp [live, added]
    · obtain ⟨found, value', u, interned, referred⟩ := interns address value scratch rfl
      refine ⟨some found, u, ?_, value', referred⟩
      simp [live, interned]

theorem Working.flush (shared : Shared s origin) (working : Working s origin pointer t) :
    ∃ u, flushPointer t pointer = some u ∧ Same s u := by
  rcases pointer with _ | address
  · refine ⟨t, rfl, ?_⟩
    cases working with
    | kept same => exact same
    | cleared same => exact same
  · unfold flushPointer
    rcases working.split shared with ⟨count, value, live, same⟩ | ⟨value, live, scratch⟩
    · refine ⟨t, ?_, same⟩
      simp [live]
    · obtain ⟨u, freed, same⟩ := scratch.free
      refine ⟨u, ?_, same⟩
      simp [live, freed]

end Ends

variable {s t : Store α} {address : Nat}

/-! ## An object left behind -/

/-- A private object that was not there in `s`, and that the pointer does not
point to. -/
def Leaked (s : Store α) (pointer : Option Nat) (t : Store α) : Prop :=
  ∃ address value, s.cells address = none ∧ t.cells address = some ⟨0, value⟩ ∧
    pointer ≠ some address

theorem Leaked.not_same (leaked : Leaked s pointer t) : ¬ Same s t := by
  obtain ⟨address, value, fresh, live, _⟩ := leaked
  intro same
  rw [same address, fresh] at live
  cases live

variable {value : α}

/-- Overwriting the pointer to an own object leaves the object behind. -/
theorem leaked_of_scratch (scratch : Scratch s address value t)
    (elsewhere : pointer ≠ some address) :
    Leaked s pointer t :=
  ⟨address, value, scratch.fresh, scratch.here, elsewhere⟩

/-! What every operation leaves alone, whatever it is applied to. -/

variable {other : Nat}

theorem alloc_frame (s : Store α) (value : α) {cell : Cell α} (live : s.cells other = some cell) :
    (s.alloc value).2.cells other = some cell ∧ other ≠ (s.alloc value).1 := by
  have apart : other ≠ s.next := Nat.ne_of_lt (Store.lt_next live)
  exact ⟨(s.put_elsewhere _ _ apart).trans live, apart⟩

theorem write_frame (written : s.write address value = some t) (apart : other ≠ address) :
    t.cells other = s.cells other := by
  obtain ⟨cell, _, rfl⟩ := Option.map_eq_some_iff.mp written
  exact s.put_elsewhere _ _ apart

theorem free_frame (freed : s.free address = some t) (apart : other ≠ address) :
    t.cells other = s.cells other := by
  obtain ⟨cell, _, rfl⟩ := Option.map_eq_some_iff.mp freed
  exact s.put_elsewhere _ _ apart

theorem addRef_frame (added : s.addRef address = some t) (apart : other ≠ address) :
    t.cells other = s.cells other := by
  obtain ⟨cell, _, rfl⟩ := Option.map_eq_some_iff.mp added
  exact s.put_elsewhere _ _ apart

theorem unintern_frame (dropped : s.unintern address = some t) (apart : other ≠ address) :
    t.cells other = s.cells other := by
  obtain ⟨cell, live, dropped⟩ := Option.bind_eq_some_iff.mp dropped
  split at dropped
  · cases dropped
  · split at dropped
    · exact free_frame dropped apart
    · cases dropped
      exact s.put_elsewhere _ _ apart

/-- A private object that is not interned itself stays as it is, and interning
never leads to it. -/
theorem intern_frame {same : α → α → Bool} {found : Nat}
    (interned : s.intern same address = some (found, t)) (live : s.cells other = some ⟨0, value⟩)
    (apart : other ≠ address) : t.cells other = some ⟨0, value⟩ ∧ found ≠ other := by
  obtain ⟨cell, _, interned⟩ := Option.bind_eq_some_iff.mp interned
  split at interned
  · cases interned
  · rcases hit : s.lookup same cell.value with _ | shared
    · rw [hit] at interned
      obtain ⟨u, added, both⟩ := Option.map_eq_some_iff.mp interned
      cases both
      exact ⟨(addRef_frame added apart).trans live, apart.symm⟩
    · rw [hit] at interned
      obtain ⟨count, value', counted, _⟩ := lookup_some hit
      have other_ne : other ≠ shared := by
        rintro rfl
        rw [counted] at live
        cases live
      obtain ⟨u, freed, interned⟩ := Option.bind_eq_some_iff.mp interned
      obtain ⟨v, added, both⟩ := Option.map_eq_some_iff.mp interned
      cases both
      exact ⟨(addRef_frame added other_ne).trans ((free_frame freed apart).trans live),
        other_ne.symm⟩

variable {u : Store α}

theorem Leaked.internPointer {intern : Store α → Nat → Option (Nat × Store α)}
    (frame : ∀ s address found t other value, intern s address = some (found, t) →
      s.cells other = some ⟨0, value⟩ → other ≠ address →
      t.cells other = some ⟨0, value⟩ ∧ found ≠ other) {pointer' : Option Nat}
    (leaked : Leaked s pointer t) (counted : internPointer intern t pointer = some (pointer', u)) :
    Leaked s pointer' u := by
  obtain ⟨other, value, fresh, live, elsewhere⟩ := leaked
  rcases pointer with _ | address
  · cases counted
    exact ⟨other, value, fresh, live, nofun⟩
  · have apart : other ≠ address := fun same => elsewhere (congrArg some same.symm)
    obtain ⟨cell, _, counted⟩ := Option.bind_eq_some_iff.mp counted
    split at counted
    · obtain ⟨⟨found, v⟩, interned, both⟩ := Option.bind_eq_some_iff.mp counted
      cases both
      obtain ⟨stays, other_ne⟩ := frame t address found u other value interned live apart
      exact ⟨other, value, fresh, stays, fun same => other_ne (Option.some.inj same)⟩
    · obtain ⟨v, added, both⟩ := Option.bind_eq_some_iff.mp counted
      cases both
      exact ⟨other, value, fresh, (addRef_frame added apart).trans live, elsewhere⟩

theorem Leaked.uninternPointer (leaked : Leaked s pointer t)
    (dropped : uninternPointer t pointer = some u) : Leaked s none u := by
  obtain ⟨other, value, fresh, live, elsewhere⟩ := leaked
  rcases pointer with _ | address
  · cases dropped
    exact ⟨other, value, fresh, live, nofun⟩
  · have apart : other ≠ address := fun same => elsewhere (congrArg some same.symm)
    exact ⟨other, value, fresh, (unintern_frame dropped apart).trans live, nofun⟩

theorem Leaked.flushPointer (leaked : Leaked s pointer t)
    (flushed : flushPointer t pointer = some u) : Leaked s none u := by
  obtain ⟨other, value, fresh, live, elsewhere⟩ := leaked
  rcases pointer with _ | address
  · cases flushed
    exact ⟨other, value, fresh, live, nofun⟩
  · have apart : other ≠ address := fun same => elsewhere (congrArg some same.symm)
    obtain ⟨cell, _, flushed⟩ := Option.bind_eq_some_iff.mp flushed
    split at flushed
    · exact ⟨other, value, fresh, (free_frame flushed apart).trans live, nofun⟩
    · cases flushed
      exact ⟨other, value, fresh, live, nofun⟩

/-! ## A reference taken away -/

/-- Dropping a reference elsewhere and adding one are independent. -/
theorem referred_unintern {b : Store α} (referred : Referred s address value t)
    (apart : other ≠ address) (dropped : s.unintern other = some b) :
    ∃ u, t.unintern other = some u ∧ Referred b address value u := by
  have here := referred.elsewhere other apart
  unfold Store.unintern at dropped ⊢
  rw [here]
  obtain ⟨cell, live, dropped⟩ := Option.bind_eq_some_iff.mp dropped
  -- in both stores the same cell is put in the place of the other object
  have moved (after : Option (Cell α)) :
      Referred (s.put other after) address value (t.put other after) := by
    refine ⟨?_, fun third away => ?_⟩
    · rw [s.put_elsewhere _ _ apart.symm, t.put_elsewhere _ _ apart.symm]
      exact referred.here
    · by_cases same : third = other
      · rw [same, s.put_here, t.put_here]
      · rw [s.put_elsewhere _ _ same, t.put_elsewhere _ _ same]
        exact referred.elsewhere third away
  rw [live]
  simp only [Option.bind_eq_bind, Option.bind_some] at dropped ⊢
  split at dropped
  · cases dropped
  · split at dropped
    · obtain ⟨_, _, rfl⟩ := Option.map_eq_some_iff.mp dropped
      refine ⟨t.put other none, ?_, moved none⟩
      simp_all [Store.free]
    · cases dropped
      refine ⟨_, ?_, moved _⟩
      simp_all

/-- The pointer leads to a counted object of its own making, larger than the one
there was, whose reference is gone. -/
def Swapped (size : α → Nat) (s : Store α) (origin pointer : Option Nat) (t : Store α) : Prop :=
  ∃ before base address value, Same s before ∧ uninternPointer before origin = some base ∧
    pointer = some address ∧ Referred base address value t ∧
    ∀ first value', origin = some first → s.read first = some value' → size value' < size value

section Swap

variable {size : α → Nat} {s t : Store α} {origin pointer : Option Nat}
variable {u : Store α} {value : α}

/-- An object of another size is another object. -/
theorem referred_ne {value' : α} (referred : Referred t address value u)
    (read : t.read other = some value') (grown : size value' < size value) : other ≠ address := by
  rintro rfl
  obtain ⟨count, live⟩ := Store.read_some read
  rcases referred.here with ⟨fresh, _⟩ | ⟨count', here, _⟩
  · rw [live] at fresh
    cases fresh
  · rw [live] at here
    cases here
    exact absurd grown (Nat.lt_irrefl _)

/-- The first time, the reference that goes is not the code's own. -/
theorem Swapped.first (shared : Shared s origin) (same : Same s t)
    (referred : Referred t address value u)
    (grown : ∀ first value', origin = some first → s.read first = some value' →
      size value' < size value) :
    ∃ v, uninternPointer u origin = some v ∧ Swapped size s origin (some address) v := by
  rcases origin with _ | first
  · exact ⟨u, rfl, t, t, address, value, same, rfl, rfl, referred, nofun⟩
  · obtain ⟨count, value', live⟩ := shared first rfl
    have read : s.read first = some value' := by
      unfold Store.read
      rw [live]
      rfl
    have apart := referred_ne referred ((same.read first).trans read) (grown first value' rfl read)
    have dropped : ∃ base, t.unintern first = some base := by
      unfold Store.unintern
      rw [same first, live]
      rcases count with _ | count <;> simp [Store.free, same first, live]
    obtain ⟨base, dropped⟩ := dropped
    obtain ⟨v, gone, referred⟩ := referred_unintern referred apart dropped
    exact ⟨v, gone, t, base, address, value, same, dropped, rfl, referred, grown⟩

/-- After that, the one that goes is the one that came before. -/
theorem Swapped.again (swapped : Swapped size s origin pointer t)
    (referred : Referred t address value u)
    (grown : ∀ last value', pointer = some last → t.read last = some value' →
      size value' < size value) :
    ∃ v, uninternPointer u pointer = some v ∧ Swapped size s origin (some address) v := by
  obtain ⟨before, base, last, value', same, dropped, rfl, held, bound⟩ := swapped
  have larger := grown last value' rfl held.read_here
  have apart := referred_ne referred held.read_here larger
  obtain ⟨back, released, sameBack⟩ := held.unintern
  obtain ⟨v, gone, referred⟩ := referred_unintern referred apart released
  exact ⟨v, gone, before, base, address, value, same, dropped, rfl, referred.of_same sameBack,
    fun first old held read => Nat.lt_trans (bound first old held read) larger⟩

theorem Swapped.not_same (shared : Shared s origin) (swapped : Swapped size s origin pointer t) :
    ¬ Same s t := by
  obtain ⟨before, base, address, value, same, dropped, _, referred, bound⟩ := swapped
  rcases origin with _ | first
  · cases dropped
    exact (referred.of_same same).not_same
  · obtain ⟨count, value', live⟩ := shared first rfl
    have read : s.read first = some value' := by
      unfold Store.read
      rw [live]
      rfl
    have grown := bound first value' rfl read
    intro unchanged
    -- the object there was is counted once less, unless the pointer leads there
    by_cases there : first = address
    · subst there
      have back := referred.read_here
      rw [unchanged.read, read] at back
      cases back
      exact absurd grown (Nat.lt_irrefl _)
    · have less := referred.elsewhere first there
      rw [unchanged first, live] at less
      have before_live : before.cells first = some ⟨count + 1, value'⟩ := (same first).trans live
      obtain ⟨cell, held, dropped⟩ := Option.bind_eq_some_iff.mp dropped
      cases before_live.symm.trans held
      rcases count with _ | count
      · obtain ⟨_, _, rfl⟩ := Option.map_eq_some_iff.mp dropped
        rw [before.put_here] at less
        cases less
      · cases dropped
        rw [before.put_here] at less
        cases less

/-- The pointer leads to a shared object. -/
theorem Swapped.counted (swapped : Swapped size s origin pointer t) :
    ∃ address count value, pointer = some address ∧
      t.cells address = some ⟨count + 1, value⟩ := by
  obtain ⟨_, _, address, value, _, _, rfl, referred, _⟩ := swapped
  rcases referred.here with ⟨_, live⟩ | ⟨count, _, live⟩
  · exact ⟨address, 0, value, rfl, live⟩
  · exact ⟨address, count + 1, value, rfl, live⟩

theorem Swapped.of_same (same : Same t u) (swapped : Swapped size s origin pointer t) :
    Swapped size s origin pointer u := by
  obtain ⟨before, base, address, value, first, dropped, held, referred, bound⟩ := swapped
  refine ⟨before, base, address, value, first, dropped, held, ⟨?_, fun other apart => ?_⟩, bound⟩
  · rw [same address]
    exact referred.here
  · exact (same other).trans (referred.elsewhere other apart)

/-- Counting and uncounting the pointer brings nothing back. -/
theorem Swapped.counted_uncounted {intern : Store α → Nat → Option (Nat × Store α)}
    (swapped : Swapped size s origin pointer t) {pointer' : Option Nat} {v : Store α}
    (interned : internPointer intern t pointer = some (pointer', u))
    (dropped : uninternPointer u pointer' = some v) : Swapped size s origin pointer v := by
  obtain ⟨address, count, value, rfl, live⟩ := swapped.counted
  obtain ⟨w, added, referred⟩ := addRef_referred live
  simp only [internPointer, live, added, Option.bind_eq_bind, Option.bind_some, Nat.add_eq_zero_iff,
    Nat.one_ne_zero, and_false, if_false, Option.pure_def, Option.some.injEq, Prod.mk.injEq]
    at interned
  obtain ⟨rfl, rfl⟩ := interned
  obtain ⟨x, released, same⟩ := referred.unintern
  cases released.symm.trans dropped
  exact swapped.of_same same

/-- Dropping it leaves it alone. -/
theorem Swapped.flushed (swapped : Swapped size s origin pointer t)
    (flushed : flushPointer t pointer = some u) : Swapped size s origin pointer u := by
  obtain ⟨address, count, value, rfl, live⟩ := swapped.counted
  simp only [flushPointer, live, Option.bind_eq_bind, Option.bind_some, Nat.add_eq_zero_iff,
    Nat.one_ne_zero, and_false, if_false, Option.pure_def, Option.some.injEq] at flushed
  exact flushed ▸ swapped

end Swap

end Bgpd.WorkingCopy
