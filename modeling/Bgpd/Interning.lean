import Mathlib.Data.List.Basic
import Mathlib.Logic.Function.Basic

/-!
# Counted objects

A store keeps objects at addresses, each with the number of references to it.
An object without references is private to the code that made it; an object
with references is shared, and equal shared objects are one object. Interning
makes a private object shared or trades it for the shared object that equals
it, and uninterning drops one reference and frees the object with the last.

Every operation on an address that holds no object is an error, so a second
free is one, and a result says that no object was freed twice. Two stores are
the same when they hold the same objects at the same addresses with the same
counts: nothing was written, nothing leaked and no count moved.
-/

namespace Bgpd.Interning

/-- An object and the number of references to it. -/
structure Cell (α : Type) where
  refcnt : Nat
  value : α
  deriving DecidableEq, Repr

/-- Objects by address. Nothing lies at or behind the next address. -/
structure Store (α : Type) where
  cells : Nat → Option (Cell α)
  next : Nat
  beyond : ∀ address, next ≤ address → cells address = none

variable {α : Type}
variable {s : Store α} {address : Nat}

/-- An address in use lies before the next one. -/
theorem Store.lt_next {cell : Cell α} (live : s.cells address = some cell) : address < s.next := by
  by_contra outside
  rw [s.beyond address (Nat.le_of_not_lt outside)] at live
  cases live

namespace Store

/-- The store without objects. -/
def empty : Store α := ⟨fun _ => none, 0, fun _ _ => rfl⟩

/-- Set what lies at an address. -/
def put (s : Store α) (address : Nat) (cell : Option (Cell α)) : Store α where
  cells := Function.update s.cells address cell
  next := max s.next (address + 1)
  beyond other behind := by
    have apart : other ≠ address := by omega
    rw [Function.update_of_ne apart]
    exact s.beyond other (by omega)

@[simp] theorem put_here (s : Store α) (address : Nat) (cell : Option (Cell α)) :
    (s.put address cell).cells address = cell := Function.update_self ..

@[simp] theorem put_elsewhere (s : Store α) (address : Nat) (cell : Option (Cell α)) {other : Nat}
    (apart : other ≠ address) : (s.put address cell).cells other = s.cells other :=
  Function.update_of_ne apart ..

/-- A new private object at the next address. -/
def alloc (s : Store α) (value : α) : Nat × Store α := (s.next, s.put s.next (some ⟨0, value⟩))

/-- The value of an object. -/
def read (s : Store α) (address : Nat) : Option α := (s.cells address).map (·.value)

/-- Overwrite the value of an object in place. -/
def write (s : Store α) (address : Nat) (value : α) : Option (Store α) :=
  (s.cells address).map fun cell => s.put address (some { cell with value })

variable {value : α}

theorem read_some (read : s.read address = some value) :
    ∃ count, s.cells address = some ⟨count, value⟩ := by
  obtain ⟨⟨count, _⟩, live, rfl⟩ := Option.map_eq_some_iff.mp read
  exact ⟨count, live⟩

/-- An object that can be read can be overwritten, and is read back. -/
theorem write_some (read : s.read address = some value) (value' : α) :
    ∃ t, s.write address value' = some t ∧ t.read address = some value' := by
  obtain ⟨count, live⟩ := read_some read
  refine ⟨s.put address (some ⟨count, value'⟩), ?_, ?_⟩
  · unfold write
    rw [live]
    rfl
  · unfold Store.read
    rw [put_here]
    rfl

/-- Free an object. -/
def free (s : Store α) (address : Nat) : Option (Store α) :=
  (s.cells address).map fun _ => s.put address none

/-- One more reference to an object. -/
def addRef (s : Store α) (address : Nat) : Option (Store α) :=
  (s.cells address).map fun cell => s.put address (some { cell with refcnt := cell.refcnt + 1 })

/-- The shared object that equals a value, for a given equality. -/
def lookup (same : α → α → Bool) (s : Store α) (value : α) : Option Nat :=
  (List.range s.next).find? fun address =>
    match s.cells address with
    | none => false
    | some cell => cell.refcnt ≠ 0 && same cell.value value

/-- Make a private object shared, or trade it for the shared object equal to
it. An object that is shared already is an error. -/
def intern (same : α → α → Bool) (s : Store α) (address : Nat) : Option (Nat × Store α) := do
  let cell ← s.cells address
  if cell.refcnt ≠ 0 then none
  else
    match s.lookup same cell.value with
    | none => (s.addRef address).map (address, ·)
    | some found =>
      let s ← s.free address
      (s.addRef found).map (found, ·)

/-- Drop a reference to a shared object, and with the last one the object. -/
def unintern (s : Store α) (address : Nat) : Option (Store α) := do
  let cell ← s.cells address
  if cell.refcnt = 0 then none
  else if cell.refcnt = 1 then s.free address
  else some (s.put address (some { cell with refcnt := cell.refcnt - 1 }))

/-- One more reference to the shared object that equals a value, which is made
where there is none. -/
def internCopy (same : α → α → Bool) (s : Store α) (value : α) : Option (Nat × Store α) :=
  match s.lookup same value with
  | some found => (s.addRef found).map (found, ·)
  | none =>
    let (new, s) := s.alloc value
    (s.addRef new).map (new, ·)

end Store

/-! ## The same objects -/

/-- Both stores hold the same objects. The next address may differ. -/
def Same (s t : Store α) : Prop := ∀ address, t.cells address = s.cells address

theorem Same.refl (s : Store α) : Same s s := fun _ => rfl

variable {t : Store α}

theorem Same.read (same : Same s t) (address : Nat) : t.read address = s.read address := by
  unfold Store.read
  rw [same address]

/-! ## A private object -/

/-- `t` is `s` with one more object: a private one at `address`. -/
structure Scratch (s : Store α) (address : Nat) (value : α) (t : Store α) : Prop where
  fresh : s.cells address = none
  here : t.cells address = some ⟨0, value⟩
  elsewhere : ∀ other, other ≠ address → t.cells other = s.cells other

theorem alloc_scratch (s : Store α) (value : α) :
    Scratch s (s.alloc value).1 value (s.alloc value).2 where
  fresh := s.beyond s.next (Nat.le_refl _)
  here := s.put_here ..
  elsewhere _ apart := s.put_elsewhere _ _ apart

namespace Scratch

variable {s t : Store α} {address : Nat} {value : α}

/-- An address in use differs from that of the private object. -/
theorem apart (scratch : Scratch s address value t) {other : Nat} {cell : Cell α}
    (live : s.cells other = some cell) : other ≠ address := by
  rintro rfl
  rw [scratch.fresh] at live
  cases live

theorem read_here (scratch : Scratch s address value t) : t.read address = some value := by
  unfold Store.read
  rw [scratch.here]
  rfl

/-- Another object added to the same objects is another object added. -/
theorem of_same {r : Store α} (same : Same r s) (scratch : Scratch s address value t) :
    Scratch r address value t where
  fresh := (same address).symm.trans scratch.fresh
  here := scratch.here
  elsewhere other apart := (scratch.elsewhere other apart).trans (same other)

/-- The private object may be overwritten. -/
theorem write (scratch : Scratch s address value t) (value' : α) :
    ∃ u, t.write address value' = some u ∧ Scratch s address value' u := by
  refine ⟨t.put address (some ⟨0, value'⟩), ?_, scratch.fresh, t.put_here .., ?_⟩
  · unfold Store.write
    rw [scratch.here]
    rfl
  · intro other apart
    rw [t.put_elsewhere _ _ apart]
    exact scratch.elsewhere other apart

/-- Freeing the private object leaves the objects there were. -/
theorem free (scratch : Scratch s address value t) : ∃ u, t.free address = some u ∧ Same s u := by
  refine ⟨t.put address none, ?_, fun other => ?_⟩
  · unfold Store.free
    rw [scratch.here]
    rfl
  · by_cases apart : other = address
    · rw [apart, t.put_here, scratch.fresh]
    · rw [t.put_elsewhere _ _ apart]
      exact scratch.elsewhere other apart

/-- Of two private objects the one made first may be freed. -/
theorem free_under {u : Store α} {address' : Nat} {value' : α}
    (outer : Scratch t address' value' u) (inner : Scratch s address value t) :
    ∃ v, u.free address = some v ∧ Scratch s address' value' v := by
  have apart : address ≠ address' := outer.apart inner.here
  have live : u.cells address = some ⟨0, value⟩ := (outer.elsewhere address apart).trans inner.here
  refine ⟨u.put address none, ?_, ?_, ?_, fun other away => ?_⟩
  · unfold Store.free
    rw [live]
    rfl
  · rw [← inner.elsewhere address' apart.symm]
    exact outer.fresh
  · rw [u.put_elsewhere _ _ apart.symm]
    exact outer.here
  · by_cases here : other = address
    · rw [here, u.put_here, inner.fresh]
    · rw [u.put_elsewhere _ _ here, outer.elsewhere other away, inner.elsewhere other here]

end Scratch

/-! ## A further reference -/

/-- `t` is `s` with one more reference to the object at `address`: the count
went up by one, or a shared object with this one reference came to be. -/
structure Referred (s : Store α) (address : Nat) (value : α) (t : Store α) : Prop where
  here : (s.cells address = none ∧ t.cells address = some ⟨1, value⟩) ∨
    ∃ count, s.cells address = some ⟨count + 1, value⟩ ∧ t.cells address = some ⟨count + 2, value⟩
  elsewhere : ∀ other, other ≠ address → t.cells other = s.cells other

namespace Referred

variable {s t : Store α} {address : Nat} {value : α}

theorem read_here (referred : Referred s address value t) : t.read address = some value := by
  unfold Store.read
  rcases referred.here with ⟨_, here⟩ | ⟨count, _, here⟩
  · rw [here]; rfl
  · rw [here]; rfl

/-- The reference makes a difference. -/
theorem not_same (referred : Referred s address value t) : ¬ Same s t := by
  intro same
  rcases referred.here with ⟨before, after⟩ | ⟨count, before, after⟩
  · rw [same address, before] at after
    cases after
  · rw [same address, before] at after
    cases after

theorem of_same {r : Store α} (same : Same r s) (referred : Referred s address value t) :
    Referred r address value t where
  here := by
    rw [← same address]
    exact referred.here
  elsewhere other apart := (referred.elsewhere other apart).trans (same other)

/-- Uninterning takes exactly that reference back. -/
theorem unintern (referred : Referred s address value t) :
    ∃ u, t.unintern address = some u ∧ Same s u := by
  unfold Store.unintern
  rcases referred.here with ⟨before, here⟩ | ⟨count, before, here⟩
  · refine ⟨t.put address none, ?_, fun other => ?_⟩
    · simp [here, Store.free]
    · by_cases apart : other = address
      · rw [apart, t.put_here, before]
      · rw [t.put_elsewhere _ _ apart]
        exact referred.elsewhere other apart
  · refine ⟨t.put address (some ⟨count + 1, value⟩), ?_, fun other => ?_⟩
    · simp [here]
    · by_cases apart : other = address
      · rw [apart, t.put_here, before]
      · rw [t.put_elsewhere _ _ apart]
        exact referred.elsewhere other apart

end Referred

variable {value : α}

/-- One more reference to a shared object. -/
theorem addRef_referred {count : Nat} (shared : s.cells address = some ⟨count + 1, value⟩) :
    ∃ t, s.addRef address = some t ∧ Referred s address value t := by
  refine ⟨s.put address (some ⟨count + 2, value⟩), ?_, Or.inr ⟨count, shared, s.put_here ..⟩,
    fun other apart => s.put_elsewhere _ _ apart⟩
  unfold Store.addRef
  rw [shared]
  rfl

/-- A looked-up object is shared and equals the value. -/
theorem lookup_some {same : α → α → Bool} {found : Nat} (hit : s.lookup same value = some found) :
    ∃ count value', s.cells found = some ⟨count + 1, value'⟩ ∧ same value' value = true := by
  have holds := List.find?_some hit
  revert holds
  rcases s.cells found with _ | ⟨_ | count, value'⟩
  · exact fun holds => (Bool.false_ne_true holds).elim
  · exact fun holds => (Bool.false_ne_true holds).elim
  · exact fun holds => ⟨count, value', rfl, by simpa using holds⟩

/-- Interning a private object leaves one more reference to a shared object
that equals it, and no private object. A shared object that was not there before
is the private one. -/
theorem Scratch.intern (same : α → α → Bool) (reflexive : same value value = true)
    (scratch : Scratch s address value t) :
    ∃ found value' u, t.intern same address = some (found, u) ∧
      Referred s found value' u ∧ same value' value = true ∧
      (s.cells found = none → value' = value) := by
  unfold Store.intern
  rcases hit : t.lookup same value with _ | found
  · refine ⟨address, value, t.put address (some ⟨1, value⟩), ?_, ⟨?_, ?_⟩, reflexive, fun _ => rfl⟩
    · simp [scratch.here, hit, Store.addRef]
    · exact Or.inl ⟨scratch.fresh, t.put_here ..⟩
    · intro other apart
      rw [t.put_elsewhere _ _ apart]
      exact scratch.elsewhere other apart
  · obtain ⟨count, value', shared, equal⟩ := lookup_some hit
    have apart : found ≠ address := by
      rintro rfl
      rw [scratch.here] at shared
      cases shared
    have before : s.cells found = some ⟨count + 1, value'⟩ :=
      (scratch.elsewhere found apart).symm.trans shared
    obtain ⟨u, freed, same'⟩ := scratch.free
    obtain ⟨v, added, referred⟩ := addRef_referred ((same' found).trans before)
    refine ⟨found, value', v, ?_, referred.of_same same', equal, fun fresh => ?_⟩
    · simp [scratch.here, hit, freed, added]
    · rw [before] at fresh
      cases fresh

/-- A copy that is interned leaves one more reference to a shared object. -/
theorem internCopy_referred (same : α → α → Bool) (reflexive : ∀ value, same value value = true)
    (s : Store α) (value : α) :
    ∃ found value' t, s.internCopy same value = some (found, t) ∧ Referred s found value' t ∧
      same value' value = true := by
  unfold Store.internCopy
  rcases hit : s.lookup same value with _ | found
  · have scratch := alloc_scratch s value
    refine ⟨s.next, value, (s.alloc value).2.put s.next (some ⟨1, value⟩), ?_, ⟨?_, ?_⟩,
      reflexive value⟩
    · have here : (s.alloc value).2.cells s.next = some ⟨0, value⟩ := scratch.here
      have new : (s.alloc value).1 = s.next := rfl
      simp [new, Store.addRef, here]
    · exact Or.inl ⟨scratch.fresh, Store.put_here ..⟩
    · intro other apart
      rw [Store.put_elsewhere _ _ _ apart]
      exact scratch.elsewhere other apart
  · obtain ⟨count, value', shared, equal⟩ := lookup_some hit
    obtain ⟨t, added, referred⟩ := addRef_referred shared
    refine ⟨found, value', t, ?_, referred, equal⟩
    simp [added]

end Bgpd.Interning
