import Mathlib.Tactic

/-!
# Words of flags

A word holds one flag at each bit. `check` tests whether a word shares a bit
with a mask and `set` adds the mask's bits. A test after a `set` is the
disjunction of the two tests, so a chain of `set`s is read one mask at a time
and no bit positions are ever compared by hand.
-/

namespace Bgpd.FlagWord

variable {w : Nat}

/-- A word and a mask share a bit. -/
def check (word mask : BitVec w) : Bool := word &&& mask != 0#w

/-- Add the bits of a mask. -/
def set (word mask : BitVec w) : BitVec w := word ||| mask

/-- A test holds exactly when some bit is in the word and in the mask. -/
theorem check_iff (word mask : BitVec w) :
    check word mask = true ↔ ∃ i, ∃ inside : i < w, word[i] = true ∧ mask[i] = true := by
  constructor
  · intro held
    by_contra none
    push Not at none
    have empty : word &&& mask = 0#w := by
      ext i inside
      have apart := none i inside
      rw [BitVec.getElem_and, BitVec.getElem_zero]
      cases bit : word[i] with
      | false => rfl
      | true => simpa using apart bit
    simp [check, empty] at held
  · rintro ⟨i, inside, inWord, inMask⟩
    by_contra failed
    have empty : word &&& mask = 0#w := by simpa [check] using failed
    have bit : (word &&& mask)[i] = false := by simp [empty]
    simp only [BitVec.getElem_and, inWord, inMask, Bool.and_self, Bool.true_eq_false] at bit

/-- Setting a mask adds its own answer to every test. -/
@[simp] theorem check_set (word mask probe : BitVec w) :
    check (set word mask) probe = (check word probe || check mask probe) := by
  rw [Bool.eq_iff_iff, Bool.or_eq_true, check_iff, check_iff, check_iff]
  constructor
  · rintro ⟨i, inside, inSet, inProbe⟩
    rw [set, BitVec.getElem_or, Bool.or_eq_true] at inSet
    rcases inSet with inWord | inMask
    · exact Or.inl ⟨i, inside, inWord, inProbe⟩
    · exact Or.inr ⟨i, inside, inMask, inProbe⟩
  · rintro (⟨i, inside, inWord, inProbe⟩ | ⟨i, inside, inMask, inProbe⟩)
    · exact ⟨i, inside, by simp [set, inWord], inProbe⟩
    · exact ⟨i, inside, by simp [set, inMask], inProbe⟩

end Bgpd.FlagWord
