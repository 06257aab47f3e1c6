import Mathlib.Tactic

/-!
# Words as octets in network order

A word of two or four octets is written most significant octet first. Reading
takes the octets from the front of a list; a list that is too short reads as
zero, so reading is total and a bounded reader needs no separate error value.

Writing followed by reading is the identity, whatever follows the written
octets, and writing is injective. Nothing here fixes what the octets carry.
-/

namespace Bgpd.Octets

/-- One octet, two octets and four octets, with wrapping arithmetic. -/
abbrev U8 := BitVec 8
abbrev U16 := BitVec 16
abbrev U32 := BitVec 32

/-- Octets and words are compared by their values. -/
instance lawfulBEqU8 : LawfulBEq U8 := inferInstance

instance lawfulBEqU32 : LawfulBEq U32 := inferInstance

/-- The octets of a two-octet word, most significant first. -/
def putw (word : U16) : List U8 :=
  [word.extractLsb' 8 8, word.extractLsb' 0 8]

/-- The octets of a four-octet word, most significant first. -/
def putl (word : U32) : List U8 :=
  [word.extractLsb' 24 8, word.extractLsb' 16 8, word.extractLsb' 8 8, word.extractLsb' 0 8]

/-- Read one octet. -/
def getc : List U8 → U8
  | a :: _ => a
  | [] => 0

/-- Read two octets. -/
def getw : List U8 → U16
  | a :: b :: _ => a ++ b
  | _ => 0

/-- Read four octets. -/
def getl : List U8 → U32
  | a :: b :: c :: d :: _ => a ++ b ++ c ++ d
  | _ => 0

@[simp] theorem putw_length (word : U16) : (putw word).length = 2 := rfl

@[simp] theorem putl_length (word : U32) : (putl word).length = 4 := rfl

/-- Two written octets read back as the word, whatever follows them. -/
@[simp] theorem getw_putw (word : U16) (rest : List U8) : getw (putw word ++ rest) = word := by
  have halves : word.extractLsb' 8 8 ++ word.extractLsb' 0 8 = word := by
    ext i hi
    simp only [BitVec.getElem_append, BitVec.getElem_extractLsb']
    split <;> rw [← BitVec.getLsbD_eq_getElem] <;> congr 1 <;> omega
  exact halves

/-- Two octets that were read are the octets of the word. -/
@[simp] theorem putw_getw (high low : U8) : putw (getw [high, low]) = [high, low] := by
  have upper : (high ++ low).extractLsb' 8 8 = high := by
    ext i hi
    rw [BitVec.getElem_extractLsb', BitVec.getLsbD_append, if_neg (by omega)]
    rw [← BitVec.getLsbD_eq_getElem]
    congr 1
    omega
  have lower : (high ++ low).extractLsb' 0 8 = low := by
    ext i hi
    rw [BitVec.getElem_extractLsb', BitVec.getLsbD_append, if_pos (by omega)]
    rw [← BitVec.getLsbD_eq_getElem, Nat.zero_add]
  simp only [putw, getw, upper, lower]

/-- Four written octets read back as the word, whatever follows them. -/
@[simp] theorem getl_putl (word : U32) (rest : List U8) : getl (putl word ++ rest) = word := by
  have quarters : word.extractLsb' 24 8 ++ word.extractLsb' 16 8 ++ word.extractLsb' 8 8
      ++ word.extractLsb' 0 8 = word := by
    ext i hi
    simp only [BitVec.getElem_append, BitVec.getElem_extractLsb']
    split
    · rw [← BitVec.getLsbD_eq_getElem]; congr 1; omega
    · split
      · rw [← BitVec.getLsbD_eq_getElem]; congr 1; omega
      · split <;> rw [← BitVec.getLsbD_eq_getElem] <;> congr 1 <;> omega
  exact quarters

/-- The form without a suffix, for a body that holds one word and nothing else. -/
@[simp] theorem getl_putl_exact (word : U32) : getl (putl word) = word := by
  simpa only [List.append_nil] using getl_putl word []

/-- Distinct words have distinct octets. -/
theorem putl_injective (left right : U32) (same : putl left = putl right) : left = right := by
  rw [← getl_putl_exact left, same, getl_putl_exact]

/-- Reading looks at the front only. -/
theorem getw_take {count : Nat} (enough : 2 ≤ count) (octets : List U8) :
    getw (octets.take count) = getw octets := by
  obtain ⟨count, rfl⟩ := Nat.exists_eq_add_of_le' enough
  rcases octets with _ | ⟨a, _ | ⟨b, rest⟩⟩ <;> rfl

theorem getl_take {count : Nat} (enough : 4 ≤ count) (octets : List U8) :
    getl (octets.take count) = getl octets := by
  obtain ⟨count, rfl⟩ := Nat.exists_eq_add_of_le' enough
  rcases octets with _ | ⟨a, _ | ⟨b, _ | ⟨c, _ | ⟨d, rest⟩⟩⟩⟩ <;> rfl

end Bgpd.Octets
