import Bgpd.CommunitySets

/-!
# Communities printed

`community_com2str` adds up the room for all words and then fills it;
`ecommunity_ecom2str` doubles its buffer until there is room for one more value. A
write behind a buffer is a failure here, and none happens.
-/

namespace Bgpd.CommunityPrint

open Octets CommunityText CommunitySets Announce

/-! ## Buffers -/

/-- Memory of a size that is filled from the start. -/
structure Buffer where
  size : Nat
  text : CString

/-- `*pnt++ = c`. -/
def Buffer.putc (b : Buffer) (c : Char) : Option Buffer :=
  if b.text.length < b.size then some { b with text := b.text ++ [c] } else none

/-- `strcpy` or `sprintf`, which write the end of the string too. -/
def Buffer.puts (b : Buffer) (s : CString) : Option Buffer :=
  if b.text.length + s.length < b.size then some { b with text := b.text ++ s } else none

/-- `*pnt = '\0'`, and the string. -/
def Buffer.finish (b : Buffer) : Option CString :=
  if b.text.length < b.size then some b.text else none

/-- `%u`. -/
def unsigned {w : Nat} (n : BitVec w) : CString := Nat.toDigits 10 n.toNat

/-- `%d` of 32 bits. -/
def signed (n : U32) : CString :=
  if n.toInt < 0 then '-' :: Nat.toDigits 10 n.toInt.natAbs else unsigned n

/-- A word, behind a space unless it is the first. -/
def Buffer.word (b : Buffer) (first : Bool) (s : CString) : Option Buffer := do
  let b ← if first then some b else b.putc ' '
  b.puts s

/-! ## `community_com2str` -/

/-- `COMMUNITY_LOCAL_AS`. -/
def communityLocalAs : U32 := 0xFFFFFF03

/-- What is written for a value. -/
def communityWord (comval : U32) : CString :=
  if comval = 0 then "internet".toList
  else if comval = communityNoExport then "no-export".toList
  else if comval = communityNoAdvertise then "no-advertise".toList
  else if comval = communityLocalAs then "local-AS".toList
  else
    let as : U16 := comval.extractLsb' 16 16
    let val : U16 := comval.extractLsb' 0 16
    unsigned as ++ ':' :: unsigned val

/-- The room for a value. -/
def communityRoom (comval : U32) : Nat :=
  if comval = 0 then " internet".length
  else if comval = communityNoExport then " no-export".length
  else if comval = communityNoAdvertise then " no-advertise".length
  else if comval = communityLocalAs then " local-AS".length
  else " 65536:65535".length

/-- The loop that fills the buffer. -/
def communityFill : Bool → List U32 → Buffer → Option Buffer
  | _, [], b => some b
  | first, comval :: com, b => do communityFill false com (← b.word first (communityWord comval))

/-- `community_com2str`. -/
def communityCom2str (com : List U32) : Option CString :=
  if com.isEmpty then some []
  else do (← communityFill true com ⟨(com.map communityRoom).sum, []⟩).finish

/-! ## `ecommunity_ecom2str` -/

/-- The formats. -/
inductive Format
  | routeMap
  | communityList
  | display
  deriving DecidableEq

/-- What stands before a value of a type. -/
def keywordOf (format : Format) (type : U8) : CString :=
  match format with
  | .communityList => if type = 0x02 then "rt ".toList else "soo ".toList
  | .display => if type = 0x02 then "RT:".toList else "SoO:".toList
  | .routeMap => []

/-- `inet_ntoa`. -/
def inetNtoa (ip : U32) : CString :=
  unsigned (ip.extractLsb' 24 8) ++ '.' :: unsigned (ip.extractLsb' 16 8) ++
    '.' :: unsigned (ip.extractLsb' 8 8) ++ '.' :: unsigned (ip.extractLsb' 0 8)

/-- The high-order and the low-order octet of the type. -/
def encodeOf (x : BitVec 64) : U8 := x.extractLsb' 56 8

def typeOf (x : BitVec 64) : U8 := x.extractLsb' 48 8

/-- The number of a value behind its keyword. -/
def numberWord (x : BitVec 64) : CString :=
  if encodeOf x = 0x02 then unsigned (x.extractLsb' 16 32) ++ ':' :: unsigned (x.extractLsb' 0 16)
  else if encodeOf x = 0x00 then unsigned (x.extractLsb' 32 16) ++ ':' ::
    signed (x.extractLsb' 0 32)
  else inetNtoa (x.extractLsb' 16 32) ++ ':' :: unsigned (x.extractLsb' 0 16)

/-- What is written for a value. -/
def ecommunityWord (format : Format) (x : BitVec 64) : CString :=
  if encodeOf x ≠ 0x00 ∧ encodeOf x ≠ 0x01 ∧ encodeOf x ≠ 0x02 then ['?']
  else if typeOf x ≠ 0x02 ∧ typeOf x ≠ 0x03 then ['?']
  else keywordOf format (typeOf x) ++ numberWord x

/-- `ECOMMUNITY_STR_DEFAULT_LEN`. -/
def ecommunityStrDefaultLen : Nat := 27

/-- The loop that doubles a size until it is more than what is needed. -/
def doubled (need : Nat) : Nat → Nat → Nat
  | 0, size => size
  | turns + 1, size => if size ≤ need then doubled need turns (size * 2) else size

/-- `XREALLOC`, where there might not be enough. -/
def Buffer.grow (b : Buffer) : Buffer :=
  let need := b.text.length + ecommunityStrDefaultLen
  { b with size := doubled need (need + 1) b.size }

/-- The loop that fills the buffer. -/
def ecommunityFill (format : Format) : Bool → List (BitVec 64) → Buffer → Option Buffer
  | _, [], b => some b
  | first, x :: ecom, b => do
    ecommunityFill format false ecom (← b.grow.word first (ecommunityWord format x))

/-- `ecommunity_ecom2str`. -/
def ecommunityEcom2str (ecom : List (BitVec 64)) (format : Format) : Option CString :=
  if ecom.isEmpty then some []
  else do (← ecommunityFill format true ecom ⟨ecommunityStrDefaultLen + 1, []⟩).text

/-! ## The text -/

/-- Words with spaces between them. -/
def joined : List CString → CString
  | [] => []
  | s :: rest => s ++ rest.flatMap (' ' :: ·)

/-- The words, each behind a space but perhaps the first. -/
def filled (first : Bool) (words : List CString) : CString :=
  if first then joined words else words.flatMap (' ' :: ·)

theorem filled_cons (first : Bool) (s : CString) (rest : List CString) :
    filled first (s :: rest) = (if first then s else ' ' :: s) ++ filled false rest := by
  cases first <;> rfl

/-- A word that there is room for, with the space and the end of the string. -/
theorem word_eq {b : Buffer} {s : CString} {first : Bool}
    (room : b.text.length + s.length + (if first then 0 else 1) < b.size) :
    b.word first s = some ⟨b.size, b.text ++ (if first then s else ' ' :: s)⟩ := by
  cases first with
  | true => exact if_pos room
  | false =>
    have space : b.putc ' ' = some ⟨b.size, b.text ++ [' ']⟩ := if_pos (by simp at room; omega)
    have rest : Buffer.puts ⟨b.size, b.text ++ [' ']⟩ s =
        some ⟨b.size, b.text ++ [' '] ++ s⟩ := if_pos (by simp at room ⊢; omega)
    rw [Buffer.word, if_neg Bool.false_ne_true, Option.bind_eq_bind, space]
    exact rest.trans (by rw [List.append_assoc]; rfl)

theorem unsigned_length {w : Nat} (n : BitVec w) {k : Nat} (positive : 0 < k)
    (small : 2 ^ w ≤ 10 ^ k) : (unsigned n).length ≤ k := by
  rw [unsigned, Nat.length_toDigits_le_iff (by decide) positive]
  exact n.isLt.trans_le small

/-- A word fits the room that is added up for it, with one character more. -/
theorem communityWord_length (comval : U32) :
    (communityWord comval).length + 1 ≤ communityRoom comval := by
  unfold communityWord communityRoom
  split
  · decide
  · split
    · decide
    · split
      · decide
      · split
        · decide
        · have as := @unsigned_length 16 (comval.extractLsb' 16 16) 5 (by decide) (by decide)
          have val := @unsigned_length 16 (comval.extractLsb' 0 16) 5 (by decide) (by decide)
          have room : " 65536:65535".length = 12 := by decide
          rw [List.length_append, List.length_cons, room]
          omega

theorem communityFill_eq (com : List U32) {first : Bool} {b : Buffer}
    (room : b.text.length + (com.map communityRoom).sum + (if first then 0 else 1) ≤ b.size) :
    communityFill first com b = some ⟨b.size, b.text ++ filled first (com.map communityWord)⟩ := by
  induction com generalizing first b with
  | nil => cases first <;> simp [communityFill, filled, joined]
  | cons comval com ih =>
    have fits := communityWord_length comval
    rw [List.map_cons, List.sum_cons] at room
    rw [communityFill, Option.bind_eq_bind, word_eq (by omega), Option.bind_some, ih, List.map_cons,
      filled_cons, List.append_assoc]
    rw [List.length_append]
    cases first <;> simp at room ⊢ <;> omega

theorem filled_length (com : List U32) :
    (filled false (com.map communityWord)).length ≤ (com.map communityRoom).sum := by
  induction com with
  | nil => exact Nat.zero_le _
  | cons comval com ih =>
    have fits := communityWord_length comval
    rw [List.map_cons, filled_cons, if_neg Bool.false_ne_true, List.length_append, List.length_cons,
      List.map_cons, List.sum_cons]
    omega

/-- The text of some communities fits the buffer. -/
theorem communityCom2str_eq (com : List U32) :
    communityCom2str com = some (joined (com.map communityWord)) := by
  cases com with
  | nil => rfl
  | cons comval com =>
    have fits := communityWord_length comval
    have more := filled_length com
    have fills :=
      @communityFill_eq (comval :: com) true ⟨((comval :: com).map communityRoom).sum, []⟩
      (by simp)
    rw [communityCom2str, List.isEmpty_cons, if_neg Bool.false_ne_true, Option.bind_eq_bind, fills,
      Option.bind_some]
    have short : (joined ((comval :: com).map communityWord)).length <
        ((comval :: com).map communityRoom).sum := by
      show (communityWord comval ++ filled false (com.map communityWord)).length < _
      rw [List.length_append, List.map_cons, List.sum_cons]
      omega
    exact if_pos short

/-! ## Extended communities fit -/

theorem doubled_more {need turns size : Nat} (positive : 0 < size) (enough : need < size + turns) :
    need < doubled need turns size := by
  induction turns generalizing size with
  | zero => exact enough
  | succ turns ih =>
    unfold doubled
    by_cases small : size ≤ need
    · rw [if_pos small]
      exact ih (by omega) (by omega)
    · rw [if_neg small]
      omega

theorem grow_size (b : Buffer) (positive : 0 < b.size) :
    b.text.length + ecommunityStrDefaultLen < b.grow.size :=
  doubled_more positive (by omega)

theorem signed_length (n : U32) : (signed n).length ≤ 11 := by
  unfold signed
  split
  · have ten : (Nat.toDigits 10 n.toInt.natAbs).length ≤ 10 := by
      rw [Nat.length_toDigits_le_iff (by decide) (by decide)]
      rw [BitVec.toInt_eq_toNat_cond]
      split <;> omega
    rw [List.length_cons]
    omega
  · exact (unsigned_length n (by decide) (by decide : 2 ^ 32 ≤ 10 ^ 10)).trans (by decide)

theorem inetNtoa_length (ip : U32) : (inetNtoa ip).length ≤ 15 := by
  have octet (n : U8) : (unsigned n).length ≤ 3 := unsigned_length n (by decide) (by decide)
  have := octet (ip.extractLsb' 24 8)
  have := octet (ip.extractLsb' 16 8)
  have := octet (ip.extractLsb' 8 8)
  have := octet (ip.extractLsb' 0 8)
  simp only [inetNtoa, List.length_append, List.length_cons]
  omega

theorem numberWord_length (x : BitVec 64) : (numberWord x).length ≤ 21 := by
  have short (n : U16) : (unsigned n).length ≤ 5 := unsigned_length n (by decide) (by decide)
  have long (n : U32) : (unsigned n).length ≤ 10 := unsigned_length n (by decide) (by decide)
  unfold numberWord
  split
  · have := long (x.extractLsb' 16 32)
    have := short (x.extractLsb' 0 16)
    rw [List.length_append, List.length_cons]
    omega
  · split
    · have := short (x.extractLsb' 32 16)
      have := signed_length (x.extractLsb' 0 32)
      rw [List.length_append, List.length_cons]
      omega
    · have := inetNtoa_length (x.extractLsb' 16 32)
      have := short (x.extractLsb' 0 16)
      rw [List.length_append, List.length_cons]
      omega

theorem ecommunityWord_length (format : Format) (x : BitVec 64) :
    (ecommunityWord format x).length ≤ 25 := by
  have number := numberWord_length x
  have keyword : (keywordOf format (typeOf x)).length ≤ 4 := by
    unfold keywordOf
    cases format with
    | routeMap => exact Nat.zero_le _
    | communityList => dsimp only; split <;> decide
    | display => dsimp only; split <;> decide
  unfold ecommunityWord
  split
  · decide
  · split
    · decide
    · rw [List.length_append]
      omega

theorem ecommunityFill_eq (format : Format) (ecom : List (BitVec 64)) {first : Bool} {b : Buffer}
    (positive : 0 < b.size) :
    ∃ size, ecommunityFill format first ecom b =
      some ⟨size, b.text ++ filled first (ecom.map (ecommunityWord format))⟩ := by
  induction ecom generalizing first b with
  | nil => exact ⟨b.size, by cases first <;> simp [ecommunityFill, filled, joined]⟩
  | cons x ecom ih =>
    have fits := ecommunityWord_length format x
    have room : b.text.length + 27 < b.grow.size := grow_size b positive
    have word := @word_eq b.grow (ecommunityWord format x) first (by
      show b.text.length + _ + _ < _
      split <;> omega)
    obtain ⟨size, fills⟩ := @ih false ⟨b.grow.size, b.grow.text ++
      (if first then ecommunityWord format x else ' ' :: ecommunityWord format x)⟩
      (show 0 < b.grow.size by omega)
    refine ⟨size, ?_⟩
    rw [ecommunityFill, Option.bind_eq_bind, word, Option.bind_some, fills, List.map_cons,
      filled_cons,
      ← List.append_assoc]
    rfl

/-- The text of some extended communities fits the buffer. -/
theorem ecommunityEcom2str_eq (ecom : List (BitVec 64)) (format : Format) :
    ecommunityEcom2str ecom format = some (joined (ecom.map (ecommunityWord format))) := by
  cases ecom with
  | nil => rfl
  | cons x ecom =>
    obtain ⟨size, fills⟩ :=
      @ecommunityFill_eq format (x :: ecom) true ⟨ecommunityStrDefaultLen + 1, []⟩
      (Nat.succ_pos _)
    rw [ecommunityEcom2str, List.isEmpty_cons, if_neg Bool.false_ne_true,
      Option.bind_eq_bind, fills]
    rfl

end Bgpd.CommunityPrint
