import Bgpd.CommunityPrint
import Bgpd.PathText

/-!
# Communities read back

The words of a printed set are read one by one as the values they were printed from.
Plain communities come back whatever they are. Of the extended ones a number of 32 bits
behind an AS number is printed with `%d`, so that the upper half of them gets a sign that
no reader takes, and the last AS number is refused.

Numbers are read in 32 bits and nobody asks whether they fit, so that many texts with a
number that is too large are read as something else.
-/

namespace Bgpd.CommunityRoundTrip

open Octets CommunityText CommunitySets CommunityPrint

/-! ## Numbers -/

/-- Some decimal digits. -/
structure Digits (ds : CString) : Prop where
  some : ds ≠ []
  all : ∀ c ∈ ds, c.isDigit = true

/-- The number the digits stand for. -/
def number (ds : CString) : Nat := Nat.ofDigitChars 10 ds 0

/-- A word ends here. -/
def Ends (rest : CString) : Prop := rest = [] ∨ ∃ more, rest = ' ' :: more

theorem toDigits_digits (n : Nat) : Digits (Nat.toDigits 10 n) :=
  ⟨Nat.toDigits_ne_nil, fun _ member => Nat.isDigit_of_mem_toDigits (by decide) (by decide) member⟩

theorem unsigned_digits {w : Nat} (n : BitVec w) : Digits (unsigned n) := toDigits_digits n.toNat

@[simp] theorem number_unsigned {w : Nat} (n : BitVec w) : number (unsigned n) = n.toNat :=
  Nat.ofDigitChars_ten_toDigits

/-- A digit more in 32 bits. -/
theorem ofNat_digit (c : Char) (low : Nat) :
    BitVec.ofNat 32 low * 10 + BitVec.ofNat 32 (c.toNat - '0'.toNat) =
      BitVec.ofNat 32 (10 * low + (c.toNat - '0'.toNat)) := by
  rw [Nat.mul_comm 10 low, BitVec.ofNat_add, BitVec.ofNat_mul]
  rfl

theorem digit_ne {c d : Char} (digit : c.isDigit = true) (other : d.isDigit = false) : c ≠ d := by
  rintro rfl
  rw [digit] at other
  cases other

/-! ## Plain communities -/

section Plain

variable {ds rest : CString} {separator digit : Bool} {high : U32}

/-- Digits are read into the lower half, which keeps 32 bits. -/
theorem communityDigits_digits (all : ∀ c ∈ ds, c.isDigit = true) (low : Nat) :
    communityDigits (ds ++ rest) separator digit high (BitVec.ofNat 32 low) =
      communityDigits rest separator (digit || !ds.isEmpty) high
        (BitVec.ofNat 32 (Nat.ofDigitChars 10 ds low)) := by
  induction ds generalizing digit low with
  | nil => simp
  | cons c ds ih =>
    obtain ⟨first, all⟩ := List.forall_mem_cons.mp all
    rw [List.cons_append, communityDigits, if_neg (digit_ne first rfl), if_pos first,
      ofNat_digit, ih all, Nat.ofDigitChars_cons]
    simp

theorem communityDigits_ends (ends : Ends rest) (low : U32) :
    communityDigits rest separator digit high low = some (rest, digit, high, low) := by
  rcases ends with rfl | ⟨more, rfl⟩ <;> rfl

theorem digit_not_alpha {c : Char} (digit : c.isDigit = true) : c.isAlpha = false := by
  have bounds : 48 ≤ c.toNat ∧ c.toNat ≤ 57 := by
    simpa [Char.isDigit, UInt32.le_iff_toNat_le] using digit
  rw [Bool.eq_false_iff]
  intro alpha
  have letter : (c.isUpper || c.isLower) = true := alpha
  rcases (Bool.or_eq_true ..).mp letter with upper | lower
  · obtain ⟨first, -⟩ : 65 ≤ c.toNat ∧ c.toNat ≤ 90 := of_decide_eq_true upper
    omega
  · have first : 97 ≤ c.toNat := of_decide_eq_true ((Bool.and_eq_true ..).mp lower).1
    omega

theorem digit_not_space {c : Char} (digit : c.isDigit = true) : isSpace c = false :=
  Bool.eq_false_iff.mpr fun space => (PathText.digit_plain digit).1 (.inl space)

/-- A token of digits. -/
theorem communityGettoken_digits {p : CString} {low : U32}
    (starts : ∃ c ∈ p.head?, c.isDigit = true)
    (reads : communityDigits p false false 0 0 = some (rest, true, high, low))
    (token : CommunityToken)
    (val : U32) : communityGettoken p token val = (some rest, .val, high + low) := by
  obtain ⟨c, at_head, first⟩ := starts
  cases p with
  | nil => cases at_head
  | cons d p =>
    cases at_head
    rw [communityGettoken, List.dropWhile_cons_of_neg (by simp [digit_not_space first]),
      communityToken, if_neg (by simp [digit_not_alpha first]), if_pos first, reads]
    rfl

theorem Digits.starts {a : CString} (digits : Digits a) (more : CString) :
    ∃ c ∈ (a ++ more).head?, c.isDigit = true := by
  obtain ⟨c, a', rfl⟩ := List.exists_cons_of_ne_nil digits.some
  exact ⟨c, rfl, digits.all c List.mem_cons_self⟩

/-- A number alone, in 32 bits. -/
theorem communityGettoken_number {a : CString} (digits : Digits a) (ends : Ends rest)
    (token : CommunityToken) (val : U32) :
    communityGettoken (a ++ rest) token val = (some rest, .val, BitVec.ofNat 32 (number a)) := by
  have reads := @communityDigits_digits a rest false false 0 digits.all 0
  rw [communityDigits_ends ends, List.isEmpty_eq_false_iff.mpr digits.some] at reads
  rw [communityGettoken_digits (digits.starts rest) reads, number]
  simp

/-- Two numbers with a colon between them, in 32 bits. -/
theorem communityGettoken_halves {a b : CString} (digits : Digits a) (digits' : Digits b)
    (ends : Ends rest) (token : CommunityToken) (val : U32) :
    communityGettoken (a ++ ':' :: b ++ rest) token val =
      (some rest, .val, BitVec.ofNat 32 (number a * 65536 + number b)) := by
  have first := @communityDigits_digits a (':' :: b ++ rest) false false 0 digits.all 0
  have second :=
    @communityDigits_digits b rest true false (BitVec.ofNat 32 (number a) <<< 16) digits'.all 0
  rw [communityDigits_ends ends, List.isEmpty_eq_false_iff.mpr digits'.some] at second
  rw [List.cons_append, communityDigits, if_pos rfl, if_neg Bool.false_ne_true] at first
  have reads := first.trans second
  rw [← List.cons_append, ← List.append_assoc] at reads
  rw [communityGettoken_digits _ reads]
  · have shift : BitVec.ofNat 32 (number a) <<< 16 = BitVec.ofNat 32 (number a * 65536) := by
      apply BitVec.eq_of_toNat_eq
      rw [BitVec.toNat_shiftLeft, BitVec.toNat_ofNat, BitVec.toNat_ofNat, Nat.shiftLeft_eq]
      omega
    rw [shift, BitVec.ofNat_add]
    rfl
  · rw [List.append_assoc]
    exact digits.starts _

/-- A value printed is a token that is read as the value. -/
theorem communityGettoken_word (comval : U32) (ends : Ends rest) (token : CommunityToken)
    (val : U32) :
    ∃ token', token' ≠ .unknown ∧
      communityGettoken (communityWord comval ++ rest) token val = (some rest, token', comval) := by
  unfold communityWord
  split
  · subst_vars
    exact ⟨.noExport, nofun, rfl⟩
  · split
    · subst_vars
      exact ⟨.noExport, nofun, rfl⟩
    · split
      · subst_vars
        exact ⟨.noAdvertise, nofun, rfl⟩
      · split
        · subst_vars
          exact ⟨.localAs, nofun, rfl⟩
        · refine ⟨.val, nofun, ?_⟩
          rw [communityGettoken_halves (unsigned_digits _) (unsigned_digits _) ends,
            number_unsigned, number_unsigned]
          have halves : (comval.extractLsb' 16 16).toNat * 65536 + (comval.extractLsb' 0 16).toNat =
              comval.toNat := by
            simp only [BitVec.extractLsb'_toNat, Nat.shiftRight_eq_div_pow]
            omega
          rw [halves, BitVec.ofNat_toNat, BitVec.setWidth_eq]

/-- A space before a token is skipped. -/
theorem communityGettoken_space (p : CString) (token : CommunityToken) (val : U32) :
    communityGettoken (' ' :: p) token val = communityGettoken p token val := rfl

theorem filled_ends (words : List CString) : Ends (filled false words) := by
  cases words with
  | nil => exact .inl rfl
  | cons s rest => exact .inr ⟨s ++ rest.flatMap (' ' :: ·), rfl⟩

/-- The loop reads all words, and the last value once more at the end. -/
theorem communityLoop_words (com : List U32) {fuel : Nat} {token : CommunityToken} {val : U32}
    (known : token ≠ .unknown) (acc : List U32)
    (enough : (filled false (com.map communityWord)).length < fuel) :
    ∃ last ∈ val :: com, communityLoop fuel (filled false (com.map communityWord)) token val acc =
      some (acc ++ com ++ [last]) := by
  induction com generalizing fuel token val acc with
  | nil =>
    obtain ⟨fuel, rfl⟩ := Nat.exists_eq_succ_of_ne_zero (Nat.ne_of_gt enough)
    refine ⟨val, List.mem_cons_self, ?_⟩
    have nothing : communityGettoken [] token val = (none, token, val) := rfl
    show communityLoop (fuel + 1) [] token val acc = _
    rw [communityLoop, nothing]
    dsimp only
    rw [if_neg known, List.append_nil]
  | cons comval com ih =>
    obtain ⟨fuel, rfl⟩ := Nat.exists_eq_succ_of_ne_zero (Nat.ne_of_gt (Nat.zero_lt_of_lt enough))
    rw [List.map_cons, filled_cons, if_neg Bool.false_ne_true] at enough ⊢
    obtain ⟨token', known', reads⟩ :=
      communityGettoken_word comval (filled_ends (com.map communityWord)) token val
    rw [List.length_append, List.length_cons] at enough
    obtain ⟨last, member, loop⟩ := @ih fuel token' comval known' (acc ++ [comval]) (by omega)
    refine ⟨last, List.mem_cons_of_mem _ member, ?_⟩
    rw [List.cons_append, communityLoop, communityGettoken_space, reads]
    dsimp only
    rw [if_neg known', loop]
    simp

theorem communityWord_some (comval : U32) : 0 < (communityWord comval).length := by
  unfold communityWord
  split
  · decide
  · split
    · decide
    · split
      · decide
      · split
        · decide
        · rw [List.length_append, List.length_cons]
          omega

/-- Values in order with one of them once more are sorted to the values. -/
theorem uniqSort_again {com : List U32} (ordered : Ascending com) {last : U32}
    (member : last ∈ com) :
    PolicyClauses.communityUniqSort (com ++ [last]) = com := by
  rw [communityUniqSort_eq]
  obtain ⟨ascending, members⟩ := communityUniqSort_spec (com ++ [last])
  refine (ascending_ext ascending ordered).mpr fun x => ?_
  rw [members, List.mem_append, List.mem_singleton, or_iff_left_iff_imp]
  rintro rfl
  exact member

/-- What is printed is read back. -/
theorem communityStr2com_words {com : List U32} (some_ : com ≠ []) (ordered : Ascending com) :
    communityStr2com (joined (com.map communityWord)) = some com := by
  obtain ⟨comval, com, rfl⟩ := List.exists_cons_of_ne_nil some_
  have text : joined ((comval :: com).map communityWord) =
      communityWord comval ++ filled false (com.map communityWord) := rfl
  obtain ⟨token, known, reads⟩ :=
    communityGettoken_word comval (filled_ends (com.map communityWord)) .unknown 0
  rw [communityStr2com, text, communityLoop, reads]
  dsimp only
  have short := communityWord_some comval
  obtain ⟨last, member, loop⟩ := @communityLoop_words com
    (communityWord comval ++ filled false (com.map communityWord)).length token comval
      known [comval]
    (by rw [List.length_append]; omega)
  rw [if_neg known, List.nil_append, loop, Option.map_some, List.singleton_append,
    uniqSort_again ordered member]

/-- A single token gives its value. -/
theorem communityStr2com_single {p : CString} {v : U32} (starts : p ≠ [])
    (reads : ∀ token val, communityGettoken p token val = (some [], .val, v)) :
    communityStr2com p = some [v] := by
  have nothing : communityGettoken [] .val v = (none, .val, v) := rfl
  obtain ⟨c, p, rfl⟩ := List.exists_cons_of_ne_nil starts
  rw [communityStr2com, List.length_cons, communityLoop, reads]
  dsimp only
  rw [if_neg nofun, communityLoop, nothing]
  dsimp only
  rw [if_neg nofun, Option.map_some]
  exact congrArg some (uniqSort_again (List.pairwise_singleton _ v) List.mem_cons_self)

/-- Halves that are too large run over. -/
theorem communityStr2com_halves {a b : CString} (digits : Digits a) (digits' : Digits b) :
    communityStr2com (a ++ ':' :: b) = some [BitVec.ofNat 32 (number a * 65536 + number b)] := by
  refine communityStr2com_single (by simp) fun token val => ?_
  have reads := communityGettoken_halves digits digits' (.inl rfl) token val
  rwa [List.append_nil] at reads

theorem communityStr2com_number {a : CString} (digits : Digits a) :
    communityStr2com a = some [BitVec.ofNat 32 (number a)] := by
  refine communityStr2com_single digits.some fun token val => ?_
  have reads := communityGettoken_number digits (.inl rfl) token val
  rwa [List.append_nil] at reads

end Plain

/-! ## Addresses -/

theorem splitOn_octet {w : Nat} (n : BitVec w) : (unsigned n).splitOn '.' = [unsigned n] :=
  List.splitOn_eq_singleton fun dot => Bool.false_ne_true ((unsigned_digits n).all '.' dot)

/-- The parts of a printed address. -/
theorem splitOn_inetNtoa (ip : U32) :
    (inetNtoa ip).splitOn '.' = [unsigned (ip.extractLsb' 24 8), unsigned (ip.extractLsb' 16 8),
      unsigned (ip.extractLsb' 8 8), unsigned (ip.extractLsb' 0 8)] := by
  rw [inetNtoa, List.splitOn_append_cons_self, List.splitOn_append_cons_self,
    List.splitOn_append_cons_self, splitOn_octet, splitOn_octet, splitOn_octet, splitOn_octet]
  rfl

theorem octets_address (ip : U32) :
    (ip.extractLsb' 24 8).toNat * 2 ^ 24 + (ip.extractLsb' 16 8).toNat * 2 ^ 16 +
      (ip.extractLsb' 8 8).toNat * 2 ^ 8 + (ip.extractLsb' 0 8).toNat = ip.toNat := by
  simp only [BitVec.extractLsb'_toNat, Nat.shiftRight_eq_div_pow]
  omega

theorem fill_octets {a b c d : Nat} (first : a < 256) (second : b < 256) (third : c < 256)
    (fourth : d < 256) :
    fill [a, b, c, d] = some (BitVec.ofNat 32 (a * 2 ^ 24 + b * 2 ^ 16 + c * 2 ^ 8 + d)) := by
  have small : ∀ part ∈ [c, b, a], part < 256 := by simp [first, second, third]
  have value : 256 * (256 * (256 * 0 + a) + b) + c = a * 2 ^ 16 + b * 2 ^ 8 + c := by omega
  refine (if_pos ⟨Nat.lt_succ_self 3, small, fourth⟩).trans ?_
  simp only [List.reverse_cons, List.reverse_nil, List.nil_append, List.cons_append,
    List.foldl_cons, List.foldl_nil, value]
  refine congrArg (fun n => some (BitVec.ofNat 32 n)) ?_
  change (a * 2 ^ 16 + b * 2 ^ 8 + c) * 256 + d = _
  omega

/-- `inet_aton` reads what `inet_ntoa` writes. -/
theorem inetAton_inetNtoa (ip : U32) : inetAton (inetNtoa ip) = some ip := by
  have number (n : U8) : addressNumber (unsigned n) = some n.toNat := by
    have all : ∀ n < 256, addressNumber (Nat.toDigits 10 n) = some n := by decide +kernel
    exact all n.toNat n.isLt
  have black : ∀ c ∈ inetNtoa ip, (!isSpace c) = true := by
    have octet (n : U8) : ∀ c ∈ unsigned n, isSpace c = false := fun c member =>
      digit_not_space ((unsigned_digits n).all c member)
    have dot : isSpace '.' = false := by decide
    simp only [inetNtoa, List.mem_append, List.mem_cons, Bool.not_eq_true']
    rintro c (((member | rfl | member) | rfl | member) | rfl | member)
    all_goals first | exact dot | exact octet _ c member
  have small (i : Nat) : (ip.extractLsb' i 8).toNat < 256 := (ip.extractLsb' i 8).isLt
  have whole : (inetNtoa ip ++ []).takeWhile (fun c => !isSpace c) = inetNtoa ip := by
    rw [List.takeWhile_append_of_pos black]
    simp
  rw [List.append_nil] at whole
  rw [inetAton, whole, splitOn_inetNtoa]
  simp only [List.mapM_cons, List.mapM_nil, number, Option.bind_eq_bind, Option.bind_some,
    Option.pure_def]
  rw [fill_octets (small 24) (small 16) (small 8) (small 0), octets_address, BitVec.ofNat_toNat,
    BitVec.setWidth_eq]

/-! ## Extended communities -/

section Extended

variable {ds a b rest : CString}

theorem read_digit {c : Char} (digit : c.isDigit = true) (scan : ValueScan) :
    scan.read c = some { scan with
      digit := true
      val :=
  if scan.separator then scan.val * 10 + BitVec.ofNat 32 (c.toNat - '0'.toNat) else scan.val
      before := scan.before ++ [c] } := by
  rw [ValueScan.read, if_neg (digit_ne digit rfl), if_neg (digit_ne digit rfl)]

/-- Digits before the colon are kept as text. -/
theorem ecommunityDigits_before (all : ∀ c ∈ ds, c.isDigit = true) {scan : ValueScan}
    (before : scan.separator = false) :
    ecommunityDigits (ds ++ rest) scan =
      ecommunityDigits rest
        { scan with digit := scan.digit || !ds.isEmpty, before := scan.before ++ ds } := by
  induction ds generalizing scan with
  | nil => simp
  | cons c ds ih =>
    obtain ⟨first, all⟩ := List.forall_mem_cons.mp all
    rw [List.cons_append, ecommunityDigits, if_pos (.inl first), read_digit first, Option.bind_some]
    refine (ih all ?_).trans ?_
    · exact before
    · simp [before]

/-- Digits behind the colon are read as a number. -/
theorem ecommunityDigits_behind (all : ∀ c ∈ ds, c.isDigit = true) {scan : ValueScan}
    (behind : scan.separator = true) {low : Nat} (val : scan.val = BitVec.ofNat 32 low) :
    ecommunityDigits (ds ++ rest) scan =
      ecommunityDigits rest
        { scan with
          digit := scan.digit || !ds.isEmpty
          before := scan.before ++ ds
          val := BitVec.ofNat 32 (Nat.ofDigitChars 10 ds low) } := by
  induction ds generalizing scan low with
  | nil => simp [← val]
  | cons c ds ih =>
    obtain ⟨first, all⟩ := List.forall_mem_cons.mp all
    rw [List.cons_append, ecommunityDigits, if_pos (.inl first), read_digit first, Option.bind_some]
    rw [behind, if_pos rfl, val, ofNat_digit, Nat.ofDigitChars_cons]
    refine (ih all ?_ rfl).trans ?_
    · rfl
    · simp

theorem ecommunityDigits_ends (ends : Ends rest) (scan : ValueScan) :
    ecommunityDigits rest scan = some (rest, scan) := by
  rcases ends with rfl | ⟨more, rfl⟩ <;> rfl

/-- What is encoded for two numbers, or for an address and a number. -/
def encoded (dot : Nat) (ip as val : U32) : EcommunityToken :=
  ((ValueScan.encode ⟨[], dot, true, true, ip, as, val⟩).map .val).getD .unknown

/-- A token that begins with a digit. -/
theorem ecommunityGettoken_digits {p : CString} (starts : ∃ c ∈ p.head?, c.isDigit = true) :
    (ecommunityDigits p {} = none → ecommunityGettoken p = some (p, .unknown)) ∧
      ∀ rest scan, ecommunityDigits p {} = some (rest, scan) →
        ecommunityGettoken p = some (rest, (scan.encode.map .val).getD .unknown) := by
  obtain ⟨c, at_head, first⟩ := starts
  cases p with
  | nil => cases at_head
  | cons d p =>
    cases at_head
    have skip : (c :: p).dropWhile isSpace = c :: p :=
      List.dropWhile_cons_of_neg (by simp [digit_not_space first])
    constructor
    · intro nothing
      simp only [ecommunityGettoken, skip, first, if_true, nothing]
    · intro rest scan reads
      simp only [ecommunityGettoken, skip, first, if_true, reads]

/-- An AS number that no token may have: it is too long for the buffer, or the last one. -/
def Refused (a : CString) : Prop := 16 < a.length ∨ BitVec.ofNat 32 (number a) = 4294967295

/-- The AS number before a colon is taken unless it is refused. -/
theorem ecommunityDigits_number (digits : Digits a) (more : CString) :
    (Refused a → ecommunityDigits (a ++ ':' :: more) {} = none) ∧
      (¬Refused a → ecommunityDigits (a ++ ':' :: more) {} = ecommunityDigits more
        { before := a ++ [':'], separator := true, as := BitVec.ofNat 32 (number a) }) := by
  have reads : ecommunityDigits (a ++ ':' :: more) {} =
      (ValueScan.colon { before := a, digit := true }).bind (ecommunityDigits more) := by
    have some_ : a.isEmpty = false := List.isEmpty_eq_false_iff.mpr digits.some
    rw [ecommunityDigits_before digits.all rfl, ecommunityDigits, if_pos (.inr (.inl rfl)),
      ValueScan.read, if_pos rfl, some_]
    rfl
  rw [reads]
  constructor
  · rintro (long | last)
    · simp [ValueScan.colon, long]
    · have last : BitVec.ofNat 32 (Nat.ofDigitChars 10 a 0) = 4294967295 := last
      simp [ValueScan.colon, last]
  · intro taken
    obtain ⟨short, other⟩ := not_or.mp taken
    have other : ¬BitVec.ofNat 32 (Nat.ofDigitChars 10 a 0) = 4294967295 := other
    rw [ValueScan.colon, if_neg (by simpa using short), if_neg (by simp), if_neg other]
    rfl

theorem ecommunityGettoken_refused (digits : Digits a) (refused : Refused a) (more : CString) :
    ecommunityGettoken (a ++ ':' :: more) = some (a ++ ':' :: more, .unknown) := by
  refine (ecommunityGettoken_digits (digits.starts _)).1 ?_
  exact (ecommunityDigits_number digits more).1 refused

/-- Two numbers with a colon between them, in 32 bits. -/
theorem ecommunityGettoken_numbers (digits : Digits a) (digits' : Digits b) (ends : Ends rest)
    (taken : ¬Refused a) :
    ecommunityGettoken (a ++ ':' :: (b ++ rest)) =
      some (rest, encoded 0 0 (BitVec.ofNat 32 (number a)) (BitVec.ofNat 32 (number b))) := by
  have reads := (ecommunityDigits_number digits (b ++ rest)).2 taken
  rw [@ecommunityDigits_behind b rest digits'.all
    ⟨a ++ [':'], 0, false, true, 0, BitVec.ofNat 32 (number a), 0⟩ rfl 0 rfl,
    ecommunityDigits_ends ends, List.isEmpty_eq_false_iff.mpr digits'.some] at reads
  exact ((ecommunityGettoken_digits (digits.starts _)).2 _ _ reads).trans rfl

/-- A sign is no digit. -/
theorem ecommunityGettoken_sign (digits : Digits a) (more : CString) :
    ∃ rest, ecommunityGettoken (a ++ ':' :: '-' :: more) = some (rest, .unknown) := by
  by_cases refused : Refused a
  · exact ⟨_, ecommunityGettoken_refused digits refused _⟩
  · have reads := (ecommunityDigits_number digits ('-' :: more)).2 refused
    exact ⟨_, (ecommunityGettoken_digits (digits.starts _)).2 _ _ reads⟩

theorem ecommunityDigits_dot {scan : ValueScan} (before : scan.separator = false)
    (few : scan.dot < 4) (more : CString) :
    ecommunityDigits ('.' :: more) scan =
      ecommunityDigits more { scan with dot := scan.dot + 1, before := scan.before ++ ['.'] } := by
  rw [ecommunityDigits, if_pos (.inr (.inr rfl)), ValueScan.read, if_neg (by decide), if_pos rfl,
    if_neg (by rw [before]; simp; omega), Option.bind_some]

/-- An address and a number. -/
theorem ecommunityGettoken_address (ip : U32) (digits : Digits b) (ends : Ends rest) :
    ecommunityGettoken (inetNtoa ip ++ ':' :: (b ++ rest)) =
      some (rest, encoded 3 ip 0 (BitVec.ofNat 32 (number b))) := by
  have octet (n : U8) : ∀ c ∈ unsigned n, c.isDigit = true := (unsigned_digits n).all
  have some_ (n : U8) : (unsigned n).isEmpty = false :=
    List.isEmpty_eq_false_iff.mpr (unsigned_digits n).some
  have address (more : CString) : ecommunityDigits (inetNtoa ip ++ more) {} =
      ecommunityDigits more { before := inetNtoa ip, dot := 3, digit := true } := by
    simp only [inetNtoa, List.append_assoc, List.cons_append]
    rw [ecommunityDigits_before (octet _) rfl, ecommunityDigits_dot rfl (by decide : 0 < 4),
      ecommunityDigits_before (octet _) rfl, ecommunityDigits_dot rfl (by decide : 1 < 4),
      ecommunityDigits_before (octet _) rfl, ecommunityDigits_dot rfl (by decide : 2 < 4),
      ecommunityDigits_before (octet _) rfl]
    simp [some_]
  have short := inetNtoa_length ip
  have colon : ValueScan.colon { before := inetNtoa ip, dot := 3, digit := true } =
      some { before := inetNtoa ip ++ [':'], dot := 3, separator := true, ip := ip } := by
    rw [ValueScan.colon, if_neg (by simp; omega), if_pos (by decide : 3 ≠ 0)]
    rw [inetAton_inetNtoa]
    rfl
  have reads := address (':' :: (b ++ rest))
  rw [ecommunityDigits, if_pos (.inr (.inl rfl)), ValueScan.read, if_pos rfl, colon,
    Option.bind_some,
    @ecommunityDigits_behind b rest digits.all
      ⟨inetNtoa ip ++ [':'], 3, false, true, ip, 0, 0⟩ rfl 0 rfl,
    ecommunityDigits_ends ends, List.isEmpty_eq_false_iff.mpr digits.some] at reads
  have starts : ∃ c ∈ (inetNtoa ip ++ ':' :: (b ++ rest)).head?, c.isDigit = true := by
    simp only [inetNtoa, List.append_assoc]
    exact (unsigned_digits _).starts _
  exact ((ecommunityGettoken_digits starts).2 _ _ reads).trans rfl

end Extended

/-! ## Words of extended communities -/

/-- The three encodings with a route target or a site of origin; a long AS number only
where a short one is not enough. -/
structure Supported (x : BitVec 64) : Prop where
  encode : encodeOf x = 0x00 ∨ encodeOf x = 0x01 ∨
    encodeOf x = 0x02 ∧ 65535 < (x.extractLsb' 16 32).toNat
  type : typeOf x = 0x02 ∨ typeOf x = 0x03

/-- The number behind a short AS number has no sign, and a long AS number is not the last. -/
structure Readable (x : BitVec 64) : Prop where
  plain : encodeOf x = 0x00 → (x.extractLsb' 0 32).toNat < 2 ^ 31
  taken : encodeOf x = 0x02 → (x.extractLsb' 16 32).toNat ≠ 4294967295

section Words

variable {x : BitVec 64} {rest : CString}

theorem withType_short (x : BitVec 64) :
    withType (encodeOf x ++ 0#8 ++ x.extractLsb' 32 16 ++ x.extractLsb' 0 32) (typeOf x) = x := by
  apply BitVec.eq_of_getLsbD_eq
  intro i hi
  simp only [withType, encodeOf, typeOf, BitVec.getLsbD_append, BitVec.getLsbD_extractLsb',
    BitVec.getLsbD_zero]
  grind

theorem withType_long (x : BitVec 64) :
    withType (encodeOf x ++ 0#8 ++ x.extractLsb' 16 32 ++ x.extractLsb' 0 16) (typeOf x) = x := by
  apply BitVec.eq_of_getLsbD_eq
  intro i hi
  simp only [withType, encodeOf, typeOf, BitVec.getLsbD_append, BitVec.getLsbD_extractLsb',
    BitVec.getLsbD_zero]
  grind

/-- A printed number of at most 32 bits is not too long. -/
theorem refused_unsigned {w : Nat} (n : BitVec w) (narrow : w ≤ 32) :
    Refused (unsigned n) ↔ n.toNat = 4294967295 := by
  have small : n.toNat < 2 ^ 32 := n.isLt.trans_le (Nat.pow_le_pow_right (by decide) narrow)
  have short : (unsigned n).length ≤ 10 :=
    unsigned_length n (by decide) ((Nat.pow_le_pow_right (by decide) narrow).trans (by decide))
  rw [Refused, number_unsigned, ← BitVec.toNat_inj, BitVec.toNat_ofNat, Nat.mod_eq_of_lt small]
  exact or_iff_right (by omega)

/-- A half word in 32 bits. -/
theorem half_word (n : U16) :
    ¬BitVec.ofNat 32 n.toNat > 65535 ∧ (BitVec.ofNat 32 n.toNat).setWidth 16 = n := by
  have small := n.isLt
  have same : (BitVec.ofNat 32 n.toNat).toNat = n.toNat := by
    rw [BitVec.toNat_ofNat]
    omega
  constructor
  · rw [gt_iff_lt, BitVec.lt_def, same]
    exact Nat.not_lt.mpr (Nat.le_of_lt_succ small)
  · apply BitVec.eq_of_toNat_eq
    rw [BitVec.toNat_setWidth, same]
    exact Nat.mod_eq_of_lt small

theorem encoded_short (as : U16) (val : U32) :
    encoded 0 0 (BitVec.ofNat 32 as.toNat) (BitVec.ofNat 32 val.toNat) =
      .val (0x00#8 ++ 0#8 ++ as ++ val) := by
  obtain ⟨small, same⟩ := half_word as
  have whole : BitVec.ofNat 32 val.toNat = val :=
    (BitVec.ofNat_toNat 32 val).trans (BitVec.setWidth_eq val)
  simp only [encoded, ValueScan.encode, Bool.not_true, Bool.or_false, Bool.false_eq_true,
    if_false, ne_eq, not_true_eq_false, if_neg small, same, whole]
  rfl

theorem encoded_long {as : U32} (big : 65535 < as.toNat) (val : U16) :
    encoded 0 0 (BitVec.ofNat 32 as.toNat) (BitVec.ofNat 32 val.toNat) =
      .val (0x02#8 ++ 0#8 ++ as ++ val) := by
  obtain ⟨small, same⟩ := half_word val
  have wide : as > 65535 := BitVec.lt_def.mpr big
  have whole : BitVec.ofNat 32 as.toNat = as :=
    (BitVec.ofNat_toNat 32 as).trans (BitVec.setWidth_eq as)
  simp only [encoded, ValueScan.encode, Bool.not_true, Bool.or_false, Bool.false_eq_true,
    if_false, ne_eq, not_true_eq_false, whole, if_pos wide, if_neg small, same]
  rfl

theorem encoded_address (ip : U32) (val : U16) :
    encoded 3 ip 0 (BitVec.ofNat 32 val.toNat) = .val (0x01#8 ++ 0#8 ++ ip ++ val) := by
  obtain ⟨small, same⟩ := half_word val
  simp only [encoded, ValueScan.encode, Bool.not_true, Bool.or_false, Bool.false_eq_true,
    if_false, ne_eq, OfNat.ofNat_ne_zero, not_false_eq_true, if_true, if_neg small, same]
  rfl

/-- A number of 32 bits has a sign from the half on. -/
theorem signed_eq (n : U32) : (n.toNat < 2 ^ 31 → signed n = unsigned n) ∧
    (¬n.toNat < 2 ^ 31 → ∃ more, signed n = '-' :: more) := by
  have int := BitVec.toInt_eq_toNat_cond n
  constructor
  · intro low
    refine if_neg ?_
    rw [int, if_pos (by omega)]
    omega
  · intro high
    refine ⟨_, if_pos ?_⟩
    rw [int, if_neg (by omega)]
    omega

/-- A number printed is read as the value, but for its type. -/
theorem ecommunityGettoken_read (supported : Supported x) (readable : Readable x)
    (ends : Ends rest) :
    ∃ eval, ecommunityGettoken (numberWord x ++ rest) = some (rest, .val eval) ∧
      withType eval (typeOf x) = x := by
  unfold numberWord
  split
  · rename_i long
    have big : 65535 < (x.extractLsb' 16 32).toNat := by
      rcases supported.encode with short | address | ⟨-, big⟩
      · exact absurd (short.symm.trans long) (by decide)
      · exact absurd (address.symm.trans long) (by decide)
      · exact big
    have taken := (refused_unsigned (x.extractLsb' 16 32) le_rfl).not.mpr (readable.taken long)
    refine ⟨_, ?_, long ▸ withType_long x⟩
    rw [List.append_assoc, List.cons_append,
      ecommunityGettoken_numbers (unsigned_digits _) (unsigned_digits _) ends taken,
        number_unsigned,
      number_unsigned, encoded_long big]
    rfl
  · split
    · rename_i short
      have taken := (refused_unsigned (x.extractLsb' 32 16) (by decide)).not.mpr
        (Nat.ne_of_lt ((x.extractLsb' 32 16).isLt.trans (by decide)))
      refine ⟨_, ?_, short ▸ withType_short x⟩
      rw [(signed_eq _).1 (readable.plain short), List.append_assoc, List.cons_append,
        ecommunityGettoken_numbers (unsigned_digits _) (unsigned_digits _) ends taken,
          number_unsigned,
        number_unsigned, encoded_short]
      rfl
    · have address : encodeOf x = 0x01 := by
        rename_i other other'
        rcases supported.encode with short | address | ⟨long, -⟩
        · exact absurd short other'
        · exact address
        · exact absurd long other
      refine ⟨_, ?_, address ▸ withType_long x⟩
      rw [List.append_assoc, List.cons_append,
        ecommunityGettoken_address _ (unsigned_digits _) ends, number_unsigned, encoded_address]
      rfl

/-- The others are not read. -/
theorem ecommunityGettoken_unread (unread : ¬Readable x) :
    ∃ rest', ecommunityGettoken (numberWord x ++ rest) = some (rest', .unknown) := by
  unfold numberWord
  split
  · rename_i long
    by_cases last : (x.extractLsb' 16 32).toNat = 4294967295
    · rw [List.append_assoc, List.cons_append]
      exact ⟨_, ecommunityGettoken_refused (unsigned_digits _)
        ((refused_unsigned (x.extractLsb' 16 32) le_rfl).mpr last) _⟩
    · exact absurd ⟨fun short => absurd (short.symm.trans long) (by decide), fun _ => last⟩ unread
  · rename_i other
    split
    · by_cases low : (x.extractLsb' 0 32).toNat < 2 ^ 31
      · exact absurd ⟨fun _ => low, fun long => absurd long other⟩ unread
      · obtain ⟨more, sign⟩ := (signed_eq _).2 low
        rw [sign, List.append_assoc, List.cons_append, List.cons_append]
        exact ecommunityGettoken_sign (unsigned_digits _) _
    · rename_i other'
      exact absurd ⟨fun short => absurd short other', fun long => absurd long other⟩ unread

/-! ## The loop over the words -/

theorem ecommunityLoop_space (keywordIncluded : Bool) (fuel : Nat) (p : CString) (type : U8)
    (keyword : Bool) (ecom : Option (List (BitVec 64))) :
    ecommunityLoop keywordIncluded (fuel + 1) (' ' :: p) type keyword ecom =
      ecommunityLoop keywordIncluded (fuel + 1) p type keyword ecom := by
  have skip : ecommunityGettoken (' ' :: p) = ecommunityGettoken p := rfl
  rw [ecommunityLoop, ecommunityLoop, skip]

/-- A word of a supported value is its keyword and its number. -/
theorem ecommunityWord_eq (supported : Supported x) :
    ecommunityWord .communityList x = keywordOf .communityList (typeOf x) ++ numberWord x := by
  obtain ⟨encode, type⟩ := supported
  have known : ¬(encodeOf x ≠ 0x00 ∧ encodeOf x ≠ 0x01 ∧ encodeOf x ≠ 0x02) := by
    rintro ⟨not₀, not₁, not₂⟩
    rcases encode with same | same | ⟨same, -⟩
    exacts [not₀ same, not₁ same, not₂ same]
  have known' : ¬(typeOf x ≠ 0x02 ∧ typeOf x ≠ 0x03) := by
    rintro ⟨not₂, not₃⟩
    rcases type with same | same
    exacts [not₂ same, not₃ same]
  rw [ecommunityWord, if_neg known, if_neg known']

theorem keyword_length (supported : Supported x) :
    3 ≤ (ecommunityWord .communityList x).length := by
  have some_ : 3 ≤ (keywordOf .communityList (typeOf x)).length := by
    unfold keywordOf
    dsimp only
    split <;> decide
  rw [ecommunityWord_eq supported, List.length_append]
  omega

/-- The loop reads the keyword. -/
theorem ecommunityLoop_keyword (supported : Supported x) (fuel : Nat) (rest : CString) (type : U8)
    (ecom : Option (List (BitVec 64))) :
    ecommunityLoop true (fuel + 1) (ecommunityWord .communityList x ++ rest) type false ecom =
      ecommunityLoop true fuel (' ' :: (numberWord x ++ rest)) (typeOf x) true ecom := by
  rw [ecommunityWord_eq supported, List.append_assoc]
  rcases supported.type with same | same <;> rw [same] <;> rfl

/-- A word that can be read adds its value, and another ends the loop. -/
theorem ecommunityLoop_word (supported : Supported x) (ends : Ends rest) (fuel : Nat) (type : U8)
    (ecom : Option (List (BitVec 64))) :
    (Readable x →
      ecommunityLoop true (fuel + 2) (ecommunityWord .communityList x ++ rest) type false ecom =
        ecommunityLoop true fuel rest (typeOf x) false (some (ecommunityAddVal (ecom.getD []) x))) ∧
    (¬Readable x →
      ecommunityLoop true (fuel + 2) (ecommunityWord .communityList x ++ rest) type false ecom =
        none) := by
  rw [ecommunityLoop_keyword supported, ecommunityLoop_space, ecommunityLoop]
  constructor
  · intro readable
    obtain ⟨eval, reads, same⟩ := ecommunityGettoken_read supported readable ends
    rw [reads]
    dsimp only
    rw [same]
    rfl
  · intro unread
    obtain ⟨rest', reads⟩ := @ecommunityGettoken_unread x rest unread
    rw [reads]

theorem ecommunityAddVal_last {ecom : List (BitVec 64)} (greater : ∀ y ∈ ecom, y < x) :
    ecommunityAddVal ecom x = ecom ++ [x] := by
  induction ecom with
  | nil => rfl
  | cons p ecom ih =>
    obtain ⟨first, greater⟩ := List.forall_mem_cons.mp greater
    have other : ¬p = x := by
      rintro rfl
      exact BitVec.lt_irrefl p first
    have behind : ¬x < p := fun before => BitVec.lt_irrefl p (BitVec.lt_trans first before)
    rw [ecommunityAddVal, if_neg other, if_neg behind, ih greater]
    rfl

/-- The loop reads all words if all of them can be read, and else nothing. -/
theorem ecommunityLoop_words (ecom : List (BitVec 64)) (supported : ∀ x ∈ ecom, Supported x)
    {fuel : Nat} {type : U8} {acc : List (BitVec 64)} (ordered : Ascending (acc ++ ecom))
    (enough : (filled false (ecom.map (ecommunityWord .communityList))).length < fuel) :
    ((∀ x ∈ ecom, Readable x) →
      ecommunityLoop true fuel (filled false (ecom.map (ecommunityWord .communityList))) type false
        (some acc) = some (acc ++ ecom)) ∧
    ((¬∀ x ∈ ecom, Readable x) →
      ecommunityLoop true fuel (filled false (ecom.map (ecommunityWord .communityList))) type false
        (some acc) = none) := by
  induction ecom generalizing fuel type acc with
  | nil =>
    obtain ⟨fuel, rfl⟩ := Nat.exists_eq_succ_of_ne_zero (Nat.ne_of_gt enough)
    refine ⟨fun _ => ?_, fun not => absurd (fun x member => absurd member List.not_mem_nil) not⟩
    rw [List.append_nil]
    rfl
  | cons x ecom ih =>
    obtain ⟨this, supported⟩ := List.forall_mem_cons.mp supported
    rw [List.map_cons, filled_cons, if_neg Bool.false_ne_true] at enough ⊢
    have keyword := keyword_length this
    rw [List.length_append, List.length_cons] at enough
    obtain ⟨fuel, rfl⟩ : ∃ left, fuel = left + 2 := ⟨fuel - 2, by omega⟩
    have greater : ∀ y ∈ acc, y < x := fun y member =>
      (List.pairwise_append.mp ordered).2.2 y member x List.mem_cons_self
    obtain ⟨reads, fails⟩ :=
      ecommunityLoop_word this (filled_ends (ecom.map (ecommunityWord .communityList)))
      fuel type (some acc)
    rw [Option.getD_some, ecommunityAddVal_last greater] at reads
    have ordered' : Ascending ((acc ++ [x]) ++ ecom) := by
      rwa [List.append_assoc, List.singleton_append]
    obtain ⟨all, none_⟩ := @ih supported fuel (typeOf x) (acc ++ [x]) ordered' (by omega)
    rw [List.cons_append, ecommunityLoop_space, List.forall_mem_cons]
    constructor
    · rintro ⟨readable, rest⟩
      rw [reads readable, all rest, List.append_assoc, List.singleton_append]
    · intro not
      by_cases readable : Readable x
      · rw [reads readable]
        exact none_ fun rest => not ⟨readable, rest⟩
      · exact fails readable

/-- What is printed is read back exactly if every value can be read. -/
theorem ecommunityStr2com_words {ecom : List (BitVec 64)} (some_ : ecom ≠ [])
    (ordered : Ascending ecom) (supported : ∀ x ∈ ecom, Supported x) :
    ecommunityStr2com (joined (ecom.map (ecommunityWord .communityList))) 0 true = some ecom ↔
      ∀ x ∈ ecom, Readable x := by
  obtain ⟨x, ecom, rfl⟩ := List.exists_cons_of_ne_nil some_
  obtain ⟨this, supported⟩ := List.forall_mem_cons.mp supported
  have text : joined ((x :: ecom).map (ecommunityWord .communityList)) =
      ecommunityWord .communityList x ++ filled false
        (ecom.map (ecommunityWord .communityList)) := rfl
  have short := keyword_length this
  obtain ⟨left, fuel⟩ : ∃ left, (ecommunityWord .communityList x ++
      filled false (ecom.map (ecommunityWord .communityList))).length + 1 = left + 2 := by
    refine ⟨(ecommunityWord .communityList x ++
      filled false (ecom.map (ecommunityWord .communityList))).length - 1, ?_⟩
    rw [List.length_append]
    omega
  obtain ⟨reads, fails⟩ :=
    ecommunityLoop_word this (filled_ends (ecom.map (ecommunityWord .communityList)))
    left 0 none
  rw [ecommunityStr2com, text, fuel, List.forall_mem_cons]
  by_cases readable : Readable x
  · have enough : (filled false (ecom.map (ecommunityWord .communityList))).length < left := by
      rw [List.length_append] at fuel
      omega
    obtain ⟨all, none_⟩ := @ecommunityLoop_words ecom supported left (typeOf x) [x] ordered enough
    rw [reads readable]
    by_cases rest : ∀ x ∈ ecom, Readable x
    · exact iff_of_true (all rest) ⟨readable, rest⟩
    · refine iff_of_false (fun read => ?_) fun both => rest both.2
      cases (none_ rest).symm.trans read
  · rw [fails readable]
    exact iff_of_false nofun fun both => readable both.1

end Words

/-! ## Numbers that are too large -/

section Large

variable {a b : CString}

/-- A number is too large for its half. -/
def TooLarge (a b : CString) : Prop :=
  4294967294 < number a ∨ if number a ≤ 65535 then 4294967295 < number b else 65535 < number b

/-- A single token is refused exactly if nothing is encoded. -/
theorem ecommunityStr2com_single {p : CString} (type : U8) {e : Option (BitVec 64)}
    (some_ : p ≠ []) (reads : ecommunityGettoken p = some ([], (e.map .val).getD .unknown)) :
    ecommunityStr2com p type false = none ↔ e = none := by
  obtain ⟨c, p, rfl⟩ := List.exists_cons_of_ne_nil some_
  rw [ecommunityStr2com, List.length_cons, ecommunityLoop, reads]
  cases e with
  | none => exact iff_of_true rfl rfl
  | some eval => exact iff_of_false nofun nofun

theorem gt_iff_number (n : CString) :
    BitVec.ofNat 32 (number n) > 65535 ↔ 65535 < number n % 2 ^ 32 := by
  rw [gt_iff_lt, BitVec.lt_def, BitVec.toNat_ofNat]
  rfl

theorem encode_none_iff (dot : Nat) (ip as val : U32) :
    ValueScan.encode ⟨[], dot, true, true, ip, as, val⟩ = none ↔
      (dot ≠ 0 ∨ as > 65535) ∧ val > 65535 := by
  simp only [ValueScan.encode, Bool.not_true, Bool.or_false, Bool.false_eq_true, if_false]
  split
  · split <;> simp_all
  · split
    · split <;> simp_all
    · simp_all

/-- Two numbers are refused exactly if the first is, or neither fits half a word. -/
theorem ecommunityStr2com_numbers (digits : Digits a) (digits' : Digits b) (type : U8) :
    ecommunityStr2com (a ++ ':' :: b) type false = none ↔
      Refused a ∨ 65535 < number a % 2 ^ 32 ∧ 65535 < number b % 2 ^ 32 := by
  by_cases refused : Refused a
  · refine iff_of_true ?_ (.inl refused)
    have reads := ecommunityGettoken_refused digits refused b
    rw [ecommunityStr2com, ecommunityLoop, reads]
  · have reads := ecommunityGettoken_numbers digits digits' (.inl rfl) refused
    rw [List.append_nil] at reads
    rw [ecommunityStr2com_single type (by simp) reads, encode_none_iff, or_iff_right refused,
      gt_iff_number, gt_iff_number]
    exact and_congr_left fun _ => or_iff_right (by decide)

theorem ecommunityStr2com_address (ip : U32) (digits : Digits b) (type : U8) :
    ecommunityStr2com (inetNtoa ip ++ ':' :: b) type false = none ↔ 65535 < number b % 2 ^ 32 := by
  have reads := ecommunityGettoken_address ip digits (.inl rfl)
  rw [List.append_nil] at reads
  rw [ecommunityStr2com_single type (by simp) reads, encode_none_iff, gt_iff_number]
  exact and_iff_right (.inl (by decide))

end Large

/-- Every text fits its buffer. Plain communities are read back, and extended ones exactly
if all of them can be read. A number that is too large is refused exactly where the text is
not one of those that 32 bits, or the halves of a plain value, take for another. -/
theorem communities_read_back (com : List U32) (ecom : List (BitVec 64)) (a b : CString) (ip : U32)
    (type : U8) :
    (com ≠ [] → Ascending com →
      ∃ str, communityCom2str com = some str ∧ communityStr2com str = some com) ∧
    (ecom ≠ [] → Ascending ecom → (∀ x ∈ ecom, Supported x) →
      ∃ str, ecommunityEcom2str ecom .communityList = some str ∧
        (ecommunityStr2com str 0 true = some ecom ↔ ∀ x ∈ ecom, Readable x)) ∧
    (Digits a → Digits b →
      ((65535 < number a ∨ 65535 < number b → communityStr2com (a ++ ':' :: b) = none) ↔
        number a ≤ 65535 ∧ number b ≤ 65535)) ∧
    (Digits a → ((2 ^ 32 ≤ number a → communityStr2com a = none) ↔ number a < 2 ^ 32)) ∧
    (Digits a → Digits b →
      ((TooLarge a b → ecommunityStr2com (a ++ ':' :: b) type false = none) ↔
        ¬TooLarge a b ∨ Refused a ∨ 65535 < number a % 2 ^ 32 ∧ 65535 < number b % 2 ^ 32)) ∧
    (Digits b →
      ((65535 < number b → ecommunityStr2com (inetNtoa ip ++ ':' :: b) type false = none) ↔
        number b ≤ 65535 ∨ 65535 < number b % 2 ^ 32)) := by
  refine ⟨fun some_ ordered => ?_, fun some_ ordered supported => ?_, fun digits digits' => ?_,
    fun digits => ?_, fun digits digits' => ?_, fun digits => ?_⟩
  · exact ⟨_, communityCom2str_eq com, communityStr2com_words some_ ordered⟩
  · exact ⟨_, ecommunityEcom2str_eq ecom .communityList,
      ecommunityStr2com_words some_ ordered supported⟩
  · rw [communityStr2com_halves digits digits']
    have never : ¬some [BitVec.ofNat 32 (number a * 65536 + number b)] = none := nofun
    rw [← not_lt, ← not_lt, ← not_or]
    exact ⟨fun refused large => never (refused large), fun small large => absurd large small⟩
  · rw [communityStr2com_number digits, ← not_le]
    have never : ¬some [BitVec.ofNat 32 (number a)] = none := nofun
    exact ⟨fun refused large => never (refused large), fun small large => absurd large small⟩
  · rw [ecommunityStr2com_numbers digits digits', imp_iff_not_or]
  · rw [ecommunityStr2com_address ip digits, imp_iff_not_or, not_lt]

/-- The route targets 1:2 and 10.0.0.1:2. -/
theorem communities_read_back_targets :
    ∃ str, ecommunityEcom2str [0x0002000100000002, 0x01020A0000010002] .communityList = some str ∧
      ecommunityStr2com str 0 true = some [0x0002000100000002, 0x01020A0000010002] := by
  obtain ⟨-, extended, -⟩ :=
    communities_read_back [] [0x0002000100000002, 0x01020A0000010002] [] [] 0 0
  have each : ∀ x ∈ [0x0002000100000002, 0x01020A0000010002#64], Supported x ∧ Readable x := by
    rintro x (_ | ⟨_, _ | ⟨_, ⟨⟩⟩⟩) <;>
      exact ⟨⟨by decide, by decide⟩, ⟨by decide, by decide⟩⟩
  obtain ⟨str, prints, back⟩ := extended (by decide) (by decide) fun x member => (each x member).1
  exact ⟨str, prints, back.mpr fun x member => (each x member).2⟩

/-- The route target 1:2147483648 is printed with a sign, and 65536:1 and 1:4294967296 are
read as 0:1 and 1:0. -/
theorem communities_read_back_fails :
    Supported 0x0002000180000000 ∧
      ecommunityEcom2str [0x0002000180000000] .communityList = some "rt 1:-2147483648".toList ∧
      ecommunityStr2com "rt 1:-2147483648".toList 0 true = none ∧
      communityStr2com "65536:1".toList = some [1] ∧
      ecommunityStr2com "1:4294967296".toList 2 false = some [0x0002000100000000] := by
  refine ⟨⟨.inl (by decide), .inl (by decide)⟩, ?_, by decide, by decide, by decide⟩
  rw [ecommunityEcom2str_eq]
  decide

end Bgpd.CommunityRoundTrip
