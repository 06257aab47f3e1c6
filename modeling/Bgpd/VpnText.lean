import Bgpd.CommunityRoundTrip
import Bgpd.VpnParse

/-!
# Distinguishers and labels as text

`str2prefix_rd` puts the numbers it reads into fields of 16 and 32 bits, whether they fit
or not, and the upper half of the 32 bits is printed with a sign that it does not read.
The check behind `strtoul` in `str2tag` has its sense the wrong way round: a label with
nothing behind it is refused.
-/

namespace Bgpd.VpnText

open Octets CommunityText CommunityPrint CommunityRoundTrip VpnParse

/-! ## The library -/

/-- `atol` of digits, where `long` has 64 bits. -/
def atol (ds : CString) : Nat := min (number ds) (2 ^ 63 - 1)

/-- `atoi` of digits: the low 32 bits. -/
def atoi (ds : CString) : U32 := BitVec.ofNat 32 (atol ds)

/-- `strtoul` to the base ten, and where it ends. -/
def strtoul (str : CString) : Nat × CString :=
  let p := str.dropWhile isSpace
  let minus := p.head? = some '-'
  let p := if minus ∨ p.head? = some '+' then p.tail else p
  let ds := p.takeWhile Char.isDigit
  if ds = [] then (0, str)
  else
    (if 2 ^ 64 ≤ number ds then 2 ^ 64 - 1 else if minus then (2 ^ 64 - number ds) % 2 ^ 64
      else number ds, p.dropWhile Char.isDigit)

/-! ## Route distinguishers -/

/-- The octets of a distinguisher, as they are put into the stream. -/
def rdAs (as : U16) (val : U32) : BitVec 64 := rdTypeAs ++ as ++ val

def rdIp (ip : U32) (val : U16) : BitVec 64 := rdTypeIp ++ ip ++ val

/-- `decode_rd_type`, and what `decode_rd_as` and `decode_rd_ip` read behind the type. -/
def decodeRdType (rd : BitVec 64) : U16 := rd.extractLsb' 48 16

def decodeRdAs (rd : BitVec 64) : U16 × U32 := (rd.extractLsb' 32 16, rd.extractLsb' 0 32)

def decodeRdIp (rd : BitVec 64) : U32 × U16 := (rd.extractLsb' 16 32, rd.extractLsb' 0 16)

/-- `str2prefix_rd`. -/
def str2prefixRd (str : CString) : Option (BitVec 64) :=
  match str.dropWhile (· ≠ ':') with
  | [] => none
  | _ :: rest =>
    let half := str.takeWhile (· ≠ ':')
    if !rest.all Char.isDigit then none
    else if '.' ∉ str then
      if !half.all Char.isDigit then none
      else some (rdAs ((atoi half).setWidth 16) (BitVec.ofNat 32 (atol rest)))
    else (inetAton half).map fun addr => rdIp addr (BitVec.ofNat 16 (atol rest))

/-- `RD_ADDRSTRLEN`. -/
def rdAddrstrlen : Nat := 28

/-- `prefix_rd2str`. -/
def prefixRd2str (rd : BitVec 64) (size : Nat) : Option CString :=
  if size < rdAddrstrlen then none
  else if decodeRdType rd = rdTypeAs then
    let (as, val) := decodeRdAs rd
    some ((unsigned as ++ ':' :: signed val).take (size - 1))
  else if decodeRdType rd = rdTypeIp then
    let (ip, val) := decodeRdIp rd
    some ((inetNtoa ip ++ ':' :: unsigned val).take (size - 1))
  else none

/-! ## Labels -/

/-- `str2tag`. -/
def str2tag (str : CString) : Option (List U8) :=
  let (l, endptr) := strtoul str
  if endptr = [] ∨ l = 2 ^ 64 - 1 ∨ l > 2 ^ 32 - 1 then none
  else
    let t : U32 := BitVec.ofNat 32 l
    some [(t >>> 12).setWidth 8, (t >>> 4).setWidth 8, (t <<< 4).setWidth 8]

/-! ## What a text says -/

/-- What is written in front of the colon and behind it. -/
inductive RdText
  | as (asn val : Nat)
  | ip (addr : U32) (val : Nat)
  deriving DecidableEq

/-- The string writes it so. -/
def Spelled (str : CString) (text : RdText) : Prop :=
  ∃ half rest, str = half ++ ':' :: rest ∧ (∀ c ∈ rest, c.isDigit = true) ∧
    match text with
    | .as asn val => (∀ c ∈ half, c.isDigit = true) ∧ number half = asn ∧ number rest = val
    | .ip addr val => ':' ∉ half ∧ '.' ∈ half ∧ inetAton half = some addr ∧ number rest = val

/-- The numbers have room in their fields. -/
def RdText.Fits : RdText → Prop
  | .as asn val => asn < 2 ^ 16 ∧ val < 2 ^ 32
  | .ip _ val => val < 2 ^ 16

/-- What a distinguisher says. -/
def said (rd : BitVec 64) : Option RdText :=
  if decodeRdType rd = rdTypeAs then some (.as (decodeRdAs rd).1.toNat (decodeRdAs rd).2.toNat)
  else if decodeRdType rd = rdTypeIp then some (.ip (decodeRdIp rd).1 (decodeRdIp rd).2.toNat)
  else none

/-- What is stored for a text. -/
def RdText.stored : RdText → BitVec 64
  | .as asn val =>
    rdAs ((BitVec.ofNat 32 (min asn (2 ^ 63 - 1))).setWidth 16)
    (BitVec.ofNat 32 (min val (2 ^ 63 - 1)))
  | .ip addr val => rdIp addr (BitVec.ofNat 16 (min val (2 ^ 63 - 1)))

/-- A dot decides how the half before the colon is read. -/
theorem str2prefixRd_colon {half : CString} (front : ':' ∉ half) (rest : CString) :
    str2prefixRd (half ++ ':' :: rest) =
      if !rest.all Char.isDigit then none
      else if '.' ∉ half ++ ':' :: rest then
        if !half.all Char.isDigit then none
        else some (rdAs ((atoi half).setWidth 16) (BitVec.ofNat 32 (atol rest)))
      else (inetAton half).map fun addr => rdIp addr (BitVec.ofNat 16 (atol rest)) := by
  have passes : ∀ c ∈ half, decide (c ≠ ':') = true := fun c member =>
    decide_eq_true fun same => front (same ▸ member)
  unfold str2prefixRd
  rw [List.dropWhile_append_of_pos passes, List.takeWhile_append_of_pos passes]
  simp

variable {ds : CString}

theorem digits_all (digits : ∀ c ∈ ds, c.isDigit = true) : ¬(!ds.all Char.isDigit) = true := by
  simpa using digits

variable {str : CString}

/-- A text is stored as far as there is room. -/
theorem str2prefixRd_spelled {text : RdText} (spelled : Spelled str text) :
    str2prefixRd str = some text.stored := by
  obtain ⟨half, rest, rfl, digits, means⟩ := spelled
  cases text with
  | as asn val =>
    obtain ⟨digits', rfl, rfl⟩ := means
    have front : ':' ∉ half := fun member => digit_ne (digits' _ member) (by decide) rfl
    have plain : '.' ∉ half ++ ':' :: rest := by
      intro member
      rcases List.mem_append.mp member with before | behind
      · exact digit_ne (digits' _ before) (by decide) rfl
      · rcases List.mem_cons.mp behind with colon | behind
        · exact absurd colon (by decide)
        · exact digit_ne (digits _ behind) (by decide) rfl
    rw [str2prefixRd_colon front, if_neg (digits_all digits), if_pos plain,
      if_neg (digits_all digits')]
    rfl
  | ip addr val =>
    obtain ⟨front, dot, read, rfl⟩ := means
    rw [str2prefixRd_colon front, if_neg (digits_all digits),
      if_neg (not_not.mpr (List.mem_append_left _ dot)), read]
    rfl

variable {rd : BitVec 64}

/-- Nothing else is accepted. -/
theorem spelled_of_accepted (accepted : str2prefixRd str = some rd) : ∃ text, Spelled str text := by
  cases found : str.dropWhile (· ≠ ':') with
  | nil =>
    rw [str2prefixRd, found] at accepted
    cases accepted
  | cons c rest =>
    have whole : str.takeWhile (· ≠ ':') ++ c :: rest = str := by
      rw [← found, List.takeWhile_append_dropWhile]
    have colon : c = ':' := by
      have stops := List.head?_dropWhile_not (· ≠ ':') str
      rw [found] at stops
      simpa using stops
    have front : ':' ∉ str.takeWhile (· ≠ ':') := fun member => by
      simpa using List.all_eq_true.mp List.all_takeWhile _ member
    rw [← whole, colon] at accepted ⊢
    generalize str.takeWhile (· ≠ ':') = half at front accepted ⊢
    rw [str2prefixRd_colon front] at accepted
    split at accepted
    · cases accepted
    · rename_i digits
      have digits : ∀ c ∈ rest, c.isDigit = true := by simpa using digits
      split at accepted
      · split at accepted
        · cases accepted
        · rename_i digits'
          exact ⟨.as _ _, half, rest, rfl, digits, by simpa using digits', rfl, rfl⟩
      · rename_i dot
        obtain ⟨addr, read, -⟩ := Option.map_eq_some_iff.mp accepted
        refine ⟨.ip addr _, half, rest, rfl, digits, front, ?_, read, rfl⟩
        rcases List.mem_append.mp (not_not.mp dot) with before | behind
        · exact before
        · rcases List.mem_cons.mp behind with colon | behind
          · exact absurd colon (by decide)
          · exact absurd rfl (digit_ne (digits _ behind) (by decide))

/-! ## Three fields -/

section Fields

variable {u v w : Nat}

theorem extract_fields (a : BitVec u) (b : BitVec v) (c : BitVec w) :
    (a ++ b ++ c).extractLsb' (v + w) u = a ∧ (a ++ b ++ c).extractLsb' w v = b ∧
      (a ++ b ++ c).extractLsb' 0 w = c := by
  refine ⟨?_, ?_, ?_⟩
  · apply BitVec.eq_of_getLsbD_eq
    intro i h
    simp [BitVec.getLsbD_append, h, show ¬v + w + i < w by omega, show ¬v + w + i - w < v by omega,
      show v + w + i - w - v = i by omega]
  · ext i h
    simp [BitVec.getLsbD_append, h]
  · ext i h
    simp [BitVec.getLsbD_append, h]

theorem fields_extract (x : BitVec (u + v + w)) :
    x.extractLsb' (v + w) u ++ x.extractLsb' w v ++ x.extractLsb' 0 w = x := by
  apply BitVec.eq_of_getLsbD_eq
  intro i h
  simp only [BitVec.getLsbD_append, BitVec.getLsbD_extractLsb']
  split
  · simp [*]
  · split
    · rw [show w + (i - w) = i by omega]
      simp [*]
    · rw [show v + w + (i - w - v) = i by omega]
      simp
      omega

end Fields

theorem said_rdAs (asn : U16) (val : U32) :
    said (rdAs asn val) = some (.as asn.toNat val.toNat) := by
  obtain ⟨type, as_, val_⟩ := extract_fields rdTypeAs asn val
  have type : decodeRdType (rdAs asn val) = rdTypeAs := type
  have both : decodeRdAs (rdAs asn val) = (asn, val) := Prod.ext as_ val_
  rw [said, if_pos type, both]

theorem said_rdIp (addr : U32) (val : U16) : said (rdIp addr val) = some (.ip addr val.toNat) := by
  obtain ⟨type, addr_, val_⟩ := extract_fields rdTypeIp addr val
  have type : decodeRdType (rdIp addr val) = rdTypeIp := type
  have both : decodeRdIp (rdIp addr val) = (addr, val) := Prod.ext addr_ val_
  rw [said, if_neg (by rw [type]; decide), if_pos type, both]

/-- What is stored says what was written exactly if there was room for it. -/
theorem said_stored (text : RdText) : said text.stored = some text ↔ text.Fits := by
  cases text with
  | as asn val =>
    rw [RdText.stored, said_rdAs]
    simp only [BitVec.toNat_setWidth, BitVec.toNat_ofNat, Option.some.injEq, RdText.as.injEq,
      RdText.Fits]
    omega
  | ip addr val =>
    rw [RdText.stored, said_rdIp]
    simp only [BitVec.toNat_ofNat, Option.some.injEq, RdText.ip.injEq, true_and, RdText.Fits]
    omega

/-! ## Printing -/

theorem stored_rdAs (asn : U16) (val : U32) :
    (RdText.as asn.toNat val.toNat).stored = rdAs asn val := by
  rw [RdText.stored]
  congr 1 <;> apply BitVec.eq_of_toNat_eq <;> simp <;> omega

theorem stored_rdIp (addr : U32) (val : U16) :
    (RdText.ip addr val.toNat).stored = rdIp addr val := by
  rw [RdText.stored]
  congr 1
  apply BitVec.eq_of_toNat_eq
  simp
  omega

variable {size : Nat}

/-- A distinguisher with an AS number is printed whole, and read back if its number has no
sign. -/
theorem printed_as (type : decodeRdType rd = rdTypeAs) (room : rdAddrstrlen ≤ size) :
    ∃ str, prefixRd2str rd size = some str ∧
      (str2prefixRd str = some rd ↔ (decodeRdAs rd).2.toNat < 2 ^ 31) := by
  have enough : ¬size < rdAddrstrlen := Nat.not_lt.mpr room
  unfold rdAddrstrlen at room
  have same : rdAs (decodeRdAs rd).1 (decodeRdAs rd).2 = rd := by
    rw [rdAs, ← type]
    exact @fields_extract 16 16 32 rd
  have short :
      (unsigned (decodeRdAs rd).1 ++ ':' :: signed (decodeRdAs rd).2).length ≤ size - 1 := by
    have front : (unsigned (decodeRdAs rd).1).length ≤ 5 :=
      unsigned_length _ (by decide) (by decide)
    have back := signed_length (decodeRdAs rd).2
    rw [List.length_append, List.length_cons]
    omega
  refine ⟨_, by rw [prefixRd2str, if_neg enough, if_pos type], ?_⟩
  rw [List.take_of_length_le short]
  obtain ⟨low, high⟩ := signed_eq (decodeRdAs rd).2
  by_cases small : (decodeRdAs rd).2.toNat < 2 ^ 31
  · have spelled : Spelled (unsigned (decodeRdAs rd).1 ++ ':' :: unsigned (decodeRdAs rd).2)
        (.as (decodeRdAs rd).1.toNat (decodeRdAs rd).2.toNat) :=
      ⟨_, _, rfl, (unsigned_digits _).all, (unsigned_digits _).all, number_unsigned _,
        number_unsigned _⟩
    rw [low small, str2prefixRd_spelled spelled, stored_rdAs, same]
    exact iff_of_true rfl small
  · obtain ⟨more, sign⟩ := high small
    have front : ':' ∉ unsigned (decodeRdAs rd).1 := fun member =>
      digit_ne ((unsigned_digits _).all _ member) (by decide) rfl
    have refused : (!('-' :: more).all Char.isDigit) = true := rfl
    rw [sign, str2prefixRd_colon front, if_pos refused]
    exact iff_of_false nofun small

theorem printed_ip (type : decodeRdType rd = rdTypeIp) (room : rdAddrstrlen ≤ size) :
    ∃ str, prefixRd2str rd size = some str ∧ str2prefixRd str = some rd := by
  have enough : ¬size < rdAddrstrlen := Nat.not_lt.mpr room
  unfold rdAddrstrlen at room
  have same : rdIp (decodeRdIp rd).1 (decodeRdIp rd).2 = rd := by
    rw [rdIp, ← type]
    exact @fields_extract 16 32 16 rd
  have short :
      (inetNtoa (decodeRdIp rd).1 ++ ':' :: unsigned (decodeRdIp rd).2).length ≤ size - 1 := by
    have front := inetNtoa_length (decodeRdIp rd).1
    have back : (unsigned (decodeRdIp rd).2).length ≤ 5 := unsigned_length _ (by decide) (by decide)
    rw [List.length_append, List.length_cons]
    omega
  refine ⟨_, by rw [prefixRd2str, if_neg enough, if_neg (by rw [type]; decide), if_pos type], ?_⟩
  rw [List.take_of_length_le short]
  have plain : ':' ∉ inetNtoa (decodeRdIp rd).1 := by
    have octet (n : U8) : ':' ∉ unsigned n := fun member =>
      digit_ne ((unsigned_digits n).all _ member) (by decide) rfl
    simp [inetNtoa, octet]
  have spelled : Spelled (inetNtoa (decodeRdIp rd).1 ++ ':' :: unsigned (decodeRdIp rd).2)
      (.ip (decodeRdIp rd).1 (decodeRdIp rd).2.toNat) :=
    ⟨_, _, rfl, (unsigned_digits _).all, plain, by simp [inetNtoa], inetAton_inetNtoa _,
      number_unsigned _⟩
  rw [str2prefixRd_spelled spelled, stored_rdIp, same]

/-! ## Reading labels -/

theorem strtoul_digits (digits : Digits ds) (small : number ds < 2 ^ 64) {more : CString}
    (ends : ∀ c ∈ more.head?, c.isDigit = false) : strtoul (ds ++ more) = (number ds, more) := by
  obtain ⟨c, rest, rfl⟩ := List.exists_cons_of_ne_nil digits.some
  have digit : c.isDigit = true := digits.all c List.mem_cons_self
  have start : ((c :: rest) ++ more).dropWhile isSpace = c :: rest ++ more :=
    List.dropWhile_cons_of_neg (by simp [digit_not_space digit])
  have sign {d : Char} (other : d.isDigit = false) : ¬(c :: rest ++ more).head? = some d :=
    fun same => digit_ne digit other (Option.some.inj same)
  have number_ : (c :: rest ++ more).takeWhile Char.isDigit = c :: rest ∧
      (c :: rest ++ more).dropWhile Char.isDigit = more := by
    rw [List.takeWhile_append_of_pos digits.all, List.dropWhile_append_of_pos digits.all]
    cases more with
    | nil => simp
    | cons d more => simp [ends d rfl]
  unfold strtoul
  simp only [start, sign (d := '-') (by decide), sign (d := '+') (by decide), or_false, if_false,
    number_.1, number_.2]
  rw [if_neg (List.cons_ne_nil _ _), if_neg (Nat.not_le.mpr small)]

/-- The twenty bits of a label come back. -/
theorem decodeLabel_shifted (label : Nat) (small : label < 2 ^ 20) :
    let t := BitVec.ofNat 32 label
    decodeLabel [(t >>> 12).setWidth 8, (t >>> 4).setWidth 8, (t <<< 4).setWidth 8] = t := by
  intro t
  have high (i : Nat) (above : 20 ≤ i) : t.getLsbD i = false := by
    have zero := Nat.testBit_lt_two_pow (small.trans_le (Nat.pow_le_pow_right (by decide) above))
    simp [t, BitVec.getLsbD_ofNat, zero]
  have mask : ∀ i < 4, (0xf0#8).getLsbD (4 + i) = true := by decide
  clear_value t
  apply BitVec.eq_of_getLsbD_eq
  intro i inside
  simp only [decodeLabel, List.getD_cons_zero, List.getD_cons_succ, BitVec.getLsbD_or,
    BitVec.getLsbD_shiftLeft, BitVec.getLsbD_setWidth, BitVec.getLsbD_ushiftRight,
      BitVec.getLsbD_and]
  rcases lt_or_ge i 4 with low | octet
  · simp [-BitVec.getLsbD_eq_getElem, inside, low, mask i low, show i < 12 by omega,
      show 4 + i < 8 by omega, show 4 + i < 32 by omega]
  · have beyond : ¬4 + i < 8 := by omega
    rcases lt_or_ge i 12 with below | middle
    · rw [show 4 + (i - 4) = i by omega]
      simp [-BitVec.getLsbD_eq_getElem, inside, below, beyond, show ¬i < 4 by omega,
        show i - 4 < 8 by omega, show i - 4 < 32 by omega]
    · rcases lt_or_ge i 20 with within | above
      · rw [show 12 + (i - 12) = i by omega]
        simp [-BitVec.getLsbD_eq_getElem, inside, beyond, show ¬i < 12 by omega,
          show i - 12 < 8 by omega, show ¬i - 4 < 8 by omega, show i - 12 < 32 by omega]
      · simp [-BitVec.getLsbD_eq_getElem, high i above, beyond, show ¬i - 12 < 8 by omega,
          show ¬i - 4 < 8 by omega]

/-- A label is refused, but with something else behind it. -/
theorem str2tag_label {label : Nat} (small : label < 2 ^ 20) :
    str2tag (Nat.toDigits 10 label) = none ∧ ∀ c more, c.isDigit = false →
      ∃ tag, str2tag (Nat.toDigits 10 label ++ c :: more) = some tag ∧
        decodeLabel tag = BitVec.ofNat 32 label := by
  have digits := toDigits_digits label
  have value : number (Nat.toDigits 10 label) = label := Nat.ofDigitChars_ten_toDigits
  have fits : number (Nat.toDigits 10 label) < 2 ^ 64 := by omega
  constructor
  · have read := @strtoul_digits _ digits fits [] nofun
    rw [List.append_nil] at read
    unfold str2tag
    rw [read]
    exact if_pos (.inl rfl)
  · intro c more other
    have read := @strtoul_digits _ digits fits (c :: more) (by simpa using other)
    unfold str2tag
    rw [read, value]
    refine ⟨_, if_neg (by simp; omega), ?_⟩
    exact decodeLabel_shifted label small

/-! ## What is read back -/

/-- Distinguishers come back if their number is printed without a sign, texts if their numbers
have room, and labels if something stands behind them. -/
theorem texts_read_back (rd : BitVec 64) (size : Nat) (str str' : CString) (text text' : RdText)
    (label : Nat) :
    (rdAddrstrlen ≤ size → decodeRdType rd = rdTypeAs →
      ∃ printed, prefixRd2str rd size = some printed ∧
        (str2prefixRd printed = some rd ↔ (decodeRdAs rd).2.toNat < 2 ^ 31)) ∧
    (rdAddrstrlen ≤ size → decodeRdType rd = rdTypeIp →
      ∃ printed, prefixRd2str rd size = some printed ∧ str2prefixRd printed = some rd) ∧
    ((∃ rd, str2prefixRd str = some rd) ↔ ∃ text, Spelled str text) ∧
    (Spelled str text → ((str2prefixRd str).bind said = some text ↔ text.Fits)) ∧
    (Spelled str text → Spelled str' text' → text.Fits → text'.Fits →
      str2prefixRd str = str2prefixRd str' → text = text') ∧
    (label < 2 ^ 20 → str2tag (Nat.toDigits 10 label) = none ∧ ∀ c more, c.isDigit = false →
      ∃ tag, str2tag (Nat.toDigits 10 label ++ c :: more) = some tag ∧
        decodeLabel tag = BitVec.ofNat 32 label) := by
  have read {str : CString} {text : RdText} (spelled : Spelled str text) :
      (str2prefixRd str).bind said = some text ↔ text.Fits := by
    rw [str2prefixRd_spelled spelled]
    exact said_stored text
  refine ⟨fun room type => printed_as type room, fun room type => printed_ip type room, ?_, read,
    ?_, str2tag_label⟩
  · constructor
    · rintro ⟨rd, accepted⟩
      exact spelled_of_accepted accepted
    · rintro ⟨text, spelled⟩
      exact ⟨_, str2prefixRd_spelled spelled⟩
  · intro spelled spelled' fits fits' same
    have first := (read spelled).mpr fits
    rw [same, (read spelled').mpr fits'] at first
    exact (Option.some.inj first).symm

theorem texts_read_back_sample :
    (∃ printed, prefixRd2str (rdAs 1 2) 28 = some printed ∧
        str2prefixRd printed = some (rdAs 1 2)) ∧
      ∃ tag, str2tag "16 ".toList = some tag ∧ decodeLabel tag = 16 := by
  obtain ⟨numbers, -, -, -, -, labels⟩ := texts_read_back (rdAs 1 2) 28 [] [] (.as 0 0) (.as 0 0) 16
  obtain ⟨printed, prints, back⟩ := numbers (by decide) (by decide)
  exact ⟨⟨printed, prints, back.mpr (by decide)⟩, (labels (by decide)).2 ' ' [] rfl⟩

/-- Half of the numbers are refused, a number too large is taken for a small one, and no label
is read. -/
theorem texts_not_read_back :
    prefixRd2str (rdAs 1 0x80000000) 28 = some "1:-2147483648".toList ∧
      str2prefixRd "1:-2147483648".toList = none ∧
      str2prefixRd "65536:1".toList = some (rdAs 0 1) ∧
      str2prefixRd "0:1".toList = some (rdAs 0 1) ∧ str2tag "16".toList = none := by
  decide +kernel

end Bgpd.VpnText
