import Bgpd.PathCodec
import Bgpd.PathTable

/-!
# AS paths as text

The printer estimates the size of its buffer from the number of members and
grows it where a segment might not fit; the text is complete because the estimate
covers every segment with its delimiters and the space behind it. The reader
rebuilds the segments from the tokens: a delimiter opens a segment of its kind, an
AS number outside of one opens a sequence, and between two segments in normal form
one or the other is always there.
-/

namespace Bgpd.PathText

open Octets AsPath PathStore PathTable PathCodec
open CommunityText (isSpace)

/-! ## A buffer that is printed into -/

/-- A buffer of a size, the length the printer has counted, and the text up to the
first end of string. `spilled` is history: something was written behind the buffer. -/
structure Buffer where
  size : Nat
  len : Nat := 0
  text : List Char := []
  spilled : Bool := false
  deriving DecidableEq, Repr

/-- `len += snprintf (buf + len, size - len, ...)`. What does not fit is counted all
the same, and hides what is printed behind it. -/
def Buffer.snprintf (b : Buffer) (s : List Char) : Buffer :=
  { b with
    len := b.len + s.length
    text := if b.text.length = b.len then b.text ++ s.take (b.size - b.len - 1) else b.text
    spilled := b.spilled || b.size < b.len }

/-- The buffer holds exactly a text, and has room for some more and the end of string. -/
structure Buffer.Holds (b : Buffer) (shown : List Char) (room : Nat) : Prop where
  text : b.text = shown
  len : b.len = shown.length
  fits : b.len + room < b.size
  inside : b.spilled = false

section Printing

variable {b : Buffer} {text s : List Char} {room : Nat}

/-- What there is room for is printed. -/
theorem Buffer.Holds.snprintf (holds : b.Holds text (s.length + room)) :
    (b.snprintf s).Holds (text ++ s) room where
  text := by
    have fits := holds.fits
    rw [Buffer.snprintf, if_pos (by rw [holds.text, holds.len]), holds.text,
      List.take_of_length_le (by omega)]
  len := by
    rw [Buffer.snprintf, holds.len, List.length_append]
  fits := by
    have fits := holds.fits
    rw [Buffer.snprintf]
    dsimp only
    omega
  inside := by
    have fits := holds.fits
    rw [Buffer.snprintf, holds.inside, Bool.false_or]
    exact decide_eq_false (by omega)

theorem Buffer.Holds.weaken {less : Nat} (holds : b.Holds text room) (weaker : less ≤ room) :
    b.Holds text less where
  text := holds.text
  len := holds.len
  fits := by
    have fits := holds.fits
    omega
  inside := holds.inside

end Printing

/-! ## The printer -/

/-- `ASN_STR_LEN` and `ASPATH_STR_DEFAULT_LEN`. -/
def asnStrLen : Nat := 10 + 1
def aspathStrDefaultLen : Nat := 32

/-- `SEGMENT_STR_LEN`. -/
def segmentStrLen (seg : Assegment) : Nat := seg.as.length * asnStrLen + 2 + 1 + 1

/-- `%u`. -/
def digits (asno : U32) : List Char := Nat.toDigits 10 asno.toNat

/-- The separator of a kind of segment. -/
def separatorOf (type : SegmentType) : Char :=
  match type with
  | .asSet | .asConfedSet => ','
  | .asSequence | .asConfedSequence => ' '

/-- `assegment_count_asns`, from the first member on. -/
def assegmentCountAsns (segments : List Assegment) : Nat :=
  (segments.map (·.as.length)).sum

/-- The members, each but the last with a separator. -/
def printMembers (separator : Char) : List U32 → Buffer → Buffer
  | [], b => b
  | [asno], b => b.snprintf (digits asno)
  | asno :: rest, b => printMembers separator rest ((b.snprintf (digits asno)).snprintf [separator])

/-- The buffer, grown where the segment might not fit. -/
def grow (b : Buffer) (seg : Assegment) : Buffer :=
  if b.size < b.len + segmentStrLen seg then { b with size := b.len + segmentStrLen seg } else b

/-- One turn of the loop over the segments. -/
def printSegment (b : Buffer) (seg : Assegment) (last : Bool) : Buffer :=
  let b := grow b seg
  let b := if seg.type ≠ .asSequence then b.snprintf [(aspathDelimiterChar seg.type).1] else b
  let b := printMembers (separatorOf seg.type) seg.as b
  let b := if seg.type ≠ .asSequence then b.snprintf [(aspathDelimiterChar seg.type).2] else b
  if last then b else b.snprintf [' ']

/-- The loop over the segments. -/
def printSegments : List Assegment → Buffer → Buffer
  | [], b => b
  | seg :: rest, b => printSegments rest (printSegment b seg rest.isEmpty)

/-- The buffer as `aspath_make_str_count` leaves it. -/
def printed (segments : List Assegment) : Buffer :=
  printSegments segments
    { size := max (assegmentCountAsns segments * asnStrLen + 2 + 1) aspathStrDefaultLen }

/-- `aspath_make_str_count`, with its buffer. The assertion at the end may fail. -/
def aspathMakeStr (segments : List Assegment) : Option (List Char) :=
  if segments.isEmpty then some []
  else
    let b := printed segments
    if b.len < b.size then some b.text else none

/-! ## The text fits -/

/-- The text of some members. -/
def membersText (separator : Char) (as : List U32) : List Char :=
  ((as.map digits).intersperse [separator]).flatten

/-- An AS number has at most ten digits. -/
theorem digits_length (asno : U32) : (digits asno).length ≤ 10 := by
  rw [digits, Nat.length_toDigits_le_iff (by decide) (by decide)]
  omega

theorem membersText_cons (separator : Char) (asno : U32) {rest : List U32} (more : rest ≠ []) :
    membersText separator (asno :: rest)
      = digits asno ++ separator :: membersText separator rest := by
  cases rest with
  | nil => exact absurd rfl more
  | cons next rest => rfl

/-- Members take eleven characters each at most, and nothing behind the last one. -/
theorem membersText_length (separator : Char) (as : List U32) :
    (membersText separator as).length ≤ as.length * asnStrLen := by
  induction as with
  | nil => exact Nat.zero_le _
  | cons asno rest ih =>
    have ten := digits_length asno
    by_cases more : rest = []
    · subst more
      simp only [membersText, List.map_cons, List.map_nil, List.intersperse_singleton,
        List.flatten_cons, List.flatten_nil, List.append_nil, List.length_cons, List.length_nil,
        asnStrLen]
      omega
    · rw [membersText_cons separator asno more]
      simp only [List.length_append, List.length_cons, asnStrLen] at ih ⊢
      omega

/-- A segment as it is printed. -/
theorem segmentStr_eq (seg : Assegment) :
    segmentStr seg = if seg.type = .asSequence then membersText (separatorOf seg.type) seg.as
      else (aspathDelimiterChar seg.type).1 :: membersText (separatorOf seg.type) seg.as
        ++ [(aspathDelimiterChar seg.type).2] := by
  obtain ⟨type, as⟩ := seg
  cases type <;> rfl

section Fitting

variable {b : Buffer} {shown : List Char} {room : Nat}

theorem printMembers_holds (separator : Char) (as : List U32)
    (holds : b.Holds shown ((membersText separator as).length + room)) :
    (printMembers separator as b).Holds (shown ++ membersText separator as) room := by
  induction as generalizing b shown with
  | nil =>
    rw [membersText, List.map_nil, List.intersperse_nil, List.flatten_nil, List.append_nil]
    exact holds.weaken (Nat.le_add_left _ _)
  | cons asno rest ih =>
    cases rest with
    | nil =>
      have text : membersText separator [asno] = digits asno := List.append_nil _
      rw [text] at holds ⊢
      exact holds.snprintf
    | cons next rest =>
      rw [membersText_cons separator asno (List.cons_ne_nil _ _)] at holds ⊢
      rw [List.length_append, List.length_cons, Nat.add_assoc] at holds
      have member := holds.snprintf
      have separated : (((b.snprintf (digits asno)).snprintf [separator]).Holds
          ((shown ++ digits asno) ++ [separator])
          ((membersText separator (next :: rest)).length + room)) :=
        (member.weaken (by rw [List.length_singleton]; omega)).snprintf
      have rests := ih separated
      rw [List.append_assoc, List.append_assoc] at rests
      exact rests

/-- A segment that is printed with its space fits into the buffer as it was grown for it. -/
theorem printSegment_holds (seg : Assegment) (last : Bool) (holds : b.Holds shown 0) :
    (printSegment b seg last).Holds
      (shown ++ segmentStr seg ++ (if last then [] else [' '])) 0 := by
  have members := membersText_length (separatorOf seg.type) seg.as
  -- The room is for the delimiters, the members and the space.
  have room : (grow b seg).Holds shown
      (1 + ((membersText (separatorOf seg.type) seg.as).length + (1 + (1 + 0)))) := by
    have len := holds.len
    have text := holds.text
    have inside := holds.inside
    rw [grow]
    split
    · exact ⟨text, len, by dsimp only [segmentStrLen]; omega, inside⟩
    · rename_i large
      rw [segmentStrLen] at large
      exact ⟨text, len, by omega, inside⟩
  have spaced : ∀ {b : Buffer} {shown : List Char}, b.Holds shown (1 + 0) →
      (if last then b else b.snprintf [' ']).Holds (shown ++ if last then [] else [' ']) 0 := by
    intro b shown holds
    split
    · rw [List.append_nil]
      exact holds.weaken (Nat.zero_le _)
    · exact Buffer.Holds.snprintf (s := [' ']) holds
  rw [printSegment, segmentStr_eq]
  by_cases sequence : seg.type = .asSequence
  · rw [if_neg (not_not_intro sequence), if_neg (not_not_intro sequence), if_pos sequence]
    exact spaced (printMembers_holds _ _ (room.weaken (by omega)))
  · rw [if_pos sequence, if_pos sequence, if_neg sequence]
    have opened := Buffer.Holds.snprintf (s := [(aspathDelimiterChar seg.type).1]) room
    have filled := printMembers_holds _ _ opened
    have closed := Buffer.Holds.snprintf (s := [(aspathDelimiterChar seg.type).2]) filled
    rw [List.append_assoc, List.append_assoc] at closed
    exact spaced closed

end Fitting

/-- The text of a chain: a space behind every segment but the last. -/
theorem aspathMakeStrCount_cons (seg : Assegment) (rest : List Assegment) :
    aspathMakeStrCount (seg :: rest)
      = segmentStr seg ++ (if rest.isEmpty then [] else [' ']) ++ aspathMakeStrCount rest := by
  cases rest with
  | nil =>
    simp [aspathMakeStrCount]
  | cons next rest =>
    rw [List.append_assoc]
    rfl

theorem printSegments_holds (segments : List Assegment) {b : Buffer} (shown : List Char)
    (holds : b.Holds shown 0) :
    (printSegments segments b).Holds (shown ++ aspathMakeStrCount segments) 0 := by
  induction segments generalizing b shown with
  | nil =>
    rw [aspathMakeStrCount, List.map_nil, List.intersperse_nil, List.flatten_nil, List.append_nil]
    exact holds
  | cons seg rest ih =>
    rw [printSegments, aspathMakeStrCount_cons, ← List.append_assoc, ← List.append_assoc]
    exact ih _ (printSegment_holds seg rest.isEmpty holds)

/-- Whatever the path, the text is printed completely and inside the buffer. -/
theorem printed_holds (segments : List Assegment) :
    (printed segments).Holds (aspathMakeStrCount segments) 0 := by
  apply printSegments_holds segments []
  exact ⟨rfl, rfl, by dsimp only [aspathStrDefaultLen]; omega, rfl⟩

theorem aspathMakeStr_eq (segments : List Assegment) :
    aspathMakeStr segments = some (aspathMakeStrCount segments) := by
  have holds := printed_holds segments
  rw [aspathMakeStr]
  split
  · rename_i empty
    rw [List.isEmpty_iff.mp empty]
    rfl
  · have fits : (printed segments).len < (printed segments).size := holds.fits
    rw [if_pos fits, holds.text]

/-! ## Reading back -/

/-- The loop over the tokens gets from one of its states to another, with the fuel for
the text that is left. -/
def Reads (asType : SegmentType) (need : Bool) (segments : List Assegment) (str : List Char)
    (asType' : SegmentType) (need' : Bool) (segments' : List Assegment) (str' : List Char) : Prop :=
  ∀ fuel, str.length < fuel → ∃ fuel', str'.length < fuel' ∧
    str2aspathLoop fuel asType need segments str = str2aspathLoop fuel' asType' need' segments' str'

/-- The text does not go on with a digit. -/
def Stops (str : List Char) : Prop := ∀ c, str.head? = some c → c.isDigit = false

section Reading

variable {asType t u v : SegmentType} {need n m k : Bool}
  {segments before after later : List Assegment} {str rest left right : List Char}

theorem Reads.refl : Reads asType need segments str asType need segments str :=
  fun fuel enough => ⟨fuel, enough, rfl⟩

theorem Reads.trans (first : Reads t n before left u m after right)
    (second : Reads u m after right v k later rest) : Reads t n before left v k later rest := by
  intro fuel enough
  obtain ⟨fuel', enough', read⟩ := first fuel enough
  obtain ⟨fuel'', enough'', read'⟩ := second fuel' enough'
  exact ⟨fuel'', enough'', read.trans read'⟩

/-- One turn of the loop, which makes the text shorter. -/
theorem Reads.turn {segments' : List Assegment} (shorter : rest.length < str.length)
    (next : ∀ fuel, str2aspathLoop (fuel + 1) asType need segments str
      = str2aspathLoop fuel t n segments' rest) :
    Reads asType need segments str t n segments' rest := by
  rintro (_ | fuel) enough
  · omega
  · exact ⟨fuel, by omega, next fuel⟩

variable {c : Char}

/-- A space or a comma in front of a token is skipped. -/
theorem aspathGettoken_separator (separator : c = ' ' ∨ c = ',') (str : List Char) :
    aspathGettoken (c :: str) = aspathGettoken str := by
  rcases separator with rfl | rfl <;> rfl

theorem Reads.separator (separator : c = ' ' ∨ c = ',') :
    Reads asType need segments (c :: str) asType need segments str := by
  intro fuel enough
  refine ⟨fuel, by rw [List.length_cons] at enough; omega, ?_⟩
  cases fuel with
  | zero => rfl
  | succ fuel => rw [str2aspathLoop, str2aspathLoop, aspathGettoken_separator separator]

/-- The digits of a number are read as the number. -/
theorem readAsval_digits (ds : List Char) (isDigit : ∀ c ∈ ds, c.isDigit = true)
    (stops : Stops rest) (asval : Nat) :
    readAsval (BitVec.ofNat 32 asval) (ds ++ rest)
      = (BitVec.ofNat 32 (Nat.ofDigitChars 10 ds asval), rest) := by
  induction ds generalizing asval with
  | nil =>
    rw [List.nil_append, Nat.ofDigitChars_nil]
    cases rest with
    | nil => rfl
    | cons c rest => rw [readAsval, if_neg (by rw [stops c rfl]; decide)]
  | cons c ds ih =>
    rw [List.cons_append, readAsval, if_pos (isDigit c List.mem_cons_self), Nat.ofDigitChars_cons,
      ← ih (fun d member => isDigit d (List.mem_cons_of_mem _ member))]
    congr 1
    rw [Nat.mul_comm 10 asval, BitVec.ofNat_add, BitVec.ofNat_mul]
    rfl

/-- A digit is none of the other characters a token begins with. -/
theorem digit_plain (digit : c.isDigit = true) :
    ¬ (isSpace c ∨ c = ',') ∧ c ≠ '\x7b' ∧ c ≠ '\x7d' ∧ c ≠ '(' ∧ c ≠ ')' ∧ c ≠ '[' ∧ c ≠ ']' := by
  have other : ∀ {d : Char}, d.isDigit = false → c ≠ d := by
    rintro d plain rfl
    rw [digit] at plain
    cases plain
  refine ⟨?_, other rfl, other rfl, other rfl, other rfl, other rfl, other rfl⟩
  rintro (space | comma)
  · simp only [isSpace, Char.isWhitespace, Bool.or_eq_true, decide_eq_true_eq] at space
    rcases space with ((((space | tab) | cr) | newline) | vt) | ff
    · exact other rfl space
    · exact other rfl tab
    · exact other rfl cr
    · exact other rfl newline
    · exact other rfl vt
    · exact other rfl ff
  · exact other rfl comma

theorem digits_isDigit (asno : U32) : ∀ c ∈ digits asno, c.isDigit = true := fun _ member =>
  Nat.isDigit_of_mem_toDigits (by decide) (by decide) member

/-- The digits of an AS number are a token. -/
theorem aspathGettoken_digits (asno : U32) (stops : Stops rest) :
    aspathGettoken (digits asno ++ rest) = some (.asval asno, rest) := by
  have whole : readAsval 0 (digits asno ++ rest) = (asno, rest) := by
    rw [show (0 : U32) = BitVec.ofNat 32 0 from rfl,
      readAsval_digits _ (digits_isDigit asno) stops, digits, Nat.ofDigitChars_ten_toDigits,
      BitVec.ofNat_toNat, BitVec.setWidth_eq]
  have all := digits_isDigit asno
  obtain ⟨d, ds, start⟩ := List.exists_cons_of_ne_nil
    (show digits asno ≠ [] from Nat.toDigits_ne_nil)
  rw [start] at whole all ⊢
  obtain ⟨plain, not₁, not₂, not₃, not₄, not₅, not₆⟩ := digit_plain (all d List.mem_cons_self)
  rw [List.cons_append] at whole ⊢
  rw [aspathGettoken, List.dropWhile_cons_of_neg (by simpa using plain)]
  dsimp only
  rw [if_neg not₁, if_neg not₂, if_neg not₃, if_neg not₄, if_neg not₅, if_neg not₆,
    if_pos (all d List.mem_cons_self), whole]

/-! ## Segments -/

@[simp] theorem aspathAsAdd_last (asno : U32) (segments : List Assegment) (type : SegmentType)
    (as : List U32) :
    aspathAsAdd asno (segments ++ [⟨type, as⟩]) = segments ++ [⟨type, as ++ [asno]⟩] := by
  induction segments with
  | nil => rfl
  | cons seg rest ih =>
    cases rest with
    | nil => rfl
    | cons next rest =>
      rw [List.cons_append, List.cons_append, aspathAsAdd, ← List.cons_append, ih,
        List.cons_append]
      · rfl
      · exact List.cons_ne_nil _ _

variable {type : SegmentType}
variable {as : List U32}

/-- A member of an open segment. -/
theorem Reads.member (asno : U32) (stops : Stops rest) :
    Reads asType false (segments ++ [⟨type, as⟩]) (digits asno ++ rest)
      asType false (segments ++ [⟨type, as ++ [asno]⟩]) rest := by
  apply Reads.turn
  · have some := List.length_pos_of_ne_nil (show digits asno ≠ [] from Nat.toDigits_ne_nil)
    rw [List.length_append]
    omega
  · intro fuel
    rw [str2aspathLoop, aspathGettoken_digits asno stops]
    dsimp only
    rw [if_neg (by decide), aspathAsAdd_last]

/-- A number outside of a segment opens a sequence. -/
theorem Reads.sequence (asno : U32) (stops : Stops rest) :
    Reads .asSequence true segments (digits asno ++ rest)
      .asSequence false (segments ++ [⟨.asSequence, []⟩]) (digits asno ++ rest) := by
  rintro (_ | fuel) enough
  · omega
  · refine ⟨fuel + 1, enough, ?_⟩
    rw [str2aspathLoop, str2aspathLoop, aspathGettoken_digits asno stops]
    rfl

/-- The members of a segment, up to what follows the last one. -/
theorem Reads.members {separator : Char} (known : separator = ' ' ∨ separator = ',') (as : List U32)
    {before : List U32} (stops : Stops rest) :
    Reads asType false (segments ++ [⟨type, before⟩]) (membersText separator as ++ rest)
      asType false (segments ++ [⟨type, before ++ as⟩]) rest := by
  induction as generalizing before with
  | nil =>
    rw [List.append_nil]
    exact .refl
  | cons asno more ih =>
    cases more with
    | nil =>
      have text : membersText separator [asno] = digits asno := List.append_nil _
      rw [text]
      exact .member asno stops
    | cons next more =>
      rw [membersText_cons separator asno (List.cons_ne_nil _ _), List.append_assoc]
      have apart : Stops (separator :: membersText separator (next :: more) ++ rest) := by
        rintro c found
        cases found
        rcases known with rfl | rfl <;> rfl
      have rests : Reads asType false (segments ++ [⟨type, before ++ [asno]⟩])
          (membersText separator (next :: more) ++ rest)
          asType false (segments ++ [⟨type, before ++ [asno] ++ next :: more⟩]) rest := ih
      rw [List.append_assoc] at rests
      exact (Reads.member asno apart).trans ((Reads.separator known).trans rests)

/-- A sequence is read where none is open. -/
theorem Reads.plain (filled : as ≠ []) (stops : Stops rest) :
    Reads .asSequence true segments (segmentStr ⟨.asSequence, as⟩ ++ rest)
      .asSequence false (segments ++ [⟨.asSequence, as⟩]) rest := by
  obtain ⟨asno, more, rfl⟩ := List.exists_cons_of_ne_nil filled
  have members : Reads .asSequence false (segments ++ [⟨.asSequence, []⟩])
      (membersText ' ' (asno :: more) ++ rest)
      .asSequence false (segments ++ [⟨.asSequence, [] ++ asno :: more⟩]) rest :=
    Reads.members (.inl rfl) (asno :: more) stops
  have opened : Reads .asSequence true segments (membersText ' ' (asno :: more) ++ rest)
      .asSequence false (segments ++ [⟨.asSequence, []⟩])
      (membersText ' ' (asno :: more) ++ rest) := by
    cases more with
    | nil =>
      have text : membersText ' ' [asno] = digits asno := List.append_nil _
      rw [text]
      exact .sequence asno stops
    | cons next more =>
      rw [membersText_cons ' ' asno (List.cons_ne_nil _ _), List.append_assoc]
      apply Reads.sequence
      rintro c found
      cases found
      rfl
  rw [segmentStr_eq]
  exact opened.trans members

/-- A segment with delimiters is read wherever it stands. -/
theorem Reads.delimited (delimiters : type ≠ .asSequence) (as : List U32) :
    Reads .asSequence need segments (segmentStr ⟨type, as⟩ ++ rest)
      .asSequence true (segments ++ [⟨type, as⟩]) rest := by
  have known : separatorOf type = ' ' ∨ separatorOf type = ',' := by
    cases type <;> first | exact .inl rfl | exact .inr rfl
  have stops : Stops ((aspathDelimiterChar type).2 :: rest) := by
    rintro c found
    cases found
    cases type <;> rfl
  have start : Reads .asSequence need segments
      ((aspathDelimiterChar type).1 :: (membersText (separatorOf type) as
        ++ (aspathDelimiterChar type).2 :: rest))
      type false (segments ++ [⟨type, []⟩])
      (membersText (separatorOf type) as ++ (aspathDelimiterChar type).2 :: rest) := by
    apply Reads.turn (Nat.lt_succ_self _)
    intro fuel
    cases type <;> first | rfl | exact absurd rfl delimiters
  have finish : Reads type false (segments ++ [⟨type, as⟩])
      ((aspathDelimiterChar type).2 :: rest) .asSequence true (segments ++ [⟨type, as⟩]) rest := by
    apply Reads.turn (Nat.lt_succ_self _)
    intro fuel
    cases type <;> first | rfl | exact absurd rfl delimiters
  have text : segmentStr ⟨type, as⟩ ++ rest = (aspathDelimiterChar type).1
      :: (membersText (separatorOf type) as ++ (aspathDelimiterChar type).2 :: rest) := by
    rw [segmentStr_eq, if_neg delimiters]
    simp
  rw [text]
  exact start.trans ((Reads.members known as stops).trans finish)

/-- The segments of a chain in normal form, where a sequence in front finds none open. -/
theorem Reads.chain (chain : List Assegment) (normal : Normal chain)
    (open_ : need = true ∨ ∀ seg, chain.head? = some seg → seg.type ≠ .asSequence) :
    ∃ need', Reads .asSequence need segments (aspathMakeStrCount chain)
      .asSequence need' (segments ++ chain) [] := by
  induction chain generalizing need segments with
  | nil =>
    rw [List.append_nil]
    exact ⟨need, .refl⟩
  | cons seg rest ih =>
    rw [aspathMakeStrCount_cons, List.append_assoc]
    have stops : Stops ((if rest.isEmpty then [] else [' ']) ++ aspathMakeStrCount rest) := by
      cases rest with
      | nil =>
        rintro c found
        cases found
      | cons next rest =>
        rintro c found
        cases found
        rfl
    have spaced : ∀ need, Reads .asSequence need (segments ++ [seg])
        ((if rest.isEmpty then [] else [' ']) ++ aspathMakeStrCount rest)
        .asSequence need (segments ++ [seg]) (aspathMakeStrCount rest) := by
      intro need
      split
      · exact .refl
      · exact .separator (.inl rfl)
    have filled := normal.filled seg List.mem_cons_self
    by_cases sequence : seg.type = .asSequence
    · obtain ⟨type, as⟩ := seg
      cases sequence
      have fresh : need = true := open_.resolve_right fun other => other _ rfl rfl
      subst fresh
      -- The next segment is not a sequence, so it opens itself.
      obtain ⟨need', others⟩ : ∃ need', Reads .asSequence false (segments ++ [⟨.asSequence, as⟩])
          (aspathMakeStrCount rest) .asSequence need'
              (segments ++ [⟨.asSequence, as⟩] ++ rest) [] :=
        ih normal.tail (.inr fun next found sequence => by
          cases rest with
          | nil => cases found
          | cons other rest =>
            cases found
            exact (List.isChain_cons_cons.mp normal.apart).1 ⟨rfl, sequence⟩)
      rw [List.append_assoc] at others
      exact ⟨need', (Reads.plain filled stops).trans ((spaced false).trans others)⟩
    · obtain ⟨type, as⟩ := seg
      obtain ⟨need', others⟩ : ∃ need', Reads .asSequence true (segments ++ [⟨type, as⟩])
          (aspathMakeStrCount rest) .asSequence need' (segments ++ [⟨type, as⟩] ++ rest) [] :=
        ih normal.tail (.inl rfl)
      rw [List.append_assoc] at others
      exact ⟨need', (Reads.delimited sequence as).trans ((spaced true).trans others)⟩

end Reading

/-- The segments of a chain in normal form are read back from its text. -/
theorem aspathStr2aspath_text {segments : List Assegment} (normal : Normal segments) :
    aspathStr2aspath (aspathMakeStrCount segments) = some segments := by
  obtain ⟨need, reads⟩ : ∃ need, Reads .asSequence true [] (aspathMakeStrCount segments)
      .asSequence need ([] ++ segments) [] := Reads.chain segments normal (.inl rfl)
  obtain ⟨fuel, more, read⟩ := reads _ (Nat.lt_succ_self _)
  obtain ⟨fuel, rfl⟩ := Nat.exists_eq_add_one_of_ne_zero (Nat.ne_of_gt more)
  exact read

/-- Every path is printed completely and inside its buffer, and a path in normal form is
read back from its text, segment by segment. -/
theorem path_text_round_trip (segments : List Assegment) (normal : Normal segments) :
    (printed segments).len < (printed segments).size ∧ (printed segments).spilled = false
      ∧ ∃ text, aspathMakeStr segments = some text ∧ aspathStr2aspath text = some segments :=
  ⟨(printed_holds segments).fits, (printed_holds segments).inside, aspathMakeStrCount segments,
    aspathMakeStr_eq segments, aspathStr2aspath_text normal⟩

/-- A path of all four kinds of segments. -/
def mixedPath : List Assegment :=
  [⟨.asConfedSequence, [65001, 65002]⟩, ⟨.asConfedSet, [65003]⟩, ⟨.asSequence, [4294967295, 1]⟩,
    ⟨.asSet, [3, 5]⟩]

theorem mixedPath_normal : Normal mixedPath where
  filled := by decide
  apart := by simp [mixedPath, Unjoinable]
  sorted := by decide

theorem path_text_round_trip_mixed :
    (printed mixedPath).len < (printed mixedPath).size ∧ (printed mixedPath).spilled = false
      ∧ ∃ text, aspathMakeStr mixedPath = some text ∧ aspathStr2aspath text = some mixedPath :=
  path_text_round_trip mixedPath mixedPath_normal

end Bgpd.PathText
