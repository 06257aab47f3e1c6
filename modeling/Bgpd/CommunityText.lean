import Bgpd.PolicyClauses

/-!
# Communities as text

`community_str2com` and `ecommunity_str2com` read a line of configuration token
by token. A token reader returns the text behind its token, or nothing at the
end of the line. At the end of the line `community_gettoken` leaves token and
value as they were, so `community_str2com` adds the last value once more; the
sort that follows removes it again.
-/

namespace Bgpd.CommunityText

open Octets PolicyClauses

/-- A string of C, without its terminator. -/
abbrev CString := List Char

/-- `isspace` in the C locale. -/
def isSpace (c : Char) : Bool := c.isWhitespace || c = '\x0b' || c = '\x0c'

/-- `strncmp (p, word, strlen (word)) == 0`, and what is behind the word. -/
def afterWord (word : String) (p : CString) : Option CString :=
  if word.toList.isPrefixOf p then some (p.drop word.length) else none

/-! ## `bgp_community.c` -/

/-- `enum community_token`. -/
inductive CommunityToken
  | val
  | noExport
  | noAdvertise
  | localAs
  | unknown
  deriving DecidableEq

/-- The loop over the digits of a value: the text behind them, whether the last
part has a digit, and both halves. Nothing for a second colon. -/
def communityDigits : CString → Bool → Bool → U32 → U32 → Option (CString × Bool × U32 × U32)
  | [], _, digit, high, low => some ([], digit, high, low)
  | c :: p, separator, digit, high, low =>
    if c = ':' then
      if separator then none else communityDigits p true false (low <<< 16) 0
    else if c.isDigit then
      communityDigits p separator true high (low * 10 + BitVec.ofNat 32 (c.toNat - '0'.toNat))
    else some (c :: p, digit, high, low)

/-- `community_gettoken`, from the first character that is not blank. -/
def communityToken (p : CString) (token : CommunityToken) (val : U32) :
    Option CString × CommunityToken × U32 :=
  match p with
  | [] => (none, token, val)
  | c :: _ =>
    if c.isAlpha then
      match afterWord "internet" p with
      | some rest => (some rest, .noExport, 0)
      | none => match afterWord "no-export" p with
        | some rest => (some rest, .noExport, 0xFFFFFF01)
        | none => match afterWord "no-advertise" p with
          | some rest => (some rest, .noAdvertise, 0xFFFFFF02)
          | none => match afterWord "local-AS" p with
            | some rest => (some rest, .localAs, 0xFFFFFF03)
            | none => (none, .unknown, val)
    else if c.isDigit then
      match communityDigits p false false 0 0 with
      | none => (none, .unknown, val)
      | some (rest, digit, high, low) =>
        if digit then (some rest, .val, high + low) else (none, .unknown, val)
    else (none, .unknown, val)

/-- `community_gettoken`. -/
def communityGettoken (buf : CString) (token : CommunityToken) (val : U32) :
    Option CString × CommunityToken × U32 :=
  communityToken (buf.dropWhile isSpace) token val

/-- The loop of `community_str2com`. Every turn but the last consumes a
character, which the fuel counts. -/
def communityLoop : Nat → CString → CommunityToken → U32 → List U32 → Option (List U32)
  | 0, _, _, _, _ => none
  | fuel + 1, str, token, val, com =>
    let (rest, token, val) := communityGettoken str token val
    if token = .unknown then none
    else
      match rest with
      | some str => communityLoop fuel str token val (com ++ [val])
      | none => some (com ++ [val])

/-- `community_str2com`. -/
def communityStr2com (str : CString) : Option (List U32) :=
  (communityLoop (str.length + 1) str .unknown 0 []).map communityUniqSort

/-! ## `bgp_ecommunity.c` -/

/-- `enum ecommunity_token`, the value with its token. -/
inductive EcommunityToken
  | rt
  | soo
  | val (eval : BitVec 64)
  | unknown
  deriving DecidableEq

/-- One part of a dotted address: octal behind a leading zero, otherwise decimal. -/
def addressPart (part : CString) : Option Nat :=
  match part with
  | [] => none
  | '0' :: rest =>
    if rest.all fun c => '0' ≤ c ∧ c ≤ '7' then some (Nat.ofDigitChars 8 rest 0) else none
  | _ => if part.all Char.isDigit then some (Nat.ofDigitChars 10 part 0) else none

/-- A digit to the base sixteen. -/
def hexDigit (c : Char) : Option Nat :=
  if c.isDigit then some (c.toNat - '0'.toNat)
  else if 'a' ≤ c ∧ c ≤ 'f' then some (c.toNat - 'a'.toNat + 10)
  else if 'A' ≤ c ∧ c ≤ 'F' then some (c.toNat - 'A'.toNat + 10)
  else none

/-- A part of an address as C writes numbers. -/
def addressNumber (part : CString) : Option Nat :=
  match part with
  | '0' :: x :: d :: ds =>
    if x = 'x' ∨ x = 'X' then ((d :: ds).mapM hexDigit).map (List.foldl (16 * · + ·) 0)
    else addressPart part
  | _ => addressPart part

/-- The parts of an address, of which the last fills what is left. -/
def fill (parts : List Nat) : Option U32 :=
  match parts.reverse with
  | [] => none
  | last :: front =>
    if front.length < 4 ∧ (∀ part ∈ front, part < 256) ∧ last < 256 ^ (4 - front.length) then
      some (BitVec.ofNat 32 (front.reverse.foldl (256 * · + ·) 0 * 256 ^ (4 - front.length) + last))
    else none

/-- `inet_aton`, which ends at white space. -/
def inetAton (cp : CString) : Option U32 :=
  (((cp.takeWhile fun c => !isSpace c).splitOn '.').mapM addressNumber).bind fill

/-- The variables of the loop over a value. `before` is the text from its first
character on. -/
structure ValueScan where
  before : CString := []
  dot : Nat := 0
  digit : Bool := false
  separator : Bool := false
  ip : U32 := 0
  as : U32 := 0
  val : U32 := 0

/-- The colon of a value: what stands before it is an address or an AS number. -/
def ValueScan.colon (scan : ValueScan) : Option ValueScan :=
  let scan' := { scan with separator := true, digit := false, before := scan.before ++ [':'] }
  if scan.separator ∨ 16 < scan.before.length then none
  else if scan.dot ≠ 0 then
    (inetAton scan.before).map fun ip => { scan' with ip }
  else
    let as := BitVec.ofNat 32 (Nat.ofDigitChars 10 scan.before 0)
    if as = 4294967295 then none else some { scan' with as }

/-- One character of a value, or nothing where it is an error. -/
def ValueScan.read (scan : ValueScan) (c : Char) : Option ValueScan :=
  if c = ':' then scan.colon
  else if c = '.' then
    if scan.separator ∨ 4 < scan.dot + 1 then none
    else some { scan with dot := scan.dot + 1, before := scan.before ++ [c] }
  else
    some { scan with
      digit := true
      val := if scan.separator then scan.val * 10 + BitVec.ofNat 32 (c.toNat - '0'.toNat)
        else scan.val
      before := scan.before ++ [c] }

/-- The loop over a value. -/
def ecommunityDigits : CString → ValueScan → Option (CString × ValueScan)
  | [], scan => some ([], scan)
  | c :: p, scan =>
    if c.isDigit ∨ c = ':' ∨ c = '.' then (scan.read c).bind (ecommunityDigits p)
    else some (c :: p, scan)

/-- The eight octets of a value. -/
def ValueScan.encode (scan : ValueScan) : Option (BitVec 64) :=
  if !scan.digit || !scan.separator then none
  else if scan.dot ≠ 0 then
    if scan.val > 65535 then none
    else some (0x01#8 ++ 0#8 ++ scan.ip ++ scan.val.setWidth 16)
  else if scan.as > 65535 then
    if scan.val > 65535 then none
    else some (0x02#8 ++ 0#8 ++ scan.as ++ scan.val.setWidth 16)
  else some (0x00#8 ++ 0#8 ++ scan.as.setWidth 16 ++ scan.val)

/-- A character ends a keyword. -/
def keywordEnds (p : CString) : Bool :=
  match p with
  | [] => true
  | c :: _ => isSpace c

/-- The keywords `rt` and `soo`, which may be cut short. -/
def ecommunityKeyword : CString → Option (CString × EcommunityToken)
  | c :: p =>
    if c.toLower = 'r' then
      match p with
      | c' :: p' =>
        if c'.toLower = 't' then some (p', .rt) else if keywordEnds p then some (p, .rt) else none
      | [] => some (p, .rt)
    else if c.toLower = 's' then
      match p with
      | c' :: p' =>
        if c'.toLower = 'o' then
          match p' with
          | c'' :: p'' =>
            if c''.toLower = 'o' then some (p'', .soo)
            else if keywordEnds p' then some (p', .soo) else none
          | [] => some (p', .soo)
        else if keywordEnds p then some (p, .soo)
        else none
      | [] => some (p, .soo)
    else none
  | [] => none

/-- `ecommunity_gettoken`: nothing at the end of the line. -/
def ecommunityGettoken (str : CString) : Option (CString × EcommunityToken) :=
  let p := str.dropWhile isSpace
  match p with
  | [] => none
  | c :: _ =>
    if c.isDigit then
      match ecommunityDigits p {} with
      | some (rest, scan) => some (rest, (scan.encode.map .val).getD .unknown)
      | none => some (p, .unknown)
    else some ((ecommunityKeyword p).getD (p, .unknown))

/-- `ecommunity_add_val`: the values are in order, and none comes twice. -/
def ecommunityAddVal (ecom : List (BitVec 64)) (eval : BitVec 64) : List (BitVec 64) :=
  match ecom with
  | [] => [eval]
  | p :: rest =>
    if p = eval then ecom else if eval < p then eval :: ecom else p :: ecommunityAddVal rest eval

/-- The second octet of a value. -/
def withType (eval : BitVec 64) (type : U8) : BitVec 64 :=
  eval.extractLsb' 56 8 ++ type ++ eval.extractLsb' 0 48

/-- The loop of `ecommunity_str2com`. -/
def ecommunityLoop (keywordIncluded : Bool) :
    Nat → CString → U8 → Bool → Option (List (BitVec 64)) → Option (List (BitVec 64))
  | 0, _, _, _, _ => none
  | fuel + 1, str, type, keyword, ecom =>
    match ecommunityGettoken str with
    | none => ecom
    | some (str, .rt) =>
      if !keywordIncluded || keyword then none
      else ecommunityLoop keywordIncluded fuel str 0x02 true ecom
    | some (str, .soo) =>
      if !keywordIncluded || keyword then none
      else ecommunityLoop keywordIncluded fuel str 0x03 true ecom
    | some (str, .val eval) =>
      if keywordIncluded && !keyword then none
      else
        ecommunityLoop keywordIncluded fuel str type false
          (some (ecommunityAddVal (ecom.getD []) (withType eval type)))
    | some (_, .unknown) => none

/-- `ecommunity_str2com`. -/
def ecommunityStr2com (str : CString) (type : U8) (keywordIncluded : Bool) :
    Option (List (BitVec 64)) :=
  ecommunityLoop keywordIncluded (str.length + 1) str type false none

/-! ## `bgp_regex.c` -/

/-- The pattern `bgp_regcomp` compiles: an underscore stands for any delimiter. -/
def magicRegexp (regstr : CString) : CString :=
  regstr.flatMap fun c => if c = '_' then "(^|[,\x7b\x7d() ]|$)".toList else [c]

end Bgpd.CommunityText
