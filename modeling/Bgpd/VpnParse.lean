import Bgpd.Announce

/-!
# Labelled VPN routes on the wire

`bgp_nlri_parse_vpnv4` goes over the NLRI with a raw pointer. Memory goes on
behind the end of the NLRI, and nothing but the function's own checks keeps the
pointer from going there, or keeps a copy inside the union of `struct prefix`.
The check that a route ends inside the NLRI stands behind the copies.

The parser carries what it touched: the positions it read, and the offsets it
wrote in the union. No branch looks at either.
-/

namespace Bgpd.VpnParse

open Octets Prefixes

/-- Memory from the first octet of the NLRI on. -/
abbrev Memory := Nat → U8

/-- The octets of a range. -/
def octetsAt (mem : Memory) (pos count : Nat) : List U8 := (List.range' pos count).map mem

/-- What a route is handed on with: the length and the octets of its prefix, its
distinguisher, and the three octets of its label. -/
structure Labelled where
  prefixlen : Nat
  octets : List U8
  prd : List U8
  tag : List U8
  deriving DecidableEq

/-- `decode_label`. -/
def decodeLabel (tag : List U8) : U32 :=
  ((tag.getD 0 0).setWidth 32 <<< 12) ||| ((tag.getD 1 0).setWidth 32 <<< 4) |||
    (((tag.getD 2 0) &&& 0xf0) >>> 4).setWidth 32

/-- `RD_TYPE_AS` and `RD_TYPE_IP`. -/
def rdTypeAs : U16 := 0
def rdTypeIp : U16 := 1

/-- A call of `bgp_update` or `bgp_withdraw`. -/
inductive VpnCall
  | update (route : Labelled)
  | withdraw (route : Labelled)
  deriving DecidableEq

/-- What the function has done, and what it returns. -/
structure Parse where
  touched : List Nat := []
  written : List Nat := []
  calls : List VpnCall := []
  ret : Int := 0
  deriving DecidableEq

namespace Parse

/-- Octets of a range are read. -/
def read (parse : Parse) (pos count : Nat) : Parse :=
  { parse with touched := parse.touched ++ List.range' pos count }

/-- Octets are copied to the front of the union. -/
def write (parse : Parse) (count : Nat) : Parse :=
  { parse with written := parse.written ++ List.range count }

/-- The label, the distinguisher and its type are read, wherever they lie. -/
def readHead (parse : Parse) (pnt : Nat) : Parse :=
  ((parse.read pnt 3).read (pnt + 3) 8).read (pnt + 3) 2

/-- The value of the distinguisher is read, and the prefix is copied. -/
def readBody (parse : Parse) (pnt size : Nat) : Parse :=
  ((parse.read (pnt + 5) 6).read (pnt + 11) size).write size

/-- `return -1`. -/
def fail (parse : Parse) : Parse := { parse with ret := -1 }

/-- A route is handed on. -/
def call (parse : Parse) (call : VpnCall) : Parse :=
  { parse with calls := parse.calls ++ [call] }

end Parse

/-- The loop of `bgp_nlri_parse_vpnv4` and the check behind it. Each turn moves
the pointer, so fuel for the octets left is enough. -/
def parseLoop (mem : Memory) (lim : Nat) (hand : Labelled → VpnCall) :
    Nat → Nat → Parse → Option Parse
  | 0, _, _ => none
  | fuel + 1, pnt, parse =>
    if pnt < lim then
      let prefixlen := (mem pnt).toNat
      let parse := parse.read pnt 1
      let pnt := pnt + 1
      if prefixlen < 88 then some parse.fail
      else
        let parse := parse.readHead pnt
        let type := getw (octetsAt mem (pnt + 3) 2)
        if type = rdTypeAs ∨ type = rdTypeIp then
          let size := psize prefixlen - 11
          let parse := parse.readBody pnt size
          if lim < pnt + psize prefixlen then some parse.fail
          else
            parseLoop mem lim hand fuel (pnt + psize prefixlen) (parse.call (hand
              ⟨prefixlen - 88, octetsAt mem (pnt + 11) size, octetsAt mem (pnt + 3) 8,
                octetsAt mem pnt 3⟩))
        else some parse.fail
    else if pnt ≠ lim then some parse.fail
    else some parse

/-- `bgp_nlri_parse_vpnv4`. With attributes the routes are updated, without they
are withdrawn. -/
def bgpNlriParseVpnv4 (established attr : Bool) (mem : Memory) (length : Nat) : Option Parse :=
  if !established then some {}
  else
    parseLoop mem length (if attr then .update else .withdraw) (length + 1) 0 {}

/-! ## The encoding -/

/-- A route as the encoding has it: a length and octets that fit, and a
distinguisher of one of the two types. -/
structure Labelled.Valid (route : Labelled) : Prop where
  prefixlen : route.prefixlen ≤ 32
  octets : route.octets.length = psize route.prefixlen
  prd : route.prd.length = 8
  tag : route.tag.length = 3
  type : getw route.prd = rdTypeAs ∨ getw route.prd = rdTypeIp

/-- The octets of a route. The length covers label, distinguisher and prefix. -/
def Labelled.encode (route : Labelled) : List U8 :=
  BitVec.ofNat 8 (route.prefixlen + 88) :: (route.tag ++ route.prd ++ route.octets)

/-- The octets begin with a route. -/
def BeginsWithRoute (octets : List U8) : Prop :=
  ∃ route : Labelled, route.Valid ∧ route.encode <+: octets

/-- The octets begin with the length of no prefix, or with one that leads past
their end. -/
def BadLength (octets : List U8) : Prop :=
  ∃ length more, octets = length :: more ∧
    (length.toNat < 88 ∨ 120 < length.toNat ∨ more.length < psize length.toNat)

/-- Such a length that the check for 88 bits lets pass. -/
def Overruns (octets : List U8) : Prop :=
  ∃ length more, octets = length :: more ∧ 88 ≤ length.toNat ∧
    (120 < length.toNat ∨ more.length < psize length.toNat)

/-- Octets of the union in `struct prefix`. -/
def prefixUnionSize : Nat := 16

/-- The parse of an NLRI that consists of routes and of octets that begin with
none: nothing outside the NLRI is read and nothing outside the union written, a
bad length is rejected before anything behind it is read, and the routes are
handed on in order. -/
structure Faithful (lim : Nat) (hand : Labelled → VpnCall) (routes : List Labelled)
    (rest : List U8) (parse : Parse) : Prop where
  inside : ∀ pos ∈ parse.touched, pos < lim
  union : ∀ offset ∈ parse.written, offset < prefixUnionSize
  unread : BadLength rest → ∀ pos ∈ parse.touched, pos ≤ lim - rest.length
  calls : parse.calls = routes.map hand
  ret : parse.ret = if rest = [] then 0 else -1

/-! ## Ranges -/

section Ranges

variable {mem : Memory} {pos count : Nat}

@[simp] theorem octetsAt_length (mem : Memory) (pos count : Nat) :
    (octetsAt mem pos count).length = count := by
  simp [octetsAt]

theorem octetsAt_add (mem : Memory) (pos first second : Nat) :
    octetsAt mem pos (first + second) = octetsAt mem pos first ++
      octetsAt mem (pos + first) second := by
  rw [octetsAt, ← List.range'_append_1, List.map_append]
  rfl

/-- What a range begins with is the range of its length. -/
theorem octetsAt_append {left right : List U8} (whole : octetsAt mem pos count = left ++ right) :
    octetsAt mem pos left.length = left ∧
      octetsAt mem (pos + left.length) (count - left.length) = right := by
  have size := congrArg List.length whole
  rw [octetsAt_length, List.length_append] at size
  rw [show count = left.length + (count - left.length) by omega, octetsAt_add] at whole
  have ⟨first, second⟩ := List.append_inj whole (octetsAt_length _ _ _)
  exact ⟨first, second⟩

theorem octetsAt_cons {octet : U8} {more : List U8}
    (whole : octetsAt mem pos count = octet :: more) :
    mem pos = octet ∧ octetsAt mem (pos + 1) (count - 1) = more := by
  obtain ⟨first, rest⟩ := @octetsAt_append _ _ _ [octet] _ whole
  refine ⟨?_, rest⟩
  simpa [octetsAt] using first

end Ranges

variable {route : Labelled}

/-- The octets of a route, with the length octet in front as a number. -/
theorem Labelled.Valid.length_toNat (valid : route.Valid) :
    (BitVec.ofNat 8 (route.prefixlen + 88)).toNat = route.prefixlen + 88 := by
  have := valid.prefixlen
  rw [BitVec.toNat_ofNat]
  omega

theorem psize_labelled (prefixlen : Nat) : psize (prefixlen + 88) = psize prefixlen + 11 := by
  unfold psize
  omega

theorem Labelled.Valid.encode_length (valid : route.Valid) :
    route.encode.length = 1 + psize (route.prefixlen + 88) := by
  simp only [Labelled.encode, List.length_cons, List.length_append, valid.tag, valid.prd,
    valid.octets, psize_labelled]
  omega

/-! ## One turn -/

section Turns

variable {mem : Memory} {lim pnt : Nat} (fuel : Nat) (hand : Labelled → VpnCall) (parse : Parse)
variable {more : List U8}

/-- The turn that reads a route. -/
theorem parseLoop_route {route : Labelled} (valid : route.Valid)
    (octets : octetsAt mem pnt (lim - pnt) = route.encode ++ more) :
    ∃ parse₁ : Parse, parseLoop mem lim hand (fuel + 1) pnt parse =
        parseLoop mem lim hand fuel (pnt + route.encode.length) parse₁ ∧
      (∀ pos ∈ parse₁.touched, pos ∈ parse.touched ∨ pos < pnt + route.encode.length) ∧
      (∀ offset ∈ parse₁.written, offset ∈ parse.written ∨ offset < 4) ∧
      parse₁.calls = parse.calls ++ [hand route] ∧ parse₁.ret = parse.ret := by
  have size := congrArg List.length octets
  rw [octetsAt_length, List.length_append, valid.encode_length] at size
  have bound := valid.prefixlen
  have small : psize route.prefixlen ≤ 4 := by unfold psize; omega
  have psize_eq := psize_labelled route.prefixlen
  obtain ⟨whole, -⟩ := octetsAt_append octets
  rw [valid.encode_length] at whole
  obtain ⟨first, behind⟩ := octetsAt_cons whole
  rw [Nat.add_sub_cancel_left, psize_eq] at behind
  obtain ⟨front, octets_at⟩ := octetsAt_append behind
  rw [List.length_append, valid.tag, valid.prd] at front octets_at
  obtain ⟨tag_at, prd_at⟩ := octetsAt_append front
  rw [valid.tag] at tag_at prd_at
  have type_at : getw (octetsAt mem (pnt + 1 + 3) 2) = getw route.prd := by
    rw [← prd_at]
    rfl
  refine ⟨(((parse.read pnt 1).readHead (pnt + 1)).readBody (pnt + 1) (psize route.prefixlen)).call
    (hand route), ?_, ?_, ?_, rfl, rfl⟩
  · rw [parseLoop, if_pos (by omega)]
    simp only [first, valid.length_toNat, if_neg (show ¬route.prefixlen + 88 < 88 by omega),
      type_at, if_pos valid.type, valid.encode_length, psize_eq, Nat.add_sub_cancel, tag_at]
    have prd_read : octetsAt mem (pnt + 1 + 3) 8 = route.prd := prd_at
    have octets_read : octetsAt mem (pnt + 1 + 11) (psize route.prefixlen) = route.octets := by
      rwa [show 3 + 8 = 11 from rfl, Nat.add_sub_cancel] at octets_at
    rw [prd_read, octets_read, Nat.add_assoc pnt, if_neg (by omega)]
  · intro pos inside
    by_cases old : pos ∈ parse.touched
    · exact .inl old
    · simp only [Parse.call, Parse.readBody, Parse.readHead, Parse.read, Parse.write,
        List.mem_append, List.mem_range'_1, old, false_or] at inside
      rw [valid.encode_length]
      omega
  · intro offset inside
    by_cases old : offset ∈ parse.written
    · exact .inl old
    · simp only [Parse.call, Parse.readBody, Parse.readHead, Parse.read, Parse.write,
        List.mem_append, List.mem_range, old, false_or] at inside
      omega

/-- The last turn, behind the routes. -/
theorem parseLoop_end (rest : octetsAt mem pnt (lim - pnt) = []) (start : pnt ≤ lim) :
    parseLoop mem lim hand (fuel + 1) pnt parse = some parse := by
  have size := congrArg List.length rest
  rw [octetsAt_length, List.length_nil] at size
  rw [parseLoop, if_neg (by omega), if_neg (by omega)]

variable {length : U8}

/-- The turn that rejects a length below 88, or a distinguisher of another type. -/
theorem parseLoop_rejects (octets : octetsAt mem pnt (lim - pnt) = length :: more)
    (none_begins : ¬BeginsWithRoute (length :: more)) (holds : ¬Overruns (length :: more)) :
    ∃ parse₁ : Parse, parseLoop mem lim hand (fuel + 1) pnt parse = some parse₁ ∧
      (∀ pos ∈ parse₁.touched, pos ∈ parse.touched ∨ pos < lim) ∧
      (BadLength (length :: more) → ∀ pos ∈ parse₁.touched, pos ∈ parse.touched ∨ pos ≤ pnt) ∧
      parse₁.written = parse.written ∧ parse₁.calls = parse.calls ∧ parse₁.ret = -1 := by
  have size := congrArg List.length octets
  rw [octetsAt_length, List.length_cons] at size
  obtain ⟨first, behind⟩ := octetsAt_cons octets
  by_cases short : length.toNat < 88
  · refine ⟨(parse.read pnt 1).fail, ?_, ?_, ?_, rfl, rfl, rfl⟩
    · rw [parseLoop, if_pos (by omega)]
      simp only [first, if_pos short]
    · intro pos inside
      refine (List.mem_append.mp inside).imp_right fun new => ?_
      rw [List.mem_range'_1] at new
      omega
    · intro _ pos inside
      refine (List.mem_append.mp inside).imp_right fun new => ?_
      rw [List.mem_range'_1] at new
      omega
  · have fits : length.toNat ≤ 120 ∧ psize length.toNat ≤ more.length := by
      by_contra beyond
      refine holds ⟨length, more, rfl, by omega, ?_⟩
      omega
    have psize_eq := psize_labelled (length.toNat - 88)
    rw [Nat.sub_add_cancel (by omega)] at psize_eq
    have type_at : ¬(getw (octetsAt mem (pnt + 1 + 3) 2) = rdTypeAs ∨
        getw (octetsAt mem (pnt + 1 + 3) 2) = rdTypeIp) := by
      intro known
      -- otherwise the octets would begin with a route
      have split : more = octetsAt mem (pnt + 1) 3 ++ octetsAt mem (pnt + 1 + 3) 8 ++
          octetsAt mem (pnt + 1 + 11) (psize (length.toNat - 88)) ++
          octetsAt mem (pnt + 1 + psize length.toNat) (more.length - psize length.toNat) := by
        rw [← octetsAt_add mem (pnt + 1) 3 8, ← octetsAt_add mem (pnt + 1) 11, Nat.add_comm 11,
          ← psize_eq, ← octetsAt_add, Nat.add_sub_cancel' fits.2]
        rw [show lim - pnt - 1 = more.length by omega] at behind
        exact behind.symm
      refine none_begins ⟨⟨length.toNat - 88,
        octetsAt mem (pnt + 1 + 11) (psize (length.toNat - 88)), octetsAt mem (pnt + 1 + 3) 8,
        octetsAt mem (pnt + 1) 3⟩, ⟨by dsimp only; omega, by simp, by simp, by simp, known⟩,
        octetsAt mem (pnt + 1 + psize length.toNat) (more.length - psize length.toNat), ?_⟩
      have octet : BitVec.ofNat 8 (length.toNat - 88 + 88) = length := by
        rw [Nat.sub_add_cancel (by omega), BitVec.ofNat_toNat, BitVec.setWidth_eq]
      simp only [Labelled.encode, octet, List.cons_append]
      exact congrArg (length :: ·) split.symm
    refine ⟨((parse.read pnt 1).readHead (pnt + 1)).fail, ?_, ?_, ?_, rfl, rfl, rfl⟩
    · rw [parseLoop, if_pos (by omega)]
      simp only [first, if_neg short, if_neg type_at]
    · intro pos inside
      by_cases old : pos ∈ parse.touched
      · exact .inl old
      · simp only [Parse.fail, Parse.readHead, Parse.read, List.mem_append, List.mem_range'_1, old,
          false_or] at inside
        omega
    · rintro ⟨_, _, ⟨⟩, bad⟩
      omega

/-- What is read stays read. -/
theorem parseLoop_touched {fuel : Nat} {hand : Labelled → VpnCall} {parse parse' : Parse}
    (run : parseLoop mem lim hand fuel pnt parse = some parse') :
    ∀ pos ∈ parse.touched, pos ∈ parse'.touched := by
  induction fuel generalizing pnt parse with
  | zero => cases run
  | succ fuel ih =>
    have head (pos : Nat) (inside : pos ∈ parse.touched) (start : Nat) :
        pos ∈ ((parse.read pnt 1).readHead start).touched := by
      simp only [Parse.readHead, Parse.read, List.mem_append]
      tauto
    rw [parseLoop] at run
    dsimp only at run
    split at run
    · split at run
      · cases run
        exact fun pos inside => List.mem_append_left _ inside
      · split at run
        · split at run
          · cases run
            intro pos inside
            exact List.mem_append_left _ (List.mem_append_left _ (head pos inside _))
          · intro pos inside
            refine ih run pos ?_
            exact List.mem_append_left _ (List.mem_append_left _ (head pos inside _))
        · cases run
          exact fun pos inside => head pos inside _
    · split at run <;> cases run <;> exact fun pos inside => inside

/-- The loop does not run out of fuel. -/
theorem parseLoop_returns {fuel : Nat} (mem : Memory) (enough : lim - pnt < fuel) :
    ∃ parse', parseLoop mem lim hand fuel pnt parse = some parse' := by
  induction fuel generalizing pnt parse with
  | zero => omega
  | succ fuel ih =>
    rw [parseLoop]
    dsimp only
    split
    · split
      · exact ⟨_, rfl⟩
      · split
        · split
          · exact ⟨_, rfl⟩
          · exact ih _ (by omega)
        · exact ⟨_, rfl⟩
    · split <;> exact ⟨_, rfl⟩

/-- A length that overruns is followed: the label behind it is read. -/
theorem parseLoop_overruns (octets : octetsAt mem pnt (lim - pnt) = length :: more)
    (overruns : Overruns (length :: more)) (enough : lim - pnt < fuel + 1) :
    ∃ parse₁ : Parse, parseLoop mem lim hand (fuel + 1) pnt parse = some parse₁ ∧
      pnt + 1 ∈ parse₁.touched := by
  have size := congrArg List.length octets
  rw [octetsAt_length, List.length_cons] at size
  obtain ⟨first, -⟩ := octetsAt_cons octets
  obtain ⟨_, _, ⟨⟩, long, -⟩ := overruns
  have head : pnt + 1 ∈ ((parse.read pnt 1).readHead (pnt + 1)).touched := by
    simp [Parse.readHead, Parse.read, List.mem_range'_1]
  rw [parseLoop, if_pos (by omega)]
  simp only [first, if_neg (show ¬length.toNat < 88 by omega)]
  split
  · split
    · exact ⟨_, rfl, List.mem_append_left _ (List.mem_append_left _ head)⟩
    · obtain ⟨parse', run⟩ := parseLoop_returns hand
        ((((parse.read pnt 1).readHead (pnt + 1)).readBody (pnt + 1)
          (psize length.toNat - 11)).call (hand ⟨length.toNat - 88,
            octetsAt mem (pnt + 1 + 11) (psize length.toNat - 11), octetsAt mem (pnt + 1 + 3) 8,
            octetsAt mem (pnt + 1) 3⟩)) mem
        (show lim - (pnt + 1 + psize length.toNat) < fuel by omega)
      refine ⟨parse', run, parseLoop_touched run _ ?_⟩
      exact List.mem_append_left _ (List.mem_append_left _ head)
  · exact ⟨_, rfl, head⟩

end Turns

/-! ## A run -/

/-- What a run over routes and octets that begin with none adds to a parse. -/
structure Adds (lim : Nat) (hand : Labelled → VpnCall) (routes : List Labelled) (rest : List U8)
    (parse parse' : Parse) : Prop where
  inside : ∀ pos ∈ parse'.touched, pos ∈ parse.touched ∨ pos < lim
  union : ∀ offset ∈ parse'.written, offset ∈ parse.written ∨ offset < 4
  unread : BadLength rest →
    ∀ pos ∈ parse'.touched, pos ∈ parse.touched ∨ pos ≤ lim - rest.length
  calls : parse'.calls = parse.calls ++ routes.map hand
  ret : parse'.ret = if rest = [] then parse.ret else -1

theorem parseLoop_run {mem : Memory} {lim : Nat} (hand : Labelled → VpnCall)
    {routes : List Labelled} {rest : List U8} (valid : ∀ route ∈ routes, route.Valid)
    (last : ¬BeginsWithRoute rest) (fuel : Nat) {pnt : Nat} (parse : Parse)
    (octets : octetsAt mem pnt (lim - pnt) = routes.flatMap Labelled.encode ++ rest)
    (start : pnt ≤ lim) (enough : lim - pnt < fuel) :
    ∃ parse', parseLoop mem lim hand fuel pnt parse = some parse' ∧
      (Overruns rest → lim - rest.length + 1 ∈ parse'.touched) ∧
      (¬Overruns rest → Adds lim hand routes rest parse parse') := by
  induction routes generalizing pnt fuel parse with
  | nil =>
    rw [List.flatMap_nil, List.nil_append] at octets
    have size := congrArg List.length octets
    rw [octetsAt_length] at size
    obtain ⟨fuel, rfl⟩ : ∃ before, fuel = before + 1 := ⟨fuel - 1, by omega⟩
    cases rest with
    | nil =>
      refine ⟨parse, parseLoop_end fuel hand parse octets start, nofun,
        fun _ => ⟨fun _ => .inl, fun _ => .inl,
        fun _ _ => .inl, (List.append_nil _).symm, rfl⟩⟩
    | cons length more =>
      rw [← size, Nat.sub_sub_self start]
      by_cases overruns : Overruns (length :: more)
      · obtain ⟨parse₁, run, beyond⟩ := parseLoop_overruns fuel hand parse octets overruns enough
        exact ⟨parse₁, run, fun _ => beyond, fun holds => absurd overruns holds⟩
      · obtain ⟨parse₁, run, inside, unread, written, calls, ret⟩ :=
          parseLoop_rejects fuel hand parse octets last overruns
        refine ⟨parse₁, run, fun beyond => absurd beyond overruns, fun _ => ⟨inside,
          fun offset => written ▸ .inl, ?_, calls.trans (List.append_nil _).symm, ret⟩⟩
        intro bad pos reached
        rw [← size, Nat.sub_sub_self start]
        exact unread bad pos reached
  | cons route routes ih =>
    rw [List.flatMap_cons, List.append_assoc] at octets
    have route_valid := valid route List.mem_cons_self
    obtain ⟨fuel, rfl⟩ : ∃ before, fuel = before + 1 := ⟨fuel - 1, by omega⟩
    obtain ⟨parse₁, turn, inside₁, union₁, calls₁, ret₁⟩ :=
      parseLoop_route fuel hand parse route_valid octets
    have size := congrArg List.length octets
    rw [octetsAt_length, List.length_append, List.length_append] at size
    have consumed := route_valid.encode_length
    obtain ⟨-, octets'⟩ := octetsAt_append octets
    rw [Nat.sub_sub] at octets'
    obtain ⟨parse', run, overruns, adds⟩ := ih
      (fun route inside => valid route (List.mem_cons_of_mem _ inside)) fuel parse₁ octets'
      (by omega) (by omega)
    refine ⟨parse', turn.trans run, overruns, fun holds => ?_⟩
    obtain ⟨inside, union, unread, calls, ret⟩ := adds holds
    refine ⟨fun pos reached => ?_, fun offset reached => ?_, fun bad pos reached => ?_, ?_, ?_⟩
    · rcases inside pos reached with before | now
      · exact (inside₁ pos before).imp_right fun _ => by omega
      · exact .inr now
    · exact (union offset reached).elim (union₁ offset) .inr
    · rcases unread bad pos reached with before | now
      · exact (inside₁ pos before).imp_right fun _ => by omega
      · exact .inr now
    · rw [calls, calls₁, List.map_cons, List.append_assoc]
      rfl
    · rw [ret, ret₁]

/-- Every string of octets consists of routes and of octets that begin with none. -/
theorem exists_routes (octets : List U8) :
    ∃ (routes : List Labelled) (rest : List U8), octets = routes.flatMap Labelled.encode ++ rest ∧
      (∀ route ∈ routes, route.Valid) ∧ ¬BeginsWithRoute rest := by
  induction size : octets.length using Nat.strong_induction_on generalizing octets with
  | _ size ih =>
    by_cases begins : BeginsWithRoute octets
    · obtain ⟨route, valid, more, rfl⟩ := begins
      have consumed := valid.encode_length
      rw [List.length_append] at size
      obtain ⟨routes, rest, rfl, all_valid, last⟩ := ih more.length (by omega) more rfl
      refine ⟨route :: routes, rest, ?_, ?_, last⟩
      · rw [List.flatMap_cons, List.append_assoc]
      · intro other inside
        rcases List.mem_cons.mp inside with rfl | inside
        · exact valid
        · exact all_valid other inside
    · exact ⟨[], octets, rfl, nofun, begins⟩

/-! ## Sent and parsed -/

/-- A labelled route of the tables: an IPv4 prefix, a distinguisher and a label. -/
structure VpnRoute where
  p : Prefix
  prd : List U8
  tag : List U8
  ip : p.family = .ip
  prdLength : prd.length = 8
  tagLength : tag.length = 3

/-- What its neighbour should be handed. -/
def VpnRoute.labelled (route : VpnRoute) : Labelled :=
  ⟨route.p.prefixlen, route.p.octets, route.prd, route.tag⟩

/-- The distinguisher has one of the two types. -/
def VpnRoute.KnownType (route : VpnRoute) : Prop :=
  getw route.prd = rdTypeAs ∨ getw route.prd = rdTypeIp

/-- The NLRI in the attribute `bgp_packet_attribute` writes for a route: what
stands behind the families, the next hop and a reserved octet. -/
def sentNlri (attr : Attributes.Attr) (route : VpnRoute) : List U8 :=
  (Announce.packetMpReach attr route.p .mplsVpn route.prd route.tag).flatMap (·.body.drop 17)

theorem sentNlri_eq (attr : Attributes.Attr) (route : VpnRoute) :
    sentNlri attr route = route.labelled.encode := by
  unfold sentNlri Announce.packetMpReach
  rw [route.ip]
  simp only [Announce.sized, List.flatMap_cons, List.flatMap_nil, List.append_nil,
    List.append_assoc]
  simp only [← List.append_assoc, List.take_of_length_le route.tagLength.le,
    List.take_of_length_le route.prdLength.le]
  rfl

theorem VpnRoute.prefixlen_le (route : VpnRoute) : route.labelled.prefixlen ≤ 32 := by
  have fits := route.p.fits
  rw [route.ip] at fits
  exact fits

/-- The route is as the encoding has it exactly when the type is known. -/
theorem VpnRoute.valid_iff (route : VpnRoute) : route.labelled.Valid ↔ route.KnownType :=
  ⟨fun valid => valid.type, fun known =>
    ⟨route.prefixlen_le, octetsOfBits_length _ _, route.prdLength, route.tagLength, known⟩⟩

theorem not_begins_nil : ¬BeginsWithRoute [] := by
  rintro ⟨route, -, more, whole⟩
  cases whole

/-- A route of another type is none to the parser, though its length is fine. -/
theorem VpnRoute.unknown {route : VpnRoute} (unknown : ¬route.KnownType) (more : List U8) :
    ¬BeginsWithRoute (route.labelled.encode ++ more) ∧
      ¬Overruns (route.labelled.encode ++ more) := by
  have bound := route.prefixlen_le
  have octets : route.labelled.octets.length = psize route.labelled.prefixlen :=
    octetsOfBits_length _ _
  constructor
  · rintro ⟨other, valid, rest, whole⟩
    simp only [Labelled.encode, List.cons_append, List.append_assoc, List.cons.injEq] at whole
    obtain ⟨-, whole⟩ := List.append_inj whole.2 (valid.tag.trans route.tagLength.symm)
    obtain ⟨same, -⟩ := List.append_inj whole (valid.prd.trans route.prdLength.symm)
    have known := valid.type
    rw [same] at known
    exact unknown known
  · rintro ⟨length, behind, split, long, bad⟩
    rw [Labelled.encode, List.cons_append] at split
    obtain ⟨rfl, rfl⟩ := List.cons.inj split
    have value : (BitVec.ofNat 8 (route.labelled.prefixlen + 88)).toNat =
        route.labelled.prefixlen + 88 := by
      rw [BitVec.toNat_ofNat]
      omega
    have prd_length : route.labelled.prd.length = 8 := route.prdLength
    have tag_length : route.labelled.tag.length = 3 := route.tagLength
    rw [value] at bad
    simp only [List.length_append, prd_length, tag_length, octets, psize_labelled] at bad
    omega

/-- The first route of another type, if there is one. -/
theorem first_unknown (sent : List VpnRoute) :
    (∀ route ∈ sent, route.KnownType) ∨ ∃ before route after, sent = before ++ route :: after ∧
      (∀ route ∈ before, route.KnownType) ∧ ¬route.KnownType := by
  induction sent with
  | nil => exact .inl nofun
  | cons route sent ih =>
    by_cases known : route.KnownType
    · rcases ih with all | ⟨before, unknown, after, rfl, earlier, other⟩
      · exact .inl (List.forall_mem_cons.mpr ⟨known, all⟩)
      · exact .inr ⟨route :: before, unknown, after, rfl,
          List.forall_mem_cons.mpr ⟨known, earlier⟩, other⟩
    · exact .inr ⟨[], route, sent, rfl, nofun, known⟩

section Results

variable (attr : Bool) (mem : Memory) (length : Nat)

/-- What the parser calls for a route. -/
def handler (attr : Bool) : Labelled → VpnCall := if attr then .update else .withdraw

theorem parse_run {routes : List Labelled} {rest : List U8} (valid : ∀ route ∈ routes, route.Valid)
    (last : ¬BeginsWithRoute rest)
    (octets : octetsAt mem 0 length = routes.flatMap Labelled.encode ++ rest) :
    ∃ parse, bgpNlriParseVpnv4 true attr mem length = some parse ∧
      (Overruns rest → length - rest.length + 1 ∈ parse.touched) ∧
      (¬Overruns rest → Faithful length (handler attr) routes rest parse) := by
  obtain ⟨parse, run, overruns, adds⟩ := parseLoop_run (handler attr) valid last (length + 1) {}
    octets (Nat.zero_le _) (Nat.lt_succ_self _)
  refine ⟨parse, run, overruns, fun holds => ?_⟩
  obtain ⟨inside, union, unread, calls, ret⟩ := adds holds
  refine ⟨fun pos reached => (inside pos reached).resolve_left nofun, fun offset reached => ?_,
    fun bad pos reached => (unread bad pos reached).resolve_left nofun, calls, ret⟩
  exact ((union offset reached).resolve_left nofun).trans (by decide)

/-- The NLRI consists of routes and of octets that begin with none. The parse is
faithful to it exactly when these do not begin with a length of 88 bits or more
that is above 120 or leads past the end. Labelled routes that were sent come out
again as they are, provided all distinguishers have one of the two types. And
nothing happens before the session is established. -/
theorem bgpNlriParseVpnv4_faithful :
    (∃ routes rest parse, octetsAt mem 0 length = routes.flatMap Labelled.encode ++ rest ∧
      (∀ route ∈ routes, route.Valid) ∧ ¬BeginsWithRoute rest ∧
      bgpNlriParseVpnv4 true attr mem length = some parse ∧
      (Faithful length (handler attr) routes rest parse ↔ ¬Overruns rest)) ∧
    (∀ (sender : Attributes.Attr) (sent : List VpnRoute),
      octetsAt mem 0 length = sent.flatMap (sentNlri sender) →
      ∃ parse, bgpNlriParseVpnv4 true attr mem length = some parse ∧
        (parse.calls = sent.map (fun route => handler attr route.labelled) ∧ parse.ret = 0 ↔
          ∀ route ∈ sent, route.KnownType)) ∧
    bgpNlriParseVpnv4 false attr mem length = some {} := by
  refine ⟨?_, fun sender sent octets => ?_, rfl⟩
  · obtain ⟨routes, rest, octets, valid, last⟩ := exists_routes (octetsAt mem 0 length)
    obtain ⟨parse, run, overruns, faithful⟩ := parse_run attr mem length valid last octets
    refine ⟨routes, rest, parse, octets, valid, last, run, fun safe beyond => ?_, faithful⟩
    obtain ⟨octet, more, split, long, bad⟩ := beyond
    have read := overruns ⟨octet, more, split, long, bad⟩
    have reached := safe.unread ⟨octet, more, split, bad.elim (fun long => .inr (.inl long))
      fun short => .inr (.inr short)⟩ _ read
    omega
  · have encoded : sent.flatMap (sentNlri sender) =
        (sent.map VpnRoute.labelled).flatMap Labelled.encode := by
      rw [List.flatMap_map]
      exact List.flatMap_congr fun route _ => sentNlri_eq sender route
    rw [encoded] at octets
    rcases first_unknown sent with known | ⟨before, route, after, rfl, known, unknown⟩
    · have valid : ∀ route ∈ sent.map VpnRoute.labelled, route.Valid := by
        intro route inside
        obtain ⟨source, there, rfl⟩ := List.mem_map.mp inside
        exact source.valid_iff.mpr (known source there)
      obtain ⟨parse, run, -, faithful⟩ := parse_run attr mem length valid not_begins_nil
        (octets.trans (List.append_nil _).symm)
      obtain ⟨-, -, -, calls, ret⟩ := faithful nofun
      refine ⟨parse, run, fun _ => known, fun _ => ⟨?_, ret⟩⟩
      rw [calls, List.map_map]
      rfl
    · have valid : ∀ route ∈ before.map VpnRoute.labelled, route.Valid := by
        intro route inside
        obtain ⟨source, there, rfl⟩ := List.mem_map.mp inside
        exact source.valid_iff.mpr (known source there)
      obtain ⟨last, holds⟩ := route.unknown unknown
        ((after.map VpnRoute.labelled).flatMap Labelled.encode)
      obtain ⟨parse, run, -, faithful⟩ := parse_run attr mem length valid last (by
        rw [octets, List.map_append, List.flatMap_append, List.map_cons, List.flatMap_cons])
      obtain ⟨-, -, -, -, ret⟩ := faithful holds
      refine ⟨parse, run, fun fine => ?_, fun all => absurd (all route (by simp)) unknown⟩
      rw [ret, if_neg (by simp [Labelled.encode])] at fine
      exact absurd fine.2 (by decide)

/-- Memory that holds 10.0.0.0/8 with distinguisher 0:100:1 and a label, and then
other octets. -/
def sampleMemory : Memory := fun pos =>
  [96, 0, 1, 1, 0, 0, 0, 100, 0, 0, 0, 1, 10].getD pos 0x78

/-- The route is sent and comes out again. -/
theorem bgpNlriParseVpnv4_sample :
    ∃ parse, bgpNlriParseVpnv4 true true sampleMemory 13 = some parse ∧
      parse.calls = [.update ⟨8, [10], [0, 0, 0, 100, 0, 0, 0, 1], [0, 1, 1]⟩] ∧ parse.ret = 0 := by
  have sender : Attributes.Attr := Attributes.Attr.zero
  obtain ⟨parse, run, faithful⟩ := (bgpNlriParseVpnv4_faithful true sampleMemory 13).2.1 sender
    [⟨⟨.ip, [false, false, false, false, true, false, true, false], by decide⟩,
      [0, 0, 0, 100, 0, 0, 0, 1], [0, 1, 1], rfl, rfl, rfl⟩]
    (by rw [List.flatMap_singleton, sentNlri_eq]; decide +kernel)
  obtain ⟨calls, ret⟩ := faithful.mpr fun route inside => by
    cases List.mem_singleton.mp inside
    exact .inl (by decide)
  exact ⟨parse, run, calls, ret⟩

/-- A single octet with the length of a route makes the parser read behind it,
and a length of 255 makes it write behind the union. -/
theorem bgpNlriParseVpnv4_overruns :
    (∃ parse, bgpNlriParseVpnv4 true true sampleMemory 1 = some parse ∧
      ∃ pos ∈ parse.touched, 1 ≤ pos) ∧
    ∃ parse, bgpNlriParseVpnv4 true true
        (fun pos => ([255, 0, 0, 1, 0, 0] : List U8).getD pos 0) 33 = some parse ∧
      ∃ offset ∈ parse.written, prefixUnionSize ≤ offset := by
  refine ⟨⟨_, rfl, 1, by decide, le_rfl⟩, ⟨_, rfl, 20, by decide +kernel, by decide⟩⟩

end Results

end Bgpd.VpnParse
