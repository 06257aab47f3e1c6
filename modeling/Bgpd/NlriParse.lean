import Bgpd.VpnParse
import Mathlib.Data.List.TakeWhile

/-!
# Prefixes on the wire

`bgp_nlri_sanity_check` and `bgp_nlri_parse` go over the same octets, each with a length
arithmetic of its own. The check decides whether they are a row of prefixes; the parser
hands the prefixes on. It leaves out a link-local address and goes on behind it, while a
multicast address ends it, with the prefixes before it handed on and those behind it lost.
-/

namespace Bgpd.NlriParse

open Octets Prefixes
open VpnParse (Memory octetsAt octetsAt_length octetsAt_append octetsAt_cons)

/-! ## The encoding -/

/-- `struct prefix`, with all octets of its address. -/
structure StructPrefix where
  prefixlen : Nat
  address : List U8
  deriving DecidableEq, Repr

/-- The octets of the union. -/
def addressSize : Nat := 16

/-- A prefix of the family, its host bits as they may be. -/
structure StructPrefix.Fits (afi : Afi) (p : StructPrefix) : Prop where
  prefixlen : p.prefixlen ≤ afi.bits
  address : p.address.length = addressSize

instance (afi : Afi) (p : StructPrefix) : Decidable (p.Fits afi) :=
  decidable_of_iff (p.prefixlen ≤ afi.bits ∧ p.address.length = addressSize)
    ⟨fun fits => ⟨fits.1, fits.2⟩, fun fits => ⟨fits.prefixlen, fits.address⟩⟩

/-- What `stream_put_prefix` writes. -/
def StructPrefix.encode (p : StructPrefix) : List U8 :=
  BitVec.ofNat 8 p.prefixlen :: p.address.take (psize p.prefixlen)

/-- What a copy of the octets into a cleared structure leaves. -/
def fetch (prefixlen : Nat) (octets : List U8) : StructPrefix :=
  ⟨prefixlen, octets ++ List.replicate (addressSize - octets.length) 0⟩

/-- The prefix with what is sent of it: the host bits of its last octet as they are, those
behind it cleared. -/
def StructPrefix.sent (p : StructPrefix) : StructPrefix :=
  fetch p.prefixlen (p.address.take (psize p.prefixlen))

/-- A stream that is written. -/
structure Stream where
  size : Nat
  data : List U8 := []
  deriving DecidableEq, Repr

/-- `stream_put_prefix`. It looks for room for the address only; where there is none for the
length too, it writes behind the data, and without room for the address it aborts. -/
def streamPutPrefix (s : Stream) (p : StructPrefix) : Option Stream :=
  if s.size - s.data.length < psize p.prefixlen then none
  else if s.size < s.data.length + 1 + psize p.prefixlen then none
  else some { s with data := s.data ++ p.encode }

/-- The octets are those of these prefixes, as the parser reads them. -/
structure Encodes (afi : Afi) (ps : List StructPrefix) (octets : List U8) : Prop where
  fits : ∀ p ∈ ps, p.Fits afi
  cleared : ∀ p ∈ ps, p.sent = p
  octets : octets = ps.flatMap StructPrefix.encode

/-! ## The parser -/

/-- `IN_CLASSD`. -/
def inClassd (p : StructPrefix) : Bool := getl p.address &&& 0xf0000000 = 0xe0000000

/-- The prefix that ends the parse. -/
def multicastAddress (afi : Afi) (safi : Safi) (p : StructPrefix) : Bool :=
  afi = .ip ∧ safi = .unicast ∧ inClassd p

/-- The prefix that is ignored. -/
def linkLocal (afi : Afi) (safi : Safi) (p : StructPrefix) : Bool :=
  afi = .ip6 ∧ safi = .unicast ∧ AttrParse.in6IsAddrLinklocal (AttrParse.getIpv6 p.address)

/-- A prefix that is not semantically incorrect. -/
def correct (afi : Afi) (safi : Safi) (p : StructPrefix) : Bool :=
  !multicastAddress afi safi p && !linkLocal afi safi p

/-- A call of `bgp_update` or `bgp_withdraw`. -/
inductive Call
  | update (p : StructPrefix)
  | withdraw (p : StructPrefix)
  deriving DecidableEq

/-- What the function has done, and what it returns. -/
structure Parse where
  touched : List Nat := []
  calls : List Call := []
  ret : Int := 0
  deriving DecidableEq

namespace Parse

/-- Octets of a range are read. -/
def read (parse : Parse) (pos count : Nat) : Parse :=
  { parse with touched := parse.touched ++ List.range' pos count }

/-- `return -1`. -/
def fail (parse : Parse) : Parse := { parse with ret := -1 }

def call (parse : Parse) (call : Call) : Parse := { parse with calls := parse.calls ++ [call] }

end Parse

section Parser

variable (mem : Memory) (lim : Nat) (afi : Afi) (safi : Safi) (hand : StructPrefix → Call)
  (returned : List Call → Int)

/-- The loop of `bgp_nlri_parse` and the check behind it. What a call returns may depend on
all calls up to it. -/
def parseLoop : Nat → Nat → Parse → Option Parse
  | 0, _, _ => none
  | fuel + 1, pnt, parse =>
    if pnt < lim then
      let prefixlen := (mem pnt).toNat
      let parse := parse.read pnt 1
      let pnt := pnt + 1
      if (afi = .ip ∧ 32 < prefixlen) ∨ (afi = .ip6 ∧ 128 < prefixlen) then some parse.fail
      else if lim < pnt + psize prefixlen then some parse.fail
      else
        let parse := parse.read pnt (psize prefixlen)
        let p := fetch prefixlen (octetsAt mem pnt (psize prefixlen))
        if multicastAddress afi safi p then some parse.fail
        else if linkLocal afi safi p then parseLoop fuel (pnt + psize prefixlen) parse
        else
          let parse := parse.call (hand p)
          if returned parse.calls < 0 then some parse.fail
          else parseLoop fuel (pnt + psize prefixlen) parse
    else if pnt ≠ lim then some parse.fail
    else some parse

end Parser

/-- What is called for a prefix, with attributes and without. -/
def handler (attr : Bool) : StructPrefix → Call := if attr then .update else .withdraw

/-- `bgp_nlri_parse`. -/
def bgpNlriParse (returned : List Call → Int) (established attr : Bool) (mem : Memory)
    (afi : Afi) (safi : Safi) (length : Nat) : Option Parse :=
  if !established then some {}
  else parseLoop mem length afi safi (handler attr) returned (length + 1) 0 {}

/-- `bgp_nlri_sanity_check` of the octets at a pointer. -/
def bgpNlriSanityCheck (afi : Afi) (mem : Memory) (length : Nat) : Bool :=
  AttrParse.bgpNlriSanityCheck afi.code (octetsAt mem 0 length)

/-! ## Encoding and decoding -/

variable {prefixlen : Nat}

theorem psize_le {afi : Afi} (fits : prefixlen ≤ afi.bits) : psize prefixlen ≤ addressSize := by
  have bits : afi.bits ≤ 128 := by cases afi <;> decide
  simp only [psize, addressSize]
  omega

variable {octets : List U8}

theorem fetch_fits {afi : Afi} (fits : prefixlen ≤ afi.bits)
    (size : octets.length = psize prefixlen) : (fetch prefixlen octets).Fits afi := by
  constructor
  · exact fits
  · have small := psize_le fits
    simp only [fetch, List.length_append, List.length_replicate]
    omega

theorem fetch_encode (size : octets.length = psize prefixlen) :
    (fetch prefixlen octets).encode = BitVec.ofNat 8 prefixlen :: octets := by
  simp [StructPrefix.encode, fetch, ← size]

theorem fetch_sent (size : octets.length = psize prefixlen) :
    (fetch prefixlen octets).sent = fetch prefixlen octets := by
  simp [StructPrefix.sent, fetch, ← size]

section Encoding

variable {afi : Afi} {p : StructPrefix}

theorem StructPrefix.Fits.take_length (fits : p.Fits afi) :
    (p.address.take (psize p.prefixlen)).length = psize p.prefixlen := by
  rw [List.length_take, fits.address]
  exact Nat.min_eq_left (psize_le fits.prefixlen)

theorem StructPrefix.Fits.toNat (fits : p.Fits afi) :
    (BitVec.ofNat 8 p.prefixlen).toNat = p.prefixlen := by
  have bits : afi.bits ≤ 128 := by cases afi <;> decide
  have short := fits.prefixlen
  rw [BitVec.toNat_ofNat]
  omega

theorem StructPrefix.Fits.encode_length (fits : p.Fits afi) :
    p.encode.length = 1 + psize p.prefixlen := by
  rw [StructPrefix.encode, List.length_cons, fits.take_length, Nat.add_comm]

theorem StructPrefix.Fits.sent (fits : p.Fits afi) : p.sent.Fits afi :=
  fetch_fits fits.prefixlen fits.take_length

theorem StructPrefix.Fits.sent_encode (fits : p.Fits afi) : p.sent.encode = p.encode :=
  fetch_encode fits.take_length

theorem StructPrefix.Fits.sent_sent (fits : p.Fits afi) : p.sent.sent = p.sent :=
  fetch_sent fits.take_length

end Encoding

namespace Encodes

variable {afi : Afi}

theorem nil : Encodes afi [] [] := ⟨nofun, nofun, rfl⟩

variable {ps : List StructPrefix} {octets : List U8}
variable {p : StructPrefix}

theorem cons (fits : p.Fits afi) (cleared : p.sent = p) (later : Encodes afi ps octets) :
    Encodes afi (p :: ps) (p.encode ++ octets) := by
  constructor
  · exact List.forall_mem_cons.mpr ⟨fits, later.fits⟩
  · exact List.forall_mem_cons.mpr ⟨cleared, later.cleared⟩
  · rw [later.octets, List.flatMap_cons]

/-- The first prefix and those behind it. -/
theorem uncons (encodes : Encodes afi (p :: ps) octets) :
    p.Fits afi ∧ p.sent = p ∧ octets = p.encode ++ ps.flatMap StructPrefix.encode ∧
      Encodes afi ps (ps.flatMap StructPrefix.encode) := by
  have ⟨fits, laterFits⟩ := List.forall_mem_cons.mp encodes.fits
  have ⟨cleared, laterCleared⟩ := List.forall_mem_cons.mp encodes.cleared
  exact ⟨fits, cleared, encodes.octets, laterFits, laterCleared, rfl⟩

/-- Octets are those of one list of prefixes at most. -/
theorem unique {qs : List StructPrefix} (left : Encodes afi ps octets)
    (right : Encodes afi qs octets) : qs = ps := by
  induction ps generalizing qs octets with
  | nil =>
    cases qs with
    | nil => rfl
    | cons q qs => exact absurd (right.octets.symm.trans left.octets) (List.cons_ne_nil _ _)
  | cons p ps ih =>
    cases qs with
    | nil => exact absurd (left.octets.symm.trans right.octets) (List.cons_ne_nil _ _)
    | cons q qs =>
      obtain ⟨pFits, pCleared, whole, laterLeft⟩ := left.uncons
      obtain ⟨qFits, qCleared, whole', laterRight⟩ := right.uncons
      have ⟨lengths, addresses⟩ := List.cons.inj (whole.symm.trans whole')
      have prefixlen : p.prefixlen = q.prefixlen := by
        rw [← pFits.toNat, ← qFits.toNat, lengths]
      have ⟨taken, rest⟩ := List.append_inj addresses
        (pFits.take_length.trans ((congrArg psize prefixlen).trans qFits.take_length.symm))
      have same : q = p := by
        rw [← pCleared, ← qCleared, StructPrefix.sent, StructPrefix.sent, taken, prefixlen]
      rw [← rest] at laterRight
      have behind : qs = ps := ih laterLeft laterRight
      rw [same, behind]

/-- The octets of prefixes are those that the parser reads. -/
theorem of_sent (fits : ∀ p ∈ ps, p.Fits afi) :
    Encodes afi (ps.map StructPrefix.sent) (ps.flatMap StructPrefix.encode) := by
  induction ps with
  | nil => exact nil
  | cons p ps ih =>
    have ⟨first, later⟩ := List.forall_mem_cons.mp fits
    rw [List.map_cons, List.flatMap_cons, ← first.sent_encode]
    exact cons first.sent first.sent_sent (ih later)

end Encodes

/-! ## The check -/

section Check

variable {afi : Afi}

/-- The check for the length, by the family. -/
theorem too_long_iff :
    ((afi.code = 1 ∧ prefixlen > 32) ∨ (afi.code = 2 ∧ prefixlen > 128)) ↔
      afi.bits < prefixlen := by
  cases afi <;> simp [Afi.code, Afi.bits]

variable {fuel : Nat}

/-- Octets that pass are those of prefixes. -/
theorem encodes_of_sanity (sane : AttrParse.nlriSanityLoop afi.code fuel octets = true) :
    ∃ ps, Encodes afi ps octets := by
  induction fuel generalizing octets with
  | zero =>
    cases octets with
    | nil => exact ⟨[], .nil⟩
    | cons octet more => contradiction
  | succ fuel ih =>
    cases octets with
    | nil => exact ⟨[], .nil⟩
    | cons octet more =>
      rw [AttrParse.nlriSanityLoop] at sane
      split at sane
      · contradiction
      rename_i short
      split at sane
      · contradiction
      rename_i room
      have fits : octet.toNat ≤ afi.bits := Nat.not_lt.mp (mt too_long_iff.mpr short)
      have size : (more.take (psize octet.toNat)).length = psize octet.toNat := by
        rw [List.length_take]
        omega
      obtain ⟨ps, later⟩ := ih sane
      have encodes := later.cons (fetch_fits fits size) (fetch_sent size)
      rw [fetch_encode size, BitVec.ofNat_toNat, BitVec.setWidth_eq, List.cons_append,
        List.take_append_drop] at encodes
      exact ⟨_, encodes⟩

/-- Octets of prefixes pass. -/
theorem sanity_of_encodes {ps : List StructPrefix} (encodes : Encodes afi ps octets)
    (enough : octets.length ≤ fuel) : AttrParse.nlriSanityLoop afi.code fuel octets = true := by
  induction ps generalizing fuel octets with
  | nil =>
    obtain rfl := encodes.octets
    cases fuel <;> rfl
  | cons p ps ih =>
    obtain ⟨fits, -, rfl, later⟩ := encodes.uncons
    rw [List.length_append, fits.encode_length] at enough
    obtain ⟨fuel, rfl⟩ := Nat.exists_eq_add_of_le' (show 1 ≤ fuel by omega)
    rw [StructPrefix.encode, List.cons_append, AttrParse.nlriSanityLoop, fits.toNat,
      if_neg (mt too_long_iff.mp (Nat.not_lt.mpr fits.prefixlen)), List.length_append,
      fits.take_length, if_neg (by omega), List.drop_left' fits.take_length]
    exact ih later (by omega)

theorem bgpNlriSanityCheck_iff {mem : Memory} {length : Nat} :
    bgpNlriSanityCheck afi mem length = true ↔ ∃ ps, Encodes afi ps (octetsAt mem 0 length) := by
  constructor
  · exact encodes_of_sanity
  · rintro ⟨ps, encodes⟩
    exact sanity_of_encodes encodes le_rfl

end Check

/-! ## The parser over an encoding -/

section Loop

variable {mem : Memory} {lim : Nat} {afi : Afi} {safi : Safi} {hand : StructPrefix → Call}
  {returned : List Call → Int}

/-- The prefixes that are handed on: those before the one that ends the parse, without the
ignored ones. -/
def handedOn (afi : Afi) (safi : Safi) (ps : List StructPrefix) : List StructPrefix :=
  (ps.takeWhile fun p => !multicastAddress afi safi p).filter fun p => !linkLocal afi safi p

/-- What a turn reads. -/
def Parse.readPrefix (parse : Parse) (pnt size : Nat) : Parse :=
  (parse.read pnt 1).read (pnt + 1) size

variable {parse : Parse} {pnt : Nat}

theorem Parse.mem_readPrefix {size pos : Nat} (there : pos ∈ (parse.readPrefix pnt size).touched) :
    pos ∈ parse.touched ∨ pos < pnt + 1 + size := by
  simp only [readPrefix, read, List.mem_append, List.mem_range'_1] at there
  rcases there with (old | first) | address
  · exact Or.inl old
  · exact Or.inr (by omega)
  · exact Or.inr (by omega)

variable {fuel : Nat}

/-- The turn at a prefix. -/
theorem parseLoop_entry {p : StructPrefix} {more : List U8} (fits : p.Fits afi)
    (cleared : p.sent = p) (octets : octetsAt mem pnt (lim - pnt) = p.encode ++ more) :
    parseLoop mem lim afi safi hand returned (fuel + 1) pnt parse =
      let parse := parse.readPrefix pnt (psize p.prefixlen)
      let next := pnt + p.encode.length
      if multicastAddress afi safi p then some parse.fail
      else if linkLocal afi safi p then parseLoop mem lim afi safi hand returned fuel next parse
      else if returned (parse.calls ++ [hand p]) < 0 then some (parse.call (hand p)).fail
      else parseLoop mem lim afi safi hand returned fuel next (parse.call (hand p)) := by
  have size := congrArg List.length octets
  rw [octetsAt_length, List.length_append, fits.encode_length] at size
  obtain ⟨whole, -⟩ := octetsAt_append octets
  rw [fits.encode_length] at whole
  obtain ⟨first, behind⟩ := octetsAt_cons whole
  rw [Nat.add_sub_cancel_left] at behind
  have short : ¬((afi = .ip ∧ 32 < p.prefixlen) ∨ (afi = .ip6 ∧ 128 < p.prefixlen)) := by
    have limit := fits.prefixlen
    rintro (⟨rfl, long⟩ | ⟨rfl, long⟩)
    · exact absurd limit (Nat.not_le.mpr long)
    · exact absurd limit (Nat.not_le.mpr long)
  have fetched : fetch p.prefixlen (octetsAt mem (pnt + 1) (psize p.prefixlen)) = p := by
    rw [behind]
    exact cleared
  rw [parseLoop, if_pos (by omega)]
  simp only [first, fits.toNat, if_neg short, fetched, fits.encode_length, ← Nat.add_assoc]
  rw [if_neg (by omega)]
  rfl

/-- Over the octets of prefixes the parser stays inside, and hands on what it is to. -/
theorem parseLoop_run (fine : ∀ calls, 0 ≤ returned calls) {ps : List StructPrefix} (parse : Parse)
    (encodes : Encodes afi ps (octetsAt mem pnt (lim - pnt))) (start : pnt ≤ lim)
    (enough : lim - pnt < fuel) :
    ∃ parse', parseLoop mem lim afi safi hand returned fuel pnt parse = some parse' ∧
      parse'.calls = parse.calls ++ (handedOn afi safi ps).map hand ∧
      ∀ pos ∈ parse'.touched, pos ∈ parse.touched ∨ pos < lim := by
  induction ps generalizing fuel pnt parse with
  | nil =>
    have size := congrArg List.length encodes.octets
    rw [octetsAt_length, List.flatMap_nil, List.length_nil] at size
    obtain ⟨fuel, rfl⟩ := Nat.exists_eq_add_of_le' (show 1 ≤ fuel by omega)
    refine ⟨parse, ?_, (List.append_nil _).symm, fun pos old => Or.inl old⟩
    rw [parseLoop, if_neg (by omega), if_neg (by omega)]
  | cons p ps ih =>
    obtain ⟨fits, cleared, octets, later⟩ := encodes.uncons
    have size := congrArg List.length octets
    rw [octetsAt_length, List.length_append, fits.encode_length] at size
    obtain ⟨-, rest⟩ := octetsAt_append octets
    rw [← rest, Nat.sub_sub] at later
    obtain ⟨fuel, rfl⟩ := Nat.exists_eq_add_of_le' (show 1 ≤ fuel by omega)
    have inside : ∀ pos ∈ (parse.readPrefix pnt (psize p.prefixlen)).touched,
        pos ∈ parse.touched ∨ pos < lim := fun pos there =>
      (Parse.mem_readPrefix there).imp_right fun near => by omega
    have next : pnt + p.encode.length ≤ lim := by rw [fits.encode_length]; omega
    have left : lim - (pnt + p.encode.length) < fuel := by rw [fits.encode_length]; omega
    rw [parseLoop_entry fits cleared octets]
    simp only [handedOn, List.takeWhile_cons]
    by_cases ends : multicastAddress afi safi p = true
    · refine ⟨_, if_pos ends, ?_, inside⟩
      simp [ends, Parse.fail, Parse.readPrefix, Parse.read]
    rw [if_neg ends]
    simp only [Bool.not_eq_true] at ends
    by_cases ignored : linkLocal afi safi p = true
    · rw [if_pos ignored]
      obtain ⟨parse', run, calls, touched⟩ :=
        ih (parse.readPrefix pnt (psize p.prefixlen)) later next left
      refine ⟨parse', run, ?_, fun pos there => ?_⟩
      · rw [calls]
        simp [ends, ignored, handedOn, Parse.readPrefix, Parse.read]
      · exact (touched pos there).elim (inside pos) Or.inr
    · rw [if_neg ignored, if_neg (Int.not_lt.mpr (fine _))]
      obtain ⟨parse', run, calls, touched⟩ :=
        ih ((parse.readPrefix pnt (psize p.prefixlen)).call (hand p)) later next left
      refine ⟨parse', run, ?_, fun pos there => ?_⟩
      · rw [calls]
        simp [ends, ignored, handedOn, Parse.readPrefix, Parse.read, Parse.call]
      · exact (touched pos there).elim (inside pos) Or.inr

end Loop

/-! ## Check and parser -/

/-- Behind the first multicast address there are only such. -/
def MulticastLast (afi : Afi) (safi : Safi) (ps : List StructPrefix) : Prop :=
  ∀ p ∈ ps.dropWhile fun p => !multicastAddress afi safi p, multicastAddress afi safi p = true

instance (afi : Afi) (safi : Safi) (ps : List StructPrefix) :
    Decidable (MulticastLast afi safi ps) :=
  inferInstanceAs (Decidable (∀ p ∈ ps.dropWhile _, _))

/-- The parse reads inside the octets, and hands on each correct prefix once, in order. -/
def Handled (returned : List Call → Int) (attr : Bool) (mem : Memory) (afi : Afi) (safi : Safi)
    (length : Nat) (ps : List StructPrefix) : Prop :=
  ∃ parse, bgpNlriParse returned true attr mem afi safi length = some parse ∧
    (∀ pos ∈ parse.touched, pos < length) ∧
    parse.calls = (ps.filter (correct afi safi)).map (handler attr)

theorem handler_injective (attr : Bool) : Function.Injective (handler attr) := by
  intro p q same
  cases attr
  · exact Call.withdraw.inj same
  · exact Call.update.inj same

section Agreement

variable {afi : Afi} {safi : Safi}

/-- No prefix is both: the two tests are for different families. -/
theorem linkLocal_of_multicast {p : StructPrefix} (ends : multicastAddress afi safi p = true)
    (q : StructPrefix) : linkLocal afi safi q = false := by
  cases afi
  · simp [linkLocal]
  · simp [multicastAddress] at ends

theorem filter_correct_takeWhile (ps : List StructPrefix) :
    (ps.takeWhile fun p => !multicastAddress afi safi p).filter (correct afi safi) =
      handedOn afi safi ps := by
  apply List.filter_congr
  intro p taken
  have before := List.mem_takeWhile_imp taken
  simp only [Bool.not_eq_true'] at before
  simp [correct, before]

theorem handedOn_eq_iff (ps : List StructPrefix) :
    handedOn afi safi ps = ps.filter (correct afi safi) ↔ MulticastLast afi safi ps := by
  have split : ps.filter (correct afi safi) = handedOn afi safi ps ++
      (ps.dropWhile fun p => !multicastAddress afi safi p).filter (correct afi safi) := by
    rw [← filter_correct_takeWhile, ← List.filter_append, List.takeWhile_append_dropWhile]
  rw [split, List.self_eq_append_right, List.filter_eq_nil_iff]
  constructor
  · intro lost p behind
    -- the first prefix behind is a multicast address, so the family has no link-local ones
    cases rest : ps.dropWhile fun p => !multicastAddress afi safi p with
    | nil => rw [rest] at behind; contradiction
    | cons first more =>
      have ends : multicastAddress afi safi first = true := by
        have head := List.head?_dropWhile_not (fun p => !multicastAddress afi safi p) ps
        simpa [rest] using head
      have wrong := lost p behind
      simpa [correct, linkLocal_of_multicast ends] using wrong
  · intro last p behind
    simp [correct, last p behind]

end Agreement

/-- Room for all prefixes lets a stream take them. -/
theorem streamPutPrefix_all {afi : Afi} {ps : List StructPrefix} {s : Stream}
    (fits : ∀ p ∈ ps, p.Fits afi)
    (room : s.data.length + (ps.flatMap StructPrefix.encode).length ≤ s.size) :
    ps.foldlM streamPutPrefix s =
      some { s with data := s.data ++ ps.flatMap StructPrefix.encode } := by
  induction ps generalizing s with
  | nil => simp
  | cons p ps ih =>
    have ⟨first, later⟩ := List.forall_mem_cons.mp fits
    rw [List.flatMap_cons, List.length_append, first.encode_length] at room
    rw [List.foldlM_cons, streamPutPrefix, if_neg (by omega), if_neg (by omega),
      Option.bind_eq_bind, Option.bind_some, ih later]
    · simp
    · rw [List.length_append, first.encode_length]
      simp only
      omega

/-- Octets that pass the check are those of one list of prefixes, and the parser hands these
on as it should exactly where no other prefix stands behind a multicast address. And all
prefixes that are put into a stream pass the check, and are read as they were sent. -/
theorem check_parser_agree (afi : Afi) (safi : Safi) :
    (∀ (mem : Memory) (length : Nat) (attr : Bool) (returned : List Call → Int),
      bgpNlriSanityCheck afi mem length = true → (∀ calls, 0 ≤ returned calls) →
      ∃ ps, Encodes afi ps (octetsAt mem 0 length) ∧
        (∀ qs, Encodes afi qs (octetsAt mem 0 length) → qs = ps) ∧
        (Handled returned attr mem afi safi length ps ↔ MulticastLast afi safi ps)) ∧
    ∀ (ps : List StructPrefix) (size : Nat), (∀ p ∈ ps, p.Fits afi) →
      (ps.flatMap StructPrefix.encode).length ≤ size →
      ∃ s, ps.foldlM streamPutPrefix { size } = some s ∧ s.data = ps.flatMap StructPrefix.encode ∧
        ∀ mem : Memory, octetsAt mem 0 s.data.length = s.data →
          bgpNlriSanityCheck afi mem s.data.length = true ∧
          Encodes afi (ps.map StructPrefix.sent) (octetsAt mem 0 s.data.length) := by
  constructor
  · intro mem length attr returned sane fine
    obtain ⟨ps, encodes⟩ := bgpNlriSanityCheck_iff.mp sane
    obtain ⟨parse, run, calls, touched⟩ :
        ∃ parse, bgpNlriParse returned true attr mem afi safi length = some parse ∧
          parse.calls = [] ++ (handedOn afi safi ps).map (handler attr) ∧
          ∀ pos ∈ parse.touched, pos ∈ [] ∨ pos < length :=
      parseLoop_run fine {} encodes (Nat.zero_le length) (Nat.lt_succ_self length)
    rw [List.nil_append] at calls
    refine ⟨ps, encodes, fun qs other => encodes.unique other, ?_⟩
    rw [← handedOn_eq_iff]
    constructor
    · rintro ⟨parse', run', -, calls'⟩
      obtain rfl : parse = parse' := Option.some.inj (run.symm.trans run')
      exact List.map_injective_iff.mpr (handler_injective attr) (calls.symm.trans calls')
    · intro all
      refine ⟨parse, run, fun pos there => ?_, all ▸ calls⟩
      exact (touched pos there).resolve_left List.not_mem_nil
  · intro ps size fits room
    refine ⟨⟨size, ps.flatMap StructPrefix.encode⟩, ?_, rfl, fun mem octets => ?_⟩
    · simpa using streamPutPrefix_all (s := { size }) fits (by simpa using room)
    simp only at octets ⊢
    have encodes := Encodes.of_sent fits
    rw [← octets] at encodes
    exact ⟨bgpNlriSanityCheck_iff.mpr ⟨_, encodes⟩, encodes⟩

/-- The octets of 10.0.0.0/8, of 224.0.0.0/4, and of the former again. -/
def aroundMulticast : Memory := fun pos => [8, 10, 4, 0xe0, 8, 10].getD pos 0

/-- The first two are handled as they should be. -/
theorem check_parser_agree_two :
    ∃ ps, Encodes .ip ps (octetsAt aroundMulticast 0 4) ∧
      Handled (fun _ => 0) true aroundMulticast .ip .unicast 4 ps := by
  obtain ⟨ps, encodes, -, handled⟩ := (check_parser_agree .ip .unicast).1 aroundMulticast 4 true
    (fun _ => 0) (by decide +kernel) (fun _ => le_rfl)
  have known : Encodes .ip [fetch 8 [10], fetch 4 [0xe0]] (octetsAt aroundMulticast 0 4) :=
    ⟨by decide, by decide, by decide⟩
  have same := known.unique encodes
  refine ⟨ps, encodes, handled.mpr ?_⟩
  rw [same]
  decide +kernel

/-- With the third, what stands behind the multicast address is lost. -/
theorem behind_multicast_lost :
    bgpNlriSanityCheck .ip aroundMulticast 6 = true ∧
      ∀ ps, Encodes .ip ps (octetsAt aroundMulticast 0 6) →
        ¬ Handled (fun _ => 0) true aroundMulticast .ip .unicast 6 ps := by
  refine ⟨by decide +kernel, fun ps encodes => ?_⟩
  have known : Encodes .ip [fetch 8 [10], fetch 4 [0xe0], fetch 8 [10]]
      (octetsAt aroundMulticast 0 6) := ⟨by decide, by decide, by decide⟩
  have same := known.unique encodes
  rw [same]
  rintro ⟨parse, run, -, calls⟩
  obtain rfl := Option.some.inj run
  exact absurd calls (by decide +kernel)

end Bgpd.NlriParse
