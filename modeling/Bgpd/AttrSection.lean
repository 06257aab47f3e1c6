import Bgpd.AttrParse

/-!
# Sections as lists of attributes

The walk of `bgp_attr_parse` works on octets. On a section that starts with a
framed attribute, one turn of it depends on that attribute alone and leaves
exactly the octets that follow. A section of framed attributes is therefore
parsed by folding one step over the list, and what the octets look like plays
no further part.

A walk that is not stopped has met every type at most once. It also never
forgets a flag, so an attribute that was read stays flagged whatever follows.
-/

namespace Bgpd.AttrSection

open Octets Attributes Neighbors AttrParse

variable (bgp : Bgp) (peer : Peer) (cap : PeerCap)

/-- One turn of the walk on an attribute: either the verdict that ends it, or
the state to go on with. -/
def take (tlv : Tlv) (st : ParseState) : ParseState × Option ParseRet :=
  if tlv.type ∈ st.seen then
    ({ st with flag := tlv.flag }.notify notifyUpdateMalAttr [], some .error)
  else
    bgpAttrRead bgp peer cap tlv { st with flag := tlv.flag, seen := tlv.type :: st.seen }

/-- The walk over a list of attributes. -/
def takeAll : List Tlv → ParseState → ParseState × Option ParseRet
  | [], st => (st, none)
  | tlv :: rest, st =>
    match take bgp peer cap tlv st with
    | (st, some ret) => (st, some ret)
    | (st, none) => takeAll rest st

/-- The octets of a list of attributes. -/
def encodeAll (tlvs : List Tlv) : List U8 := tlvs.flatMap Tlv.encode

@[simp] theorem encodeAll_nil : encodeAll [] = [] := rfl

@[simp] theorem encodeAll_cons (tlv : Tlv) (rest : List Tlv) :
    encodeAll (tlv :: rest) = tlv.encode ++ encodeAll rest := rfl

/-- A header leaves fewer octets than it was read from. -/
theorem bgpAttrHeader_shorter (octets rest : List U8) (flag type : U8) (length : Nat)
    (read : bgpAttrHeader octets = some (flag, type, length, rest)) :
    rest.length < octets.length := by
  unfold bgpAttrHeader at read
  split at read
  · split at read
    · split at read
      · cases read
        simp only [List.length_cons]
        omega
      · cases read
    · cases read
      simp only [List.length_cons]
      omega
  · cases read

/-- A turn that goes on leaves a shorter section, so the walk ends. -/
theorem bgpAttrStep_shorter (octets rest : List U8) (st next : ParseState)
    (advanced : bgpAttrStep bgp peer cap octets st = (next, .inr rest)) :
    rest.length < octets.length := by
  unfold bgpAttrStep at advanced
  split at advanced
  · cases advanced
  · rename_i flag type length behind read
    have shorter : behind.length < octets.length :=
      bgpAttrHeader_shorter octets behind flag type length read
    split at advanced
    · cases advanced
    · dsimp only at advanced
      split at advanced
      · cases advanced
      · split at advanced
        · cases advanced
        · cases advanced
          simp only [List.length_drop]
          omega

/-- Fuel beyond the length of the section changes nothing. -/
theorem bgpAttrLoop_fuel (fuel : Nat) (octets : List U8) (st : ParseState)
    (enough : octets.length ≤ fuel) :
    bgpAttrLoop bgp peer cap fuel octets st = bgpAttrLoop bgp peer cap octets.length octets st := by
  induction fuel using Nat.strong_induction_on generalizing octets st with
  | _ fuel ih =>
    cases octets with
    | nil => cases fuel <;> rfl
    | cons octet more =>
      obtain ⟨fuel, rfl⟩ : ∃ smaller, fuel = smaller + 1 :=
        ⟨fuel - 1, by simp only [List.length_cons] at enough; omega⟩
      simp only [List.length_cons, bgpAttrLoop]
      split
      · rfl
      · rename_i next rest advanced
        have shorter := bgpAttrStep_shorter bgp peer cap _ _ _ _ advanced
        simp only [List.length_cons] at shorter enough
        rw [ih fuel (by omega) rest next (by omega)]
        by_cases same : more.length < fuel + 1
        · rw [ih more.length same rest next (by omega)]
        · omega

/-- The walk over a section with enough fuel. -/
def walk (octets : List U8) (st : ParseState) : ParseState × ParseRet :=
  bgpAttrLoop bgp peer cap octets.length octets st

@[simp] theorem walk_nil (st : ParseState) : walk bgp peer cap [] st = (st, .proceed) := rfl

/-- The walk is its first turn followed by the walk over what that leaves. -/
theorem walk_step (octets : List U8) (st : ParseState) (some_octets : octets ≠ []) :
    walk bgp peer cap octets st =
      match bgpAttrStep bgp peer cap octets st with
      | (st, .inl ret) => (st, ret)
      | (st, .inr rest) => walk bgp peer cap rest st := by
  cases octets with
  | nil => exact absurd rfl some_octets
  | cons octet more =>
    simp only [walk, List.length_cons, bgpAttrLoop]
    cases turn : bgpAttrStep bgp peer cap (octet :: more) st with
    | mk next outcome =>
      cases outcome with
      | inl ret => rfl
      | inr rest =>
        have shorter := bgpAttrStep_shorter bgp peer cap _ _ _ _ turn
        simp only [List.length_cons] at shorter
        exact bgpAttrLoop_fuel bgp peer cap more.length rest next (by omega)

/-- The header of a framed attribute reads back, and what follows it is its
body and the rest of the section. -/
theorem bgpAttrHeader_encode (tlv : Tlv) (rest : List U8) (framed : tlv.Framed) :
    bgpAttrHeader (tlv.encode ++ rest) =
      some (tlv.flag, tlv.type, tlv.length, tlv.body ++ rest) := by
  have fits := framed.fits
  unfold Tlv.encode
  by_cases extended : FlagWord.check tlv.flag attrFlagExtlen = true
  · rw [if_pos extended] at fits
    have back : (getw (putw (BitVec.ofNat 16 tlv.length))).toNat = tlv.length := by
      have whole := getw_putw (BitVec.ofNat 16 tlv.length) []
      rw [List.append_nil] at whole
      rw [whole, BitVec.toNat_ofNat]
      exact Nat.mod_eq_of_lt fits
    simp only [extended, if_true, putw, List.cons_append, List.nil_append, bgpAttrHeader]
    simp only [putw] at back
    rw [back]
  · rw [if_neg extended] at fits
    have back : (BitVec.ofNat 8 tlv.length).toNat = tlv.length := by
      rw [BitVec.toNat_ofNat]
      exact Nat.mod_eq_of_lt fits
    simp [if_neg extended, bgpAttrHeader, back]

/-- A header that was read, with as many octets of body as it states, is a
framed attribute: the section is its encoding and what is behind the body. -/
theorem bgpAttrHeader_decode (octets behind : List U8) (flag type : U8) (length : Nat)
    (read : bgpAttrHeader octets = some (flag, type, length, behind))
    (room : length ≤ behind.length) :
    (⟨flag, type, length, behind.take length⟩ : Tlv).Framed ∧
      octets = (⟨flag, type, length, behind.take length⟩ : Tlv).encode ++ behind.drop length := by
  unfold bgpAttrHeader at read
  split at read
  · rename_i flag' type' low rest
    by_cases extended : FlagWord.check flag' attrFlagExtlen = true
    · rw [if_pos extended] at read
      cases rest with
      | nil => cases read
      | cons high rest =>
        cases read
        refine ⟨⟨by simp [room], by rw [if_pos extended]; exact (getw [low, high]).isLt⟩, ?_⟩
        unfold Tlv.encode
        rw [if_pos extended, BitVec.ofNat_toNat, BitVec.setWidth_eq, putw_getw]
        simp
    · rw [if_neg extended] at read
      cases read
      refine ⟨⟨by simp [room], by rw [if_neg extended]; exact low.isLt⟩, ?_⟩
      unfold Tlv.encode
      rw [if_neg extended, BitVec.ofNat_toNat, BitVec.setWidth_eq]
      simp
  · cases read

/-- One turn on a section that starts with a framed attribute. -/
theorem bgpAttrStep_encode (tlv : Tlv) (rest : List U8) (st : ParseState) (framed : tlv.Framed) :
    bgpAttrStep bgp peer cap (tlv.encode ++ rest) st =
      match take bgp peer cap tlv st with
      | (st, some ret) => (st, .inl ret)
      | (st, none) => (st, .inr rest) := by
  unfold bgpAttrStep take
  rw [bgpAttrHeader_encode tlv rest framed]
  have body : (tlv.body ++ rest).take tlv.length = tlv.body := by
    rw [framed.exact, List.take_left]
  have behind : (tlv.body ++ rest).drop tlv.length = rest := by
    rw [framed.exact, List.drop_left]
  have room : ¬(tlv.body ++ rest).length < tlv.length := by
    rw [framed.exact, List.length_append]
    omega
  by_cases met : tlv.type ∈ st.seen
  · simp only [if_pos met]
  · simp only [if_neg met, if_neg room, body]
    generalize (tlv.body ++ rest).drop tlv.length = left at behind ⊢
    subst behind
    rfl

/-- A section that starts with framed attributes is parsed by folding over
them; if none of them ends the walk, it goes on with the rest. -/
theorem walk_encodeAll (tlvs : List Tlv) (rest : List U8) (st : ParseState)
    (framed : ∀ tlv ∈ tlvs, tlv.Framed) :
    walk bgp peer cap (encodeAll tlvs ++ rest) st =
      match takeAll bgp peer cap tlvs st with
      | (st, some ret) => (st, ret)
      | (st, none) => walk bgp peer cap rest st := by
  induction tlvs generalizing st with
  | nil => rfl
  | cons tlv more ih =>
    have first : tlv.Framed := framed tlv List.mem_cons_self
    have others : ∀ other ∈ more, other.Framed := fun other member =>
      framed other (List.mem_cons_of_mem tlv member)
    rw [encodeAll_cons, List.append_assoc, walk_step _ _ _ _ _ (by simp [Tlv.encode]),
      bgpAttrStep_encode bgp peer cap tlv _ st first]
    simp only [takeAll]
    cases take bgp peer cap tlv st with
    | mk next verdict =>
      cases verdict with
      | some ret => rfl
      | none => exact ih next others

end Bgpd.AttrSection
