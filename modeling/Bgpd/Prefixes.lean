import Bgpd.Octets

/-!
# Address families and prefixes

A prefix is its family and its leading bits; the bits beyond the prefix length
are not kept, as in the daemon's tables, which mask every key. That a prefix is
no longer than an address of its family is part of the type.
-/

namespace Bgpd.Prefixes

open Octets

/-- Address families the daemon keeps tables for. -/
inductive Afi
  | ip
  | ip6
  deriving DecidableEq, Repr

/-- Subsequent address families. -/
inductive Safi
  | unicast
  | multicast
  | mplsVpn
  deriving DecidableEq, Repr

/-- Bits of an address. -/
def Afi.bits : Afi → Nat
  | .ip => 32
  | .ip6 => 128

/-- The family's number on the wire. -/
def Afi.code : Afi → U16
  | .ip => 1
  | .ip6 => 2

/-- The number of a subsequent family on the wire; labelled VPN routes use a
number of their own. -/
def Safi.code : Safi → U8
  | .unicast => 1
  | .multicast => 2
  | .mplsVpn => 128

/-- `struct prefix`, masked. -/
structure Prefix where
  family : Afi
  bits : List Bool
  fits : bits.length ≤ family.bits := by decide
  deriving DecidableEq, Repr

/-- The bits of 10.0.0.0/8 fit into an address. -/
theorem ten_fits : [false, false, false, false, true, false, true, false].length ≤ Afi.ip.bits := by
  decide

/-- `prefixlen`. -/
def Prefix.prefixlen (p : Prefix) : Nat := p.bits.length

/-- The default route of a family. -/
def Prefix.default (family : Afi) : Prefix := ⟨family, [], Nat.zero_le _⟩

/-- The address bits are all zero. A prefix of any length can have them so. -/
def Prefix.addressZero (p : Prefix) : Bool := p.bits.all not

/-- A prefix is strictly longer than another and covered by it. -/
def Prefix.strictlyCovers (outer inner : Prefix) : Bool :=
  outer.family = inner.family ∧ outer.bits.length < inner.bits.length ∧
    outer.bits.isPrefixOf inner.bits

/-- Eight bits as an octet, the first one most significant; missing bits are
zero. -/
def octetOfBits (bits : List Bool) : U8 :=
  ((List.range 8).foldl (fun octet i => 2 * octet + (if bits.getD i false then 1 else 0)) 0 : Nat)

/-- Bits as octets. -/
def octetsOfBits : Nat → List Bool → List U8
  | 0, _ => []
  | n + 1, bits => octetOfBits (bits.take 8) :: octetsOfBits n (bits.drop 8)

/-- `PSIZE`: the octets of a prefix of the given length. -/
def psize (prefixlen : Nat) : Nat := (prefixlen + 7) / 8

/-- The address octets of a prefix. -/
def Prefix.octets (p : Prefix) : List U8 := octetsOfBits (psize p.prefixlen) p.bits

theorem octetsOfBits_length (n : Nat) (bits : List Bool) : (octetsOfBits n bits).length = n := by
  induction n generalizing bits with
  | zero => rfl
  | succ n ih => simp [octetsOfBits, ih]

theorem octets_length (p : Prefix) : p.octets.length = psize p.prefixlen :=
  octetsOfBits_length _ _

/-- `stream_put_prefix`: the length and the octets. -/
def streamPutPrefix (p : Prefix) : List U8 := BitVec.ofNat 8 p.prefixlen :: p.octets

end Bgpd.Prefixes
