import Bgpd.AsPath
import Bgpd.FlagWord

/-!
# Path attributes

The decoded attribute set of a route. A flag word records which attributes are
present; the values of absent attributes are whatever they were initialised to,
and the code reads several of them without testing the flag first. The rarely
used attributes live in an extra block that is allocated on first use, so an
attribute set without one is a distinct value here too.

Addresses are words in the order of the wire. Interned sub-objects are values,
and reference counts are left out.
-/

namespace Bgpd.Attributes

open Octets AsPath

/-- The attribute types `bgp_attr_parse` has a handler for. -/
inductive AttrType
  | origin
  | asPath
  | nextHop
  | multiExitDisc
  | localPref
  | atomicAggregate
  | aggregator
  | communities
  | originatorId
  | clusterList
  | mpReachNlri
  | mpUnreachNlri
  | extCommunities
  | as4Path
  | as4Aggregator
  deriving DecidableEq, Repr

/-- The type code of an attribute on the wire. -/
def AttrType.code : AttrType → U8
  | .origin => 1
  | .asPath => 2
  | .nextHop => 3
  | .multiExitDisc => 4
  | .localPref => 5
  | .atomicAggregate => 6
  | .aggregator => 7
  | .communities => 8
  | .originatorId => 9
  | .clusterList => 10
  | .mpReachNlri => 14
  | .mpUnreachNlri => 15
  | .extCommunities => 16
  | .as4Path => 17
  | .as4Aggregator => 18

/-- The handler's attribute type of a code, if the code has a handler. -/
def AttrType.ofCode (code : U8) : Option AttrType :=
  match code.toNat with
  | 1 => some .origin
  | 2 => some .asPath
  | 3 => some .nextHop
  | 4 => some .multiExitDisc
  | 5 => some .localPref
  | 6 => some .atomicAggregate
  | 7 => some .aggregator
  | 8 => some .communities
  | 9 => some .originatorId
  | 10 => some .clusterList
  | 14 => some .mpReachNlri
  | 15 => some .mpUnreachNlri
  | 16 => some .extCommunities
  | 17 => some .as4Path
  | 18 => some .as4Aggregator
  | _ => none

@[simp] theorem AttrType.ofCode_code (type : AttrType) : AttrType.ofCode type.code = some type := by
  cases type <;> rfl

/-- A code names its attribute type and no other. -/
theorem AttrType.ofCode_eq {code : U8} {type : AttrType}
    (named : AttrType.ofCode code = some type) : code = type.code := by
  apply BitVec.eq_of_toNat_eq
  unfold AttrType.ofCode at named
  split at named <;> cases named <;> assumption

/-- `ATTR_FLAG_BIT`. -/
def attrFlagBit (type : AttrType) : U32 := BitVec.twoPow 32 (type.code.toNat - 1)

/-- Distinct attributes have distinct flags. -/
@[simp] theorem check_attrFlagBit (left right : AttrType) :
    FlagWord.check (attrFlagBit left) (attrFlagBit right) = decide (left = right) := by
  cases left <;> cases right <;> decide

/-- The flags of the attribute flag octet. -/
def attrFlagOptional : U8 := 0x80
def attrFlagTrans : U8 := 0x40
def attrFlagPartial : U8 := 0x20
def attrFlagExtlen : U8 := 0x10

/-- `BGP_ATTR_DEFAULT_WEIGHT`. -/
def bgpAttrDefaultWeight : U32 := 32768

/-- `struct attr_extra`. -/
structure AttrExtra where
  mpNexthopGlobal : BitVec 128
  mpNexthopLocal : BitVec 128
  /-- Eight octets each, sorted and without repetition. -/
  ecommunity : Option (List (BitVec 64))
  cluster : Option (List U32)
  /-- Unknown transitive attributes, as the octets they arrived in. -/
  transit : Option (List U8)
  mpNexthopGlobalIn : U32
  aggregatorAddr : U32
  originatorId : U32
  weight : U32
  aggregatorAs : U32
  mpNexthopLen : U8
  deriving DecidableEq, Repr

/-- A freshly allocated, zeroed extra block. -/
def AttrExtra.zero : AttrExtra where
  mpNexthopGlobal := 0
  mpNexthopLocal := 0
  ecommunity := none
  cluster := none
  transit := none
  mpNexthopGlobalIn := 0
  aggregatorAddr := 0
  originatorId := 0
  weight := 0
  aggregatorAs := 0
  mpNexthopLen := 0

/-- `struct attr`, without the reference count. -/
structure Attr where
  /-- `none` is the null pointer. -/
  aspath : Option Aspath
  community : Option (List U32)
  extra : Option AttrExtra
  flag : U32
  nexthop : U32
  med : U32
  localPref : U32
  origin : U8
  deriving DecidableEq, Repr

/-- The zeroed attribute set parsing starts from. -/
def Attr.zero : Attr where
  aspath := none
  community := none
  extra := none
  flag := 0
  nexthop := 0
  med := 0
  localPref := 0
  origin := 0

/-- The attribute is flagged as present. -/
def Attr.has (attr : Attr) (type : AttrType) : Bool :=
  FlagWord.check attr.flag (attrFlagBit type)

/-- Flag an attribute as present. -/
def Attr.mark (attr : Attr) (type : AttrType) : Attr :=
  { attr with flag := FlagWord.set attr.flag (attrFlagBit type) }

/-- `bgp_attr_extra_get`, and what its callers write through the pointer. -/
def Attr.withExtra (attr : Attr) (change : AttrExtra → AttrExtra) : Attr :=
  { attr with extra := some (change (attr.extra.getD .zero)) }

section Fields

variable (attr : Attr) (type other : AttrType) (change : AttrExtra → AttrExtra)

@[simp] theorem Attr.has_mark : (attr.mark type).has other = (attr.has other || type = other) := by
  simp [Attr.has, Attr.mark]

@[simp] theorem Attr.has_zero : Attr.zero.has type = false := by
  cases type <;> rfl

@[simp] theorem Attr.mark_med : (attr.mark type).med = attr.med := rfl
@[simp] theorem Attr.mark_localPref : (attr.mark type).localPref = attr.localPref := rfl
@[simp] theorem Attr.mark_aspath : (attr.mark type).aspath = attr.aspath := rfl
@[simp] theorem Attr.withExtra_aspath : (attr.withExtra change).aspath = attr.aspath := rfl
@[simp] theorem Attr.has_withExtra : (attr.withExtra change).has type = attr.has type := rfl

end Fields

/-- `BGP_ORIGIN_IGP`, `BGP_ORIGIN_EGP` and `BGP_ORIGIN_INCOMPLETE`. -/
def bgpOriginIgp : U8 := 0
def bgpOriginEgp : U8 := 1
def bgpOriginIncomplete : U8 := 2

/-- `bgp_attr_default_set`: the attributes of a network statement, a
redistributed route and an originated default. -/
def bgpAttrDefaultSet (origin : U8) : Attr :=
  let attr : Attr := { Attr.zero with origin := origin, aspath := some aspathEmpty }
  let attr := attr.withExtra fun extra =>
    { extra with weight := bgpAttrDefaultWeight, mpNexthopLen := 16 }
  ((((attr.mark .origin).mark .asPath).mark .nextHop).mark .multiExitDisc).mark .localPref

/-- `bgp_attr_aggregate_intern`, given the AS and the address of the
aggregating speaker. -/
def bgpAttrAggregateIntern (speakerAs routerId : U32) (origin : U8) (aspath : Option Aspath)
    (community : Option (List U32)) (asSet : Bool) : Attr :=
  let attr : Attr := { Attr.zero with origin := origin, aspath := some (aspath.getD aspathEmpty) }
  let attr := attr.withExtra fun extra =>
    { extra with
      weight := bgpAttrDefaultWeight, mpNexthopLen := 16,
      aggregatorAs := speakerAs, aggregatorAddr := routerId }
  let attr := ((((attr.mark .origin).mark .asPath).mark .nextHop).mark .multiExitDisc).mark
    .localPref
  let attr := if community.isSome then { attr.mark .communities with community } else attr
  let attr := if asSet then attr else attr.mark .atomicAggregate
  attr.mark .aggregator

/-- `struct bgp_nlri`: a family as it stands on the wire and its prefixes. The
zeroed structure stands for an absent one, so an empty one is absent. -/
structure BgpNlri where
  afi : U16
  safi : U8
  nlri : List U8
  deriving DecidableEq, Repr

/-- The zeroed NLRI. -/
def BgpNlri.zero : BgpNlri := ⟨0, 0, []⟩

end Bgpd.Attributes
