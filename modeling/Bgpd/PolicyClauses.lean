import Bgpd.SharedAttrs
import Bgpd.WorkingCopy
import Bgpd.RouteMap

/-!
# Set clauses on attributes in memory

What the set clauses of a route map do to an attribute set whose objects are
pointers. Most write fields. Those for the AS path and the communities copy an
object that is shared and take their own for granted where its count is zero.

The two for extended communities are one function in two places: they intern
the new object themselves and unintern the old one.
-/

namespace Bgpd.PolicyClauses

open Octets AsPath Attributes Interning WorkingCopy PathStore SharedAttrs RouteMap

/-- The attributes a map is applied to, and the objects in memory. -/
structure Subject where
  objects : Objects
  attr : AttrRef

/-- A freshly allocated, zeroed extra block. -/
def ExtraRef.zero : ExtraRef where
  mpNexthopGlobal := 0
  mpNexthopLocal := 0
  ecommunity := none
  cluster := none
  transit := none
  mpNexthopGlobalIn := 0
  aggregatorAddr := 0
  originatorId := 0
  weight := 0
  aggregatorAs := 0
  mpNexthopLen := 0

section Fields

variable (attr : AttrRef)

/-- `bgp_attr_extra_get`, and what its callers write through the pointer. -/
def withExtra (change : ExtraRef → ExtraRef) : AttrRef :=
  { attr with extra := some (change (attr.extra.getD ExtraRef.zero)) }

/-- Flag an attribute as present. -/
def mark (type : AttrType) : AttrRef :=
  { attr with flag := FlagWord.set attr.flag (attrFlagBit type) }

/-- Flag an attribute as absent. -/
def unmark (type : AttrType) : AttrRef := { attr with flag := attr.flag &&& ~~~attrFlagBit type }

end Fields

/-! ## Fields -/

/-- What `set ip next-hop peer-address` reads of a neighbour: the direction the
map is applied in and the addresses of the session. -/
structure MapPeer where
  rmapIn : Bool
  rmapImport : Bool
  rmapOut : Bool
  suRemote : Option U32
  suLocal : Option U32

/-- `route_set_ip_nexthop`; without an address it is the one of the session. -/
def routeSetIpNexthop (peer : MapPeer) (address : Option U32) (attr : AttrRef) : AttrRef :=
  match address with
  | some address => { mark attr .nextHop with nexthop := address }
  | none =>
    match (peer.rmapIn || peer.rmapImport), peer.suRemote, peer.rmapOut, peer.suLocal with
    | true, some address, _, _ => { mark attr .nextHop with nexthop := address }
    | _, _, true, some address => { mark attr .nextHop with nexthop := address }
    | _, _, _, _ => attr

/-- `route_set_local_pref`. -/
def routeSetLocalPref (localPref : U32) (attr : AttrRef) : AttrRef :=
  { mark attr .localPref with localPref }

/-- `route_set_weight`; no weight does not make an extra block. -/
def routeSetWeight (weight : U32) (attr : AttrRef) : AttrRef :=
  if weight ≠ 0 then withExtra attr fun extra => { extra with weight }
  else { attr with extra := attr.extra.map fun extra => { extra with weight := 0 } }

/-- The text of `set metric`: a number, or one with a sign in front. -/
inductive MetricRule
  | value (metric : U32)
  | plus (metric : U32)
  | minus (metric : U32)
  deriving DecidableEq, Repr

/-- `BGP_MED_MAX`. -/
def bgpMedMax : U32 := 0xFFFFFFFF

/-- `route_set_metric`. -/
def routeSetMetric (rule : MetricRule) (attr : AttrRef) : AttrRef :=
  let med := if FlagWord.check attr.flag (attrFlagBit .multiExitDisc) then attr.med else 0
  let attr := mark attr .multiExitDisc
  match rule with
  | .value metric => { attr with med := metric }
  | .plus metric =>
    { attr with med := if med / 2 + metric / 2 > bgpMedMax / 2 then bgpMedMax -
      1 else med + metric }
  | .minus metric => { attr with med := if med ≤ metric then 0 else med - metric }

/-- `route_set_origin`. -/
def routeSetOrigin (origin : U8) (attr : AttrRef) : AttrRef := { attr with origin }

/-- `route_set_atomic_aggregate`. -/
def routeSetAtomicAggregate (attr : AttrRef) : AttrRef := mark attr .atomicAggregate

/-- `route_set_aggregator_as`. -/
def routeSetAggregatorAs (as address : U32) (attr : AttrRef) : AttrRef :=
  mark (withExtra attr fun extra => { extra with aggregatorAs := as, aggregatorAddr := address })
    .aggregator

/-- `route_set_vpnv4_nexthop`. -/
def routeSetVpnv4Nexthop (address : U32) (attr : AttrRef) : AttrRef :=
  withExtra attr fun extra => { extra with mpNexthopGlobalIn := address }

/-- `route_set_originator_id`. -/
def routeSetOriginatorId (address : U32) (attr : AttrRef) : AttrRef :=
  withExtra (mark attr .originatorId) fun extra => { extra with originatorId := address }

/-- `route_set_ipv6_nexthop_global`. -/
def routeSetIpv6NexthopGlobal (address : BitVec 128) (attr : AttrRef) : AttrRef :=
  withExtra attr fun extra =>
    { extra with
      mpNexthopGlobal := address
      mpNexthopLen := if extra.mpNexthopLen = 0 then 16 else extra.mpNexthopLen }

/-- `route_set_ipv6_nexthop_local`. -/
def routeSetIpv6NexthopLocal (address : BitVec 128) (attr : AttrRef) : AttrRef :=
  withExtra attr fun extra => { extra with mpNexthopLocal := address, mpNexthopLen := 32 }

/-! ## The AS path -/

/-- The path to be edited: a copy where the path is shared. -/
def editablePath (s : Subject) : Option (Nat × Paths) := do
  let cell ← s.objects.paths.store.cells s.attr.aspath
  if cell.refcnt ≠ 0 then aspathDup s.objects.paths s.attr.aspath
  else return (s.attr.aspath, s.objects.paths)

/-- `route_set_aspath_prepend`. -/
def routeSetAspathPrepend (aspath : Aspath) (s : Subject) : Option Subject := do
  let (new, paths) ← editablePath s
  let paths ← aspathPrepend paths aspath new
  return ⟨{ s.objects with paths }, { s.attr with aspath := new }⟩

/-- `route_set_aspath_exclude`. -/
def routeSetAspathExclude (excludePath : Aspath) (s : Subject) : Option Subject := do
  let (newPath, paths) ← editablePath s
  let (aspath, paths) ← aspathFilterExclude paths newPath excludePath
  return ⟨{ s.objects with paths }, { s.attr with aspath }⟩

/-! ## Communities -/

/-- `struct rmap_com_set`. -/
structure RmapComSet where
  com : List U32
  additive : Bool
  none : Bool
  deriving DecidableEq, Repr

/-- `community_uniq_sort`. -/
def communityUniqSort (com : List U32) : List U32 := com.dedup.insertionSort (· ≤ ·)

/-- `community_free` of an object that is not interned. -/
def freePrivate {α : Type} (s : Store α) (old : Nat) : Option (Store α) := do
  let cell ← s.cells old
  if cell.refcnt = 0 then s.free old else return s

/-- The new object of a community clause: what is there with the communities of
the rule merged in, or a copy of the rule. The old object is freed only when it is
merged. -/
def newCommunity (rcs : RmapComSet) (s : Store (List U32)) (old : Option Nat) :
    Option (Nat × Store (List U32)) :=
  match rcs.additive, old with
  | true, some old => do
    let value ← s.read old
    let (merge, s) := s.alloc value
    let s ← s.write merge (value ++ rcs.com)
    let s ← freePrivate s old
    let (new, s) := s.alloc (communityUniqSort (value ++ rcs.com))
    let s ← s.free merge
    return (new, s)
  | _, _ => some (s.alloc rcs.com)

/-- `route_set_community`. -/
def routeSetCommunity (rcs : RmapComSet) (s : Subject) : Option Subject :=
  if rcs.none then
    some { s with attr := { unmark s.attr .communities with community := none } }
  else do
    let (new, communities) ← newCommunity rcs s.objects.communities s.attr.community
    return ⟨{ s.objects with communities },
      { mark s.attr .communities with community := some new }⟩

/-- `route_set_community_delete`, for the members that the list leaves of a copy;
without a list or communities nothing happens. -/
def routeSetCommunityDelete (communityListMatchDelete : Option (List U32 → List U32))
    (s : Subject) : Option Subject :=
  match communityListMatchDelete, s.attr.community with
  | some delete, some old => do
    let value ← s.objects.communities.read old
    let (merge, communities) := s.objects.communities.alloc value
    let communities ← communities.write merge (delete value)
    let left := communityUniqSort (delete value)
    let (new, communities) := communities.alloc left
    let communities ← communities.free merge
    let communities ← freePrivate communities old
    if left.isEmpty then
      let communities ← communities.free new
      return ⟨{ s.objects with communities },
        { unmark s.attr .communities with community := none }⟩
    else
      return ⟨{ s.objects with communities },
        { mark s.attr .communities with community := some new }⟩
  | _, _ => some s

/-! ## Extended communities -/

/-- The communities of a rule. The parser of the rule returns none where it reads
no community, and then there is no rule. -/
structure EcommunityRule where
  val : List (BitVec 64)
  filled : val ≠ []

/-- `ecommunity_cmp`. -/
def ecommunityCmp (first second : List (BitVec 64)) : Bool := first = second

/-- The new object: a copy of the old one with the communities of the rule behind
it, or a copy of the rule. -/
def mergedEcommunity (s : Store (List (BitVec 64))) (oldEcom : Option Nat)
    (ecom : EcommunityRule) : Option (Nat × Store (List (BitVec 64))) :=
  match oldEcom with
  | some old => do
    let value ← s.read old
    let (new, s) := s.alloc value
    let s ← s.write new (value ++ ecom.val)
    return (new, s)
  | none => some (s.alloc ecom.val)

/-- `route_set_ecommunity_rt`. -/
def routeSetEcommunityRt (ecom : EcommunityRule) (s : Subject) : Option Subject := do
  let oldEcom := (s.attr.extra.getD ExtraRef.zero).ecommunity
  let (newEcom, ecommunities) ← mergedEcommunity s.objects.ecommunities oldEcom ecom
  let (found, ecommunities) ← ecommunities.intern ecommunityCmp newEcom
  let ecommunities ← uninternPointer ecommunities oldEcom
  return ⟨{ s.objects with ecommunities },
    mark (withExtra s.attr fun extra => { extra with ecommunity := some found }) .extCommunities⟩

/-- `route_set_ecommunity_soo`, the same text. -/
def routeSetEcommunitySoo (ecom : EcommunityRule) (s : Subject) : Option Subject :=
  routeSetEcommunityRt ecom s

/-! ## All of them -/

/-- The set clauses the daemon registers, with their compiled values. -/
inductive SetClause
  | ipNexthop (address : Option U32)
  | localPreference (localPref : U32)
  | weight (weight : U32)
  | metric (rule : MetricRule)
  | asPathPrepend (aspath : Aspath)
  | asPathExclude (excludePath : Aspath)
  | origin (origin : U8)
  | atomicAggregate
  | aggregatorAs (as address : U32)
  | community (rcs : RmapComSet)
  | commList (name : Option String)
  | vpnv4Nexthop (address : U32)
  | originatorId (address : U32)
  | extcommunityRt (ecom : EcommunityRule)
  | extcommunitySoo (ecom : EcommunityRule)
  | ipv6NexthopGlobal (address : BitVec 128)
  | ipv6NexthopLocal (address : BitVec 128)

section Apply

variable (peer : MapPeer) (communityListLookup : String → Option (List U32 → List U32))

/-- The functions the commands are registered with. -/
def applySet : SetClause → Subject → Option Subject
  | .ipNexthop address, s => some { s with attr := routeSetIpNexthop peer address s.attr }
  | .localPreference localPref, s => some { s with attr := routeSetLocalPref localPref s.attr }
  | .weight weight, s => some { s with attr := routeSetWeight weight s.attr }
  | .metric rule, s => some { s with attr := routeSetMetric rule s.attr }
  | .asPathPrepend aspath, s => routeSetAspathPrepend aspath s
  | .asPathExclude excludePath, s => routeSetAspathExclude excludePath s
  | .origin origin, s => some { s with attr := routeSetOrigin origin s.attr }
  | .atomicAggregate, s => some { s with attr := routeSetAtomicAggregate s.attr }
  | .aggregatorAs as address, s =>
    some { s with attr := routeSetAggregatorAs as address s.attr }
  | .community rcs, s => routeSetCommunity rcs s
  | .commList name, s => routeSetCommunityDelete (name.bind communityListLookup) s
  | .vpnv4Nexthop address, s => some { s with attr := routeSetVpnv4Nexthop address s.attr }
  | .originatorId address, s => some { s with attr := routeSetOriginatorId address s.attr }
  | .extcommunityRt ecom, s => routeSetEcommunityRt ecom s
  | .extcommunitySoo ecom, s => routeSetEcommunitySoo ecom s
  | .ipv6NexthopGlobal address, s =>
    some { s with attr := routeSetIpv6NexthopGlobal address s.attr }
  | .ipv6NexthopLocal address, s =>
    some { s with attr := routeSetIpv6NexthopLocal address s.attr }

end Apply

/-! ## Interned attributes -/

/-- The objects, and the attribute sets that refer to them. -/
structure Memory where
  objects : Objects
  attrs : Store AttrRef

/-- Neither the objects nor the attribute sets changed. -/
structure Memory.Same (s t : Memory) : Prop where
  objects : s.objects.Same t.objects
  attrs : Interning.Same s.attrs t.attrs

/-- The part of `attrhash_cmp` for the extra blocks. The originator is not
compared. -/
def extraCmp : Option ExtraRef → Option ExtraRef → Bool
  | some ae1, some ae2 =>
    ae1.aggregatorAs = ae2.aggregatorAs ∧ ae1.aggregatorAddr = ae2.aggregatorAddr
      ∧ ae1.weight = ae2.weight ∧ ae1.mpNexthopLen = ae2.mpNexthopLen
      ∧ ae1.mpNexthopGlobal = ae2.mpNexthopGlobal ∧ ae1.mpNexthopLocal = ae2.mpNexthopLocal
      ∧ ae1.mpNexthopGlobalIn = ae2.mpNexthopGlobalIn ∧ ae1.ecommunity = ae2.ecommunity
      ∧ ae1.cluster = ae2.cluster ∧ ae1.transit = ae2.transit
  | none, none => true
  | _, _ => false

/-- `attrhash_cmp`: pointers are compared, not what they lead to. -/
def attrhashCmp (attr1 attr2 : AttrRef) : Bool :=
  if attr1.flag = attr2.flag ∧ attr1.origin = attr2.origin ∧ attr1.nexthop = attr2.nexthop
      ∧ attr1.aspath = attr2.aspath ∧ attr1.community = attr2.community ∧ attr1.med = attr2.med
      ∧ attr1.localPref = attr2.localPref then
    extraCmp attr1.extra attr2.extra
  else false

/-- Equality as the comparison of a hash table. -/
def valueCmp {α : Type} [DecidableEq α] (first second : α) : Bool := first = second

/-- `cluster_intern`, which interns a copy. -/
def clusterIntern (s : Store (List U32)) (cluster : Nat) : Option (Nat × Store (List U32)) := do
  let value ← s.read cluster
  s.internCopy valueCmp value

/-- `bgp_attr_intern`: each object gets a reference, and the attribute set with
these pointers too. -/
def bgpAttrIntern (m : Memory) (attr : AttrRef) : Option (Nat × Memory) := do
  let (aspath, paths) ← internPointer aspathIntern m.objects.paths.store (some attr.aspath)
  let aspath ← aspath
  let (community, communities) ←
    internPointer (Store.intern valueCmp) m.objects.communities attr.community
  let extra := attr.extra.getD ExtraRef.zero
  let (ecommunity, ecommunities) ←
    internPointer (Store.intern ecommunityCmp) m.objects.ecommunities extra.ecommunity
  let (cluster, clusters) ← internPointer clusterIntern m.objects.clusters extra.cluster
  let (transit, transits) ←
    internPointer (Store.intern valueCmp) m.objects.transits extra.transit
  let counted := { attr with
    aspath, community
    extra := attr.extra.map fun extra => { extra with ecommunity, cluster, transit } }
  let (find, attrs) ← m.attrs.internCopy attrhashCmp counted
  return (find, {
    objects := {
      paths := { m.objects.paths with store := paths }
      communities, ecommunities, clusters, transits }
    attrs })

/-- `bgp_attr_unintern_sub`. -/
def bgpAttrUninternSub (s : Objects) (attr : AttrRef) : Option Objects := do
  let paths ← s.paths.store.unintern attr.aspath
  let communities ← uninternPointer s.communities attr.community
  let extra := attr.extra.getD ExtraRef.zero
  let ecommunities ← uninternPointer s.ecommunities extra.ecommunity
  let clusters ← uninternPointer s.clusters extra.cluster
  let transits ← uninternPointer s.transits extra.transit
  return { paths := { s.paths with store := paths }, communities, ecommunities, clusters, transits }

/-- `bgp_attr_unintern`. -/
def bgpAttrUnintern (m : Memory) (attr : Nat) : Option Memory := do
  let tmp ← m.attrs.read attr
  let attrs ← m.attrs.unintern attr
  let objects ← bgpAttrUninternSub m.objects tmp
  return { objects, attrs }

/-- `bgp_attr_flush`. -/
def bgpAttrFlush (s : Objects) (attr : AttrRef) : Option Objects := do
  let paths ← flushPointer s.paths.store (some attr.aspath)
  let communities ← flushPointer s.communities attr.community
  let extra := attr.extra.getD ExtraRef.zero
  let ecommunities ← flushPointer s.ecommunities extra.ecommunity
  let clusters ← flushPointer s.clusters extra.cluster
  let transits ← flushPointer s.transits extra.transit
  return { paths := { s.paths with store := paths }, communities, ecommunities, clusters, transits }

/-! ## A policy -/

section Policy

variable {Rule : Type} (peer : MapPeer)
  (communityListLookup : String → Option (List U32 → List U32))
  (routeMapLookupByName : String → Option (List (RouteMapIndex Rule SetClause)))
  (applyMatch : Rule → Subject → RouteMapResult)

/-- `bgp_attr_dup`: the extra block is copied, with its pointers. -/
def bgpAttrDup (orig : AttrRef) : AttrRef := orig

/-- A match function reads the object, and there is none behind an error. -/
def matchObject (rule : Rule) : Option Subject → RouteMapResult
  | none => .noMatch
  | some s => applyMatch rule s

/-- A set function that reads, writes or frees what is not there ends the run. -/
def setObject (clause : SetClause) (s : Option Subject) : Option Subject :=
  s.bind (applySet peer communityListLookup clause)

/-- The result is interned and, later, uninterned; or it is flushed when the map
denies the route. -/
def policyEnd (m : Memory) (ret : RouteMapResult) (s : Subject) : Option Memory :=
  if ret = .denyMatch then do
    let objects ← bgpAttrFlush s.objects s.attr
    return { m with objects }
  else do
    let (interned, m) ← bgpAttrIntern { m with objects := s.objects } s.attr
    bgpAttrUnintern m interned

/-- A map is applied to a copy of a route's attributes. -/
def policyRun (left : Nat) (map : Option (List (RouteMapIndex Rule SetClause))) (m : Memory)
    (attr : AttrRef) : Option Memory :=
  let (ret, object) := routeMapApply routeMapLookupByName (matchObject applyMatch)
    (okay (setObject peer communityListLookup)) left map (some ⟨m.objects, bgpAttrDup attr⟩)
  object.bind (policyEnd m ret)

end Policy

end Bgpd.PolicyClauses
