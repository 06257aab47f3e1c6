import Bgpd.Announce

/-!
# Admitting a received route

What `bgp_update_main` asks of a route before it goes into the main table: the
loop checks, the inbound filter and map, and for IPv4 unicast the checks of the
next hop. The weight configured for the neighbour is applied before the map,
also where no map is bound.

Whether a next hop is one of our own addresses, and whether it is on a connected
network, depends on the interfaces; both answers are parameters.
-/

namespace Bgpd.Admission

open Prefixes AsPath Attributes Neighbors

/-- The weight configured for a neighbour, if there is one. -/
def applyWeight (peer : Peer) (attr : Attr) : Attr :=
  if peer.weight ≠ 0 then attr.withExtra fun extra => { extra with weight := peer.weight }
  else attr

/-- A bound route map, or none. -/
def applyMap (map : Option (Prefix → Attr → Option Attr)) (p : Prefix) (attr : Attr) :
    Option Attr :=
  match map with
  | none => some attr
  | some map => map p attr

/-- `bgp_input_modifier`. -/
def bgpInputModifier (peer : Peer) (p : Prefix) (attr : Attr) (safi : Safi) : Option Attr :=
  applyMap (peer.policy p.family safi).mapIn p (applyWeight peer attr)

/-- A bound route map does not change the MED. -/
def MedKept (map : Option (Prefix → Attr → Option Attr)) : Prop :=
  ∀ bound, map = some bound → ∀ p attr changed, bound p attr = some changed →
    changed.med = attr.med

/-- The inbound policy keeps the MED when the map does. -/
theorem bgpInputModifier_med (peer : Peer) (p : Prefix) (attr next : Attr) (safi : Safi)
    (inMap : MedKept (peer.policy p.family safi).mapIn)
    (stored : bgpInputModifier peer p attr safi = some next) : next.med = attr.med := by
  have weight : (applyWeight peer attr).med = attr.med := by
    unfold applyWeight
    split <;> rfl
  unfold bgpInputModifier applyMap at stored
  split at stored
  · cases stored
    exact weight
  · rename_i bound chosen
    rw [inMap bound chosen p _ next stored, weight]

/-- `bgp_cluster_filter`: the route has been through this cluster. -/
def bgpClusterFilter (bgp : Bgp) (attr : Attr) : Bool :=
  match (attr.extra.getD .zero).cluster with
  | none => false
  | some cluster => (if bgp.configClusterId then bgp.clusterId else bgp.routerId) ∈ cluster

/-- What the checks of the next hop see of the interfaces. -/
structure Connected where
  /-- `bgp_nexthop_check_ebgp`: the next hop is on a connected network. -/
  nexthopCheckEbgp : Attr → Bool
  /-- `bgp_nexthop_self`: the next hop is an address of ours. -/
  nexthopSelf : Attr → Bool

/-- Every network is connected, and no address is ours. -/
def Connected.everywhere : Connected := ⟨fun _ => true, fun _ => false⟩

variable (bgp : Bgp)

/-- The AS path, the originator and the clusters show that the route has been
here. With a local AS of its own, that AS may stand in the path once where it is
prepended. -/
def looped (peer : Peer) (attr : Attr) (afi : Afi) (safi : Safi) : Bool :=
  let path := attr.aspath.getD aspathEmpty
  (peer.changeLocalAs ≠ 0
      && (if peer.localAsNoPrepend then 0 else 1) < aspathLoopCheck path peer.changeLocalAs)
    || peer.allowasIn afi safi < aspathLoopCheck path bgp.as
    || (bgp.confederation && peer.allowasIn afi safi < aspathLoopCheck path bgp.confedId)
    || (attr.has .originatorId && bgp.routerId = (attr.extra.getD .zero).originatorId)
    || bgpClusterFilter bgp attr

/-- A next hop that no IPv4 route may have: zero, class D and beyond. -/
def martian (attr : Attr) : Bool := attr.nexthop = 0 ∨ 0xE0000000 ≤ attr.nexthop.toNat

/-- The IPv4 unicast checks of the next hop pass. -/
def nexthopPasses (connected : Connected) (peer : Peer) (attr : Attr) : Bool :=
  (peerSort bgp peer ≠ .ebgp || peer.ttl ≠ 1 || connected.nexthopCheckEbgp attr
      || peer.disableConnectedCheck)
    && !(connected.nexthopSelf attr || martian attr)

/-- The checks of `bgp_update_main` up to the new attributes: what they are, or
nothing for a route that is filtered. -/
def admitMain (connected : Connected) (peer : Peer) (p : Prefix) (attr : Attr) (safi : Safi) :
    Option Attr :=
  if looped bgp peer attr p.family safi then none
  else if !(peer.policy p.family safi).inputFilter p attr then none
  else
    match bgpInputModifier peer p attr safi with
    | none => none
    | some changed =>
      if p.family = .ip ∧ safi = .unicast ∧ !nexthopPasses bgp connected peer changed then none
      else some changed

/-- What is admitted is what the inbound policy leaves. -/
theorem admitMain_some (connected : Connected) (peer : Peer) (p : Prefix) (attr admitted : Attr)
    (safi : Safi) (passed : admitMain bgp connected peer p attr safi = some admitted) :
    bgpInputModifier peer p attr safi = some admitted := by
  unfold admitMain at passed
  split at passed
  · cases passed
  · split at passed
    · cases passed
    · split at passed
      · cases passed
      · rename_i changed modified
        split at passed
        · cases passed
        · rw [modified, passed]

end Bgpd.Admission
