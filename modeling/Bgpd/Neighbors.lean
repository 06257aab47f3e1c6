import Bgpd.Attributes
import Bgpd.Prefixes

/-!
# Speakers and neighbours

The configuration of a BGP instance and of a neighbour, and the state of the
session with it. Only the fields that the modelled functions read are here, and
flag words of the configuration are records of truth values under the names of
their flags. A neighbour is identified by a number that stands for its address
in memory.
-/

namespace Bgpd.Neighbors

open Octets Prefixes Attributes

/-- `peer_sort`. -/
inductive PeerSort
  | ibgp
  | ebgp
  | internal
  | confed
  deriving DecidableEq, Repr

/-- `struct bgp`: the configuration of an instance. -/
structure Bgp where
  as : U32
  routerId : U32
  /-- The instance has a name, so it is not the default instance. -/
  named : Bool
  /-- `BGP_CONFIG_CLUSTER_ID` and the identifier it makes valid. -/
  configClusterId : Bool
  clusterId : U32
  /-- `BGP_CONFIG_CONFEDERATION` and what it makes valid. -/
  confederation : Bool
  confedId : U32
  confedPeers : List U32
  enforceFirstAs : Bool
  noClientToClient : Bool
  defaultLocalPref : U32
  deriving DecidableEq, Repr

/-- An instance with every option off. -/
def Bgp.plain (as routerId : U32) : Bgp where
  as := as
  routerId := routerId
  named := false
  configClusterId := false
  clusterId := 0
  confederation := false
  confedId := 0
  confedPeers := []
  enforceFirstAs := false
  noClientToClient := false
  defaultLocalPref := 100

/-- Per-family configuration flags of a neighbour, `af_flags`. -/
structure PeerAfFlags where
  sendCommunity : Bool := false
  sendExtCommunity : Bool := false
  nexthopSelf : Bool := false
  reflectorClient : Bool := false
  rserverClient : Bool := false
  softReconfig : Bool := false
  asPathUnchanged : Bool := false
  nexthopUnchanged : Bool := false
  defaultOriginate : Bool := false
  removePrivateAs : Bool := false
  maxPrefix : Bool := false
  maxPrefixWarning : Bool := false
  nexthopLocalUnchanged : Bool := false
  deriving DecidableEq, Repr

/-- The filters and route maps bound to a neighbour in a family, each as the
function the daemon evaluates. A route map returns the changed attributes, or
nothing when it denies; a name bound to a map that does not exist denies. -/
structure Policy where
  /-- `bgp_input_filter` permits. -/
  inputFilter : Prefix → Attr → Bool := fun _ _ => true
  /-- `bgp_output_filter` permits. -/
  outputFilter : Prefix → Attr → Bool := fun _ _ => true
  mapIn : Option (Prefix → Attr → Option Attr) := none
  mapOut : Option (Prefix → Attr → Option Attr) := none
  unsuppressMap : Option (Prefix → Attr → Option Attr) := none
  /-- The import map also sees the neighbour the route comes from, and the export
  map the client it goes to. -/
  mapImport : Option (Nat → Prefix → Attr → Option Attr) := none
  mapExport : Option (Nat → Prefix → Attr → Option Attr) := none
  defaultMap : Option (Attr → Option Attr) := none
  /-- The prefix list received by outbound route filtering permits, or there is
  none in force. -/
  orfPermits : Prefix → Bool := fun _ => true

/-- `union sockunion`: the address of the other end. -/
inductive SockUnion
  | inet (address : U32)
  | inet6 (address : BitVec 128)
  deriving DecidableEq, Repr

/-- `sockunion_cmp` is positive. IPv4 comes before IPv6. -/
def SockUnion.after : SockUnion → SockUnion → Bool
  | .inet left, .inet right => right < left
  | .inet6 left, .inet6 right => right < left
  | .inet6 _, .inet _ => true
  | .inet _, .inet6 _ => false

/-- `struct peer`: the part that is fixed while a session is up. -/
structure Peer where
  /-- Stands for the address of the structure. -/
  id : Nat
  as : U32
  localAs : U32
  changeLocalAs : U32
  localAsNoPrepend : Bool
  weight : U32
  ttl : Nat
  disableConnectedCheck : Bool
  /-- Families the neighbour is configured for, `afc`. -/
  afc : Afi → Safi → Bool
  afFlags : Afi → Safi → PeerAfFlags
  allowasIn : Afi → Safi → Nat
  /-- The prefixes the neighbour may announce, where a maximum is set. -/
  pmax : Afi → Safi → Nat
  policy : Afi → Safi → Policy
  remoteId : U32
  suRemote : SockUnion
  /-- Our own addresses on the session. -/
  nexthopV4 : U32
  nexthopV6Global : BitVec 128
  nexthopV6Local : BitVec 128
  sharedNetwork : Bool
  ifindex : Nat
  /-- `bgp_multiaccess_check_v4` of a next hop against the neighbour's address,
  which depends on the connected networks. -/
  multiaccess : U32 → Bool
  /-- The test for IPv6 routes whether the neighbour's identifier is the next
  hop. It compares sixteen octets starting at two four-octet fields, so what it
  answers also depends on the layout of the structures. -/
  ipv6AddrSame : Attr → Bool

/-- A neighbour for IPv4 unicast with every option off. -/
def Peer.plain (id : Nat) (as localAs : U32) : Peer where
  id := id
  as := as
  localAs := localAs
  changeLocalAs := 0
  localAsNoPrepend := false
  weight := 0
  ttl := 1
  disableConnectedCheck := false
  afc := fun afi safi => afi = .ip ∧ safi = .unicast
  afFlags := fun _ _ => {}
  allowasIn := fun _ _ => 0
  pmax := fun _ _ => 0
  policy := fun _ _ => {}
  remoteId := id
  suRemote := .inet id
  nexthopV4 := localAs
  nexthopV6Global := 0
  nexthopV6Local := 0
  sharedNetwork := false
  ifindex := 0
  multiaccess := fun _ => true
  ipv6AddrSame := fun _ => false

/-- `peer_sort` of a neighbour that is not a peer group's template. -/
def peerSort (bgp : Bgp) (peer : Peer) : PeerSort :=
  if bgp.confederation then
    if peer.localAs = 0 then .internal
    else if peer.localAs = peer.as then
      if peer.localAs = bgp.confedId then .ebgp else .ibgp
    else if peer.as ∈ bgp.confedPeers then .confed
    else .ebgp
  else if peer.localAs = 0 then .internal
  else if peer.localAs = peer.as then .ibgp
  else .ebgp

/-- Capability flags of a session, `cap`. -/
structure PeerCap where
  refreshAdv : Bool := false
  refreshOldRcv : Bool := false
  refreshNewRcv : Bool := false
  dynamicAdv : Bool := false
  dynamicRcv : Bool := false
  restartAdv : Bool := false
  restartRcv : Bool := false
  as4Adv : Bool := false
  as4Rcv : Bool := false
  deriving DecidableEq, Repr

end Bgpd.Neighbors
