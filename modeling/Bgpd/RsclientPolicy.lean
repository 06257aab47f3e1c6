import Bgpd.Admission

/-!
# Policy of route-server clients

A route goes into the table of a client through the export map of the neighbour
it comes from, where that neighbour is a client itself, and the import map of the
client. From there it is announced to the client with its attributes as they are:
no preference is filled in, and only a missing next hop is replaced.
-/

namespace Bgpd.RsclientPolicy

open Octets Prefixes AsPath Attributes Neighbors AttrParse Announce Admission

variable (bgp : Bgp)

/-- `bgp_export_modifier`. -/
def bgpExportModifier (rsclient peer : Peer) (p : Prefix) (attr : Attr) (safi : Safi) :
    Option Attr :=
  applyMap ((peer.policy p.family safi).mapExport.map fun map => map rsclient.id) p attr

/-- `bgp_import_modifier`. -/
def bgpImportModifier (rsclient peer : Peer) (p : Prefix) (attr : Attr) (safi : Safi) :
    Option Attr :=
  applyMap ((rsclient.policy p.family safi).mapImport.map fun map => map peer.id) p
    (applyWeight peer attr)

/-- The checks of `bgp_update_rsclient` up to the new attributes. -/
def admitRsclient (rsclient peer : Peer) (p : Prefix) (attr : Attr) (safi : Safi) : Option Attr :=
  if peer.allowasIn p.family safi < aspathLoopCheck (attr.aspath.getD aspathEmpty) rsclient.as then
    none
  else if attr.has .originatorId ∧ rsclient.remoteId = (attr.extra.getD .zero).originatorId then
    none
  else
    let exported :=
      if (peer.afFlags p.family safi).rserverClient then
        bgpExportModifier rsclient peer p attr safi
      else some attr
    match exported.bind fun attr => bgpImportModifier rsclient peer p attr safi with
    | none => none
    | some changed =>
      if p.family = .ip ∧ safi = .unicast ∧ martian changed then none else some changed

/-- The tests of `bgp_announce_check_rsclient` before the attributes are copied. -/
def announceableRsclient (ri : RouteView) (rsclient : Peer) (defaultOriginate : Bool) (p : Prefix)
    (safi : Safi) : Bool :=
  let policy := rsclient.policy p.family safi
  ri.peer.id ≠ rsclient.id
    && !(ri.suppressed && policy.unsuppressMap.isNone)
    && !(defaultOriginate &&
      match p.family with
      | .ip => p.addressZero
      | .ip6 => p.prefixlen = 0)
    && !(ri.attr.has .originatorId
      && rsclient.remoteId = (ri.attr.extra.getD .zero).originatorId)
    && policy.orfPermits p
    && policy.outputFilter p ri.attr

/-- A missing next hop is replaced by our own address. -/
def rsclientNexthop (rsclient : Peer) (attr : Attr) (p : Prefix) (safi : Safi) : Attr :=
  let missing : Bool :=
    match p.family with
    | .ip => attr.nexthop = 0
    | .ip6 => (attr.extra.getD .zero).mpNexthopGlobal = 0
  if missing then ownNexthop rsclient attr p safi else attr

/-- The treatment of the link-local next hop of IPv6 routes. -/
def rsclientNexthopLocal (source rsclient : Peer) (attr : Attr) (p : Prefix) (safi : Safi) : Attr :=
  match p.family with
  | .ip => attr
  | .ip6 =>
    attr.withExtra fun extra =>
      let own : U8 := if in6IsAddrLinklocal extra.mpNexthopLocal then 32 else 16
      if (rsclient.afFlags p.family safi).nexthopLocalUnchanged then
        { extra with mpNexthopLen := own }
      else if rsclient.sharedNetwork ∧ source.sharedNetwork ∧ rsclient.ifindex = source.ifindex then
        { extra with mpNexthopLen := own }
      else if rsclient.sharedNetwork ∧ in6IsAddrLinklocal rsclient.nexthopV6Local then
        { extra with mpNexthopLocal := rsclient.nexthopV6Local, mpNexthopLen := 32 }
      else { extra with mpNexthopLen := 16 }

/-- `bgp_announce_check_rsclient`. -/
def bgpAnnounceCheckRsclient (ri : RouteView) (rsclient : Peer) (defaultOriginate : Bool)
    (p : Prefix) (safi : Safi) : Option Attr :=
  if announceableRsclient ri rsclient defaultOriginate p safi then
    let policy := rsclient.policy p.family safi
    let attr := rsclientNexthop rsclient ri.attr p safi
    let attr := rsclientNexthopLocal ri.peer rsclient attr p safi
    let attr := announceAspath bgp rsclient attr p safi
    applyMap (if ri.suppressed then policy.unsuppressMap else policy.mapOut) p attr
  else none

end Bgpd.RsclientPolicy
