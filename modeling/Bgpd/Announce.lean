import Bgpd.AttrSection

/-!
# Announcing a route to a neighbour

`bgp_announce_check` decides whether a route of the main table goes to a
neighbour and with which attributes, and `bgp_packet_attribute` writes those
attributes to the wire. The first works on the route, the second on what the
first returned; neither removes the MED, and the first supplies a missing
preference.

The writer emits attributes one after the other and computes each length
itself, so a length that does not match its body is a possible result.
-/

namespace Bgpd.Announce

open Octets Prefixes AsPath Attributes Neighbors AttrParse AttrSection

/-- The well-known communities that limit announcements. -/
def communityNoExport : U32 := 0xFFFFFF01
def communityNoAdvertise : U32 := 0xFFFFFF02
def communityNoExportSubconfed : U32 := 0xFFFFFF03

variable (bgp : Bgp)

/-- `bgp_community_filter`: a community forbids the announcement. -/
def bgpCommunityFilter (peer : Peer) (attr : Attr) : Bool :=
  match attr.community with
  | none => false
  | some community =>
    communityNoAdvertise ∈ community
      ∨ (peerSort bgp peer = .ebgp ∧ communityNoExport ∈ community)
      ∨ ((peerSort bgp peer = .ebgp ∨ peerSort bgp peer = .confed) ∧
          communityNoExportSubconfed ∈ community)

/-- What `bgp_announce_check` reads of a route: where it comes from, its
attributes, and whether a summary-only aggregate suppresses it. -/
structure RouteView where
  peer : Peer
  attr : Attr
  suppressed : Bool

/-- A route between two neighbours inside the AS is reflected. -/
def reflects (source peer : Peer) : Bool :=
  peerSort bgp source = .ibgp ∧ peerSort bgp peer = .ibgp

/-- The tests of `bgp_announce_check` before the attributes are copied. The
flag says whether a default route was originated to the neighbour. -/
def announceable (ri : RouteView) (peer : Peer) (defaultOriginate : Bool) (p : Prefix)
    (safi : Safi) : Bool :=
  let flags := peer.afFlags p.family safi
  let sourceFlags := ri.peer.afFlags p.family safi
  let policy := peer.policy p.family safi
  !flags.rserverClient
    && ri.peer.id ≠ peer.id
    && !(match p.family with
      | .ip => peer.remoteId = ri.attr.nexthop
      | .ip6 => peer.ipv6AddrSame ri.attr)
    && !(ri.suppressed && policy.unsuppressMap.isNone)
    && !(defaultOriginate &&
      match p.family with
      | .ip => p.addressZero
      | .ip6 => p.prefixlen = 0)
    -- neighbours with the route-server flag were refused above: never transparent
    && !bgpCommunityFilter bgp peer ri.attr
    && !(ri.attr.has .originatorId
      && peer.remoteId = (ri.attr.extra.getD .zero).originatorId)
    && policy.orfPermits p
    && policy.outputFilter p ri.attr
    && !(bgp.confederation
      && aspathLoopCheck (ri.attr.aspath.getD aspathEmpty) bgp.confedId ≠ 0)
    && !(reflects bgp ri.peer peer &&
      if sourceFlags.reflectorClient then bgp.noClientToClient && flags.reflectorClient
      else !flags.reflectorClient)

/-- A missing preference is filled in for every neighbour with a session. -/
def announceLocalPref (peer : Peer) (attr : Attr) : Attr :=
  if peerSort bgp peer ≠ .internal ∧ attr.has .localPref = false then
    { attr.mark .localPref with localPref := bgp.defaultLocalPref }
  else attr

/-- The next hop goes out as it is: to a neighbour the route is reflected to, and
where the neighbour is configured so and the route has one. -/
def keepsNexthop (source peer : Peer) (attr : Attr) (p : Prefix) (safi : Safi) : Bool :=
  reflects bgp source peer ||
    ((peer.afFlags p.family safi).nexthopUnchanged &&
      match p.family with
      | .ip => attr.nexthop ≠ 0
      | .ip6 => (attr.extra.getD .zero).mpNexthopGlobal ≠ 0)

/-- Our own address replaces the next hop: where the neighbour is configured so,
where the route has none, and towards an external neighbour that does not share
the network of the next hop. -/
def wantsNexthopSelf (peer : Peer) (attr : Attr) (p : Prefix) (safi : Safi) : Bool :=
  (peer.afFlags p.family safi).nexthopSelf
    || (match p.family with
      | .ip => attr.nexthop = 0
      | .ip6 => (attr.extra.getD .zero).mpNexthopGlobal = 0)
    || (peerSort bgp peer = .ebgp && !peer.multiaccess attr.nexthop)

/-- Our own address as the next hop of a family. -/
def ownNexthop (peer : Peer) (attr : Attr) (p : Prefix) (safi : Safi) : Attr :=
  match p.family, safi with
  | .ip, .mplsVpn => attr.withExtra fun extra => { extra with mpNexthopGlobalIn := peer.nexthopV4 }
  | .ip, _ => { attr with nexthop := peer.nexthopV4 }
  | .ip6, _ =>
    attr.withExtra fun extra =>
      { extra with mpNexthopGlobal := peer.nexthopV6Global, mpNexthopLen := 16 }

/-- The next hop `bgp_announce_check` leaves in the attributes. -/
def announceNexthop (source peer : Peer) (attr : Attr) (p : Prefix) (safi : Safi) : Attr :=
  if keepsNexthop bgp source peer attr p safi then attr
  else if wantsNexthopSelf bgp peer attr p safi then ownNexthop peer attr p safi
  else attr

/-- The treatment of the link-local next hop of IPv6 routes. -/
def announceNexthopLocal (source peer : Peer) (attr : Attr) (p : Prefix) (safi : Safi) : Attr :=
  match p.family with
  | .ip => attr
  | .ip6 =>
    attr.withExtra fun extra =>
      if (peer.afFlags p.family safi).nexthopLocalUnchanged then
        { extra with
          mpNexthopLen := if in6IsAddrLinklocal extra.mpNexthopLocal then 32 else 16 }
      else
        let shared := peer.sharedNetwork ∧ peer.nexthopV6Local ≠ 0
        let length : U8 := if shared then 32 else 16
        let length := if reflects bgp source peer then 16 else length
        let length := if in6IsAddrLinklocal peer.nexthopV6Local then length else 16
        { extra with
          mpNexthopLocal := if shared then peer.nexthopV6Local else extra.mpNexthopLocal,
          mpNexthopLen := length }

/-- A path of private AS numbers only is emptied towards an external neighbour
that is configured so. -/
def announceAspath (peer : Peer) (attr : Attr) (p : Prefix) (safi : Safi) : Attr :=
  if peerSort bgp peer = .ebgp && (peer.afFlags p.family safi).removePrivateAs
      && aspathPrivateAsCheck (attr.aspath.getD aspathEmpty) then
    { attr with aspath := some aspathEmpty }
  else attr

/-- The attributes `bgp_announce_check` has assembled when it comes to the route
map. -/
def announceAttr (ri : RouteView) (peer : Peer) (p : Prefix) (safi : Safi) : Attr :=
  let attr := announceLocalPref bgp peer ri.attr
  let attr := announceNexthop bgp ri.peer peer attr p safi
  let attr := announceNexthopLocal bgp ri.peer peer attr p safi
  announceAspath bgp peer attr p safi

/-- `bgp_announce_check`: the attributes to announce, or nothing. A suppressed
route goes through the unsuppress map instead of the outbound one. What a map
changes on a reflected route is dropped. -/
def bgpAnnounceCheck (ri : RouteView) (peer : Peer) (defaultOriginate : Bool) (p : Prefix)
    (safi : Safi) : Option Attr :=
  if announceable bgp ri peer defaultOriginate p safi then
    let policy := peer.policy p.family safi
    let attr := announceAttr bgp ri peer p safi
    match if ri.suppressed then policy.unsuppressMap else policy.mapOut with
    | none => some attr
    | some map =>
      match map p attr with
      | none => none
      | some changed => if reflects bgp ri.peer peer then some attr else some changed
  else none

/-- Everything but the preference and the next hops is as in the route: the MED,
the origin, the flags apart from that of the preference, and that there is a
path. -/
theorem announceAttr_core (ri : RouteView) (peer : Peer) (p : Prefix) (safi : Safi) :
    (announceAttr bgp ri peer p safi).med = ri.attr.med ∧
      (announceAttr bgp ri peer p safi).flag = (announceLocalPref bgp peer ri.attr).flag ∧
      (ri.attr.aspath.isSome = true → (announceAttr bgp ri peer p safi).aspath.isSome = true) := by
  have localPref : (announceLocalPref bgp peer ri.attr).med = ri.attr.med ∧
      (announceLocalPref bgp peer ri.attr).aspath = ri.attr.aspath := by
    unfold announceLocalPref
    split <;> exact ⟨rfl, rfl⟩
  have own (attr : Attr) : (ownNexthop peer attr p safi).med = attr.med ∧
      (ownNexthop peer attr p safi).flag = attr.flag ∧
      (ownNexthop peer attr p safi).aspath = attr.aspath := by
    unfold ownNexthop
    split <;> exact ⟨rfl, rfl, rfl⟩
  have nexthop (attr : Attr) : (announceNexthop bgp ri.peer peer attr p safi).med = attr.med ∧
      (announceNexthop bgp ri.peer peer attr p safi).flag = attr.flag ∧
      (announceNexthop bgp ri.peer peer attr p safi).aspath = attr.aspath := by
    unfold announceNexthop
    split
    · exact ⟨rfl, rfl, rfl⟩
    · split
      · exact own attr
      · exact ⟨rfl, rfl, rfl⟩
  have nexthopLocal (attr : Attr) :
      (announceNexthopLocal bgp ri.peer peer attr p safi).med = attr.med ∧
      (announceNexthopLocal bgp ri.peer peer attr p safi).flag = attr.flag ∧
      (announceNexthopLocal bgp ri.peer peer attr p safi).aspath = attr.aspath := by
    unfold announceNexthopLocal
    split <;> exact ⟨rfl, rfl, rfl⟩
  have path (attr : Attr) : (announceAspath bgp peer attr p safi).med = attr.med ∧
      (announceAspath bgp peer attr p safi).flag = attr.flag ∧
      (attr.aspath.isSome = true → (announceAspath bgp peer attr p safi).aspath.isSome = true) := by
    unfold announceAspath
    split
    · exact ⟨rfl, rfl, fun _ => rfl⟩
    · exact ⟨rfl, rfl, id⟩
  unfold announceAttr
  refine ⟨?_, ?_, fun present => ?_⟩
  · rw [(path _).1, (nexthopLocal _).1, (nexthop _).1, localPref.1]
  · rw [(path _).2.1, (nexthopLocal _).2.1, (nexthop _).2.1]
  · refine (path _).2.2 ?_
    rw [(nexthopLocal _).2.2, (nexthop _).2.2, localPref.2]
    exact present

/-- What is announced is what was assembled, or what a bound map made of it. -/
theorem bgpAnnounceCheck_some (ri : RouteView) (peer : Peer) (defaultOriginate : Bool)
    (p : Prefix) (safi : Safi) (announced : Attr)
    (checked : bgpAnnounceCheck bgp ri peer defaultOriginate p safi = some announced) :
    announceable bgp ri peer defaultOriginate p safi = true ∧
      (announced = announceAttr bgp ri peer p safi ∨
        ∃ map, (if ri.suppressed then (peer.policy p.family safi).unsuppressMap
            else (peer.policy p.family safi).mapOut) = some map ∧
          map p (announceAttr bgp ri peer p safi) = some announced) := by
  unfold bgpAnnounceCheck at checked
  split at checked
  · rename_i passes
    refine ⟨passes, ?_⟩
    dsimp only at checked
    split at checked
    · exact Or.inl (Option.some.inj checked).symm
    · rename_i map chosen
      split at checked
      · cases checked
      · rename_i changed applied
        split at checked
        · exact Or.inl (Option.some.inj checked).symm
        · cases checked
          exact Or.inr ⟨map, chosen, applied⟩
  · cases checked

/-! ## The writer -/

/-- The AS path `bgp_packet_attribute` sends. -/
def sentAspath (peer : Peer) (attr : Attr) (afi : Afi) (safi : Safi) : Aspath :=
  let path := attr.aspath.getD aspathEmpty
  let flags := peer.afFlags afi safi
  if peerSort bgp peer = .ebgp ∧ (!flags.asPathUnchanged ∨ path.segments = [])
      ∧ !flags.rserverClient then
    if bgp.confederation then aspathAddSeq (aspathDeleteConfedSeq path) bgp.confedId
    else
      let path := aspathAddSeq path peer.localAs
      if peer.changeLocalAs ≠ 0 then aspathAddSeq path peer.changeLocalAs else path
  else if peerSort bgp peer = .confed then aspathAddConfedSeq path peer.localAs
  else path

/-- An attribute whose length field is written from a size of its own. -/
def sized (flag : U8) (type : AttrType) (length : Nat) (body : List U8) : Tlv :=
  ⟨flag, type.code, length, body⟩

/-- An attribute whose length takes one octet up to 255 and two beyond. -/
def variableLength (type : AttrType) (body : List U8) : Tlv :=
  let flag := FlagWord.set attrFlagOptional attrFlagTrans
  if body.length > 255 then sized (FlagWord.set flag attrFlagExtlen) type body.length body
  else sized flag type body.length body

/-- The eight octets of an extended community. -/
def putEcommunity (value : BitVec 64) : List U8 :=
  putl (value.extractLsb' 32 32) ++ putl (value.extractLsb' 0 32)

/-- The sixteen octets of an IPv6 address. -/
def putIpv6 (address : BitVec 128) : List U8 :=
  putl (address.extractLsb' 96 32) ++ putl (address.extractLsb' 64 32)
    ++ putl (address.extractLsb' 32 32) ++ putl (address.extractLsb' 0 32)

/-- The MP_REACH_NLRI attribute, whose length is written in one octet. -/
def packetMpReach (attr : Attr) (p : Prefix) (safi : Safi) (prd tag : List U8) : List Tlv :=
  let extra := attr.extra.getD .zero
  let reach (body : List U8) := sized attrFlagOptional .mpReachNlri body.length body
  match p.family, safi with
  | .ip6, safi =>
    let nexthop :=
      if extra.mpNexthopLen = 16 then putIpv6 extra.mpNexthopGlobal
      else if extra.mpNexthopLen = 32 then
        putIpv6 extra.mpNexthopGlobal ++ putIpv6 extra.mpNexthopLocal
      else []
    -- the internal number of the subsequent family is written as it is
    let code : U8 := match safi with | .unicast => 1 | .multicast => 2 | .mplsVpn => 4
    [reach (putw Afi.ip6.code ++ [code, extra.mpNexthopLen] ++ nexthop ++ [0]
      ++ streamPutPrefix p)]
  | .ip, .multicast =>
    [reach (putw Afi.ip.code ++ [2, 4] ++ putl attr.nexthop ++ [0] ++ streamPutPrefix p)]
  | .ip, .mplsVpn =>
    [reach (putw Afi.ip.code ++ [bgpSafiVpnv4, 12] ++ putl 0 ++ putl 0
      ++ putl extra.mpNexthopGlobalIn ++ [0] ++ [BitVec.ofNat 8 (p.prefixlen + 88)]
      ++ tag.take 3 ++ prd.take 8 ++ p.octets)]
  | .ip, .unicast => []

/-- The originator and the cluster list of a reflected route. The length of the
cluster list is written in one octet. -/
def packetReflector (source : Peer) (attr : Attr) : List Tlv :=
  let extra := attr.extra.getD .zero
  let originator := if attr.has .originatorId then extra.originatorId else source.remoteId
  let own := if bgp.configClusterId then bgp.clusterId else bgp.routerId
  let body := putl own ++ (extra.cluster.getD []).flatMap putl
  [sized attrFlagOptional .originatorId 4 (putl originator),
    sized attrFlagOptional .clusterList body.length body]

/-- What `bgp_packet_attribute` writes: attributes, and then the unknown ones it
passes on as octets. -/
structure Packet where
  tlvs : List Tlv
  transit : List U8
  deriving DecidableEq, Repr

/-- The octets of the section. -/
def Packet.encode (packet : Packet) : List U8 := encodeAll packet.tlvs ++ packet.transit

variable (peer : Peer) (cap : PeerCap)

/-- The attributes up to the preference, the part every IPv4 route needs. The
room left in the stream bounds how much of the AS path is written. -/
def packetCore (writeable : Nat) (attr : Attr) (p : Prefix) (safi : Safi) : List Tlv :=
  let path := aspathPut (writeable - 8) (sentAspath bgp peer attr p.family safi) cap.as4Rcv
  let nexthop :=
    if safi = .mplsVpn ∧ attr.nexthop = 0 then peer.nexthopV4 else attr.nexthop
  [.wellKnown .origin [attr.origin],
    sized (FlagWord.set attrFlagTrans attrFlagExtlen) .asPath path.bytes path.octets]
  ++ (if attr.has .nextHop && p.family = .ip then [.wellKnown .nextHop (putl nexthop)] else [])
  ++ (if attr.has .multiExitDisc then [.wellKnown .multiExitDisc (putl attr.med)] else [])
  ++ (if attr.has .localPref then [.wellKnown .localPref (putl attr.localPref)] else [])

/-- The attributes behind the preference. -/
def packetRest (writeable : Nat) (attr : Attr) (p : Prefix) (safi : Safi) (source : Option Peer)
    (prd tag : List U8) (before : List Tlv) : List Tlv :=
  let extra := attr.extra.getD .zero
  let flags := peer.afFlags p.family safi
  let sort := peerSort bgp peer
  let large := extra.aggregatorAs > bgpAsMax
  let optionalTrans := FlagWord.set attrFlagOptional attrFlagTrans
  let tlvs := before
    ++ (if attr.has .atomicAggregate then [.wellKnown .atomicAggregate []] else [])
    ++ (if attr.has .aggregator then
        [if cap.as4Rcv then
          sized optionalTrans .aggregator 8 (putl extra.aggregatorAs ++ putl extra.aggregatorAddr)
        else
          sized optionalTrans .aggregator 6
            ((if large then putw bgpAsTrans else putw (extra.aggregatorAs.setWidth 16))
              ++ putl extra.aggregatorAddr)]
      else [])
    ++ (if flags.sendCommunity && attr.has .communities then
        [variableLength .communities ((attr.community.getD []).flatMap putl)]
      else [])
    ++ (match source with
      | some source => if reflects bgp source peer then packetReflector bgp source attr else []
      | none => [])
    ++ packetMpReach attr p safi prd tag
    ++ (if flags.sendExtCommunity && attr.has .extCommunities then
        let all := extra.ecommunity.getD []
        if sort = .ibgp ∨ sort = .confed then
          [variableLength .extCommunities (all.flatMap putEcommunity)]
        else
          -- outside the AS only the transitive ones are sent, if there are any
          let transitive := all.filter fun value => !value.getLsbD 62
          if transitive = [] then []
          else [variableLength .extCommunities (transitive.flatMap putEcommunity)]
      else [])
  let path := sentAspath bgp peer attr p.family safi
  let tlvs := tlvs ++
    (if !cap.as4Rcv && aspathHasAs4 path then
      let put := aspathPut (writeable - (encodeAll tlvs).length - 4) (aspathDeleteConfedSeq path)
        true
      [sized (FlagWord.set optionalTrans attrFlagExtlen) .as4Path put.bytes put.octets]
    else [])
  tlvs ++
    (if attr.has .aggregator && !cap.as4Rcv && large then
      [sized optionalTrans .as4Aggregator 8
        (putl extra.aggregatorAs ++ putl extra.aggregatorAddr)]
    else [])

/-- `bgp_packet_attribute` into a stream with the given room. Room for
everything but the AS path is taken for granted, since the daemon aborts where
it is missing. -/
def bgpPacketAttribute (writeable : Nat) (attr : Attr) (p : Prefix) (safi : Safi)
    (source : Option Peer) (prd tag : List U8) : Packet where
  tlvs := packetRest bgp peer cap writeable attr p safi source prd tag
    (packetCore bgp peer cap writeable attr p safi)
  transit := ((attr.extra.getD .zero).transit).getD []

end Bgpd.Announce
