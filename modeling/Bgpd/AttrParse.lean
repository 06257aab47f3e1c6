import Bgpd.Neighbors

/-!
# The attribute section of an UPDATE

`bgp_attr_parse` walks the attributes of a section in wire order. A handler for
each type reads the attribute's body, writes the attribute set, and in two
cases the per-neighbour metric as well. The walk stops at the first hard error
or at an error that turns the message into a withdrawal.

A handler never reads past the body the header announces, so it is given that
body, and reports how much of it it fetched. Every turn of the walk consumes at
least three octets, so fuel equal to the length of the section never runs out.
Notifications are recorded in the order they are sent; log texts are left out.
-/

namespace Bgpd.AttrParse

open Octets Prefixes AsPath Attributes Neighbors

/-- `bgp_attr_parse_ret_t`. -/
inductive ParseRet
  | proceed
  | error
  | withdraw
  deriving DecidableEq, Repr

/-- Subcodes of an UPDATE error notification. -/
def notifyUpdateMalAttr : U8 := 1
def notifyUpdateUnrecAttr : U8 := 2
def notifyUpdateMissAttr : U8 := 3
def notifyUpdateAttrFlagErr : U8 := 4
def notifyUpdateAttrLengErr : U8 := 5
def notifyUpdateInvalOrigin : U8 := 6
def notifyUpdateOptAttrErr : U8 := 9
def notifyUpdateInvalNetwork : U8 := 10
def notifyUpdateMalAsPath : U8 := 11

/-- An UPDATE error notification: its subcode and its data. -/
structure Notify where
  subcode : U8
  data : List U8
  deriving DecidableEq, Repr

/-- An attribute as it stands on the wire. The length is the one its header
states, which a writer may get wrong. -/
structure Tlv where
  flag : U8
  type : U8
  length : Nat
  body : List U8
  deriving DecidableEq, Repr

/-- The header and the body; the extended-length flag selects a two-octet
length. -/
def Tlv.encode (tlv : Tlv) : List U8 :=
  tlv.flag :: tlv.type ::
    ((if FlagWord.check tlv.flag attrFlagExtlen then putw (BitVec.ofNat 16 tlv.length)
      else [BitVec.ofNat 8 tlv.length]) ++ tlv.body)

/-- The stated length is the length of the body and fits its field. -/
structure Tlv.Framed (tlv : Tlv) : Prop where
  exact : tlv.length = tlv.body.length
  fits : tlv.length < if FlagWord.check tlv.flag attrFlagExtlen then 65536 else 256

instance (tlv : Tlv) : Decidable tlv.Framed :=
  decidable_of_iff
    (tlv.length = tlv.body.length ∧
      tlv.length < if FlagWord.check tlv.flag attrFlagExtlen then 65536 else 256)
    ⟨fun both => ⟨both.1, both.2⟩, fun framed => ⟨framed.exact, framed.fits⟩⟩

/-- A well-known transitive attribute with a one-octet length. -/
def Tlv.wellKnown (type : AttrType) (body : List U8) : Tlv :=
  ⟨attrFlagTrans, type.code, body.length, body⟩

/-- The local variables of `bgp_attr_parse` and everything its handlers write. -/
structure ParseState where
  attr : Attr
  /-- `peer->local_med`. -/
  localMed : U32
  as4Path : Option Aspath
  as4Aggregator : U32
  as4AggregatorAddr : U32
  mpUpdate : BgpNlri
  mpWithdraw : BgpNlri
  /-- Types met so far, the set bits of the bitmap. -/
  seen : List U8
  /-- The flag octet read last. -/
  flag : U8
  notifications : List Notify
  deriving DecidableEq, Repr

/-- The state before the first attribute. -/
def ParseState.start (localMed : U32) : ParseState where
  attr := .zero
  localMed := localMed
  as4Path := none
  as4Aggregator := 0
  as4AggregatorAddr := 0
  mpUpdate := .zero
  mpWithdraw := .zero
  seen := []
  flag := 0
  notifications := []

/-- `bgp_notify_send_with_data` with the UPDATE error code. -/
def ParseState.notify (st : ParseState) (subcode : U8) (data : List U8) : ParseState :=
  { st with notifications := st.notifications ++ [⟨subcode, data⟩] }

/-- A handler's result: the new state, the verdict, and the octets fetched. -/
structure Handled where
  state : ParseState
  ret : ParseRet
  fetched : Nat

variable (bgp : Bgp) (peer : Peer) (cap : PeerCap)

/-- `bgp_attr_malformed`. Only neighbours outside the AS are treated leniently,
and there only attributes that cannot influence the route are skipped. -/
def bgpAttrMalformed (type flag subcode : U8) (data : List U8) (st : ParseState) :
    ParseState × ParseRet :=
  if peerSort bgp peer ≠ .ebgp then (st.notify subcode data, .error)
  else
    match AttrType.ofCode type with
    | some .as4Aggregator | some .aggregator | some .atomicAggregate => (st, .proceed)
    | some .as4Path | none =>
      if FlagWord.check flag attrFlagTrans && FlagWord.check flag attrFlagOptional
          && FlagWord.check flag attrFlagPartial then (st, .withdraw)
      else (st, .error)
    | some _ => (st.notify subcode data, .error)

/-- A handler that gives up through `bgp_attr_malformed` before it fetches. -/
def malformed (type : AttrType) (flag subcode : U8) (data : List U8) (st : ParseState)
    (fetched : Nat) : Handled :=
  let (st, ret) := bgpAttrMalformed bgp peer type.code flag subcode data st
  ⟨st, ret, fetched⟩

/-- A handler that has read its attribute and flags it as present. -/
def accepted (type : AttrType) (st : ParseState) (attr : Attr) (fetched : Nat) : Handled :=
  ⟨{ st with attr := attr.mark type }, .proceed, fetched⟩

/-- `bgp_attr_origin`. -/
def bgpAttrOrigin (tlv : Tlv) (st : ParseState) : Handled :=
  if tlv.flag ≠ attrFlagTrans then
    malformed bgp peer .origin tlv.flag notifyUpdateAttrFlagErr tlv.encode st 0
  else if tlv.length ≠ 1 then
    malformed bgp peer .origin tlv.flag notifyUpdateAttrLengErr tlv.encode st 0
  else
    let attr := { st.attr with origin := getc tlv.body }
    if attr.origin ≠ bgpOriginIgp ∧ attr.origin ≠ bgpOriginEgp
        ∧ attr.origin ≠ bgpOriginIncomplete then
      malformed bgp peer .origin tlv.flag notifyUpdateInvalOrigin tlv.encode
        { st with attr } 1
    else accepted .origin st attr 1

/-- `bgp_attr_aspath`. -/
def bgpAttrAspath (tlv : Tlv) (st : ParseState) : Handled :=
  if FlagWord.check tlv.flag attrFlagOptional || !FlagWord.check tlv.flag attrFlagTrans then
    malformed bgp peer .asPath tlv.flag notifyUpdateAttrFlagErr tlv.encode st 0
  else
    let attr := { st.attr with aspath := aspathParse tlv.body cap.as4Rcv }
    if attr.aspath.isNone then
      malformed bgp peer .asPath tlv.flag notifyUpdateMalAsPath [] { st with attr } 0
    else accepted .asPath st attr tlv.length

/-- `bgp_attr_as4_path`. A wrong flag is reported as a malformed AS_PATH. -/
def bgpAttrAs4Path (tlv : Tlv) (st : ParseState) : Handled :=
  if !FlagWord.check tlv.flag attrFlagOptional || !FlagWord.check tlv.flag attrFlagTrans then
    malformed bgp peer .asPath tlv.flag notifyUpdateAttrFlagErr tlv.encode st 0
  else
    let st := { st with as4Path := aspathParse tlv.body true }
    if st.as4Path.isNone then
      malformed bgp peer .as4Path tlv.flag notifyUpdateMalAsPath [] st 0
    else accepted .as4Path st st.attr tlv.length

/-- `bgp_attr_nexthop`. -/
def bgpAttrNexthop (tlv : Tlv) (st : ParseState) : Handled :=
  if FlagWord.check tlv.flag attrFlagOptional || !FlagWord.check tlv.flag attrFlagTrans then
    malformed bgp peer .nextHop tlv.flag notifyUpdateAttrFlagErr tlv.encode st 0
  else if tlv.length ≠ 4 then
    malformed bgp peer .nextHop tlv.flag notifyUpdateAttrLengErr tlv.encode st 0
  else accepted .nextHop st { st.attr with nexthop := getl tlv.body } 4

/-- `bgp_attr_med`. The stored value is what the neighbour sent plus the
neighbour's metric so far, in four octets. -/
def bgpAttrMed (tlv : Tlv) (st : ParseState) : Handled :=
  if !FlagWord.check tlv.flag attrFlagTrans || FlagWord.check tlv.flag attrFlagOptional
      || FlagWord.check tlv.flag attrFlagPartial then
    ⟨st.notify notifyUpdateAttrFlagErr tlv.encode, .error, 0⟩
  else if tlv.length ≠ 4 then
    malformed bgp peer .multiExitDisc tlv.flag notifyUpdateAttrLengErr tlv.encode st 0
  else accepted .multiExitDisc st { st.attr with med := getl tlv.body + st.localMed } 4

/-- `bgp_attr_local_pref`. The first preference heard that is not zero becomes
the neighbour's metric, and is added to the MED, whether or not that has been
read yet. A body of another length is not fetched and counts as zero. -/
def bgpAttrLocalPref (tlv : Tlv) (st : ParseState) : Handled :=
  if FlagWord.check tlv.flag attrFlagOptional then
    ⟨st.notify notifyUpdateAttrFlagErr tlv.encode, .error, 0⟩
  else if !FlagWord.check tlv.flag attrFlagTrans then
    ⟨st.notify notifyUpdateAttrFlagErr tlv.encode, .error, 0⟩
  else
    let attr := { st.attr with localPref := if tlv.length = 4 then getl tlv.body else 0 }
    let fetched := if tlv.length = 4 then 4 else 0
    if st.localMed = 0 then
      let localMed := attr.localPref
      accepted .localPref { st with localMed } { attr with med := attr.med + localMed } fetched
    else accepted .localPref st attr fetched

/-- `bgp_attr_atomic`. -/
def bgpAttrAtomic (tlv : Tlv) (st : ParseState) : Handled :=
  if FlagWord.check tlv.flag attrFlagOptional then
    ⟨st.notify notifyUpdateAttrFlagErr tlv.encode, .error, 0⟩
  else if !FlagWord.check tlv.flag attrFlagTrans then
    ⟨st.notify notifyUpdateAttrFlagErr tlv.encode, .error, 0⟩
  else if FlagWord.check tlv.flag attrFlagPartial then
    ⟨st.notify notifyUpdateAttrFlagErr tlv.encode, .error, 0⟩
  else if tlv.length ≠ 0 then
    malformed bgp peer .atomicAggregate tlv.flag notifyUpdateAttrLengErr [] st 0
  else accepted .atomicAggregate st st.attr 0

/-- `bgp_attr_aggregator`. The extra block is allocated before the length is
checked. -/
def bgpAttrAggregator (tlv : Tlv) (st : ParseState) : Handled :=
  let st := { st with attr := st.attr.withExtra id }
  let wantedlen := if cap.as4Rcv then 8 else 6
  if tlv.length ≠ wantedlen then
    malformed bgp peer .aggregator tlv.flag notifyUpdateAttrLengErr [] st 0
  else
    let attr := st.attr.withExtra fun extra =>
      if cap.as4Rcv then
        { extra with aggregatorAs := getl tlv.body, aggregatorAddr := getl (tlv.body.drop 4) }
      else
        { extra with
          aggregatorAs := (getw tlv.body).setWidth 32, aggregatorAddr := getl (tlv.body.drop 2) }
    accepted .aggregator st attr wantedlen

/-- `bgp_attr_as4_aggregator`. -/
def bgpAttrAs4Aggregator (tlv : Tlv) (st : ParseState) : Handled :=
  if tlv.length ≠ 8 then
    malformed bgp peer .as4Aggregator tlv.flag notifyUpdateAttrLengErr [] st 0
  else
    let st := { st with
      as4Aggregator := getl tlv.body, as4AggregatorAddr := getl (tlv.body.drop 4) }
    accepted .as4Aggregator st st.attr 8

/-- The four-octet words of a body, dropping an incomplete tail. -/
def words : List U8 → List U32
  | a :: b :: c :: d :: rest => getl [a, b, c, d] :: words rest
  | _ => []

/-- The eight-octet words of a body, dropping an incomplete tail. -/
def doubleWords : List U8 → List (BitVec 64)
  | a :: b :: c :: d :: e :: f :: g :: h :: rest =>
    (getl [a, b, c, d] ++ getl [e, f, g, h]) :: doubleWords rest
  | _ => []

/-- `community_parse`: sorted, without repetition. -/
def communityParse (body : List U8) : Option (List U32) :=
  if body.length % 4 ≠ 0 then none
  else some ((words body).dedup.insertionSort (· ≤ ·))

/-- `ecommunity_parse`: sorted by octets, without repetition. -/
def ecommunityParse (body : List U8) : Option (List (BitVec 64)) :=
  if body.length % 8 ≠ 0 then none
  else some ((doubleWords body).dedup.insertionSort (· ≤ ·))

/-- `bgp_attr_community`. An empty attribute clears the value and is not
flagged. -/
def bgpAttrCommunity (tlv : Tlv) (st : ParseState) : Handled :=
  if tlv.length = 0 then ⟨{ st with attr := { st.attr with community := none } }, .proceed, 0⟩
  else
    let attr := { st.attr with community := communityParse tlv.body }
    if attr.community.isNone then
      malformed bgp peer .communities tlv.flag notifyUpdateOptAttrErr tlv.encode
        { st with attr } tlv.length
    else accepted .communities st attr tlv.length

/-- `bgp_attr_originator_id`. -/
def bgpAttrOriginatorId (tlv : Tlv) (st : ParseState) : Handled :=
  if tlv.length ≠ 4 then
    malformed bgp peer .originatorId tlv.flag notifyUpdateAttrLengErr [] st 0
  else
    accepted .originatorId st
      (st.attr.withExtra fun extra => { extra with originatorId := getl tlv.body }) 4

/-- `bgp_attr_cluster_list`. -/
def bgpAttrClusterList (tlv : Tlv) (st : ParseState) : Handled :=
  if tlv.length % 4 ≠ 0 then
    malformed bgp peer .clusterList tlv.flag notifyUpdateAttrLengErr [] st 0
  else
    accepted .clusterList st
      (st.attr.withExtra fun extra => { extra with cluster := some (words tlv.body) }) tlv.length

/-- The loop of `bgp_nlri_sanity_check`. Only the two IP families have a limit
on the prefix length. -/
def nlriSanityLoop (afi : U16) : Nat → List U8 → Bool
  | _, [] => true
  | 0, _ => false
  | fuel + 1, prefixlen :: rest =>
    if (afi = 1 ∧ prefixlen.toNat > 32) ∨ (afi = 2 ∧ prefixlen.toNat > 128) then false
    else if rest.length < psize prefixlen.toNat then false
    else nlriSanityLoop afi fuel (rest.drop (psize prefixlen.toNat))

/-- `bgp_nlri_sanity_check`. -/
def bgpNlriSanityCheck (afi : U16) (nlri : List U8) : Bool :=
  nlriSanityLoop afi nlri.length nlri

/-- `IN6_IS_ADDR_LINKLOCAL`. -/
def in6IsAddrLinklocal (address : BitVec 128) : Bool := address.extractLsb' 118 10 = 0x3FA#10

/-- Sixteen octets as an IPv6 address. -/
def getIpv6 (octets : List U8) : BitVec 128 :=
  getl octets ++ getl (octets.drop 4) ++ getl (octets.drop 8) ++ getl (octets.drop 12)

/-- `BGP_SAFI_VPNV4`. -/
def bgpSafiVpnv4 : U8 := 128

/-- The next hop part of `bgp_mp_reach_parse`, by the length its field states.
Returns nothing for a length that is not known. -/
def mpReachNexthop (attr : Attr) (octets : List U8) (length : U8) : Option Attr :=
  match length.toNat with
  | 4 =>
    let attr := attr.withExtra fun extra => { extra with mpNexthopGlobalIn := getl octets }
    if attr.nexthop = 0 then some { attr with nexthop := getl octets } else some attr
  | 12 =>
    -- the eight octets of route distinguisher are read and dropped
    some (attr.withExtra fun extra => { extra with mpNexthopGlobalIn := getl (octets.drop 8) })
  | 16 => some (attr.withExtra fun extra => { extra with mpNexthopGlobal := getIpv6 octets })
  | 32 =>
    let second := getIpv6 (octets.drop 16)
    let kept : U8 := if in6IsAddrLinklocal second then 32 else 16
    some (attr.withExtra fun extra =>
      { extra with
        mpNexthopGlobal := getIpv6 octets, mpNexthopLocal := second, mpNexthopLen := kept })
  | _ => none

/-- `bgp_mp_reach_parse`. What it wrote before an error is not kept: an error
discards the attribute set. -/
def bgpMpReachParse (tlv : Tlv) (st : ParseState) : Handled :=
  let failed : Handled := ⟨st, .error, 0⟩
  if tlv.length < 5 then failed
  else
    let afi := getw tlv.body
    let safi := getc (tlv.body.drop 2)
    let nexthopLen := getc (tlv.body.drop 3)
    let attr := st.attr.withExtra fun extra => { extra with mpNexthopLen := nexthopLen }
    let rest := tlv.body.drop 4
    if rest.length < nexthopLen.toNat then failed
    else
      match mpReachNexthop attr rest nexthopLen with
      | none => failed
      | some attr =>
        let rest := rest.drop nexthopLen.toNat
        if rest.length = 0 then failed
        else
          -- one octet for the defunct SNPA length
          let nlri := rest.drop 1
          if nlri.length = 0 then failed
          else if safi ≠ bgpSafiVpnv4 ∧ bgpNlriSanityCheck afi nlri = false then
            ⟨st.notify notifyUpdateInvalNetwork [], .error, 0⟩
          else ⟨{ st with attr, mpUpdate := ⟨afi, safi, nlri⟩ }, .proceed, tlv.length⟩

/-- `bgp_mp_unreach_parse`. -/
def bgpMpUnreachParse (tlv : Tlv) (st : ParseState) : Handled :=
  if tlv.length < 3 then ⟨st, .error, 0⟩
  else
    let afi := getw tlv.body
    let safi := getc (tlv.body.drop 2)
    let nlri := tlv.body.drop 3
    if safi ≠ bgpSafiVpnv4 ∧ bgpNlriSanityCheck afi nlri = false then
      ⟨st.notify notifyUpdateInvalNetwork [], .error, 0⟩
    else ⟨{ st with mpWithdraw := ⟨afi, safi, nlri⟩ }, .proceed, tlv.length⟩

/-- `bgp_attr_ext_communities`. -/
def bgpAttrExtCommunities (tlv : Tlv) (st : ParseState) : Handled :=
  if tlv.length = 0 then
    let extra := st.attr.extra.map fun extra => { extra with ecommunity := none }
    ⟨{ st with attr := { st.attr with extra } }, .proceed, 0⟩
  else
    let ecommunity := ecommunityParse tlv.body
    let attr := st.attr.withExtra fun extra => { extra with ecommunity }
    if ecommunity.isNone then
      malformed bgp peer .extCommunities tlv.flag notifyUpdateOptAttrErr tlv.encode
        { st with attr } tlv.length
    else accepted .extCommunities st attr tlv.length

/-- `bgp_attr_unknown`. A transitive optional attribute is kept with its
partial flag set. -/
def bgpAttrUnknown (tlv : Tlv) (st : ParseState) : Handled :=
  if !FlagWord.check tlv.flag attrFlagOptional then
    let (st, ret) := bgpAttrMalformed bgp peer tlv.type tlv.flag notifyUpdateUnrecAttr tlv.encode st
    ⟨st, ret, tlv.length⟩
  else if !FlagWord.check tlv.flag attrFlagTrans then ⟨st, .proceed, tlv.length⟩
  else
    let kept : Tlv := { tlv with flag := FlagWord.set tlv.flag attrFlagPartial }
    let attr := st.attr.withExtra fun extra =>
      { extra with transit := some (extra.transit.getD [] ++ kept.encode) }
    ⟨{ st with attr }, .proceed, tlv.length⟩

/-- The dispatch on the type code. -/
def bgpAttrHandle (tlv : Tlv) (st : ParseState) : Handled :=
  match AttrType.ofCode tlv.type with
  | some .origin => bgpAttrOrigin bgp peer tlv st
  | some .asPath => bgpAttrAspath bgp peer cap tlv st
  | some .as4Path => bgpAttrAs4Path bgp peer tlv st
  | some .nextHop => bgpAttrNexthop bgp peer tlv st
  | some .multiExitDisc => bgpAttrMed bgp peer tlv st
  | some .localPref => bgpAttrLocalPref tlv st
  | some .atomicAggregate => bgpAttrAtomic bgp peer tlv st
  | some .aggregator => bgpAttrAggregator bgp peer cap tlv st
  | some .as4Aggregator => bgpAttrAs4Aggregator bgp peer tlv st
  | some .communities => bgpAttrCommunity bgp peer tlv st
  | some .originatorId => bgpAttrOriginatorId bgp peer tlv st
  | some .clusterList => bgpAttrClusterList bgp peer tlv st
  | some .mpReachNlri => bgpMpReachParse tlv st
  | some .mpUnreachNlri => bgpMpUnreachParse tlv st
  | some .extCommunities => bgpAttrExtCommunities bgp peer tlv st
  | none => bgpAttrUnknown bgp peer tlv st

/-- Run the handler of an attribute and check its verdict and the octets it
fetched. The result is the verdict that ends the walk, if there is one. -/
def bgpAttrRead (tlv : Tlv) (st : ParseState) : ParseState × Option ParseRet :=
  let handled := bgpAttrHandle bgp peer cap tlv st
  match handled.ret with
  | .error => (handled.state.notify notifyUpdateMalAttr [], some .error)
  | .withdraw => (handled.state, some .withdraw)
  | .proceed =>
    if handled.fetched = tlv.length then (handled.state, none)
    else (handled.state.notify notifyUpdateAttrLengErr [], some .error)

/-- The header of the first attribute: flag octet, type, stated length, and the
octets behind it. A section too short to hold the header has none. -/
def bgpAttrHeader : List U8 → Option (U8 × U8 × Nat × List U8)
  | flag :: type :: low :: rest =>
    if FlagWord.check flag attrFlagExtlen then
      match rest with
      | high :: rest => some (flag, type, (getw [low, high]).toNat, rest)
      | [] => none
    else some (flag, type, low.toNat, rest)
  | _ => none

/-- One turn of the loop of `bgp_attr_parse` on a section that is not empty.
The type is entered in the bitmap before the length is checked against the end
of the section. Either the walk ends with a verdict, or it goes on with the
rest of the section. -/
def bgpAttrStep (octets : List U8) (st : ParseState) : ParseState × (ParseRet ⊕ List U8) :=
  match bgpAttrHeader octets with
  | none => (st.notify notifyUpdateAttrLengErr [], .inl .error)
  | some (flag, type, length, rest) =>
    if type ∈ st.seen then ({ st with flag }.notify notifyUpdateMalAttr [], .inl .error)
    else
      let st := { st with flag, seen := type :: st.seen }
      if rest.length < length then (st.notify notifyUpdateAttrLengErr [], .inl .error)
      else
        match bgpAttrRead bgp peer cap ⟨flag, type, length, rest.take length⟩ st with
        | (st, some ret) => (st, .inl ret)
        | (st, none) => (st, .inr (rest.drop length))

/-- The loop of `bgp_attr_parse`. No turn goes past the end of the section, so
the daemon's final comparison of the two pointers never fails and is left out. -/
def bgpAttrLoop : Nat → List U8 → ParseState → ParseState × ParseRet
  | _, [], st => (st, .proceed)
  | 0, _ :: _, st => (st, .error)
  | fuel + 1, octet :: more, st =>
    match bgpAttrStep bgp peer cap (octet :: more) st with
    | (st, .inl ret) => (st, ret)
    | (st, .inr rest) => bgpAttrLoop fuel rest st

/-- A two-octet aggregator other than `AS_TRANS` is the aggregating speaker, and
then neither four-octet attribute counts. -/
def ignoreAs4Path (st : ParseState) : Bool :=
  st.attr.has .as4Aggregator && st.attr.has .aggregator
    && (st.attr.extra.getD .zero).aggregatorAs ≠ bgpAsTrans.setWidth 32

/-- The aggregator part of `bgp_attr_munge_as4_attrs`. Without a two-octet
AGGREGATOR only the AS number is taken over, not the address. -/
def mungeAggregator (st : ParseState) : Attr :=
  if st.attr.has .as4Aggregator then
    if st.attr.has .aggregator then
      if ignoreAs4Path st then st.attr
      else
        st.attr.withExtra fun extra =>
          { extra with
            aggregatorAs := st.as4Aggregator, aggregatorAddr := st.as4AggregatorAddr }
    else
      (st.attr.withExtra fun extra => { extra with aggregatorAs := st.as4Aggregator }).mark
        .aggregator
  else st.attr

/-- The path part of `bgp_attr_munge_as4_attrs`. Both paths are flagged here,
so neither is null. -/
def mungeAspath (st : ParseState) (aspath : Option Aspath) : Option Aspath :=
  if !ignoreAs4Path st && st.attr.has .as4Path then
    match aspath, st.as4Path with
    | some path, some as4path => some (aspathReconcileAs4 path as4path)
    | _, _ => aspath
  else aspath

/-- `bgp_attr_munge_as4_attrs`. -/
def bgpAttrMungeAs4Attrs (st : ParseState) : ParseState × ParseRet :=
  if cap.as4Rcv then (st, .proceed)
  else if st.attr.has .as4Path && !st.attr.has .asPath then
    bgpAttrMalformed bgp peer AttrType.asPath.code st.flag notifyUpdateMalAttr [] st
  else
    let attr := mungeAggregator st
    ({ st with attr := { attr with aspath := mungeAspath st attr.aspath } }, .proceed)

/-- `bgp_attr_aspath_check`. The path is flagged, so it is not null. -/
def bgpAttrAspathCheck (st : ParseState) : ParseState × ParseRet :=
  let path := st.attr.aspath.getD aspathEmpty
  let refused :=
    bgpAttrMalformed bgp peer AttrType.asPath.code st.flag notifyUpdateMalAsPath [] st
  if (peerSort bgp peer = .confed ∧ !aspathLeftConfedCheck path)
      ∨ (peerSort bgp peer = .ebgp ∧ aspathConfedCheck path) then refused
  else if bgp.enforceFirstAs ∧ peerSort bgp peer = .ebgp
      ∧ !aspathFirstasCheck path peer.as then refused
  else if peer.changeLocalAs ≠ 0 ∧ !peer.localAsNoPrepend then
    ({ st with attr := { st.attr with
        aspath := some (aspathAddSeq path peer.changeLocalAs) } }, .proceed)
  else (st, .proceed)

/-- `bgp_attr_parse` on the octets of a section, for a neighbour with the given
metric. -/
def bgpAttrParse (localMed : U32) (octets : List U8) : ParseState × ParseRet :=
  match bgpAttrLoop bgp peer cap octets.length octets (.start localMed) with
  | (st, .error) => (st, .error)
  | (st, .withdraw) => (st, .withdraw)
  | (st, .proceed) =>
    match bgpAttrMungeAs4Attrs bgp peer cap st with
    | (st, .error) | (st, .withdraw) => (st, .error)
    | (st, .proceed) =>
      if st.attr.has .asPath then bgpAttrAspathCheck bgp peer st else (st, .proceed)

/-- `bgp_attr_check`: the type the daemon reports as missing, the last one it
tests for that is absent. The second test of LOCAL_PREF, for neighbours inside
the AS, cannot change the answer of the first. -/
def bgpAttrCheck (attr : Attr) : Option AttrType :=
  if !attr.has .localPref then some .localPref
  else if !attr.has .multiExitDisc then some .multiExitDisc
  else if !attr.has .nextHop then some .nextHop
  else if !attr.has .asPath then some .asPath
  else if !attr.has .origin then some .origin
  else none

end Bgpd.AttrParse
