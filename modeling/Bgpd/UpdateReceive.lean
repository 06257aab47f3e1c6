import Bgpd.LearnedMetric

/-!
# Receiving an UPDATE

`bgp_update_receive` splits a message into withdrawn routes, attributes and
reachable routes, parses the attributes, and hands each block of prefixes to the
routing tables in a fixed order: withdrawn routes, routes in the body, and then
the multiprotocol attributes family by family. The calls it makes are collected
in that order; what they do is the tables' business.

The five mandatory attributes are only asked for when the body has routes. An
error found there comes after the withdrawn routes have been handed over.

The routes of the body begin at the read pointer. That is behind the attributes when
they have been read, but a message that is to be treated as a withdrawal leaves the
pointer inside the attribute that was malformed.
-/

namespace Bgpd.UpdateReceive

open Octets Prefixes AsPath Attributes Neighbors AttrParse AttrSection

/-- One prefix of a block, with the route distinguisher and the label of VPN
routes. -/
structure NlriEntry where
  p : Prefix
  prd : Option (BitVec 64)
  tag : List U8
  deriving DecidableEq, Repr

/-- What the receiver asks of the routing tables. A block without attributes is
withdrawn. -/
inductive RibCall
  | nlri (attr : Option Attr) (afi : Afi) (safi : Safi) (entries : List NlriEntry)
  | endOfRib (afi : Afi) (safi : Safi)
  deriving DecidableEq, Repr

/-- The bits of octets, most significant first. -/
def bitsOfOctets (octets : List U8) : List Bool :=
  octets.flatMap fun octet => (List.range 8).map fun i => octet.getLsbD (7 - i)

/-- A prefix from its length and its octets, if the length fits the family. -/
def getPrefix (family : Afi) (prefixlen : Nat) (octets : List U8) : Option Prefix :=
  let bits := (bitsOfOctets octets).take prefixlen
  if fits : bits.length ≤ family.bits then some ⟨family, bits, fits⟩ else none

/-- A class D address, by its first four bits. -/
def inClassD (octets : List U8) : Bool := (bitsOfOctets octets).take 4 = [true, true, true, false]

/-- The loop of `bgp_nlri_parse`: the prefixes it hands over before it ends or
gives up. A multicast address in IPv4 unicast ends it; a link-local address in
IPv6 unicast is skipped. -/
def nlriLoop (afi : Afi) (safi : Safi) : Nat → List U8 → List NlriEntry
  | _, [] => []
  | 0, _ => []
  | fuel + 1, length :: rest =>
    let prefixlen := length.toNat
    if afi.bits < prefixlen then []
    else if rest.length < psize prefixlen then []
    else
      let octets := rest.take (psize prefixlen)
      let later := nlriLoop afi safi fuel (rest.drop (psize prefixlen))
      if afi = .ip ∧ safi = .unicast ∧ inClassD octets then []
      else if afi = .ip6 ∧ safi = .unicast ∧
          in6IsAddrLinklocal (getIpv6 (octets ++ List.replicate 16 0)) then later
      else
        match getPrefix afi prefixlen octets with
        | some p => ⟨p, none, []⟩ :: later
        | none => []

/-- `bgp_nlri_parse`, up to the calls it makes. -/
def bgpNlriParse (afi : Afi) (safi : Safi) (nlri : List U8) : List NlriEntry :=
  nlriLoop afi safi nlri.length nlri

/-- The loop of `bgp_nlri_parse_vpnv4`. The length covers label, distinguisher
and prefix. A length beyond that of an address makes the daemon write past the
prefix; the loop ends there. -/
def nlriVpnv4Loop : Nat → List U8 → List NlriEntry
  | _, [] => []
  | 0, _ => []
  | fuel + 1, length :: rest =>
    let prefixlen := length.toNat
    if prefixlen < 88 then []
    else
      let type := getw (rest.drop 3)
      if type ≠ 0 ∧ type ≠ 1 then []
      else if rest.length < psize prefixlen then []
      else
        let octets := (rest.take (psize prefixlen)).drop 11
        match getPrefix .ip (prefixlen - 88) octets with
        | none => []
        | some p =>
          ⟨p, some (getl (rest.drop 3) ++ getl (rest.drop 7)), rest.take 3⟩
            :: nlriVpnv4Loop fuel (rest.drop (psize prefixlen))

/-- `bgp_nlri_parse_vpnv4`, up to the calls it makes. -/
def bgpNlriParseVpnv4 (nlri : List U8) : List NlriEntry := nlriVpnv4Loop nlri.length nlri

/-- The three parts of an UPDATE. -/
structure UpdateParts where
  withdrawn : List U8
  attributes : List U8
  nlri : List U8
  deriving DecidableEq, Repr

/-- The outer framing of an UPDATE: two length fields and the blocks behind
them. On a message too short for either, the subcode of the notification; the
flag tells the two-stage check of the withdrawn routes apart. -/
def updateParts (message : List U8) : Except U8 UpdateParts :=
  if message.length < 2 then .error notifyUpdateMalAttr
  else
    let withdrawLen := (getw message).toNat
    let rest := message.drop 2
    if rest.length < withdrawLen then .error notifyUpdateMalAttr
    else
      let withdrawn := rest.take withdrawLen
      if bgpNlriSanityCheck 1 withdrawn = false then .error notifyUpdateInvalNetwork
      else
        let rest := rest.drop withdrawLen
        if rest.length < 2 then .error notifyUpdateMalAttr
        else
          let attributeLen := (getw rest).toNat
          let rest := rest.drop 2
          if rest.length < attributeLen then .error notifyUpdateMalAttr
          else .ok ⟨withdrawn, rest.take attributeLen, rest.drop attributeLen⟩

/-- The result of receiving a message: whether it was accepted, the neighbour's
metric afterwards, the calls made, and the notifications sent. -/
structure Received where
  ok : Bool
  localMed : U32
  calls : List RibCall
  notifications : List Notify
  deriving DecidableEq, Repr

/-- The calls for one multiprotocol family. An empty withdrawal in a message
without withdrawn routes ends the table. -/
def multiprotocolCalls (peer : Peer) (afi : Afi) (safi : Safi) (attr : Option Attr)
    (parts : UpdateParts) (mpUpdate mpWithdraw : BgpNlri) : List RibCall :=
  let entries (nlri : List U8) : List NlriEntry :=
    if safi = .mplsVpn then bgpNlriParseVpnv4 nlri else bgpNlriParse afi safi nlri
  let own (nlri : BgpNlri) : Bool := nlri.afi = afi.code ∧ nlri.safi = safi.code
  if peer.afc afi safi then
    (if mpUpdate.nlri ≠ [] ∧ own mpUpdate then [.nlri attr afi safi (entries mpUpdate.nlri)]
      else [])
    ++ (if mpWithdraw.nlri ≠ [] ∧ own mpWithdraw then
        [.nlri none afi safi (entries mpWithdraw.nlri)]
      else [])
    ++ (if afi = .ip ∧ safi = .unicast then
        if parts.attributes = [] ∧ parts.withdrawn = [] then [.endOfRib afi safi] else []
      else if parts.withdrawn = [] ∧ own mpWithdraw ∧ mpWithdraw.nlri = [] then
        [.endOfRib afi safi]
      else [])
  else []

/-- The calls `bgp_update_receive` makes once the attributes are parsed, and
whether the message is accepted. -/
def updateCalls (peer : Peer) (parts : UpdateParts) (st : ParseState) (withdraw : Bool) :
    Bool × List RibCall :=
  let attr := if withdraw then none else some st.attr
  let withdrawn : List RibCall :=
    if parts.withdrawn ≠ [] then
      [.nlri none .ip .unicast (bgpNlriParse .ip .unicast parts.withdrawn)]
    else []
  let body : List RibCall :=
    if parts.nlri ≠ [] then [.nlri attr .ip .unicast (bgpNlriParse .ip .unicast parts.nlri)]
    else []
  let others (afi : Afi) (safi : Safi) :=
    multiprotocolCalls peer afi safi attr parts st.mpUpdate st.mpWithdraw
  let rest := others .ip .multicast ++ others .ip6 .unicast ++ others .ip6 .multicast
    ++ others .ip .mplsVpn
  if peer.afc .ip .unicast then
    if parts.nlri ≠ [] ∧ (bgpAttrCheck st.attr).isSome then (false, withdrawn)
    else (true, withdrawn ++ body ++ others .ip .unicast ++ rest)
  else (true, rest)

/-! ## The read pointer -/

/-- The octets that `assegments_parse` has not read when it gives up. The header of
the segment it gives up at has been read, unless there is no more than the header. -/
def assegmentsUnread (use32bit : Bool) : Nat → List U8 → List U8
  | fuel + 1, code :: length :: data =>
    if data.length + 2 ≤ 2 then code :: length :: data
    else if data.length + 2 < assegmentSize length.toNat use32bit ∨ length = 0 then data
    else if (SegmentType.ofCode code).isNone then data
    else assegmentsUnread use32bit fuel (data.drop (assegmentDataSize length.toNat use32bit))
  | _, octets => octets

/-- The octets that `aspath_parse` has not read when it gives up. -/
def aspathUnread (body : List U8) (use32bit : Bool) : List U8 :=
  if body.length % 2 ≠ 0 then body else assegmentsUnread use32bit body.length body

variable (bgp : Bgp) (peer : Peer) (cap : PeerCap)

/-- The octets of the section behind the read pointer when `bgp_attr_parse` returns to
withdraw. Of the handlers that can ask for it the one of AS4_PATH stops where the path
is malformed, and the one of unknown types behind its attribute. -/
def attrUnread : Nat → List U8 → ParseState → List U8
  | fuel + 1, octet :: more, st =>
    match bgpAttrStep bgp peer cap (octet :: more) st, bgpAttrHeader (octet :: more) with
    | (st, .inr rest), _ => attrUnread fuel rest st
    | (_, .inl _), some (_, type, length, rest) =>
      (if type = AttrType.as4Path.code then aspathUnread (rest.take length) true else [])
        ++ rest.drop length
    | (_, .inl _), none => []
  | _, _, _ => []

/-- What `bgp_update_receive` takes for the routes of the body: the octets from the
read pointer to the end of the message. -/
def updateNlri (localMed : U32) (parts : UpdateParts) (ret : ParseRet) : List U8 :=
  if ret = .withdraw then
    attrUnread bgp peer cap parts.attributes.length parts.attributes (.start localMed) ++ parts.nlri
  else parts.nlri

/-- The notification of a missing attribute carries its type. -/
def missingNotification (peer : Peer) (parts : UpdateParts) (attr : Attr) : List Notify :=
  if peer.afc .ip .unicast ∧ parts.nlri ≠ [] then
    match bgpAttrCheck attr with
    | some type => [⟨notifyUpdateMissAttr, [type.code]⟩]
    | none => []
  else []

/-- `bgp_update_receive` on the octets of a message, in an established session
with a neighbour of the given metric. -/
def bgpUpdateReceive (localMed : U32) (message : List U8) : Received :=
  match updateParts message with
  | .error subcode => ⟨false, localMed, [], [⟨subcode, []⟩]⟩
  | .ok parts =>
    let parsed :=
      if parts.attributes = [] then (ParseState.start localMed, ParseRet.proceed)
      else bgpAttrParse bgp peer cap localMed parts.attributes
    match parsed with
    | (st, .error) => ⟨false, st.localMed, [], st.notifications⟩
    | (st, ret) =>
      let parts := { parts with nlri := updateNlri bgp peer cap localMed parts ret }
      if bgpNlriSanityCheck 1 parts.nlri = false then
        ⟨false, st.localMed, [], st.notifications ++ [⟨notifyUpdateInvalNetwork, []⟩]⟩
      else
        let (ok, calls) := updateCalls peer parts st (ret = .withdraw)
        ⟨ok, st.localMed, calls, st.notifications ++ missingNotification peer parts st.attr⟩

end Bgpd.UpdateReceive
