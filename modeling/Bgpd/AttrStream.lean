import Bgpd.AttrParse
import Bgpd.InputStream

/-!
# The attribute section in the input stream

`bgp_attr_parse` and its handlers with the stream they share. A handler is told
the position, flags and stated length of its attribute and finds the body at
the read pointer. Some handlers read through the stream functions, some through
raw pointers, and one writes a flag back into the buffer.

A reader has a value when it returns without failing an assertion. What is done
with the values is the business of `AttrParse`, whose attribute state is used
here; the slices an MP attribute hands on are kept as positions in the stream.
-/

namespace Bgpd.AttrStream

open Octets AsPath Attributes Neighbors Prefixes InputStream
open AttrParse (ParseState ParseRet bgpSafiVpnv4 in6IsAddrLinklocal getIpv6 words
  notifyUpdateMalAttr notifyUpdateUnrecAttr notifyUpdateAttrFlagErr
  notifyUpdateAttrLengErr notifyUpdateInvalOrigin notifyUpdateOptAttrErr
  notifyUpdateInvalNetwork notifyUpdateMalAsPath)

/-! ## Paths -/

/-- An AS number, in four octets or in two. -/
def getAs (use32bit : Bool) (s : Stream) : Option (U32 × Stream) :=
  if use32bit then s.streamGetl
  else s.streamGetw.map fun (word, s) => (word.setWidth 32, s)

/-- The members of a segment. -/
def getMembers (use32bit : Bool) : Nat → Stream → Option (List U32 × Stream)
  | 0, s => some ([], s)
  | count + 1, s => do
    let (member, s) ← getAs use32bit s
    let (members, s) ← getMembers use32bit count s
    return (member :: members, s)

/-- The loop of `assegments_parse`, which has read `bytes` octets of `length`
so far. -/
def assegmentsLoop (use32bit : Bool) (length : Nat) :
    Nat → Nat → List Assegment → Stream → Option (Option (List Assegment) × Stream)
  | fuel, bytes, head, s =>
    if bytes < length then
      match fuel with
      | 0 => none
      | fuel + 1 =>
        if length - bytes ≤ 2 then some (none, s)
        else do
          let (code, s) ← s.streamGetc
          let (members, s) ← s.streamGetc
          let segSize := assegmentSize members.toNat use32bit
          if length < bytes + segSize ∨ members = 0 then return (none, s)
          match SegmentType.ofCode code with
          | none => return (none, s)
          | some type =>
            let (as, s) ← getMembers use32bit members.toNat s
            assegmentsLoop use32bit length fuel (bytes + segSize) (head ++ [⟨type, as⟩]) s
    else some (some head, s)

/-- `assegments_parse`. -/
def assegmentsParse (s : Stream) (length : Nat) (use32bit : Bool) :
    Option (Option (List Assegment) × Stream) :=
  if length = 0 then some (some [], s)
  else if s.endp - s.getp < length ∨ s.endp - s.getp < 2 ∨ length % 2 ≠ 0 then some (none, s)
  else
    (assegmentsLoop use32bit length length 0 [] s).map fun (segments, s) =>
      (segments.map assegmentNormalise, s)

/-- `aspath_parse`. -/
def aspathParse (s : Stream) (length : Nat) (use32bit : Bool) : Option (Option Aspath × Stream) :=
  if length % 2 ≠ 0 then some (none, s)
  else (assegmentsParse s length use32bit).map fun (segments, s) => (segments.map (⟨·⟩), s)

/-! ## Prefixes -/

/-- The loop of `bgp_nlri_sanity_check`, with its final comparison of the two
pointers. -/
def nlriSanityLoop (afi : U16) (last : Nat) : Nat → Nat → Stream → Option (Bool × Stream)
  | fuel, pnt, s =>
    if pnt < last then
      match fuel with
      | 0 => none
      | fuel + 1 =>
        let (octets, s) := s.readAt pnt 1
        let prefixlen := (getc octets).toNat
        if (afi = 1 ∧ prefixlen > 32) ∨ (afi = 2 ∧ prefixlen > 128) then some (false, s)
        else if last < pnt + 1 + psize prefixlen then some (false, s)
        else nlriSanityLoop afi last fuel (pnt + 1 + psize prefixlen) s
    else some (decide (pnt = last), s)

/-- `bgp_nlri_sanity_check`, without the notification it sends. -/
def bgpNlriSanityCheck (s : Stream) (afi : U16) (pnt length : Nat) : Option (Bool × Stream) :=
  nlriSanityLoop afi (pnt + length) length pnt s

/-! ## Communities -/

/-- `community_parse`: reads nothing when it refuses the length. -/
def communityParse (s : Stream) (pnt length : Nat) : Option (List U32) × Stream :=
  if length % 4 ≠ 0 then (none, s)
  else
    let (octets, s) := s.readAt pnt length
    (AttrParse.communityParse octets, s)

/-- `ecommunity_parse`: reads nothing when it refuses the length. -/
def ecommunityParse (s : Stream) (pnt length : Nat) : Option (List (BitVec 64)) × Stream :=
  if length % 8 ≠ 0 then (none, s)
  else
    let (octets, s) := s.readAt pnt length
    (AttrParse.ecommunityParse octets, s)

/-! ## What the walk changes -/

/-- What a handler is told about its attribute. -/
structure Header where
  startp : Nat
  flag : U8
  type : U8
  length : Nat
  deriving DecidableEq, Repr

/-- Octets of the header; the extended-length flag adds one. -/
def Header.width (hdr : Header) : Nat := if FlagWord.check hdr.flag attrFlagExtlen then 4 else 3

/-- `total`: the octets of the whole attribute, in two octets. -/
def Header.total (hdr : Header) : Nat := (hdr.length + hdr.width) % 65536

/-- `struct bgp_nlri` as the MP handlers fill it: a slice of the stream. -/
structure Slice where
  afi : U16
  safi : U8
  nlri : Nat
  length : Nat
  deriving DecidableEq, Repr

/-- An attribute whose handler has returned: where its body began and where the
handler left the read pointer. -/
structure Met extends Header where
  body : Nat
  stop : Nat
  deriving DecidableEq, Repr

/-- The stream, the values read so far, the slices filled so far, and as
history the attributes met so far. -/
structure Reading where
  stream : Stream
  st : ParseState
  mpUpdate : Option Slice
  mpWithdraw : Option Slice
  met : List Met
  deriving DecidableEq

namespace Reading

/-- Before the first attribute. -/
def start (s : Stream) (localMed : U32) : Reading := ⟨s, .start localMed, none, none, []⟩

/-- `bgp_notify_send`. -/
def notifySend (r : Reading) (subcode : U8) : Reading := { r with st := r.st.notify subcode [] }

/-- `bgp_notify_send_with_data`: the data is copied out of the stream. -/
def notifySendWithData (r : Reading) (subcode : U8) (data datalen : Nat) : Reading :=
  let (octets, stream) := r.stream.readAt data datalen
  { r with stream, st := r.st.notify subcode octets }

/-- The attribute set is changed. -/
def modify (r : Reading) (change : Attr → Attr) : Reading :=
  { r with st := { r.st with attr := change r.st.attr } }

/-- A handler that has read its attribute sets the attribute's flag. -/
def accepted (r : Reading) (type : AttrType) : Reading × ParseRet :=
  (r.modify (·.mark type), .proceed)

end Reading

/-! ## Handlers -/

variable (bgp : Bgp) (peer : Peer) (cap : PeerCap)

/-- `bgp_attr_malformed`. -/
def bgpAttrMalformed (type flag subcode : U8) (startp length : Nat) (r : Reading) :
    Reading × ParseRet :=
  let reset := (r.notifySendWithData subcode startp length, ParseRet.error)
  if peerSort bgp peer ≠ .ebgp then reset
  else
    match AttrType.ofCode type with
    | some .as4Aggregator | some .aggregator | some .atomicAggregate => (r, .proceed)
    | some .as4Path | none =>
      if FlagWord.check flag attrFlagTrans && FlagWord.check flag attrFlagOptional
          && FlagWord.check flag attrFlagPartial then (r, .withdraw)
      else (r, .error)
    | some _ => reset

/-- Give up and report the whole attribute. -/
def malformed (type : AttrType) (hdr : Header) (subcode : U8) (r : Reading) : Reading × ParseRet :=
  bgpAttrMalformed bgp peer type.code hdr.flag subcode hdr.startp hdr.total r

/-- Give up without data. -/
def malformedBare (type : AttrType) (hdr : Header) (subcode : U8) (r : Reading) :
    Reading × ParseRet :=
  bgpAttrMalformed bgp peer type.code hdr.flag subcode 0 0 r

/-- `bgp_attr_origin`. -/
def bgpAttrOrigin (hdr : Header) (r : Reading) : Option (Reading × ParseRet) :=
  if hdr.flag ≠ attrFlagTrans then
    some (malformed bgp peer .origin hdr notifyUpdateAttrFlagErr r)
  else if hdr.length ≠ 1 then
    some (malformed bgp peer .origin hdr notifyUpdateAttrLengErr r)
  else do
    let (origin, stream) ← r.stream.streamGetc
    let r := { r with stream }.modify fun attr => { attr with origin }
    if origin ≠ bgpOriginIgp ∧ origin ≠ bgpOriginEgp ∧ origin ≠ bgpOriginIncomplete then
      return malformed bgp peer .origin hdr notifyUpdateInvalOrigin r
    return r.accepted .origin

/-- `bgp_attr_aspath`. -/
def bgpAttrAspath (hdr : Header) (r : Reading) : Option (Reading × ParseRet) :=
  if FlagWord.check hdr.flag attrFlagOptional || !FlagWord.check hdr.flag attrFlagTrans then
    some (malformed bgp peer .asPath hdr notifyUpdateAttrFlagErr r)
  else do
    let (aspath, stream) ← aspathParse r.stream hdr.length cap.as4Rcv
    let r := { r with stream }.modify fun attr => { attr with aspath }
    if aspath.isNone then return malformedBare bgp peer .asPath hdr notifyUpdateMalAsPath r
    return r.accepted .asPath

/-- `bgp_attr_as4_path`. A wrong flag is reported as a malformed AS_PATH. -/
def bgpAttrAs4Path (hdr : Header) (r : Reading) : Option (Reading × ParseRet) :=
  if !FlagWord.check hdr.flag attrFlagOptional || !FlagWord.check hdr.flag attrFlagTrans then
    some (malformed bgp peer .asPath hdr notifyUpdateAttrFlagErr r)
  else do
    let (as4Path, stream) ← aspathParse r.stream hdr.length true
    let r := { r with stream, st := { r.st with as4Path } }
    if as4Path.isNone then return malformedBare bgp peer .as4Path hdr notifyUpdateMalAsPath r
    return r.accepted .as4Path

/-- `bgp_attr_nexthop`. -/
def bgpAttrNexthop (hdr : Header) (r : Reading) : Option (Reading × ParseRet) :=
  if FlagWord.check hdr.flag attrFlagOptional || !FlagWord.check hdr.flag attrFlagTrans then
    some (malformed bgp peer .nextHop hdr notifyUpdateAttrFlagErr r)
  else if hdr.length ≠ 4 then
    some (malformed bgp peer .nextHop hdr notifyUpdateAttrLengErr r)
  else do
    let (nexthop, stream) ← r.stream.streamGetl
    let r := { r with stream }.modify fun attr => { attr with nexthop }
    return r.accepted .nextHop

/-- `bgp_attr_med`. -/
def bgpAttrMed (hdr : Header) (r : Reading) : Option (Reading × ParseRet) :=
  if !FlagWord.check hdr.flag attrFlagTrans || FlagWord.check hdr.flag attrFlagOptional
      || FlagWord.check hdr.flag attrFlagPartial then
    some (r.notifySendWithData notifyUpdateAttrFlagErr hdr.startp hdr.total, .error)
  else if hdr.length ≠ 4 then
    some (malformed bgp peer .multiExitDisc hdr notifyUpdateAttrLengErr r)
  else do
    let (metric, stream) ← r.stream.streamGetl
    let r := { r with stream }.modify fun attr => { attr with med := metric + r.st.localMed }
    return r.accepted .multiExitDisc

/-- `bgp_attr_local_pref`. A body of another length is left unread. -/
def bgpAttrLocalPref (hdr : Header) (r : Reading) : Option (Reading × ParseRet) :=
  if FlagWord.check hdr.flag attrFlagOptional then
    some (r.notifySendWithData notifyUpdateAttrFlagErr hdr.startp hdr.total, .error)
  else if !FlagWord.check hdr.flag attrFlagTrans then
    some (r.notifySendWithData notifyUpdateAttrFlagErr hdr.startp hdr.total, .error)
  else do
    let (localPref, stream) ←
      (if hdr.length = 4 then r.stream.streamGetl else some (0, r.stream))
    let r := { r with stream }.modify fun attr => { attr with localPref }
    if r.st.localMed = (0 : U32) then
      let r := { r with st := { r.st with localMed := localPref } }
      return (r.modify fun attr => { attr with med := attr.med + localPref }).accepted .localPref
    return r.accepted .localPref

/-- `bgp_attr_atomic`. -/
def bgpAttrAtomic (hdr : Header) (r : Reading) : Option (Reading × ParseRet) :=
  if FlagWord.check hdr.flag attrFlagOptional then
    some (r.notifySendWithData notifyUpdateAttrFlagErr hdr.startp hdr.total, .error)
  else if !FlagWord.check hdr.flag attrFlagTrans then
    some (r.notifySendWithData notifyUpdateAttrFlagErr hdr.startp hdr.total, .error)
  else if FlagWord.check hdr.flag attrFlagPartial then
    some (r.notifySendWithData notifyUpdateAttrFlagErr hdr.startp hdr.total, .error)
  else if hdr.length ≠ 0 then
    some (malformedBare bgp peer .atomicAggregate hdr notifyUpdateAttrLengErr r)
  else some (r.accepted .atomicAggregate)

/-- `bgp_attr_aggregator`. -/
def bgpAttrAggregator (hdr : Header) (r : Reading) : Option (Reading × ParseRet) :=
  let r := r.modify (·.withExtra id)
  let wantedlen := if cap.as4Rcv then 8 else 6
  if hdr.length ≠ wantedlen then
    some (malformedBare bgp peer .aggregator hdr notifyUpdateAttrLengErr r)
  else do
    let (aggregatorAs, stream) ← getAs cap.as4Rcv r.stream
    let (aggregatorAddr, stream) ← stream.streamGetl
    let r := { r with stream }.modify
      (·.withExtra fun extra => { extra with aggregatorAs, aggregatorAddr })
    return r.accepted .aggregator

/-- `bgp_attr_as4_aggregator`. -/
def bgpAttrAs4Aggregator (hdr : Header) (r : Reading) : Option (Reading × ParseRet) :=
  if hdr.length ≠ 8 then
    some (malformedBare bgp peer .as4Aggregator hdr notifyUpdateAttrLengErr r)
  else do
    let (as4Aggregator, stream) ← r.stream.streamGetl
    let (as4AggregatorAddr, stream) ← stream.streamGetl
    let r := { r with stream, st := { r.st with as4Aggregator, as4AggregatorAddr } }
    return r.accepted .as4Aggregator

/-- `bgp_attr_community`. -/
def bgpAttrCommunity (hdr : Header) (r : Reading) : Option (Reading × ParseRet) :=
  if hdr.length = 0 then some (r.modify fun attr => { attr with community := none }, .proceed)
  else do
    let (community, stream) := communityParse r.stream r.stream.getp hdr.length
    let stream ← stream.streamForwardGetp hdr.length
    let r := { r with stream }.modify fun attr => { attr with community }
    if community.isNone then
      return malformed bgp peer .communities hdr notifyUpdateOptAttrErr r
    return r.accepted .communities

/-- `bgp_attr_originator_id`. -/
def bgpAttrOriginatorId (hdr : Header) (r : Reading) : Option (Reading × ParseRet) :=
  if hdr.length ≠ 4 then
    some (malformedBare bgp peer .originatorId hdr notifyUpdateAttrLengErr r)
  else do
    let (originatorId, stream) ← r.stream.streamGetl
    let r := { r with stream }.modify (·.withExtra fun extra => { extra with originatorId })
    return r.accepted .originatorId

/-- `bgp_attr_cluster_list`. -/
def bgpAttrClusterList (hdr : Header) (r : Reading) : Option (Reading × ParseRet) :=
  if hdr.length % 4 ≠ 0 then
    some (malformedBare bgp peer .clusterList hdr notifyUpdateAttrLengErr r)
  else do
    let (octets, stream) := r.stream.readAt r.stream.getp hdr.length
    let stream ← stream.streamForwardGetp hdr.length
    let r := { r with stream }.modify
      (·.withExtra fun extra => { extra with cluster := some (words octets) })
    return r.accepted .clusterList

/-- The next hop of `bgp_mp_reach_parse`, by the length its field states. Has no
attribute set for a length that is not known. -/
def mpReachNexthop (length : U8) (attr : Attr) (s : Stream) : Option (Option Attr × Stream) :=
  match length.toNat with
  | 4 => do
    let (octets, s) ← s.streamGet 4
    let attr := attr.withExtra fun extra => { extra with mpNexthopGlobalIn := getl octets }
    if attr.nexthop = 0 then return (some { attr with nexthop := getl octets }, s)
    return (some attr, s)
  | 12 => do
    let (_, s) ← s.streamGetl
    let (_, s) ← s.streamGetl
    let (octets, s) ← s.streamGet 4
    return (some (attr.withExtra fun extra =>
      { extra with mpNexthopGlobalIn := getl octets }), s)
  | 16 => do
    let (octets, s) ← s.streamGet 16
    return (some (attr.withExtra fun extra =>
      { extra with mpNexthopGlobal := getIpv6 octets }), s)
  | 32 => do
    let (first, s) ← s.streamGet 16
    let (second, s) ← s.streamGet 16
    let kept : U8 := if in6IsAddrLinklocal (getIpv6 second) then 32 else 16
    return (some (attr.withExtra fun extra =>
      { extra with
        mpNexthopGlobal := getIpv6 first
        mpNexthopLocal := getIpv6 second
        mpNexthopLen := kept }), s)
  | _ => some (none, s)

/-- The end of both MP handlers: check the prefixes, unless the family has a
layout of its own, hand the slice on and pass it. -/
def mpSlice (afi : U16) (safi : U8) (length : Nat) (r : Reading) :
    Option (Reading × Option Slice) := do
  let (sane, stream) ←
    (if safi ≠ bgpSafiVpnv4 then bgpNlriSanityCheck r.stream afi r.stream.getp length
      else some (true, r.stream))
  if sane then
    let slice : Slice := ⟨afi, safi, stream.getp, length⟩
    let stream ← stream.streamForwardGetp length
    return ({ r with stream }, some slice)
  else return ({ r with stream }.notifySend notifyUpdateInvalNetwork, none)

/-- `LEN_LEFT` of `bgp_mp_reach_parse`, for a body that began at `start`. -/
def lenLeft (hdr : Header) (start : Nat) (s : Stream) : Nat := hdr.length - (s.getp - start)

/-- `bgp_mp_reach_parse` behind the four octets of its fixed header. -/
def mpReachBehind (hdr : Header) (start : Nat) (afi : U16) (safi mpNexthopLen : U8) (r : Reading) :
    Option (Reading × ParseRet) :=
  if lenLeft hdr start r.stream < mpNexthopLen.toNat then some (r, .error)
  else do
    let (attr, stream) ← mpReachNexthop mpNexthopLen r.st.attr r.stream
    match attr with
    | none => return ({ r with stream }, .error)
    | some attr =>
      let r := { r with stream, st := { r.st with attr } }
      if lenLeft hdr start r.stream = 0 then return (r, .error)
      -- the defunct SNPA length
      let (_, stream) ← r.stream.streamGetc
      let r := { r with stream }
      let nlriLen := lenLeft hdr start r.stream
      if nlriLen = 0 ∨ r.stream.endp - r.stream.getp < nlriLen then return (r, .error)
      match ← mpSlice afi safi nlriLen r with
      | (r, none) => return (r, .error)
      | (r, some slice) => return ({ r with mpUpdate := some slice }, .proceed)

/-- `bgp_mp_reach_parse`. -/
def bgpMpReachParse (hdr : Header) (r : Reading) : Option (Reading × ParseRet) :=
  let start := r.stream.getp
  let r := r.modify (·.withExtra id)
  if r.stream.endp - r.stream.getp < hdr.length ∨ hdr.length < 5 then some (r, .error)
  else do
    let (afi, stream) ← r.stream.streamGetw
    let (safi, stream) ← stream.streamGetc
    let (mpNexthopLen, stream) ← stream.streamGetc
    mpReachBehind hdr start afi safi mpNexthopLen
      ({ r with stream }.modify (·.withExtra fun extra => { extra with mpNexthopLen }))

/-- `bgp_mp_unreach_parse`. -/
def bgpMpUnreachParse (hdr : Header) (r : Reading) : Option (Reading × ParseRet) :=
  if r.stream.endp - r.stream.getp < hdr.length ∨ hdr.length < 3 then some (r, .error)
  else do
    let (afi, stream) ← r.stream.streamGetw
    let (safi, stream) ← stream.streamGetc
    match ← mpSlice afi safi (hdr.length - 3) { r with stream } with
    | (r, none) => return (r, .error)
    | (r, some slice) => return ({ r with mpWithdraw := some slice }, .proceed)

/-- `bgp_attr_ext_communities`. -/
def bgpAttrExtCommunities (hdr : Header) (r : Reading) : Option (Reading × ParseRet) :=
  if hdr.length = 0 then
    some (r.modify fun attr =>
      { attr with extra := attr.extra.map fun extra => { extra with ecommunity := none } },
      .proceed)
  else do
    let (ecommunity, stream) := ecommunityParse r.stream r.stream.getp hdr.length
    let stream ← stream.streamForwardGetp hdr.length
    let r := { r with stream }.modify (·.withExtra fun extra => { extra with ecommunity })
    if ecommunity.isNone then
      return malformed bgp peer .extCommunities hdr notifyUpdateOptAttrErr r
    return r.accepted .extCommunities

/-- `bgp_attr_unknown`. The partial flag of an attribute that is kept is set in
the buffer before the attribute is copied. -/
def bgpAttrUnknown (hdr : Header) (r : Reading) : Option (Reading × ParseRet) := do
  let stream ← r.stream.streamForwardGetp hdr.length
  let r := { r with stream }
  if !FlagWord.check hdr.flag attrFlagOptional then
    return bgpAttrMalformed bgp peer hdr.type hdr.flag notifyUpdateUnrecAttr hdr.startp hdr.total r
  if !FlagWord.check hdr.flag attrFlagTrans then return (r, .proceed)
  let (first, stream) := r.stream.readAt hdr.startp 1
  let stream := stream.writeAt hdr.startp (FlagWord.set (getc first) attrFlagPartial)
  let (octets, stream) := stream.readAt hdr.startp hdr.total
  return ({ r with stream }.modify (·.withExtra fun extra =>
    { extra with transit := some (extra.transit.getD [] ++ octets) }), .proceed)

/-- The dispatch on the type code. -/
def bgpAttrHandle (hdr : Header) (r : Reading) : Option (Reading × ParseRet) :=
  match AttrType.ofCode hdr.type with
  | some .origin => bgpAttrOrigin bgp peer hdr r
  | some .asPath => bgpAttrAspath bgp peer cap hdr r
  | some .as4Path => bgpAttrAs4Path bgp peer hdr r
  | some .nextHop => bgpAttrNexthop bgp peer hdr r
  | some .multiExitDisc => bgpAttrMed bgp peer hdr r
  | some .localPref => bgpAttrLocalPref hdr r
  | some .atomicAggregate => bgpAttrAtomic bgp peer hdr r
  | some .aggregator => bgpAttrAggregator bgp peer cap hdr r
  | some .as4Aggregator => bgpAttrAs4Aggregator bgp peer hdr r
  | some .communities => bgpAttrCommunity bgp peer hdr r
  | some .originatorId => bgpAttrOriginatorId bgp peer hdr r
  | some .clusterList => bgpAttrClusterList bgp peer hdr r
  | some .mpReachNlri => bgpMpReachParse hdr r
  | some .mpUnreachNlri => bgpMpUnreachParse hdr r
  | some .extCommunities => bgpAttrExtCommunities bgp peer hdr r
  | none => bgpAttrUnknown bgp peer hdr r

/-! ## The walk -/

/-- The stated length: two octets under the extended-length flag, else one. -/
def getLength (flag : U8) (s : Stream) : Option (Nat × Stream) :=
  if FlagWord.check flag attrFlagExtlen then s.streamGetw.map fun (word, s) => (word.toNat, s)
  else s.streamGetc.map fun (octet, s) => (octet.toNat, s)

/-- After the header: the bitmap, the overflow check, the handler and the check
of what it fetched. -/
def bgpAttrRead (last : Nat) (hdr : Header) (r : Reading) : Option (Reading × Option ParseRet) :=
  if hdr.type ∈ r.st.seen then some (r.notifySend notifyUpdateMalAttr, some .error)
  else
    let r := { r with st := { r.st with seen := hdr.type :: r.st.seen } }
    let body := r.stream.getp
    let attrEndp := body + hdr.length
    if last < attrEndp then some (r.notifySend notifyUpdateAttrLengErr, some .error)
    else do
      let (r, ret) ← bgpAttrHandle bgp peer cap hdr r
      let r := { r with met := r.met ++ [{ hdr with body, stop := r.stream.getp }] }
      match ret with
      | .error => return (r.notifySend notifyUpdateMalAttr, some .error)
      | .withdraw => return (r, some .withdraw)
      | .proceed =>
        if r.stream.getp ≠ attrEndp then
          return (r.notifySend notifyUpdateAttrLengErr, some .error)
        return (r, none)

/-- One turn of the loop of `bgp_attr_parse` with octets left before the end of
the section. Ends the walk with a verdict, or goes on. -/
def bgpAttrTurn (last : Nat) (r : Reading) : Option (Reading × Option ParseRet) :=
  let startp := r.stream.getp
  if last - startp < 3 then some (r.notifySend notifyUpdateAttrLengErr, some .error)
  else do
    let (flag, stream) ← r.stream.streamGetc
    let (type, stream) ← stream.streamGetc
    let r := { r with stream, st := { r.st with flag } }
    if FlagWord.check flag attrFlagExtlen ∧ last - startp < 4 then
      return (r.notifySend notifyUpdateAttrLengErr, some .error)
    let (length, stream) ← getLength flag r.stream
    bgpAttrRead bgp peer cap last ⟨startp, flag, type, length⟩ { r with stream }

/-- The loop of `bgp_attr_parse`. -/
def bgpAttrLoop (last : Nat) : Nat → Reading → Option (Reading × ParseRet)
  | fuel, r =>
    if r.stream.getp < last then
      match fuel with
      | 0 => none
      | fuel + 1 => do
        match ← bgpAttrTurn bgp peer cap last r with
        | (r, some ret) => return (r, ret)
        | (r, none) => bgpAttrLoop last fuel r
    else some (r, .proceed)

/-- `bgp_attr_munge_as4_attrs`. Where both aggregators are weighed the daemon
asserts that the extra block exists. -/
def bgpAttrMungeAs4Attrs (st : ParseState) : Option (ParseState × ParseRet) :=
  if !cap.as4Rcv ∧ !(st.attr.has .as4Path && !st.attr.has .asPath)
      ∧ st.attr.has .as4Aggregator ∧ st.attr.has .aggregator ∧ st.attr.extra.isNone then none
  else some (AttrParse.bgpAttrMungeAs4Attrs bgp peer cap st)

/-- `bgp_attr_parse`: the section of `size` octets at the read pointer, for a
neighbour with the given metric. -/
def bgpAttrParse (localMed : U32) (s : Stream) (size : U16) : Option (Reading × ParseRet) := do
  let last := s.getp + size.toNat
  match ← bgpAttrLoop bgp peer cap last size.toNat (.start s localMed) with
  | (r, .error) => return (r, .error)
  | (r, .withdraw) => return (r, .withdraw)
  | (r, .proceed) =>
    if r.stream.getp ≠ last then return (r.notifySend notifyUpdateAttrLengErr, .error)
    let (st, ret) ← bgpAttrMungeAs4Attrs bgp peer cap r.st
    let r := { r with st }
    if ret ≠ .proceed then return (r, .error)
    if !st.attr.has .asPath then return (r, .proceed)
    let (st, ret) := AttrParse.bgpAttrAspathCheck bgp peer st
    return ({ r with st }, ret)

end Bgpd.AttrStream
