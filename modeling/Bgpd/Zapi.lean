import Bgpd.RibRoutes
import Bgpd.UpdateReceive

/-!
# Route messages between the daemons

A client writes a route with all its next hops into one message. The manager reads
it in two ways: what adds a route builds a chain of next hops, what deletes one keeps
the last gateway and the last interface it reads.
-/

namespace Bgpd.Zapi

open Octets FlagWord Prefixes ZebraRib RibQueue RibRoutes
open UpdateReceive (getPrefix)

/-! ## Numbers on the wire -/

/-- The number of a kind of route. -/
def routeTypeCode : RouteType → U8
  | .system => 0
  | .kernel => 1
  | .connect => 2
  | .static => 3
  | .rip => 4
  | .ripng => 5
  | .ospf => 6
  | .ospf6 => 7
  | .isis => 8
  | .bgp => 9
  | .hsls => 10

/-- `ZAPI_MESSAGE_NEXTHOP`, `ZAPI_MESSAGE_DISTANCE` and `ZAPI_MESSAGE_METRIC`. -/
def zapiMessageNexthop : U8 := 0x01
def zapiMessageDistance : U8 := 0x04
def zapiMessageMetric : U8 := 0x08

/-- `ZEBRA_NEXTHOP_*`. -/
def zebraNexthopIfindex : U8 := 1
def zebraNexthopIfname : U8 := 2
def zebraNexthopIpv4 : U8 := 3
def zebraNexthopIpv6 : U8 := 6
def zebraNexthopBlackhole : U8 := 9

/-- `ZEBRA_IPV4_ROUTE_ADD` and `ZEBRA_IPV4_ROUTE_DELETE`. -/
def zebraIpv4RouteAdd : U16 := 7
def zebraIpv4RouteDelete : U16 := 8

/-- The kind of route of a number. A greater one is beyond every table of the
manager. -/
def routeTypeOf (code : U8) : Option RouteType :=
  [.system, .kernel, .connect, .static, .rip, .ripng, .ospf, .ospf6, .isis, .bgp,
    .hsls][code.toNat]?

theorem routeTypeOf_code (type : RouteType) : routeTypeOf (routeTypeCode type) = some type := by
  cases type <;> rfl

/-! ## Writing -/

/-- `struct zapi_ipv4`. -/
structure ZapiIpv4 where
  type : RouteType
  flags : U8 := 0
  message : U8 := 0
  nexthop : List U32 := []
  ifindex : List U32 := []
  distance : U8 := 0
  metric : U32 := 0
  deriving DecidableEq, Repr

/-- `zclient_create_header`, with the length filled in later. -/
def zclientCreateHeader (length : Nat) (command : U16) : List U8 :=
  putw (BitVec.ofNat 16 length) ++ [255, 1] ++ putw command

/-- The next hops of a message. -/
def putNexthops (api : ZapiIpv4) : List U8 :=
  (if check api.flags zebraFlagBlackhole then [1, zebraNexthopBlackhole]
    else [BitVec.ofNat 8 (api.nexthop.length + api.ifindex.length)])
  ++ api.nexthop.flatMap (fun gate => zebraNexthopIpv4 :: putl gate)
  ++ api.ifindex.flatMap (fun ifindex => zebraNexthopIfindex :: putl ifindex)

/-- The body of a route message. -/
def routeBody (p : Prefix) (api : ZapiIpv4) : List U8 :=
  [routeTypeCode api.type, api.flags, api.message, BitVec.ofNat 8 p.prefixlen] ++ p.octets
  ++ (if check api.message zapiMessageNexthop then putNexthops api else [])
  ++ (if check api.message zapiMessageDistance then [api.distance] else [])
  ++ (if check api.message zapiMessageMetric then putl api.metric else [])

/-- `zapi_ipv4_route`. -/
def zapiIpv4Route (command : U16) (p : Prefix) (api : ZapiIpv4) : List U8 :=
  zclientCreateHeader (6 + (routeBody p api).length) command ++ routeBody p api

/-! ## Reading -/

/-- `stream_getc`, which does not read beyond the end. -/
def streamGetc : List U8 → Option (U8 × List U8)
  | [] => none
  | octet :: rest => some (octet, rest)

/-- `stream_getl`. -/
def streamGetl (s : List U8) : Option (U32 × List U8) :=
  if s.length < 4 then none else some (getl s, s.drop 4)

/-- `stream_get`, and `stream_forward_getp` with the octets left out. -/
def streamGet (size : Nat) (s : List U8) : Option (List U8 × List U8) :=
  if s.length < size then none else some (s.take size, s.drop size)

/-- The start of a route message: kind, flags, message flags and prefix. -/
def readRouteHead (s : List U8) : Option ((RouteType × U8 × U8 × Prefix) × List U8) := do
  let (code, s) ← streamGetc s
  let type ← routeTypeOf code
  let (flags, s) ← streamGetc s
  let (message, s) ← streamGetc s
  let (prefixlen, s) ← streamGetc s
  let (octets, s) ← streamGet (psize prefixlen.toNat) s
  let p ← getPrefix .ip prefixlen.toNat octets
  some ((type, flags, message, p), s)

/-- The loop of `zread_ipv4_add` over the next hops. -/
def readNexthops : Nat → Rib → List U8 → Option (Rib × List U8)
  | 0, rib, s => some (rib, s)
  | n + 1, rib, s => do
    let (type, s) ← streamGetc s
    if type = zebraNexthopIfindex then
      let (ifindex, s) ← streamGetl s
      readNexthops n (nexthopIfindexAdd rib ifindex) s
    else if type = zebraNexthopIfname then
      let (length, s) ← streamGetc s
      let (_, s) ← streamGet length.toNat s
      readNexthops n rib s
    else if type = zebraNexthopIpv4 then
      let (gate, s) ← streamGetl s
      readNexthops n (nexthopIpv4Add rib gate none) s
    else if type = zebraNexthopIpv6 then
      let (_, s) ← streamGet 16 s
      readNexthops n rib s
    else if type = zebraNexthopBlackhole then readNexthops n (nexthopBlackholeAdd rib) s
    else readNexthops n rib s

/-- The loop of `zread_ipv4_delete`: the last gateway and the last interface. -/
def readGateway : Nat → U32 × U32 → List U8 → Option ((U32 × U32) × List U8)
  | 0, last, s => some (last, s)
  | n + 1, (nexthop, ifindex), s => do
    let (type, s) ← streamGetc s
    if type = zebraNexthopIfindex then
      let (ifindex, s) ← streamGetl s
      readGateway n (nexthop, ifindex) s
    else if type = zebraNexthopIfname then
      let (length, s) ← streamGetc s
      let (_, s) ← streamGet length.toNat s
      readGateway n (nexthop, ifindex) s
    else if type = zebraNexthopIpv4 then
      let (nexthop, s) ← streamGetl s
      readGateway n (nexthop, ifindex) s
    else if type = zebraNexthopIpv6 then
      let (_, s) ← streamGet 16 s
      readGateway n (nexthop, ifindex) s
    else readGateway n (nexthop, ifindex) s

/-- The distance and the metric at the end of a message, zero where they are
missing. -/
def readTail (message : U8) (s : List U8) : Option ((U8 × U32) × List U8) := do
  let (distance, s) ← if check message zapiMessageDistance then streamGetc s else some (0, s)
  let (metric, s) ← if check message zapiMessageMetric then streamGetl s else some (0, s)
  some ((distance, metric), s)

/-- The route that `zread_ipv4_add` builds from a message. -/
def readRib (table : Nat) (s : List U8) : Option ((Prefix × Rib) × List U8) := do
  let ((type, flags, message, p), s) ← readRouteHead s
  let rib : Rib := { type, flags, table }
  let (rib, s) ←
    if check message zapiMessageNexthop then do
      let (count, s) ← streamGetc s
      readNexthops count.toNat rib s
    else some (rib, s)
  let ((distance, metric), s) ← readTail message s
  some ((p, { rib with distance, metric }), s)

/-- `zread_ipv4_add` into the default table, and what it leaves of the message. -/
def zreadIpv4Add (beyond : U8) (table : Nat) (z : Zebra) (s : List U8) :
    Option (Zebra × List U8) := do
  let ((p, rib), s) ← readRib table s
  some (ribAddIpv4Multipath beyond p rib z, s)

/-- `zread_ipv4_delete`, and what it leaves of the message. -/
def zreadIpv4Delete (z : Zebra) (s : List U8) : Option (Zebra × List U8) := do
  let ((type, _, message, p), s) ← readRouteHead s
  let ((nexthop, ifindex), s) ←
    if check message zapiMessageNexthop then do
      let (count, s) ← streamGetc s
      readGateway count.toNat (0, 0) s
    else some ((0, 0), s)
  let (_, s) ← readTail message s
  some (ribDeleteIpv4 type p (some nexthop) ifindex z, s)

/-- `ZEBRA_MAX_PACKET_SIZ`, the size of the reader's buffer. -/
def zebraMaxPacketSiz : Nat := 4096

/-- `zebra_client_read` for a message that has arrived whole, into a buffer of the given
size: what its handler makes of it and leaves of it. -/
def zebraClientRead (beyond : U8) (table size : Nat) (z : Zebra) (s : List U8) :
    Option (Zebra × List U8) :=
  let length := (getw s).toNat
  if s.length < 6 then none
  else if s[2]? ≠ some 255 ∨ s[3]? ≠ some 1 then none
  else if length < 6 ∨ size < length ∨ s.length ≠ length then none
  else
    let command := getw (s.drop 4)
    let body := s.drop 6
    if command = zebraIpv4RouteAdd then zreadIpv4Add beyond table z body
    else if command = zebraIpv4RouteDelete then zreadIpv4Delete z body
    else none

end Bgpd.Zapi
