import Bgpd.RibQueue

/-!
# Adding and deleting IPv4 routes

A route that is added replaces an older one of its kind at the prefix, which is
marked and freed when the prefix is processed. A route that is deleted is looked
for by its kind and one gateway, which is compared with the first next hop only.
-/

namespace Bgpd.RibRoutes

open Octets FlagWord Prefixes ZebraRib RibQueue

/-- `route_info[type].distance`. The array ends before the last kind of route, for which
whatever lies behind it is read. -/
def routeInfoDistance (beyond : U8) : RouteType → U8
  | .system => 0
  | .kernel => 0
  | .connect => 0
  | .static => 1
  | .rip => 120
  | .ripng => 120
  | .ospf => 110
  | .ospf6 => 110
  | .isis => 115
  | .bgp => 20
  | .hsls => beyond

/-- The distance of a route that has none. -/
def defaultDistance (beyond : U8) (type : RouteType) (flags : U8) : U8 :=
  if type = .bgp ∧ check flags zebraFlagIbgp then 200 else routeInfoDistance beyond type

/-! ## Next hops -/

/-- `nexthop_add`. -/
def nexthopAdd (rib : Rib) (hop : Nexthop) : Rib :=
  { rib with nexthop := rib.nexthop ++ [hop], nexthopNum := rib.nexthopNum + 1 }

/-- `nexthop_ifindex_add`. -/
def nexthopIfindexAdd (rib : Rib) (ifindex : U32) : Rib :=
  nexthopAdd rib { type := .ifindex, ifindex }

/-- `nexthop_ipv4_add`. -/
def nexthopIpv4Add (rib : Rib) (gate : U32) (src : Option U32) : Rib :=
  nexthopAdd rib
    { type := .ipv4, gate := { ipv4 := gate }, src := { ipv4 := src.getD 0 } }

/-- `nexthop_ipv4_ifindex_add`. -/
def nexthopIpv4IfindexAdd (rib : Rib) (gate : U32) (src : Option U32) (ifindex : U32) : Rib :=
  nexthopAdd rib
    { type := .ipv4Ifindex, gate := { ipv4 := gate }, src := { ipv4 := src.getD 0 }, ifindex }

/-- `nexthop_blackhole_add`. -/
def nexthopBlackholeAdd (rib : Rib) : Rib :=
  nexthopAdd { rib with flags := set rib.flags zebraFlagBlackhole } { type := .blackhole }

/-- The kernel has the next hops of its own routes. -/
def kernelHops (rib : Rib) : Rib :=
  if rib.systemRoute then
    { rib with
      nexthop := rib.nexthop.map fun hop => { hop with flags := set hop.flags nexthopFlagFib } }
  else rib

/-! ## Adding -/

/-- A new route is linked, and the one it replaces, found among the older ones, is
marked. -/
def linkReplacing (p : Prefix) (rib : Rib) (same : Option Nat) (z : Zebra) : Zebra :=
  let z := ribLink p rib z
  match same with
  | none => z
  | some place => ribDelnode p (place + 1) z

/-- `rib_add_ipv4_multipath`. A new route is never marked, so that `rib_addnode`
links it. -/
def ribAddIpv4Multipath (beyond : U8) (p : Prefix) (rib : Rib) (z : Zebra) : Zebra :=
  let rib :=
    if rib.distance = 0 then
      { rib with distance := defaultDistance beyond rib.type rib.flags }
    else rib
  let z := relock (· + 1) p z
  let same := (z.nodes p).ribs.findIdx? fun same =>
    !same.removed && same.type = rib.type && same.table = rib.table && same.type ≠ .connect
  relock (· - 1) p (linkReplacing p (kernelHops rib) same z)

/-- The first next hop is the given interface. -/
def viaInterface (rib : Rib) (ifindex : U32) : Bool :=
  match rib.nexthop with
  | [] => false
  | hop :: _ => hop.type = .ifindex ∧ hop.ifindex = ifindex

/-- What the loop of `rib_add_ipv4` finds. -/
inductive Older
  | duplicate (place : Nat)
  | same (place : Nat)
  | nothing
  deriving DecidableEq, Repr

/-- The loop of `rib_add_ipv4`: an older route of the kind, or a connected one through
the same interface. -/
def findOlder (type : RouteType) (ifindex : U32) : Nat → List Rib → Older
  | _, [] => .nothing
  | place, rib :: next =>
    if rib.removed then findOlder type ifindex (place + 1) next
    else if rib.type ≠ type then findOlder type ifindex (place + 1) next
    else if rib.type ≠ .connect then .same place
    else if viaInterface rib ifindex then .duplicate place
    else findOlder type ifindex (place + 1) next

/-- What `rib_add_ipv4` is given. -/
structure Ipv4Route where
  type : RouteType
  flags : U8 := 0
  gate : Option U32 := none
  src : Option U32 := none
  ifindex : U32 := 0
  table : Nat := 0
  metric : U32 := 0
  distance : U8 := 0
  deriving DecidableEq, Repr

/-- The route that `rib_add_ipv4` builds. -/
def Ipv4Route.rib (beyond : U8) (route : Ipv4Route) : Rib :=
  let rib : Rib :=
    { type := route.type
      distance :=
        if route.distance = 0 then defaultDistance beyond route.type route.flags
        else route.distance
      flags := route.flags
      metric := route.metric
      table := route.table }
  kernelHops
    (match route.gate with
      | some gate =>
        if route.ifindex ≠ 0 then nexthopIpv4IfindexAdd rib gate route.src route.ifindex
        else nexthopIpv4Add rib gate route.src
      | none => nexthopIfindexAdd rib route.ifindex)

/-- `rib_add_ipv4`. The lock is kept for one more reference to a connected
route. -/
def ribAddIpv4 (beyond : U8) (p : Prefix) (route : Ipv4Route) (z : Zebra) : Zebra :=
  let z := relock (· + 1) p z
  match findOlder route.type route.ifindex 0 (z.nodes p).ribs with
  | .duplicate place =>
    { z with
      nodes := Function.update z.nodes p
        { z.nodes p with
          ribs := (z.nodes p).ribs.modify place fun rib => { rib with refcnt := rib.refcnt + 1 } } }
  | .same place => relock (· - 1) p (linkReplacing p (route.rib beyond) (some place) z)
  | .nothing => relock (· - 1) p (linkReplacing p (route.rib beyond) none z)

/-! ## Deleting -/

/-- The route is reached through the gateway, by its first next hop. -/
def viaGateway (rib : Rib) (gate : Option U32) : Bool :=
  match gate, rib.nexthop with
  | none, _ => true
  | some _, [] => false
  | some gate, hop :: _ => hop.gate.ipv4 = gate ∨ hop.rgate.ipv4 = gate

/-- What the loop of `rib_delete_ipv4` finds: a connected route with more references,
the route to mark, or the one that stands in the kernel. -/
inductive Found
  | dereference (place : Nat)
  | same (place : Nat)
  | missing (fib : Option Nat)
  deriving DecidableEq, Repr

/-- The loop of `rib_delete_ipv4`. -/
def findDeleted (type : RouteType) (gate : Option U32) (ifindex : U32) :
    Nat → Option Nat → List Rib → Found
  | _, fib, [] => .missing fib
  | place, fib, rib :: next =>
    if rib.removed then findDeleted type gate ifindex (place + 1) fib next
    else
      let fib := if rib.selected then some place else fib
      if rib.type ≠ type then findDeleted type gate ifindex (place + 1) fib next
      else if rib.type = .connect ∧ viaInterface rib ifindex then
        if rib.refcnt ≠ 0 then .dereference place else .same place
      else if viaGateway rib gate then .same place
      else findDeleted type gate ifindex (place + 1) fib next

/-- One route of a chain is changed. -/
def modifyRib (p : Prefix) (place : Nat) (f : Rib → Rib) (z : Zebra) : Zebra :=
  { z with
    nodes := Function.update z.nodes p
      { z.nodes p with ribs := (z.nodes p).ribs.modify place f } }

/-- The kernel has lost the route. -/
def forgetFib (fib : Rib) : Rib :=
  { fib with nexthop := clearFib fib.nexthop, flags := unset fib.flags zebraFlagSelected }

/-- `rib_delete_ipv4`. -/
def ribDeleteIpv4 (type : RouteType) (p : Prefix) (gate : Option U32) (ifindex : U32) (z : Zebra) :
    Zebra :=
  -- the lookup finds a node with routes only
  if (z.nodes p).ribs.isEmpty then z
  else
    let z := relock (· + 1) p z
    match findDeleted type gate ifindex 0 none (z.nodes p).ribs with
    | .dereference place =>
      relock (· - 2) p (modifyRib p place (fun rib => { rib with refcnt := rib.refcnt - 1 }) z)
    | .same place => relock (· - 1) p (ribDelnode p place z)
    | .missing (some fib) =>
      if type = .kernel then relock (· - 1) p (modifyRib p fib forgetFib z)
      else relock (· - 1) p z
    | .missing none => relock (· - 1) p z

end Bgpd.RibRoutes
