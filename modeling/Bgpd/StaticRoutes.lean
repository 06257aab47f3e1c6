import Bgpd.RibChains
import Bgpd.RibRoutes

/-!
# Static routes

The configuration keeps a sorted list of static routes at each prefix. Those of one
distance share one route of the manager, whose next hops are added and deleted in
place. IPv4 and IPv6 have a copy of this code each.
-/

namespace Bgpd.StaticRoutes

open Octets FlagWord Prefixes ZebraRib RibQueue RibRoutes

/-! ## The configuration -/

/-- `STATIC_IPV4_*`, with the gateway or the name that goes with each. -/
inductive Ipv4Way
  | gateway (gate : U32)
  | ifname (ifname : List Char)
  | blackhole
  deriving DecidableEq, Repr

/-- `STATIC_IPV6_*`. -/
inductive Ipv6Way
  | gateway (ipv6 : BitVec 128)
  | gatewayIfname (ipv6 : BitVec 128) (ifname : List Char)
  | ifname (ifname : List Char)
  deriving DecidableEq, Repr

/-- `struct static_ipv4` and `struct static_ipv6`. -/
structure StaticRoute (Way : Type) where
  way : Way
  distance : U8
  flags : U8
  deriving DecidableEq, Repr

/-- A node of the table of static routes. -/
structure StaticNode (Way : Type) where
  lock : Nat := 0
  routes : List (StaticRoute Way) := []

/-- The tables of static routes beside those of the manager. -/
structure Statics where
  z : Zebra := {}
  ipv4 : Prefix → StaticNode Ipv4Way := fun _ => {}
  ipv6 : Prefix → StaticNode Ipv6Way := fun _ => {}

/-! ## Next hops -/

/-- `nexthop_ifname_add`. -/
def nexthopIfnameAdd (rib : Rib) (ifname : List Char) : Rib :=
  nexthopAdd rib { type := .ifname, ifname }

/-- `nexthop_ipv6_add`. -/
def nexthopIpv6Add (rib : Rib) (ipv6 : BitVec 128) : Rib :=
  nexthopAdd rib { type := .ipv6, gate := { ipv6 } }

/-- `nexthop_ipv6_ifname_add`. -/
def nexthopIpv6IfnameAdd (rib : Rib) (ipv6 : BitVec 128) (ifname : List Char) : Rib :=
  nexthopAdd rib { type := .ipv6Ifname, gate := { ipv6 }, ifname }

/-- The switch of `static_install_ipv4`. -/
def addIpv4Way (rib : Rib) : Ipv4Way → Rib
  | .gateway gate => nexthopIpv4Add rib gate none
  | .ifname ifname => nexthopIfnameAdd rib ifname
  | .blackhole => nexthopBlackholeAdd rib

/-- The switch of `static_install_ipv6`. -/
def addIpv6Way (rib : Rib) : Ipv6Way → Rib
  | .gateway ipv6 => nexthopIpv6Add rib ipv6
  | .gatewayIfname ipv6 ifname => nexthopIpv6IfnameAdd rib ipv6 ifname
  | .ifname ifname => nexthopIfnameAdd rib ifname

/-- `static_ipv4_nexthop_same`. -/
def staticIpv4NexthopSame (hop : Nexthop) : Ipv4Way → Bool
  | .gateway gate => hop.type = .ipv4 ∧ hop.gate.ipv4 = gate
  | .ifname ifname => hop.type = .ifname ∧ hop.ifname = ifname
  | .blackhole => hop.type = .blackhole

/-- `static_ipv6_nexthop_same`. -/
def staticIpv6NexthopSame (hop : Nexthop) : Ipv6Way → Bool
  | .gateway ipv6 => hop.type = .ipv6 ∧ hop.gate.ipv6 = ipv6
  | .gatewayIfname ipv6 ifname =>
    hop.type = .ipv6Ifname ∧ hop.gate.ipv6 = ipv6 ∧ hop.ifname = ifname
  | .ifname ifname => hop.type = .ifname ∧ hop.ifname = ifname

/-- `nexthop_delete`. -/
def nexthopDelete (rib : Rib) (place : Nat) : Rib :=
  { rib with nexthop := rib.nexthop.eraseIdx place, nexthopNum := rib.nexthopNum - 1 }

/-- `rib_uninstall`. -/
def ribUninstall (rib : Rib) : Rib :=
  if rib.selected then
    let withdrawn := if rib.systemRoute then rib else ribUninstallKernel rib
    { withdrawn with flags := unset withdrawn.flags zebraFlagSelected }
  else rib

/-! ## Installing -/

/-- The static route of a distance. -/
def staticOf (distance : U8) (rib : Rib) : Bool :=
  !rib.removed && rib.type = .static && rib.distance = distance

section Family

variable {Way : Type} (addWay : Rib → Way → Rib) (nexthopSame : Nexthop → Way → Bool)

/-- A static route that is the first of its distance. -/
def newStatic (si : StaticRoute Way) : Rib :=
  { addWay { type := .static, distance := si.distance } si.way with flags := si.flags }

/-- What both copies do to install a static route. The lock on the node is released
only where the route exists. -/
def staticInstall (p : Prefix) (si : StaticRoute Way) (z : Zebra) : Zebra :=
  let z := relock (· + 1) p z
  match (z.nodes p).ribs.findIdx? (staticOf si.distance) with
  | some place =>
    ribQueueAdd p (modifyRib p place (addWay · si.way) (relock (· - 1) p z))
  | none => ribLink p (newStatic addWay si) z

/-- The route of the distance and its first next hop that goes the same way, by
their places. -/
def findHop (si : StaticRoute Way) (ribs : List Rib) : Option (Nat × Nat) := do
  let place ← ribs.findIdx? (staticOf si.distance)
  let rib ← ribs[place]?
  let hop ← rib.nexthop.findIdx? (nexthopSame · si.way)
  some (place, hop)

/-- A route without one of its next hops. One that is in the kernel leaves it
first. -/
def dropHop (hop : Nat) (rib : Rib) : Rib :=
  nexthopDelete
    (if (rib.nexthop[hop]?).any (check ·.flags nexthopFlagFib) then ribUninstall rib else rib) hop

/-- The route has no other next hop, by its count. -/
def lastHop (place : Nat) (ribs : List Rib) : Bool := (ribs[place]?).any (·.nexthopNum = 1)

/-- What both copies do to uninstall a static route. -/
def staticUninstall (p : Prefix) (si : StaticRoute Way) (z : Zebra) : Zebra :=
  -- the lookup finds a node with routes only
  if (z.nodes p).ribs.isEmpty then z
  else
    let z := relock (· + 1) p z
    relock (· - 1) p
      (match findHop nexthopSame si (z.nodes p).ribs with
        | none => z
        | some (place, hop) =>
          if lastHop place (z.nodes p).ribs then ribDelnode p place z
          else ribQueueAdd p (modifyRib p place (dropHop hop) z))

end Family

/-- `static_install_ipv4`. -/
def staticInstallIpv4 : Prefix → StaticRoute Ipv4Way → Zebra → Zebra := staticInstall addIpv4Way

/-- `static_install_ipv6`. -/
def staticInstallIpv6 : Prefix → StaticRoute Ipv6Way → Zebra → Zebra := staticInstall addIpv6Way

/-- `static_uninstall_ipv4`. -/
def staticUninstallIpv4 : Prefix → StaticRoute Ipv4Way → Zebra → Zebra :=
  staticUninstall staticIpv4NexthopSame

/-- `static_uninstall_ipv6`. -/
def staticUninstallIpv6 : Prefix → StaticRoute Ipv6Way → Zebra → Zebra :=
  staticUninstall staticIpv6NexthopSame

/-! ## Adding and deleting -/

/-- A new static route stands before another one: a smaller distance first, and of two
gateways the smaller one. -/
def beforeIpv4 (si cp : StaticRoute Ipv4Way) : Bool :=
  if si.distance < cp.distance then true
  else if si.distance > cp.distance then false
  else
    match si.way, cp.way with
    | .gateway gate, .gateway gate' => gate < gate'
    | _, _ => false

/-- For IPv6 only the distance counts. -/
def beforeIpv6 (si cp : StaticRoute Ipv6Way) : Bool := si.distance < cp.distance

/-- A static route enters the list before the first one that it stands before. -/
def insertRoute {Way : Type} (before : StaticRoute Way → StaticRoute Way → Bool)
    (si : StaticRoute Way) (routes : List (StaticRoute Way)) : List (StaticRoute Way) :=
  routes.takeWhile (!before si ·) ++ si :: routes.dropWhile (!before si ·)

/-- `static_delete_ipv4`, which does not look at the distance it is given. -/
def staticDeleteIpv4 (p : Prefix) (way : Ipv4Way) (_distance : U8) (s : Statics) : Statics :=
  let node := s.ipv4 p
  -- the lookup finds a node with routes only
  if node.routes.isEmpty then s
  else
    let lock := node.lock + 1
    match node.routes.find? (·.way = way) with
    | none => { s with ipv4 := Function.update s.ipv4 p { node with lock := lock - 1 } }
    | some si =>
      { s with
        z := staticUninstallIpv4 p si s.z
        ipv4 :=
          Function.update s.ipv4 p
            { lock := lock - 1 - 1, routes := node.routes.eraseP (·.way = way) } }

/-- `static_add_ipv4`. The way has one distance only; another one is deleted first. -/
def staticAddIpv4 (p : Prefix) (way : Ipv4Way) (flags distance : U8) (s : Statics) : Statics :=
  let node := s.ipv4 p
  let locked :=
    { s with ipv4 := Function.update s.ipv4 p { node with lock := node.lock + 1 } }
  if node.routes.any fun si => si.distance = distance ∧ si.way = way then
    { s with ipv4 := Function.update s.ipv4 p { node with lock := node.lock + 1 - 1 } }
  else
    let update := node.routes.filter (·.way = way)
    let s :=
      match update.getLast? with
      | none => locked
      | some update => staticDeleteIpv4 p way update.distance locked
    let si : StaticRoute Ipv4Way := { way, distance, flags }
    let node := s.ipv4 p
    { s with
      z := staticInstallIpv4 p si s.z
      ipv4 :=
        Function.update s.ipv4 p { node with routes := insertRoute beforeIpv4 si node.routes } }

/-- `static_delete_ipv6`, which releases no lock where it deletes a route. -/
def staticDeleteIpv6 (p : Prefix) (way : Ipv6Way) (distance : U8) (s : Statics) : Statics :=
  let node := s.ipv6 p
  -- the lookup finds a node with routes only
  if node.routes.isEmpty then s
  else
    let lock := node.lock + 1
    match node.routes.find? fun si => si.distance = distance ∧ si.way = way with
    | none => { s with ipv6 := Function.update s.ipv6 p { node with lock := lock - 1 } }
    | some si =>
      { s with
        z := staticUninstallIpv6 p si s.z
        ipv6 :=
          Function.update s.ipv6 p
            { lock
              routes := node.routes.eraseP fun si => si.distance = distance ∧ si.way = way } }

/-- `static_add_ipv6`. -/
def staticAddIpv6 (p : Prefix) (way : Ipv6Way) (flags distance : U8) (s : Statics) : Statics :=
  let node := s.ipv6 p
  let lock := node.lock + 1
  if node.routes.any fun si => si.distance = distance ∧ si.way = way then
    { s with ipv6 := Function.update s.ipv6 p { node with lock := lock - 1 } }
  else
    let si : StaticRoute Ipv6Way := { way, distance, flags }
    { s with
      z := staticInstallIpv6 p si s.z
      ipv6 :=
        Function.update s.ipv6 p { lock, routes := insertRoute beforeIpv6 si node.routes } }

/-! ## The surroundings -/

/-- What `nexthop_active_check` writes of a next hop. -/
structure Resolved where
  flags : U8
  ifindex : U32
  rtype : Option NexthopType
  rifindex : U32
  rgate : GAddr

/-- Whatever the interfaces, the other routes and the kernel are: the check writes what
it resolves, and the kernel marks the next hops that it takes. -/
def surroundings (resolve : Bool → Rib → Nexthop → Resolved) (take : Rib → Bool × (Nexthop → U8)) :
    Surroundings where
  nexthopActiveCheck set rib hop :=
    let resolved := resolve set rib hop
    { hop with
      flags := resolved.flags
      ifindex := resolved.ifindex
      rtype := resolved.rtype
      rifindex := resolved.rifindex
      rgate := resolved.rgate }
  kernelAdd rib :=
    ((take rib).1, rib.nexthop.map fun hop => { hop with flags := (take rib).2 hop })

end Bgpd.StaticRoutes
