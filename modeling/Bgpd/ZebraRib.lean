import Bgpd.FlagWord
import Bgpd.Octets

/-!
# The routes of the routing manager

The manager keeps at each prefix a chain of routes, at most one of which is
selected and stands in the kernel. `rib_process` goes along the chain once: it
frees the routes that were removed, picks the best of those that have an active
next hop, and exchanges the selected one.

The state that belongs to the prefix as a whole, in which sub-queues it waits, is
kept in whichever route is first. What is reachable, and what the kernel makes of
a route, comes from outside and is a parameter here.
-/

namespace Bgpd.ZebraRib

open Octets FlagWord

/-! ## Routes -/

/-- `ZEBRA_ROUTE_*`, the protocols routes come from. -/
inductive RouteType
  | system
  | kernel
  | connect
  | static
  | rip
  | ripng
  | ospf
  | ospf6
  | isis
  | bgp
  | hsls
  deriving DecidableEq, Repr

/-- `NEXTHOP_TYPE_*`. -/
inductive NexthopType
  | ifindex
  | ifname
  | ipv4
  | ipv4Ifindex
  | ipv4Ifname
  | ipv6
  | ipv6Ifindex
  | ipv6Ifname
  | blackhole
  deriving DecidableEq, Repr

/-- `NEXTHOP_FLAG_*`. -/
def nexthopFlagActive : U8 := 1
def nexthopFlagFib : U8 := 2

/-- `union g_addr`, of which a next hop uses the part of its family. -/
structure GAddr where
  ipv4 : U32 := 0
  ipv6 : BitVec 128 := 0
  deriving DecidableEq, Repr

/-- `struct nexthop`. -/
structure Nexthop where
  type : NexthopType
  ifname : List Char := []
  ifindex : U32 := 0
  flags : U8 := 0
  gate : GAddr := {}
  rtype : Option NexthopType := none
  rifindex : U32 := 0
  rgate : GAddr := {}
  src : GAddr := {}
  deriving DecidableEq, Repr

/-- `ZEBRA_FLAG_*`. -/
def zebraFlagBlackhole : U8 := 0x04
def zebraFlagIbgp : U8 := 0x08
def zebraFlagSelected : U8 := 0x10
def zebraFlagChanged : U8 := 0x20
def zebraFlagReject : U8 := 0x80

/-- `RIB_ENTRY_REMOVED`. -/
def ribEntryRemoved : U8 := 1

/-- `DISTANCE_INFINITY`. -/
def distanceInfinity : U8 := 255

/-- `struct rib`. -/
structure Rib where
  rnStatus : U8 := 0
  nexthop : List Nexthop := []
  refcnt : Nat := 0
  type : RouteType
  table : Nat := 0
  metric : U32 := 0
  distance : U8 := 0
  flags : U8 := 0
  status : U8 := 0
  nexthopNum : U8 := 0
  nexthopActiveNum : U8 := 0
  deriving DecidableEq, Repr

/-- The route stands in the kernel. -/
def Rib.selected (rib : Rib) : Bool := check rib.flags zebraFlagSelected

/-- The route waits to be freed. -/
def Rib.removed (rib : Rib) : Bool := check rib.status ribEntryRemoved

/-- Take the bits of a mask from a word. -/
def unset {w : Nat} (word mask : BitVec w) : BitVec w := word &&& ~~~mask

/-- `RIB_SYSTEM_ROUTE`: the kernel has the route anyway. -/
def Rib.systemRoute (rib : Rib) : Bool := rib.type = .kernel ∨ rib.type = .connect

/-! ## The surroundings -/

/-- What `rib_process` asks of its surroundings: `nexthop_active_check`, and the
kernel, which marks the next hops it takes and may refuse the route. -/
structure Surroundings where
  nexthopActiveCheck : Bool → Rib → Nexthop → Nexthop
  kernelAdd : Rib → Bool × List Nexthop

/-- What `rib_process` does to its surroundings. -/
inductive Effect
  | redistributeAdd (rib : Rib)
  | redistributeDelete (rib : Rib)
  | kernelAdd (rib : Rib)
  | kernelDelete (rib : Rib)
  | unlink (rib : Rib)
  deriving DecidableEq, Repr

variable (s : Surroundings)

/-- The next hop counts as changed: it came up, went down or moved to another
interface. -/
def hopChanged (before after : Nexthop) : Bool :=
  check before.flags nexthopFlagActive ≠ check after.flags nexthopFlagActive ∨
    before.ifindex ≠ after.ifindex

/-- `nexthop_active_update`. -/
def nexthopActiveUpdate (set : Bool) (rib : Rib) : Rib :=
  let hops := rib.nexthop.map (s.nexthopActiveCheck set rib)
  let changed := (rib.nexthop.zip hops).any fun (before, after) => hopChanged before after
  { rib with
    nexthop := hops
    nexthopActiveNum :=
      BitVec.ofNat 8 (hops.countP fun hop => check hop.flags nexthopFlagActive)
    flags :=
      if changed then FlagWord.set (unset rib.flags zebraFlagChanged) zebraFlagChanged
      else unset rib.flags zebraFlagChanged }

/-- No next hop is marked as taken by the kernel. -/
def clearFib (hops : List Nexthop) : List Nexthop :=
  hops.map fun hop => { hop with flags := unset hop.flags nexthopFlagFib }

/-- `rib_install_kernel`. -/
def ribInstallKernel (rib : Rib) : Rib :=
  let (taken, hops) := s.kernelAdd rib
  { rib with nexthop := if taken then hops else clearFib hops }

/-- `rib_uninstall_kernel`. -/
def ribUninstallKernel (rib : Rib) : Rib := { rib with nexthop := clearFib rib.nexthop }

/-! ## Going along the chain -/

/-- The route takes the place of the one selected so far: connected before
others, then the lower distance, then the lower metric, then the later one. -/
def ribBeats (rib select : Rib) : Bool :=
  if rib.type = .connect then select.type ≠ .connect ∨ rib.metric ≤ select.metric
  else if select.type = .connect then false
  else if rib.distance > select.distance then false
  else if rib.distance < select.distance then true
  else rib.metric ≤ select.metric

/-- The chain so far, with the places of the route in the kernel, of the best one
and of the one in the kernel that is to be freed, and with what was done. -/
structure Scan where
  kept : List Rib := []
  fib : Option Nat := none
  select : Option Nat := none
  del : Option Nat := none
  done : List Effect := []

/-- The best route after one more that may be selected stands last. -/
def Scan.choose (scan : Scan) (rib : Rib) : Option Nat :=
  match scan.select.bind (scan.kept[·]?) with
  | none => some scan.kept.length
  | some best => if ribBeats rib best then some scan.kept.length else scan.select

/-- The loop of `rib_process`. A route that is freed at the head of the chain hands
the state of the prefix to the next one. Two routes in the kernel are fatal. -/
def ribScan : Option U8 → List Rib → Scan → Option Scan
  | _, [], scan => some scan
  | status, first :: next, scan =>
    let rib := { first with rnStatus := status.getD first.rnStatus }
    if rib.selected ∧ scan.fib.isSome then none
    else
      let fib := if rib.selected then some scan.kept.length else scan.fib
      if rib.removed then
        if rib.selected then
          ribScan none next
            { scan with kept := scan.kept ++ [rib], fib, del := some scan.kept.length }
        else
          ribScan (if scan.kept.isEmpty then some rib.rnStatus else none) next
            { scan with fib, done := scan.done ++ [.unlink rib] }
      else
        let rib := nexthopActiveUpdate s false rib
        let select :=
          if rib.nexthopActiveNum = 0 ∨ rib.distance = distanceInfinity then scan.select
          else scan.choose rib
        ribScan none next { scan with kept := scan.kept ++ [rib], fib, select }

/-! ## Exchanging the selected route -/

/-- The selected route stays. -/
def ribRefresh (select : Rib) : Rib × List Effect :=
  if check select.flags zebraFlagChanged then
    let withdrawn := if select.systemRoute then select else ribUninstallKernel select
    let updated := nexthopActiveUpdate s true withdrawn
    let installed := if updated.systemRoute then updated else ribInstallKernel s updated
    (installed,
      [.redistributeDelete select]
        ++ (if select.systemRoute then [] else [.kernelDelete select, .kernelAdd updated])
        ++ [.redistributeAdd installed])
  else if select.systemRoute then (select, [])
  else if select.nexthop.any (check ·.flags nexthopFlagFib) then (select, [])
  else (ribInstallKernel s select, [.kernelAdd select])

/-- The selected route leaves the kernel. -/
def ribWithdraw (fib : Rib) : Rib × List Effect :=
  let withdrawn := if fib.systemRoute then fib else ribUninstallKernel fib
  let cleared := { withdrawn with flags := unset withdrawn.flags zebraFlagSelected }
  (nexthopActiveUpdate s true cleared,
    .redistributeDelete fib :: if fib.systemRoute then [] else [.kernelDelete fib])

/-- Another route enters it. -/
def ribSelect (select : Rib) : Rib × List Effect :=
  let updated := nexthopActiveUpdate s true select
  let installed := if updated.systemRoute then updated else ribInstallKernel s updated
  let selected := { installed with flags := FlagWord.set installed.flags zebraFlagSelected }
  (selected,
    (if updated.systemRoute then [] else [.kernelAdd updated]) ++ [.redistributeAdd selected])

/-- Something is done to the route at a place. -/
def applyAt (f : Rib → Rib × List Effect) (place : Option Nat) (ribs : List Rib) :
    List Rib × List Effect :=
  match place with
  | none => (ribs, [])
  | some i =>
    match ribs[i]? with
    | none => (ribs, [])
    | some rib => (ribs.set i (f rib).1, (f rib).2)

/-- `rib_unlink`: the route at a place leaves the chain, and one that was first
hands the state of the prefix on. -/
def ribUnlink (ribs : List Rib) (place : Nat) : List Rib × List Effect :=
  match ribs[place]? with
  | none => (ribs, [])
  | some rib =>
    match place, ribs.eraseIdx place with
    | 0, head :: rest => ({ head with rnStatus := rib.rnStatus } :: rest, [.unlink rib])
    | _, rest => (rest, [.unlink rib])

/-- What `rib_process` does behind its loop. -/
def ribExchange (scan : Scan) : List Rib × List Effect :=
  if scan.select.isSome ∧ scan.select = scan.fib then
    let (ribs, refreshed) := applyAt (ribRefresh s) scan.select scan.kept
    (ribs, scan.done ++ refreshed)
  else
    let (ribs, withdrawn) := applyAt (ribWithdraw s) scan.fib scan.kept
    let (ribs, installed) := applyAt (ribSelect s) scan.select ribs
    match scan.del with
    | none => (ribs, scan.done ++ withdrawn ++ installed)
    | some del =>
      let (ribs, freed) := ribUnlink ribs del
      (ribs, scan.done ++ withdrawn ++ installed ++ freed)

/-- `rib_process` on the chain of one prefix. -/
def ribProcess (ribs : List Rib) : Option (List Rib × List Effect) :=
  (ribScan s none ribs {}).map (ribExchange s)

end Bgpd.ZebraRib
