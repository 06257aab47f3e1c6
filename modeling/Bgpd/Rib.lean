import Bgpd.Runs
import Bgpd.Announce

/-!
# The routing tables

Every table has nodes, and a node a list of routes, newest first. A route carries
flags through which the receiving side and the queued processing talk to each
other. The tables of an instance are the main tables, one for each family, and
those of the route-server clients; VPN tables are nested, one for each route
distinguisher, and made on demand.

The state has the tables, the queues, the configured aggregates, the prefix
counts, and a log, newest entry first, of what the tables did to anything outside
them. A route is named by a number that stands for its address. Reference counts
and locks have no counterpart; a node without routes is as good as absent.
-/

namespace Bgpd.Rib

open Octets Prefixes Attributes Neighbors

/-- `attrhash_cmp`. The interned parts are compared by value; the originator is
not compared. -/
def attrhashCmp (left right : Attr) : Bool :=
  left.flag = right.flag && left.origin = right.origin && left.nexthop = right.nexthop
    && left.aspath = right.aspath && left.community = right.community && left.med = right.med
    && left.localPref = right.localPref
    && match left.extra, right.extra with
      | some ae1, some ae2 =>
        ae1.aggregatorAs = ae2.aggregatorAs && ae1.aggregatorAddr = ae2.aggregatorAddr
          && ae1.weight = ae2.weight && ae1.mpNexthopLen = ae2.mpNexthopLen
          && ae1.mpNexthopGlobal = ae2.mpNexthopGlobal && ae1.mpNexthopLocal = ae2.mpNexthopLocal
          && ae1.mpNexthopGlobalIn = ae2.mpNexthopGlobalIn && ae1.ecommunity = ae2.ecommunity
          && ae1.cluster = ae2.cluster && ae1.transit = ae2.transit
      | none, none => true
      | _, _ => false

/-! ## Routes -/

/-- The flags of a route. -/
inductive InfoFlag
  | igpChanged
  | damped
  | history
  | selected
  | valid
  | attrChanged
  | dmedCheck
  | dmedSelected
  | stale
  | removed
  | counted
  deriving DecidableEq, Repr

/-- The flag word of a route. -/
structure InfoFlags where
  igpChanged : Bool := false
  damped : Bool := false
  history : Bool := false
  selected : Bool := false
  valid : Bool := false
  attrChanged : Bool := false
  dmedCheck : Bool := false
  dmedSelected : Bool := false
  stale : Bool := false
  removed : Bool := false
  counted : Bool := false
  deriving DecidableEq, Repr

/-- `SET_FLAG` and `UNSET_FLAG` with one flag. -/
def InfoFlags.put (flags : InfoFlags) (flag : InfoFlag) (on : Bool) : InfoFlags :=
  match flag with
  | .igpChanged => { flags with igpChanged := on }
  | .damped => { flags with damped := on }
  | .history => { flags with history := on }
  | .selected => { flags with selected := on }
  | .valid => { flags with valid := on }
  | .attrChanged => { flags with attrChanged := on }
  | .dmedCheck => { flags with dmedCheck := on }
  | .dmedSelected => { flags with dmedSelected := on }
  | .stale => { flags with stale := on }
  | .removed => { flags with removed := on }
  | .counted => { flags with counted := on }

/-- The flag is among `BGP_INFO_VALID | BGP_INFO_UNUSEABLE`, so whether the route
can be used depends on it. -/
def InfoFlag.usability : InfoFlag → Bool
  | .valid | .history | .damped | .removed => true
  | _ => false

/-- `type`: the protocol a route comes from. -/
inductive RouteType
  | bgp
  | other (code : U8)
  deriving DecidableEq, Repr

/-- `sub_type`: where a BGP route comes from. -/
inductive SubType
  | normal
  | static
  | aggregate
  | redistribute
  deriving DecidableEq, Repr

/-- What damping last saw of a route. -/
inductive LastRecord
  | update
  | withdraw
  deriving DecidableEq, Repr

/-- `struct bgp_damp_info`: the stability history of a route. Being on a reuse
list is the same as the route's DAMPED flag. -/
structure DampInfo where
  penalty : Nat
  tUpdated : Nat
  suppressTime : Nat
  lastrecord : LastRecord
  deriving DecidableEq, Repr

/-- `struct bgp_info_extra`. -/
structure InfoExtra where
  dampInfo : Option DampInfo := none
  suppress : Int := 0
  igpmetric : U32 := 0
  tag : List U8 := [0, 0, 0]
  deriving DecidableEq, Repr

/-- `struct bgp_info`: a route. -/
structure BgpInfo where
  /-- Stands for the address of the structure. -/
  id : Nat
  peer : Nat
  type : RouteType
  subType : SubType
  attr : Attr
  extra : Option InfoExtra
  flags : InfoFlags
  deriving DecidableEq, Repr

/-- `BGP_INFO_HOLDDOWN`: the route cannot be used. -/
def BgpInfo.holddown (ri : BgpInfo) : Bool :=
  !ri.flags.valid || ri.flags.history || ri.flags.damped || ri.flags.removed

/-- `SET_FLAG` and `UNSET_FLAG` of a route's word. -/
def BgpInfo.put (ri : BgpInfo) (flag : InfoFlag) (on : Bool) : BgpInfo :=
  { ri with flags := ri.flags.put flag on }

/-- `bgp_info_extra_get`, and what its callers write through the pointer. -/
def BgpInfo.withExtra (ri : BgpInfo) (change : InfoExtra → InfoExtra) : BgpInfo :=
  { ri with extra := some (change (ri.extra.getD {})) }

/-- `ri->extra->suppress`, or zero. -/
def BgpInfo.suppress (ri : BgpInfo) : Int := (ri.extra.map InfoExtra.suppress).getD 0

/-- `ri->extra && ri->extra->suppress`. -/
def BgpInfo.suppressed (ri : BgpInfo) : Bool := ri.suppress ≠ 0

/-! ## Tables -/

/-- Whose routing table it is. -/
inductive Owner
  | main
  | rsclient (peer : Nat)
  deriving DecidableEq, Repr

/-- A node: the table it hangs in, the route distinguisher of a nested table, and
its prefix. Exactly the VPN tables are nested. -/
structure Node where
  owner : Owner
  safi : Safi
  prd : Option (BitVec 64)
  p : Prefix
  nested : prd.isSome = decide (safi = .mplsVpn)
  deriving DecidableEq, Repr

/-- Tables of the other families are not nested. -/
theorem Node.prd_none (rn : Node) (other : rn.safi ≠ .mplsVpn) : rn.prd = none := by
  have nested := rn.nested
  simpa [other] using nested

/-- The family of a node's table. -/
def Node.afi (rn : Node) : Afi := rn.p.family

/-- The type of a table. -/
inductive TableType
  | main
  | rsclient
  deriving DecidableEq, Repr

/-- `struct bgp_table`, without its nodes. -/
structure Table where
  afi : Afi
  safi : Safi
  type : TableType
  owner : Option Nat
  deriving DecidableEq, Repr

/-- `bgp_table_init`. -/
def bgpTableInit (afi : Afi) (safi : Safi) : Table := ⟨afi, safi, .main, none⟩

/-- The table a node hangs in. The table of a route-server client is marked as
one when the client is configured; a nested table is made by `bgp_afi_node_get`,
which marks it for nobody. -/
def Node.table (rn : Node) : Table :=
  match rn.prd, rn.owner with
  | some _, _ => bgpTableInit rn.afi rn.safi
  | none, .main => bgpTableInit rn.afi rn.safi
  | none, .rsclient peer =>
    { bgpTableInit rn.afi rn.safi with type := .rsclient, owner := some peer }

/-- Two nodes hang in the same table. -/
def Node.sameTable (left right : Node) : Bool :=
  left.owner = right.owner && left.afi = right.afi && left.safi = right.safi
    && left.prd = right.prd

/-- `struct bgp_aggregate`. The count is unsigned in the daemon, so that zero is
the only value not above zero. -/
structure Aggregate where
  summaryOnly : Bool
  asSet : Bool
  count : Int
  deriving DecidableEq, Repr

/-- `zapi` flags of a route. -/
structure ZebraFlags where
  ibgp : Bool
  internal : Bool
  deriving DecidableEq, Repr

/-- The next hop of a message to zebra. -/
inductive ZebraNexthop
  | inet (address : U32)
  | inet6 (address : BitVec 128)
  deriving DecidableEq, Repr

/-- The fields of a route message to zebra. -/
structure ZebraRoute where
  flags : ZebraFlags
  nexthop : ZebraNexthop
  metric : U32
  distance : Option U8
  deriving DecidableEq, Repr

/-- What the tables do to anything outside them, with the node it comes from. A count
that was asked to go below zero stays, and a warning is written. -/
inductive Effect
  | adjOutSet (rn : Node) (peer : Nat) (attr : Attr)
  | adjOutUnset (rn : Node) (peer : Nat)
  | zebraAdd (rn : Node) (route : ZebraRoute)
  | zebraDelete (rn : Node) (route : ZebraRoute)
  | prefixCount (rn : Node) (peer : Nat)
  | zeroCount (rn : Node) (peer : Nat)
  | cease (peer : Nat)
  deriving DecidableEq, Repr

/-- The state of the tables. -/
structure State where
  infos : Node → List BgpInfo
  /-- The nodes there are; those of one table are in the order of a walk. -/
  nodes : List Node
  aggregates : Afi → Safi → Prefix → Option Aggregate
  mainQueue : List Node
  rsclientQueue : List Node
  pcount : Nat → Afi → Safi → Nat
  /-- `PEER_STATUS_PREFIX_LIMIT`. -/
  prefixLimit : Nat → Afi → Safi → Bool
  /-- `PEER_STATUS_DEFAULT_ORIGINATE`. -/
  defaultOriginate : Nat → Afi → Safi → Bool
  log : List Effect
  /-- The next address. -/
  nextId : Nat

/-- Empty tables. -/
def State.empty : State where
  infos := fun _ => []
  nodes := []
  aggregates := fun _ _ _ => none
  mainQueue := []
  rsclientQueue := []
  pcount := fun _ _ _ => 0
  prefixLimit := fun _ _ _ => false
  defaultOriginate := fun _ _ _ => false
  log := []
  nextId := 0

/-- Replace the value of a function at one place. -/
def replace {α β : Type} [DecidableEq α] (f : α → β) (place : α) (value : β) : α → β :=
  fun x => if x = place then value else f x

/-- Replace a value kept for a neighbour and a family. -/
def replaceAf {β : Type} (f : Nat → Afi → Safi → β) (peer : Nat) (afi : Afi) (safi : Safi)
    (value : β) : Nat → Afi → Safi → β :=
  fun peer' afi' safi' => if peer' = peer ∧ afi' = afi ∧
    safi' = safi then value else f peer' afi' safi'

/-! ## Configuration -/

/-- The options of the best-path comparison. -/
structure BestPath where
  alwaysCompareMed : Bool := false
  deterministicMed : Bool := false
  medMissingAsWorst : Bool := false
  medConfed : Bool := false
  aspathIgnore : Bool := false
  aspathConfed : Bool := false
  compareRouterId : Bool := false
  deriving DecidableEq, Repr

/-- `struct bgp_damp_config`. -/
structure DampConfig where
  suppressValue : Nat
  reuseLimit : Nat
  ceiling : Nat
  maxSuppressTime : Nat
  decayArraySize : Nat
  /-- The penalty times an entry of the decay array, rounded down. -/
  decayed : Nat → Nat → Nat

/-- What announcements need of a session. -/
structure Session where
  established : Bool
  afcNego : Afi → Safi → Bool
  /-- `PEER_STATUS_ORF_WAIT_REFRESH`. -/
  orfWaitRefresh : Afi → Safi → Bool

/-- An instance, its neighbours and their sessions. -/
structure Env where
  bgp : Bgp
  /-- `bgp_get_default` returns the instance, which need not be the one without a
  name. -/
  isDefault : Bool
  bestPath : BestPath
  /-- `peer_self`. -/
  self : Nat
  /-- `bgp->peer`. -/
  peers : List Nat
  /-- `bgp->rsclient`. -/
  rsclients : List Nat
  /-- The members of a group, for a neighbour that is a group's template. -/
  group : Nat → Option (List Nat)
  config : Nat → Peer
  config_id : ∀ peer, (config peer).id = peer
  session : Nat → Session
  /-- `BGP_CONFIG_DAMPENING`. -/
  damping : Afi → Safi → Bool
  damp : DampConfig
  /-- The zebra connection is up and BGP routes are exchanged on it. -/
  zebraUp : Bool
  /-- `BGP_OPT_NO_FIB`. -/
  noFib : Bool
  /-- `bgp_distance_apply`; zero for no distance of its own. -/
  distance : Prefix → BgpInfo → U8

variable (env : Env)

/-- A neighbour is external. -/
def Env.external (peer : Nat) : Bool := peerSort env.bgp (env.config peer) = .ebgp

/-- Routes of the neighbour in the family are damped. -/
def Env.damps (peer : Nat) (afi : Afi) (safi : Safi) : Bool :=
  env.damping afi safi && env.external peer

/-! ## Nodes and routes -/

/-- The order of a walk: bit by bit, a prefix before those it covers. -/
def bitsBefore : List Bool → List Bool → Bool
  | [], [] => false
  | [], _ :: _ => true
  | _ :: _, [] => false
  | left :: lefts, right :: rights => if left = right then bitsBefore lefts rights else right

/-- A new node takes its place in the walk of its table. -/
def placeNode (rn : Node) : List Node → List Node
  | [] => [rn]
  | first :: later =>
    if rn.sameTable first && bitsBefore rn.p.bits first.p.bits then rn :: first :: later
    else first :: placeNode rn later

/-- The node of a prefix. -/
def nodeOf (owner : Owner) (safi : Safi) (p : Prefix) (prd : Option (BitVec 64)) : Node where
  owner := owner
  safi := safi
  prd := if safi = .mplsVpn then some (prd.getD 0) else none
  p := p
  nested := by split <;> simp [*]

/-- `bgp_node_get`: the node is there afterwards. -/
def bgpNodeGet (s : State) (rn : Node) : State :=
  if rn ∈ s.nodes then s else { s with nodes := placeNode rn s.nodes }

/-- A route of a node. -/
def State.info? (s : State) (rn : Node) (id : Nat) : Option BgpInfo :=
  (s.infos rn).find? fun ri => ri.id = id

/-- Change a route of a node. -/
def State.modify (s : State) (rn : Node) (id : Nat) (change : BgpInfo → BgpInfo) : State :=
  { s with
    infos := replace s.infos rn
      ((s.infos rn).map fun ri => if ri.id = id then change ri else ri) }

/-- `bgp_info_add`. -/
def bgpInfoAdd (s : State) (rn : Node) (ri : BgpInfo) : State :=
  { s with infos := replace s.infos rn (ri :: s.infos rn) }

/-- `bgp_info_reap`. -/
def bgpInfoReap (s : State) (rn : Node) (id : Nat) : State :=
  { s with infos := replace s.infos rn ((s.infos rn).filter fun ri => ri.id ≠ id) }

/-- `bgp_pcount_adjust` for a route in hand: only routes of neighbours in tables
of the main type count. -/
def bgpPcountAdjust (s : State) (rn : Node) (ri : BgpInfo) : State × BgpInfo :=
  let afi := rn.table.afi
  let safi := rn.table.safi
  if rn.table.type ≠ .main ∨ ri.peer = env.self then (s, ri)
  else if ri.holddown ∧ ri.flags.counted then
    (if s.pcount ri.peer afi safi ≠ 0 then
        { s with
          pcount := replaceAf s.pcount ri.peer afi safi (s.pcount ri.peer afi safi - 1)
          log := .prefixCount rn ri.peer :: s.log }
      else { s with log := .zeroCount rn ri.peer :: s.log },
      ri.put .counted false)
  else if !ri.holddown ∧ !ri.flags.counted then
    ({ s with
        pcount := replaceAf s.pcount ri.peer afi safi (s.pcount ri.peer afi safi + 1)
        log := .prefixCount rn ri.peer :: s.log },
      ri.put .counted true)
  else (s, ri)

/-- `bgp_info_set_flag` and `bgp_info_unset_flag` for a route in hand. -/
def bgpInfoPut (s : State) (rn : Node) (ri : BgpInfo) (flag : InfoFlag) (on : Bool) :
    State × BgpInfo :=
  if flag.usability then bgpPcountAdjust env s rn (ri.put flag on) else (s, ri.put flag on)

/-- The same for a route of the node. -/
def bgpInfoPutFlag (s : State) (rn : Node) (id : Nat) (flag : InfoFlag) (on : Bool) : State :=
  match s.info? rn id with
  | none => s
  | some ri =>
    (bgpInfoPut env s rn ri flag on).1.modify rn id fun ri => (bgpInfoPut env s rn ri flag on).2

/-- `bgp_info_set_flag`. -/
def bgpInfoSetFlag (s : State) (rn : Node) (id : Nat) (flag : InfoFlag) : State :=
  bgpInfoPutFlag env s rn id flag true

/-- `bgp_info_unset_flag`. -/
def bgpInfoUnsetFlag (s : State) (rn : Node) (id : Nat) (flag : InfoFlag) : State :=
  bgpInfoPutFlag env s rn id flag false

/-- `bgp_info_delete`: the route is to be taken out once it is processed. -/
def bgpInfoDelete (s : State) (rn : Node) (id : Nat) : State :=
  (bgpInfoSetFlag env s rn id .removed).modify rn id (·.put .valid false)

/-- `bgp_info_restore`. -/
def bgpInfoRestore (s : State) (rn : Node) (id : Nat) : State :=
  (bgpInfoUnsetFlag env s rn id .removed).modify rn id (·.put .valid true)

/-- `bgp_process`: queue a node for processing. The flag that says a node is
queued already is tested here and cleared by the processing, and nothing sets it. -/
def bgpProcess (s : State) (rn : Node) : State :=
  match rn.table.type with
  | .main => { s with mainQueue := s.mainQueue ++ [rn] }
  | .rsclient => { s with rsclientQueue := s.rsclientQueue ++ [rn] }

/-- The new route gets the next address. -/
def bgpInfoNew (s : State) (peer : Nat) (type : RouteType) (subType : SubType) (attr : Attr) :
    State × BgpInfo :=
  ({ s with nextId := s.nextId + 1 },
    { id := s.nextId, peer := peer, type := type, subType := subType, attr := attr, extra := none,
      flags := {} })

end Bgpd.Rib
