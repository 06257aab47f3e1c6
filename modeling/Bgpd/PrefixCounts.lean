import Bgpd.Clearing

/-!
# Prefix counts

A neighbour has a count for each family, which is to be the number of its usable routes
in the main table. A flag of a route records whether the route was counted; the count
moves with the flag whenever the flags of a route change through the functions for that,
and some places write the flags past them.

What happens to the tables are the calls of messages, configuration and timers, the
queues, the clearing of routes, and a family that is deactivated while the session stays.
-/

namespace Bgpd.PrefixCounts

open Prefixes RsclientPolicy Rib Damping Aggregation Updates Processing

/-! ## Sums over a walk -/

section Sums

variable {α : Type} {f f' : α → Nat} {places : List α} {place : α}

/-- A change in one place of a walk shows once in its sum. -/
theorem sum_change (distinct : places.Nodup) (present : place ∈ places)
    (apart : ∀ other ∈ places, other ≠ place → f' other = f other) :
    (places.map f').sum + f place = (places.map f).sum + f' place := by
  induction places with
  | nil => exact absurd present List.not_mem_nil
  | cons first later ih =>
    obtain ⟨outside, distinct'⟩ := List.nodup_cons.mp distinct
    simp only [List.map_cons, List.sum_cons]
    by_cases here : first = place
    · have same : later.map f' = later.map f := List.map_congr_left fun other member =>
        apart other (List.mem_cons_of_mem _ member) fun again => outside (by rwa [here, ← again])
      rw [same, here]
      omega
    · have inLater : place ∈ later := (List.mem_cons.mp present).resolve_left (Ne.symm here)
      have rest :=
        ih distinct' inLater fun other member => apart other (List.mem_cons_of_mem _ member)
      rw [apart first List.mem_cons_self here]
      omega

/-- What one place adds is within the sum. -/
theorem le_sum (present : place ∈ places) : f place ≤ (places.map f).sum :=
  List.single_le_sum (fun _ _ => Nat.zero_le _) _ (List.mem_map_of_mem present)

end Sums

/-! ## Routes that count -/

/-- The routes of the node count for the family. -/
def countsIn (rn : Node) (afi : Afi) (safi : Safi) : Bool :=
  rn.table.type = .main ∧ rn.afi = afi ∧ rn.safi = safi

/-- The routes of a neighbour that were counted. -/
def marks (peer : Nat) (infos : List BgpInfo) : Nat :=
  infos.countP fun ri => ri.peer = peer ∧ ri.flags.counted

/-- What the node has in a neighbour's count. -/
def nodeCount (s : State) (peer : Nat) (afi : Afi) (safi : Safi) (rn : Node) : Nat :=
  if countsIn rn afi safi then marks peer (s.infos rn) else 0

/-- What the tables have in a neighbour's count. -/
def counted (s : State) (peer : Nat) (afi : Afi) (safi : Safi) : Nat :=
  (s.nodes.map (nodeCount s peer afi safi)).sum

/-- What one route has in a neighbour's count. -/
def share (rn : Node) (ri : BgpInfo) (peer : Nat) (afi : Afi) (safi : Safi) : Nat :=
  if countsIn rn afi safi ∧ ri.peer = peer ∧ ri.flags.counted then 1 else 0

/-- The usable routes of a neighbour in the main table of a family. -/
def usable (s : State) (peer : Nat) (afi : Afi) (safi : Safi) : Nat :=
  ((s.nodes.filter fun rn => rn.owner = .main ∧ rn.afi = afi ∧ rn.safi = safi).map fun rn =>
    (s.infos rn).countP fun ri => ri.peer = peer ∧ !ri.holddown).sum

/-- The prefix counts are what they are to be: the routes counted for a neighbour are the
usable ones, the count is their number, and it was never asked to go below zero. -/
structure Reliable (own : Nat) (s : State) : Prop where
  count : ∀ peer, peer ≠ own → ∀ afi safi, s.pcount peer afi safi = usable s peer afi safi
  marked : ∀ rn : Node, rn.owner = .main → ∀ ri ∈ s.infos rn, ri.peer ≠ own →
    (ri.flags.counted = true ↔ ri.holddown = false)
  steady : ∀ rn peer, .zeroCount rn peer ∉ s.log

/-! ## What happens -/

/-- The purpose of a clearing. -/
inductive ClearRouteType
  | normal
  | myRsclient
  deriving DecidableEq, Repr

/-- The tables, and the nodes in the clear queue of each neighbour. -/
structure System where
  tables : State
  clearQueue : Nat → List Node

variable (env : Env)

/-- `bgp_clear_route`. For its own sake a client's table is emptied of all routes; a walk
for that over nested tables would take them for routes. -/
def bgpClearRoute (sys : System) (peer : Nat) (afi : Afi) (safi : Safi) (purpose : ClearRouteType) :
    System :=
  let found :=
    match purpose with
    | .normal => Clearing.clearedNodes env peer sys.tables afi safi
    | .myRsclient =>
      if safi = .mplsVpn then []
      else sys.tables.nodes.filter fun rn =>
        rn.owner = .rsclient peer ∧ rn.afi = afi ∧ rn.safi = safi ∧ sys.tables.infos rn ≠ []
  { sys with clearQueue := replace sys.clearQueue peer (sys.clearQueue peer ++ found) }

/-- The clear queue of a neighbour takes its first node. -/
def clearTurn (session : Fsm.PeerState) (sys : System) (peer : Nat) : System :=
  match sys.clearQueue peer with
  | [] => sys
  | rn :: later =>
    { tables := Clearing.bgpClearRouteNode env peer session sys.tables rn
      clearQueue := replace sys.clearQueue peer later }

/-- `bgp_clear_stale_route`: of each node of the main table, the first route of the
neighbour goes if it is stale. The walk does not get to nested tables. -/
def bgpClearStaleRoute (s : State) (peer : Nat) (afi : Afi) (safi : Safi) : State :=
  (s.nodes.filter fun rn => rn.owner = .main ∧ rn.afi = afi ∧ rn.safi = safi ∧ rn.prd = none).foldl
    (fun s rn =>
      match (s.infos rn).find? fun ri => ri.peer = peer with
      | some ri => if ri.flags.stale then bgpRibRemove env s rn ri.id else s
      | none => s)
    s

/-- `peer_active_nego`. -/
def peerActiveNego (session : Session) : Bool :=
  session.afcNego .ip .unicast || session.afcNego .ip .multicast || session.afcNego .ip .mplsVpn
    || session.afcNego .ip6 .unicast || session.afcNego .ip6 .multicast

/-- A command that deactivates a family of a neighbour, and what is known of the neighbour
apart from its configuration and its session. -/
structure Deactivation where
  peer : Nat
  afi : Afi
  safi : Safi
  /-- The configuration of the family belongs to a group, or has members. -/
  refused : Bool
  /-- `PEER_CAP_DYNAMIC_RCV`. -/
  dynamicRcv : Bool

/-- The family of the session is closed, and the session stays. -/
def Deactivation.closes (d : Deactivation) : Bool :=
  let session := env.session d.peer
  let left : Session :=
    { session with
      afcNego := fun afi safi => session.afcNego afi safi && !(afi = d.afi ∧ safi = d.safi : Bool) }
  !d.refused && (env.config d.peer).afc d.afi d.safi && (env.group d.peer).isNone
    && session.established && d.dynamicRcv && peerActiveNego left

/-- `peer_deactivate`, as far as the tables are concerned. Where the session does not stay
it is told to end, and what follows is for other calls. -/
def peerDeactivate (sys : System) (d : Deactivation) : System :=
  if d.closes env then
    let sys := bgpClearRoute env sys d.peer d.afi d.safi .normal
    { sys with
      tables := { sys.tables with pcount := replaceAf sys.tables.pcount d.peer d.afi d.safi 0 } }
  else sys

/-- What happens to the system. -/
inductive Act
  | call (action : Actions.Action)
  | clearRoute (peer : Nat) (afi : Afi) (safi : Safi) (purpose : ClearRouteType)
  | clearTurn (session : Fsm.PeerState) (peer : Nat)
  | clearStaleRoute (peer : Nat) (afi : Afi) (safi : Safi)
  | deactivate (d : Deactivation)

/-- One step. -/
def act (sys : System) : Act → System
  | .call action => { sys with tables := Actions.step env sys.tables action }
  | .clearRoute peer afi safi purpose => bgpClearRoute env sys peer afi safi purpose
  | .clearTurn session peer => clearTurn env session sys peer
  | .clearStaleRoute peer afi safi =>
    { sys with tables := bgpClearStaleRoute env sys.tables peer afi safi }
  | .deactivate d => peerDeactivate env sys d

/-- A step, with the configuration and the sessions as they are then. -/
structure Turn (own : Nat) where
  env : Env
  same : env.self = own
  act : Act

/-- One turn. -/
def step {own : Nat} (sys : System) (turn : Turn own) : System := act turn.env sys turn.act

/-- A route that a call brings is admitted into the nested table of no client. -/
def Unshared (env : Env) (call : UpdateCall) : Prop :=
  call.safi = .mplsVpn → ∀ rsclient ∈ clientsOf env call.p.family .mplsVpn, rsclient ≠ call.peer →
    admitRsclient (env.config rsclient) (env.config call.peer) call.p call.attr .mplsVpn = none

/-- A step after which the counts can be relied on: a family is not closed while routes
of it are counted, and no client has a VPN route of a neighbour. -/
def Careful {own : Nat} (sys : System) (turn : Turn own) : Prop :=
  match turn.act with
  | .call (.update _ call) => Unshared turn.env call.toUpdateCall
  | .deactivate d =>
    d.peer ≠ own → d.closes turn.env = true → sys.tables.pcount d.peer d.afi d.safi = 0
  | _ => True

/-- Tables without routes, in which nothing was counted. -/
structure Fresh (s : State) : Prop extends Actions.Initial s where
  walked : s.nodes.Nodup
  uncounted : ∀ peer afi safi, s.pcount peer afi safi = 0

end Bgpd.PrefixCounts
