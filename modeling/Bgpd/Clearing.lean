import Bgpd.SessionHygiene
import Bgpd.Standing

/-!
# Clearing the routes of a session

When a session goes down, a walk over the tables queues the nodes that hold a route
of the neighbour, family by family, and the session stays in Clearing until it is
told that the clearing is completed. The queue runs in turns and raises that event
once it is empty; a family whose visit finds the queue not running raises it at once,
so that a session without routes does not wait for ever.

A system is the tables and the session together. Its steps are the events of the
machine, the turns of the clear queue, and the processing of the tables, in any order.
-/

namespace Bgpd.Clearing

open Prefixes Rib Fsm Damping Aggregation Updates Processing Evolution Primitives Increments Steps
  Runs Standing

open Actions (plainEnv plainWorld plainRoute plainAttr)
open SessionHygiene (arrive arrive_status peerDelete_spec bgpClearRoute_eq)

/-- The tables, and the session whose routes are cleared. -/
structure System where
  tables : Rib.State
  session : PeerState

variable (env : Env) (peer : Nat)
variable (w : Fsm.World) (event : Event) (s : PeerState)

/-! ## The walk -/

/-- The node holds a route of the neighbour. -/
def holds (s : Rib.State) (rn : Node) : Bool := (s.infos rn).any (·.peer = peer)

/-- `bgp_clear_route_table`, for the tables of one owner and family: the nodes it
queues. -/
def bgpClearRouteTable (s : Rib.State) (owner : Owner) (afi : Afi) (safi : Safi) : List Node :=
  s.nodes.filter fun rn => rn.owner = owner ∧ rn.afi = afi ∧ rn.safi = safi ∧ holds peer s rn

/-- The nodes `bgp_clear_route` queues for a family: those of the main tables, nested
ones included, and those of the clients' tables. In a client's table that holds nested
tables the walk does not get to them. -/
def clearedNodes (s : Rib.State) (afi : Afi) (safi : Safi) : List Node :=
  bgpClearRouteTable peer s .main afi safi
    ++ if safi = .mplsVpn then []
      else (clientsOf env afi safi).flatMap fun rsclient =>
        bgpClearRouteTable peer s (.rsclient rsclient) afi safi

/-- What an event meets outside the session, with the nodes the tables hold. -/
def meets (w : Fsm.World) (s : Rib.State) : Fsm.World := { w with found := clearedNodes env peer s }

/-! ## The queue -/

/-- `BGP_INFO_UNUSEABLE`. -/
def unuseable (ri : BgpInfo) : Bool := ri.flags.history || ri.flags.damped || ri.flags.removed

/-- `bgp_clear_route_node`. A node of the neighbour's own table is there for whichever
route it holds. -/
def bgpClearRouteNode (session : PeerState) (s : Rib.State) (rn : Node) : Rib.State :=
  match (s.infos rn).find? fun ri => ri.peer = peer ∨ rn.owner = .rsclient peer with
  | none => s
  | some ri =>
    if session.sflags.nsfWait ∧ session.nsf rn.afi rn.safi ∧ !ri.flags.stale ∧ !unuseable ri then
      bgpInfoSetFlag env s rn ri.id .stale
    else bgpRibRemove env s rn ri.id

/-- `work_queue_run` for the clear queue, which yields after a number of nodes. -/
def clearRun (sys : System) (cycles : Nat) : System :=
  let later := sys.session.clearQueue.drop cycles
  let session := { sys.session with clearQueue := later, clearThread := !later.isEmpty }
  { tables := (sys.session.clearQueue.take cycles).foldl
      (bgpClearRouteNode env peer sys.session) sys.tables
    session := if later.isEmpty then bgpClearNodeComplete session else session }

/-! ## Steps -/

/-- What happens to the system. -/
inductive Act
  /-- An event from a timer, a socket, a packet or a command. -/
  | event (w : Fsm.World) (event : Event) (outside : event ≠ .clearingCompleted)
  /-- The first of the waiting events. -/
  | pending (w : Fsm.World)
  /-- A turn of the clear queue. -/
  | clear (cycles : Nat)
  /-- A turn of a queue of the tables, and the sessions it meets. -/
  | process (sessions : Nat → Session) (client : Bool)

/-- One step. -/
def step (sys : System) : Act → System
  | .event w event _ =>
    { sys with session := bgpEvent (meets env peer w sys.tables) event sys.session }
  | .pending w =>
    match sys.session.events with
    | [] => sys
    | event :: later =>
      { sys with
        session :=
  bgpEvent (meets env peer w sys.tables) event { sys.session with events := later } }
  | .clear cycles => if sys.session.clearThread then clearRun env peer sys cycles else sys
  | .process sessions client =>
    { sys with
      tables :=
        if client then runRsclientQueue { env with session := sessions } sys.tables
        else runMainQueue { env with session := sessions } sys.tables }

/-- The table where the neighbour's routes can be: not its own, and no table of a
client but those the walk gets to. -/
def Home (rn : Node) : Prop :=
  rn.owner = .main ∨
    rn.safi ≠ .mplsVpn ∧ ∃ rsclient ∈ clientsOf env rn.afi rn.safi, rsclient ≠ peer ∧
      rn.owner = .rsclient rsclient

/-- The tables as the daemon keeps them for a neighbour: a node has at most one route of
the neighbour, in a table where it can be. -/
structure Tidy (s : Rib.State) : Prop where
  sound : Sound s
  alone : ∀ rn, ∀ ri ∈ s.infos rn, ∀ ri' ∈ s.infos rn, ri.peer = peer → ri'.peer = peer →
    ri.id = ri'.id
  home : ∀ rn, ∀ ri ∈ s.infos rn, ri.peer = peer → Home env peer rn

/-- So are they, and the queue runs while it has nodes. -/
structure Kept (sys : System) : Prop where
  neighbour : peer ≠ env.self
  tidy : Tidy env peer sys.tables
  running : sys.session.clearThread = !sys.session.clearQueue.isEmpty

/-- The queue runs when the walk comes to the second family, or nothing is found in
any. -/
def Prompt (sys : System) : Prop :=
  sys.session.clearThread = true ∨ clearedNodes env peer sys.tables .ip .unicast ≠ [] ∨
    ∀ afi safi, clearedNodes env peer sys.tables afi safi = []

/-- Nothing is left to do for the neighbour's routes: each is removed, or kept for its
history. -/
def Cleared (sys : System) : Prop :=
  sys.session.clearQueue = [] ∧ ∀ rn, ∀ ri ∈ sys.tables.infos rn, ri.peer = peer →
    ri.flags.removed = true ∨ ri.flags.history = true

/-! ## The session -/

/-- The part of a session the clearing depends on stays. -/
structure Undisturbed (s s' : PeerState) : Prop where
  status : s'.status = s.status
  clearQueue : s'.clearQueue = s.clearQueue
  clearThread : s'.clearThread = s.clearThread
  nsfWait : s'.sflags.nsfWait = s.sflags.nsfWait

theorem bgpTimerSet_undisturbed (config : Config) (s : PeerState) :
    Undisturbed s (bgpTimerSet config s) := ⟨rfl, rfl, rfl, rfl⟩

theorem bgpNotifySend_undisturbed :
    Undisturbed s (bgpNotifySend w s) := by
  unfold bgpNotifySend bgpWriteNotify eventAdd
  split_ifs <;> exact ⟨rfl, rfl, rfl, rfl⟩

/-- A session that stops, stops without a waiting event, unless its routes are being
cleared. -/
theorem bgpStop_undisturbed (config : Config) (s : PeerState) : Undisturbed s (bgpStop config s) ∧
    (bgpStop config s).events = if s.status = .clearing then s.events else [] := by
  unfold bgpStop dropSession eventFlush
  dsimp only
  split_ifs <;> first | exact ⟨⟨rfl, rfl, rfl, rfl⟩, rfl⟩ | simp_all

/-- While the routes are being cleared every event but the completion is ignored or
stops the session again. -/
theorem fsm_clearing (other : event ≠ .clearingCompleted) :
    fsm .clearing event = (.ignore, .clearing) ∨ fsm .clearing event = (.stop, .clearing) := by
  cases event <;> simp_all [fsm]

theorem bgpEvent_clearing (clearing : s.status = .clearing) (other : event ≠ .clearingCompleted) :
    Undisturbed s (bgpEvent w event s) ∧ (bgpEvent w event s).events = s.events := by
  obtain ⟨stops, events⟩ := bgpStop_undisturbed w.config s
  rw [if_pos clearing] at events
  have stays : (bgpStop w.config s).status = .clearing := stops.status.trans clearing
  unfold bgpEvent
  rw [clearing]
  rcases fsm_clearing event other with entry | entry
  · simp only [entry, Action.func, bgpIgnore, clearing, ne_eq, not_true_eq_false, if_false, if_true]
    exact ⟨bgpTimerSet_undisturbed w.config s, rfl⟩
  · simp only [entry, Action.func, stop, stays, ne_eq, not_true_eq_false, if_false, if_true]
    exact ⟨⟨stops.status, stops.clearQueue, stops.clearThread, stops.nsfWait⟩, events⟩

/-- The completion takes the session to Idle. -/
theorem bgpEvent_completed (clearing : s.status = .clearing) :
    (bgpEvent w .clearingCompleted s).status = .idle ∧
      (bgpEvent w .clearingCompleted s).clearQueue = s.clearQueue := by
  obtain ⟨stops, -⟩ := bgpStop_undisturbed w.config s
  have stays : (eventFlush (bgpStop w.config s)).status = .clearing := stops.status.trans clearing
  unfold bgpEvent
  rw [clearing]
  simp only [fsm, Action.func, bgpClearingCompleted, stays, if_true]
  exact ⟨rfl, stops.clearQueue⟩

/-- What the table does with a session that is up: where it leads to Clearing, the
session is stopped, and elsewhere no action gets in the way of the entry. -/
theorem fsm_established (event : Event) :
    (fsm .established event).2 = .clearing ∧
        ((fsm .established event).1 = .stop ∨ (fsm .established event).1 = .stopWithError ∨
          (fsm .established event).1 = .holdtimeExpire) ∨
      (fsm .established event).2 ≠ .clearing ∧
        ∀ w s, ((fsm .established event).1.func w s).2 = true := by
  cases event <;> simp [fsm, Action.func, bgpIgnore, bgpFsmKeepaliveExpire, bgpFsmKeepalive,
    bgpFsmUpdate]

/-- A session that was up and is to be cleared has stopped, so that no event is
waiting, and goes to Clearing. -/
theorem bgpEvent_established (up : s.status = .established)
    (begins : (bgpEvent w event s).status = .clearing) :
    ∃ s', Undisturbed s s' ∧ s'.events = [] ∧
      bgpEvent w event s = bgpTimerSet w.config (bgpFsmChangeStatus w s' .clearing) := by
  have stopped : ∀ s₁, Undisturbed s s₁ → Undisturbed s (bgpStop w.config s₁) ∧
      (bgpStop w.config s₁).events = [] := by
    intro s₁ before
    obtain ⟨stops, events⟩ := bgpStop_undisturbed w.config s₁
    rw [if_neg (by rw [before.status, up]; decide)] at events
    exact ⟨⟨stops.status.trans before.status, stops.clearQueue.trans before.clearQueue,
      stops.clearThread.trans before.clearThread, stops.nsfWait.trans before.nsfWait⟩, events⟩
  have handled : bgpEvent w event s =
      if ((fsm .established event).1.func w s).2 then
        arrive w ((fsm .established event).1.func w s).1 (fsm .established event).2
      else ((fsm .established event).1.func w s).1 := by
    rw [← up]
    rfl
  rw [handled] at begins ⊢
  rcases fsm_established event with ⟨next, action⟩ | ⟨next, answers⟩
  · suffices result : ∃ s', Undisturbed s s' ∧ s'.events = [] ∧
        (fsm .established event).1.func w s = (s', true) by
      obtain ⟨s', undisturbed, quiet, result⟩ := result
      refine ⟨s', undisturbed, quiet, ?_⟩
      rw [result, next, if_pos rfl, arrive, if_pos (by rw [undisturbed.status, up]; decide)]
    rcases action with action | action | action
    · exact ⟨_, (stopped s ⟨rfl, rfl, rfl, rfl⟩).1, (stopped s ⟨rfl, rfl, rfl, rfl⟩).2,
        by rw [action]; rfl⟩
    · have doubled : Undisturbed s { s with vStart := doubleStart s.vStart } := ⟨rfl, rfl, rfl, rfl⟩
      exact ⟨_, (stopped _ doubled).1, (stopped _ doubled).2, by rw [action]; rfl⟩
    · have told := bgpNotifySend_undisturbed w s
      by_cases accepts : (bgpNotifySend w s).sflags.acceptPeer = true
      · have result :
            (fsm .established event).1.func w s = (peerDelete w (bgpNotifySend w s), false) := by
          rw [action]
          simp [Action.func, bgpFsmHoldtimeExpire, accepts]
        rw [result, if_neg Bool.false_ne_true, (peerDelete_spec w _).1] at begins
        cases begins
      · refine ⟨_, (stopped _ told).1, (stopped _ told).2, ?_⟩
        rw [action]
        simp [Action.func, bgpFsmHoldtimeExpire, accepts]
  · rw [if_pos (answers w s), arrive_status] at begins
    exact absurd begins next

/-! ## The walk over the families -/

/-- A visited family adds its nodes. Where the queue runs already, nothing else
happens. -/
theorem bgpClearRoute_running (nodes : List Node) (running : s.clearThread = true) :
    bgpClearRoute s nodes = { s with clearQueue := s.clearQueue ++ nodes } := by
  unfold bgpClearRoute
  simp [running]

theorem clearRoutes_running {β : Type} (places : List β) (nodes : β → List Node) (s : PeerState)
    (running : s.clearThread = true) :
    places.foldl (fun s place => bgpClearRoute s (nodes place)) s =
      { s with clearQueue := s.clearQueue ++ places.flatMap nodes } := by
  induction places generalizing s with
  | nil => simp
  | cons place later ih =>
    rw [List.foldl_cons, bgpClearRoute_running s _ running,
      ih { s with clearQueue := s.clearQueue ++ nodes place } running]
    simp

/-- Where a family yields a node, the queue runs from then on. -/
theorem bgpClearRoute_starts (nodes : List Node) (any : nodes ≠ []) :
    bgpClearRoute s nodes =
      { s with clearQueue := s.clearQueue ++ nodes, clearThread := true } := by
  unfold bgpClearRoute
  simp [List.isEmpty_eq_false_iff.mpr any]

/-- Where no family yields one, the queue stays as it is. -/
theorem clearRoutes_idle {β : Type} (places : List β) (nodes : β → List Node) (s : PeerState)
    (idle : ∀ place ∈ places, nodes place = []) :
    ∃ events, places.foldl (fun s place => bgpClearRoute s (nodes place)) s =
      { s with events := events } := by
  induction places generalizing s with
  | nil => exact ⟨s.events, rfl⟩
  | cons place later ih =>
    obtain ⟨events, first⟩ := bgpClearRoute_eq s (nodes place)
    obtain ⟨events', rest⟩ := ih (bgpClearRoute s (nodes place))
      fun place member => idle place (List.mem_cons_of_mem _ member)
    refine ⟨events', ?_⟩
    rw [List.foldl_cons, rest, first, idle place List.mem_cons_self]
    simp

/-! ## The tables -/

/-- The routes of the neighbour. -/
def ofPeer : Kind := fun peer' _ _ => peer' = peer

theorem ofPeer_apart (neighbour : peer ≠ env.self) (rn : Node) : (ofPeer peer).Apart env rn := by
  intro _ ri self _ _ mine
  exact neighbour (mine.symm.trans self)

namespace Tidy

variable {env peer} {s s' : Rib.State}

/-- A node shows one route of the neighbour, or none. -/
theorem shows (tidy : Tidy env peer s) (rn : Node) : ∃ shown, Shows (ofPeer peer) s rn shown := by
  by_cases any : ∃ ri ∈ s.infos rn, ri.peer = peer
  · obtain ⟨ri, held, mine⟩ := any
    refine ⟨some (core ri), fun other held' mine' => ?_, ?_⟩
    · rw [tidy.sound.unique held held' (tidy.alone rn other held' ri held mine' mine)]
    · rintro _ ⟨⟩
      exact ⟨ri, held, mine, rfl⟩
  · exact ⟨none, fun ri held mine => absurd ⟨ri, held, mine⟩ any, fun c none => by cases none⟩

/-- Routes that stand stay tidy. -/
theorem stands (tidy : Tidy env peer s) (sound : Sound s')
    (stands : ∀ rn, Stands (ofPeer peer) rn s s') : Tidy env peer s' where
  sound := sound
  alone := by
    intro rn ri held ri' held' mine mine'
    obtain ⟨before, member, same⟩ := (stands rn).origin ri held mine
    obtain ⟨before', member', same'⟩ := (stands rn).origin ri' held' mine'
    rw [core_id same, core_id same']
    exact tidy.alone rn before member before' member' ((core_peer same).symm.trans mine)
      ((core_peer same').symm.trans mine')
  home := by
    intro rn ri held mine
    obtain ⟨before, member, same⟩ := (stands rn).origin ri held mine
    exact tidy.home rn before member ((core_peer same).symm.trans mine)

end Tidy

/-- What clearing a node comes to: the neighbour's routes elsewhere stand, and those of
the node are removed or kept for their history. -/
structure NodeCleared (rn : Node) (s s' : Rib.State) : Prop where
  tidy : Tidy env peer s'
  apart : ∀ rn', rn' ≠ rn → Stands (ofPeer peer) rn' s s'
  cleared : ∀ ri ∈ s'.infos rn, ri.peer = peer → ri.flags.removed = true ∨ ri.flags.history = true

variable {rn : Node}
variable {id : Nat}

/-- A route that is deleted is the neighbour's only one in the node. -/
theorem bgpInfoDelete_cleared {s : Rib.State} (tidy : Tidy env peer s)
    (mine : ∀ ri ∈ s.infos rn, ri.peer = peer → ri.id = id) :
    NodeCleared env peer rn s (bgpInfoDelete env s rn id) := by
  have deletes : Evolves lax s (bgpInfoDelete env s rn id) :=
    bgpInfoDelete_evolves env s rn id fun _ => trivial
  have apart : ∀ rn', rn' ≠ rn → Stands (ofPeer peer) rn' s (bgpInfoDelete env s rn id) :=
    fun rn' other => .of_infos (bgpInfoDelete_apart env s rn id rn' other)
  obtain ⟨shown, shows⟩ := tidy.shows rn
  cases shown with
  | none =>
    have stands : ∀ rn', Stands (ofPeer peer) rn' s (bgpInfoDelete env s rn id) := fun rn' =>
      bgpInfoDelete_stands env s rn id fun ri held _ mine => by cases shows.only ri held mine
    refine ⟨tidy.stands (deletes.sound tidy.sound) stands, fun rn' _ => stands rn', ?_⟩
    intro ri held mine'
    obtain ⟨before, member, same⟩ := (stands rn).origin ri held mine'
    cases shows.only before member ((core_peer same).symm.trans mine')
  | some c =>
    obtain ⟨ri, held, mine', rfl⟩ := shows.held c rfl
    obtain rfl := mine ri held mine'
    obtain ⟨c', shows', removed, source⟩ := bgpInfoDelete_shows env tidy.sound shows
    refine ⟨⟨deletes.sound tidy.sound, ?_, ?_⟩, apart, ?_⟩
    · intro rn' first member second member' own own'
      by_cases here : rn' = rn
      · subst here
        have same := (shows'.only first member own).symm.trans (shows'.only second member' own')
        exact core_id (Option.some.inj same)
      · rw [bgpInfoDelete_apart env s rn _ rn' here] at member member'
        exact tidy.alone rn' first member second member' own own'
    · intro rn' first member own
      by_cases here : rn' = rn
      · exact here ▸ tidy.home rn ri held mine'
      · rw [bgpInfoDelete_apart env s rn _ rn' here] at member
        exact tidy.home rn' first member own
    · intro first member own
      have shown := Option.some.inj (shows'.only first member own)
      rw [shown] at removed
      exact Or.inl removed

/-- Removing a route from the tables keeps it where it has a history. -/
theorem bgpRibRemove_cleared (neighbour : peer ≠ env.self) {s : Rib.State} (tidy : Tidy env peer s)
    (mine : ∀ ri ∈ s.infos rn, ri.peer = peer → ri.id = id) :
    NodeCleared env peer rn s (bgpRibRemove env s rn id) := by
  have counts :=
    bgpAggregateDecrement_evolves env (lax_covers env) s rn id (Or.inl (Or.inl trivial))
  have stands : ∀ rn', Stands (ofPeer peer) rn' s (bgpAggregateDecrement env s rn id) := fun rn' =>
    bgpAggregateDecrement_stands env (ofPeer_apart env peer neighbour rn') s tidy.sound rn id
  have tidy' := tidy.stands (counts.sound tidy.sound) stands
  have mine' : ∀ ri ∈ (bgpAggregateDecrement env s rn id).infos rn, ri.peer = peer →
      ri.id = id := by
    intro ri held own
    obtain ⟨before, member, same⟩ := (stands rn).origin ri held own
    exact (core_id same).trans (mine before member ((core_peer same).symm.trans own))
  have processed : ∀ s', NodeCleared env peer rn s s' →
      NodeCleared env peer rn s (bgpProcess s' rn) := by
    intro s' before
    have same : (bgpProcess s' rn).infos = s'.infos := bgpProcess_infos s' rn
    have queues : Evolves lax s' (bgpProcess s' rn) := bgpProcess_evolves s' rn fun _ => trivial
    refine ⟨before.tidy.stands (queues.sound before.tidy.sound) fun rn' => bgpProcess_stands s' rn,
      fun rn' other => (before.apart rn' other).trans (bgpProcess_stands s' rn), ?_⟩
    rw [same]
    exact before.cleared
  unfold bgpRibRemove
  generalize bgpAggregateDecrement env s rn id = s' at *
  apply processed
  split
  · rename_i kept
    refine ⟨tidy', fun rn' _ => stands rn', fun ri held own => Or.inr ?_⟩
    rw [← mine' ri held own, tidy'.sound.named held] at kept
    exact kept
  · have deleted := bgpInfoDelete_cleared env peer tidy' mine'
    exact ⟨deleted.tidy, fun rn' other => (stands rn').trans (deleted.apart rn' other),
      deleted.cleared⟩

/-- A node that is cleared holds no route of the neighbour that can be used. -/
theorem bgpClearRouteNode_cleared (neighbour : peer ≠ env.self) (session : PeerState)
    (restarts : session.sflags.nsfWait = false) {s : Rib.State} (tidy : Tidy env peer s)
    (rn : Node) :
    NodeCleared env peer rn s (bgpClearRouteNode env peer session s rn) := by
  unfold bgpClearRouteNode
  split
  · rename_i missing
    refine ⟨tidy, fun rn' _ => .refl s, fun ri held own => ?_⟩
    have other := List.find?_eq_none.mp missing ri held
    simp [own] at other
  · rename_i ri found
    have held := List.mem_of_find?_eq_some found
    have known := List.find?_some found
    simp only [decide_eq_true_eq] at known
    rw [if_neg (by simp [restarts])]
    refine bgpRibRemove_cleared env peer neighbour tidy fun other member own => ?_
    rcases known with same | foreign
    · exact tidy.alone rn other member ri held own same
    · -- The neighbour has no routes in its own table.
      rcases tidy.home rn other member own with main | ⟨-, rsclient, -, another, client⟩
      · rw [main] at foreign
        cases foreign
      · rw [client] at foreign
        exact absurd (Owner.rsclient.inj foreign) another

/-- A turn clears the nodes it takes, and lets the routes elsewhere stand. -/
theorem clearNodes_cleared (neighbour : peer ≠ env.self) (session : PeerState)
    (restarts : session.sflags.nsfWait = false) (nodes : List Node) {s : Rib.State}
    (tidy : Tidy env peer s) :
    let s' := nodes.foldl (bgpClearRouteNode env peer session) s
    Tidy env peer s' ∧ ∀ rn, ∀ ri' ∈ s'.infos rn, ri'.peer = peer →
      (ri'.flags.removed = true ∨ ri'.flags.history = true) ∨
        rn ∉ nodes ∧ ∃ ri ∈ s.infos rn, core ri' = core ri := by
  induction nodes generalizing s with
  | nil => exact ⟨tidy, fun rn ri' held own => Or.inr ⟨List.not_mem_nil, ri', held, rfl⟩⟩
  | cons node later ih =>
    have first := bgpClearRouteNode_cleared env peer neighbour session restarts tidy node
    obtain ⟨tidy', rest⟩ := ih first.tidy
    refine ⟨tidy', fun rn ri' held own => ?_⟩
    rcases rest rn ri' held own with done | ⟨absent, ri, member, same⟩
    · exact Or.inl done
    · have own' := (core_peer same).symm.trans own
      by_cases here : rn = node
      · subst here
        rcases first.cleared ri member own' with removed | history
        · exact Or.inl (Or.inl ((core_removed same).trans removed))
        · exact Or.inl (Or.inr ((core_congr (fun ri => ri.flags.history) same).trans history))
      · obtain ⟨before, member', same'⟩ := (first.apart rn here).origin ri member own'
        refine Or.inr ⟨fun inside => ?_, before, member', same.trans same'⟩
        exact (List.mem_cons.mp inside).elim here absent

/-! ## The invariant -/

/-- What holds while the session is in Clearing: the nodes with a route that is neither
removed nor history are queued, and no completion is waiting while there are any. -/
structure InClearing (sys : System) : Prop where
  status : sys.session.status = .clearing
  restarts : sys.session.sflags.nsfWait = false
  kept : Kept env peer sys
  done : .clearingCompleted ∈ sys.session.events → sys.session.clearQueue = []
  waiting : ∀ rn, ∀ ri ∈ sys.tables.infos rn, ri.peer = peer →
    (ri.flags.removed = true ∨ ri.flags.history = true) ∨ rn ∈ sys.session.clearQueue

section Invariant

variable {env peer} {sys : System}

/-- A session that was not disturbed, over the same tables. -/
theorem InClearing.undisturbed (inv : InClearing env peer sys) {session : PeerState}
    (same : Undisturbed sys.session session) (events : session.events ⊆ sys.session.events) :
    InClearing env peer { sys with session } where
  status := same.status.trans inv.status
  restarts := same.nsfWait.trans inv.restarts
  kept := ⟨inv.kept.neighbour, inv.kept.tidy, by
    rw [same.clearThread, same.clearQueue, inv.kept.running]⟩
  done := fun member => same.clearQueue.trans (inv.done (events member))
  waiting := fun rn ri held mine => same.clearQueue ▸ inv.waiting rn ri held mine

/-- Tables whose routes stand. -/
theorem InClearing.stands (inv : InClearing env peer sys) {tables : Rib.State}
    (sound : Sound tables) (stands : ∀ rn, Stands (ofPeer peer) rn sys.tables tables) :
    InClearing env peer { sys with tables } where
  status := inv.status
  restarts := inv.restarts
  kept := ⟨inv.kept.neighbour, inv.kept.tidy.stands sound stands, inv.kept.running⟩
  done := inv.done
  waiting := by
    intro rn ri' held mine
    obtain ⟨ri, member, same⟩ := (stands rn).origin ri' held mine
    have same' : ri'.flags.history = ri.flags.history :=
      core_congr (fun ri => ri.flags.history) same
    rw [core_removed same, same']
    exact inv.waiting rn ri member ((core_peer same).symm.trans mine)

/-- A turn of the queue. It raises the completion when it leaves the queue empty. -/
theorem clearRun_invariant (inv : InClearing env peer sys) (cycles : Nat) :
    InClearing env peer (clearRun env peer sys cycles) := by
  obtain ⟨tidy, cleared⟩ := clearNodes_cleared env peer inv.kept.neighbour sys.session inv.restarts
    (sys.session.clearQueue.take cycles) inv.kept.tidy
  have waiting : ∀ rn, ∀ ri' ∈ ((sys.session.clearQueue.take cycles).foldl
      (bgpClearRouteNode env peer sys.session) sys.tables).infos rn, ri'.peer = peer →
      (ri'.flags.removed = true ∨ ri'.flags.history = true) ∨
        rn ∈ sys.session.clearQueue.drop cycles := by
    intro rn ri' held mine
    rcases cleared rn ri' held mine with done | ⟨absent, ri, member, same⟩
    · exact Or.inl done
    · have same' : ri'.flags.history = ri.flags.history :=
        core_congr (fun ri => ri.flags.history) same
      rw [core_removed same, same']
      refine (inv.waiting rn ri member ((core_peer same).symm.trans mine)).imp_right fun queued =>
        ?_
      rw [← List.take_append_drop cycles sys.session.clearQueue] at queued
      exact (List.mem_append.mp queued).resolve_left absent
  unfold clearRun
  dsimp only
  by_cases last : sys.session.clearQueue.drop cycles = []
  · have raises : ∀ s : PeerState, bgpClearNodeComplete s = s ∨
        bgpClearNodeComplete s = { s with events := s.events ++ [.clearingCompleted] } := by
      intro s
      unfold bgpClearNodeComplete eventAdd
      split_ifs
      · exact Or.inl rfl
      · exact Or.inr rfl
    rw [last] at waiting ⊢
    rw [if_pos List.isEmpty_nil]
    rcases raises
      { sys.session with clearQueue := [], clearThread := !List.isEmpty ([] : List Node) }
      with same | same
    all_goals
      rw [same]
      exact ⟨inv.status, inv.restarts, ⟨inv.kept.neighbour, tidy, rfl⟩, fun _ => rfl, waiting⟩
  · rw [if_neg (by simpa using last)]
    refine ⟨inv.status, inv.restarts, ⟨inv.kept.neighbour, tidy, rfl⟩, fun member => ?_, waiting⟩
    have queue := inv.done member
    simp [queue] at last

/-- A step from Clearing stays there, or leaves it with everything cleared. -/
theorem step_invariant (inv : InClearing env peer sys) (act : Act) :
    InClearing env peer (step env peer sys act) ∨
      (step env peer sys act).session.status = .idle ∧ Cleared peer (step env peer sys act) := by
  cases act with
  | event w event outside =>
    obtain ⟨same, events⟩ := bgpEvent_clearing (meets env peer w sys.tables) event sys.session
      inv.status outside
    exact Or.inl (inv.undisturbed same (by rw [events]; exact fun _ => id))
  | pending w =>
    unfold step
    dsimp only
    split
    · exact Or.inl inv
    · rename_i event later waiting
      have taken :
          InClearing env peer { sys with session := { sys.session with events := later } } :=
        inv.undisturbed ⟨rfl, rfl, rfl, rfl⟩ (by rw [waiting]; exact List.subset_cons_self _ _)
      by_cases completion : event = .clearingCompleted
      · subst completion
        have queue : sys.session.clearQueue = [] :=
          inv.done (by rw [waiting]; exact List.mem_cons_self)
        obtain ⟨idle, same⟩ := bgpEvent_completed (meets env peer w sys.tables)
          { sys.session with events := later } inv.status
        refine Or.inr ⟨idle, same.trans queue, fun rn ri held mine => ?_⟩
        have found := inv.waiting rn ri held mine
        rw [queue] at found
        exact found.resolve_right List.not_mem_nil
      · obtain ⟨same, events⟩ := bgpEvent_clearing (meets env peer w sys.tables) event
          { sys.session with events := later } inv.status completion
        exact Or.inl (taken.undisturbed same (by rw [events]; exact fun _ => id))
  | clear cycles =>
    unfold step
    split_ifs
    · exact Or.inl (clearRun_invariant inv cycles)
    · exact Or.inl inv
  | process sessions client =>
    unfold step
    cases client with
    | true =>
      exact Or.inl (inv.stands (runRsclientQueue_sound _ inv.kept.tidy.sound)
        fun rn => runRsclientQueue_stands _ inv.kept.tidy.sound)
    | false =>
      exact Or.inl (inv.stands (runMainQueue_sound _ inv.kept.tidy.sound)
        fun rn => runMainQueue_stands _ inv.kept.tidy.sound)

end Invariant

/-! ## Leaving Established -/

/-- The walk gets to every node with a route of the neighbour. -/
theorem mem_clearedNodes {env : Env} {peer : Nat} {s : Rib.State} (tidy : Tidy env peer s)
    {ri : BgpInfo} (held : ri ∈ s.infos rn) (mine : ri.peer = peer) :
    rn ∈ clearedNodes env peer s rn.afi rn.safi := by
  have listed : rn ∈ s.nodes := tidy.sound.listed rn (List.ne_nil_of_mem held)
  have holding : holds peer s rn = true :=
    List.any_eq_true.mpr ⟨ri, held, decide_eq_true mine⟩
  unfold clearedNodes bgpClearRouteTable
  rcases tidy.home rn ri held mine with main | ⟨plain, rsclient, client, -, owner⟩
  · refine List.mem_append_left _ (List.mem_filter.mpr ⟨listed, ?_⟩)
    simp [main, holding]
  · refine List.mem_append_right _ ?_
    rw [if_neg plain]
    refine List.mem_flatMap.mpr ⟨rsclient, client, List.mem_filter.mpr ⟨listed, ?_⟩⟩
    simp [owner, holding]

/-- What the walk over all the families leaves in the session: the queue runs if it has
nodes, and only where it has none the completion was raised. -/
theorem bgpClearRouteAll_queues (w : Fsm.World) (s : PeerState) (quiet : s.events = [])
    (running : s.clearThread = !s.clearQueue.isEmpty)
    (prompt : s.clearThread = true ∨ w.foundIn (.ip, some .unicast) ≠ [] ∨
      ∀ place ∈ clearFamilies, w.foundIn place = []) :
    let s' := bgpClearRouteAll w s
    s'.sflags = s.sflags ∧ s'.clearQueue = s.clearQueue ++ clearFamilies.flatMap w.foundIn ∧
      s'.clearThread = !s'.clearQueue.isEmpty ∧
      (.clearingCompleted ∈ s'.events → s'.clearQueue = []) := by
  unfold bgpClearRouteAll
  by_cases up : s.clearThread = true
  · rw [clearRoutes_running clearFamilies w.foundIn s up]
    rw [up] at running
    refine ⟨rfl, rfl, ?_, ?_⟩
    · change s.clearThread = _
      rw [up]
      cases queue : s.clearQueue <;> simp_all
    · simp [quiet]
  · have down : s.clearThread = false := eq_false_of_ne_true up
    have queue : s.clearQueue = [] := by
      rw [down] at running
      simpa using running.symm
    rcases prompt.resolve_left up with first | none
    · have families : clearFamilies = (.ip, some .unicast) :: clearFamilies.tail := rfl
      generalize clearFamilies.tail = later at families
      rw [families, List.foldl_cons, bgpClearRoute_starts s _ first]
      rw [clearRoutes_running later w.foundIn
        { s with
          clearQueue := s.clearQueue ++ w.foundIn (.ip, some .unicast)
          clearThread := true } rfl]
      refine ⟨rfl, by simp, ?_, ?_⟩
      · simp [first]
      · simp [quiet]
    · obtain ⟨events, idle⟩ := clearRoutes_idle clearFamilies w.foundIn s none
      rw [idle]
      refine ⟨rfl, ?_, running, fun _ => queue⟩
      change s.clearQueue = _
      rw [List.flatMap_eq_nil_iff.mpr none, List.append_nil]

section Leaving

variable {env peer} {sys : System}

/-- What the walk finds in a visited family, it finds in the tables. -/
theorem meets_foundIn (w : Fsm.World) (s : Rib.State)
    (none : ∀ afi safi, clearedNodes env peer s afi safi = []) (place : Afi × Option Safi) :
    (meets env peer w s).foundIn place = [] := by
  obtain ⟨afi, safi⟩ := place
  cases safi with
  | none => rfl
  | some safi => exact none afi safi

/-- A session that was up and goes to Clearing. -/
theorem begins_clearing (kept : Kept env peer sys) (prompt : Prompt env peer sys)
    (restarts : sys.session.sflags.nsfWait = false) (session : PeerState)
    (same : Undisturbed sys.session session) (w : Fsm.World) (event : Event)
    (up : session.status = .established)
    (begins : (bgpEvent (meets env peer w sys.tables) event session).status = .clearing) :
    InClearing env peer
      { sys with session := bgpEvent (meets env peer w sys.tables) event session } := by
  obtain ⟨s', undisturbed, quiet, stopped⟩ := bgpEvent_established _ event session up begins
  have running : s'.clearThread = !s'.clearQueue.isEmpty := by
    rw [undisturbed.clearThread, undisturbed.clearQueue, same.clearThread, same.clearQueue,
      kept.running]
  have prompt' : s'.clearThread = true ∨
      (meets env peer w sys.tables).foundIn (.ip, some .unicast) ≠ [] ∨
        ∀ place ∈ clearFamilies, (meets env peer w sys.tables).foundIn place = [] := by
    rw [undisturbed.clearThread, same.clearThread]
    exact prompt.imp_right fun found => found.imp_right fun none place _ =>
      meets_foundIn w sys.tables none place
  obtain ⟨flags, queue, thread, done⟩ :=
    bgpClearRouteAll_queues (meets env peer w sys.tables) s' quiet running prompt'
  rw [stopped]
  generalize walked : bgpClearRouteAll (meets env peer w sys.tables) s' = s'' at *
  have changed : bgpFsmChangeStatus (meets env peer w sys.tables) s' .clearing =
      { s'' with ostatus := s''.status, status := .clearing } := by
    rw [← walked]
    rfl
  rw [changed]
  refine ⟨rfl, ?_, ⟨kept.neighbour, kept.tidy, thread⟩, done, fun rn ri held mine => Or.inr ?_⟩
  · change s''.sflags.nsfWait = false
    rw [flags, undisturbed.nsfWait, same.nsfWait, restarts]
  · change rn ∈ s''.clearQueue
    rw [queue]
    refine List.mem_append_right _ (List.mem_flatMap.mpr ⟨_,
      SessionHygiene.mem_clearFamilies rn.afi rn.safi, ?_⟩)
    exact mem_clearedNodes kept.tidy held mine

/-- The step that takes a session from Established to Clearing starts the clearing. -/
theorem leave_invariant (kept : Kept env peer sys) (prompt : Prompt env peer sys)
    (restarts : sys.session.sflags.nsfWait = false) (up : sys.session.status = .established)
    (act : Act) (begins : (step env peer sys act).session.status = .clearing) :
    InClearing env peer (step env peer sys act) := by
  have still : ∀ status : Status, status = .established → status ≠ .clearing := by
    rintro _ rfl
    decide
  cases act with
  | event w event outside =>
    exact begins_clearing kept prompt restarts sys.session ⟨rfl, rfl, rfl, rfl⟩ w event up begins
  | pending w =>
    unfold step at begins ⊢
    dsimp only at begins ⊢
    split at begins
    · exact absurd begins (still _ up)
    · rename_i event later waiting
      exact begins_clearing kept prompt restarts { sys.session with events := later }
        ⟨rfl, rfl, rfl, rfl⟩ w event up begins
  | clear cycles =>
    have same : (step env peer sys (.clear cycles)).session.status = sys.session.status := by
      unfold step clearRun bgpClearNodeComplete eventAdd
      dsimp only
      split_ifs <;> rfl
    exact absurd begins (still _ (same.trans up))
  | process sessions client => exact absurd begins (still _ up)

/-- Every act is taken in Clearing. -/
def During : System → Act → Prop := fun sys _ => sys.session.status = .clearing

/-- Along a run in Clearing the invariant holds, up to the step that leaves it. -/
theorem run_invariant (acts : List Act) (inv : InClearing env peer sys)
    (during : Guarded (step env peer) During sys acts) :
    InClearing env peer (run (step env peer) sys acts) ∨
      Cleared peer (run (step env peer) sys acts) := by
  induction acts generalizing sys with
  | nil => exact Or.inl inv
  | cons act later ih =>
    rcases step_invariant inv act with stays | ⟨idle, cleared⟩
    · exact ih stays during.2
    · cases later with
      | nil => exact Or.inr cleared
      | cons next rest =>
        have again : (step env peer sys act).session.status = .clearing := during.2.1
        rw [idle] at again
        cases again

end Leaving

/-- When a session that left Established without a graceful restart arrives in Idle, its
clear queue is empty, and of its routes only those are left that are removed or kept for
their history. -/
theorem cleared_when_idle (sys : System) (kept : Kept env peer sys) (prompt : Prompt env peer sys)
    (up : sys.session.status = .established) (restarts : sys.session.sflags.nsfWait = false)
    (act : Act) (begins : (step env peer sys act).session.status = .clearing) (acts : List Act)
    (during : Guarded (step env peer) During (step env peer sys act) acts)
    (idle : (run (step env peer) (step env peer sys act) acts).session.status = .idle) :
    Cleared peer (run (step env peer) (step env peer sys act) acts) := by
  have inv := leave_invariant kept prompt restarts up act begins
  rcases run_invariant acts inv during with stays | cleared
  · rw [stays.status] at idle
    cases idle
  · exact cleared

/-! ## Runs -/

/-- A prefix of each family. -/
def halfOf (family : Afi) : Prefix := ⟨family, [true], by cases family <;> decide⟩

/-- Its node in the main table. -/
def halfNode (family : Afi) : Node := ⟨.main, .unicast, none, halfOf family, rfl⟩

/-- The tables of an instance with neighbour 1, once it has announced a prefix. -/
def announced (env : Env) (family : Afi) : Rib.State :=
  bgpUpdate env (plainWorld 0) .empty (plainRoute 1 (halfOf family)
    (plainAttr 0x0A000001 0)).toUpdateCall

/-- The session of the neighbour is up. -/
def sessionUp (tables : Rib.State) : System := { tables, session := { status := .established } }

/-- The session is told to stop. -/
def stopped : Act := .event {} .bgpStop (by decide)

/-- The announced route is the only one. -/
theorem announced_only (rn : Node) (ri : BgpInfo)
    (held : ri ∈ (announced (plainEnv [1]) .ip).infos rn) : rn = halfNode .ip := by
  have infos : (announced (plainEnv [1]) .ip).infos rn =
      if rn = halfNode .ip then (announced (plainEnv [1]) .ip).infos (halfNode .ip) else [] := rfl
  by_contra other
  rw [infos, if_neg other] at held
  exact List.not_mem_nil held

theorem announced_kept : Kept (plainEnv [1]) 1 (sessionUp (announced (plainEnv [1]) .ip)) where
  neighbour := by decide
  tidy :=
    { sound :=
        { bounded := fun rn ri held => by
            obtain rfl := announced_only rn ri held
            revert ri
            decide
          distinct := fun rn => by
            by_cases here : rn = halfNode .ip
            · subst here
              decide
            · have none : (announced (plainEnv [1]) .ip).infos rn = [] :=
                List.eq_nil_iff_forall_not_mem.mpr fun ri held => here (announced_only rn ri held)
              simp [sessionUp, none]
          listed := fun rn any => by
            obtain ⟨ri, held⟩ := List.exists_mem_of_ne_nil _ any
            obtain rfl := announced_only rn ri held
            decide }
      alone := fun rn ri held => by
        obtain rfl := announced_only rn ri held
        revert ri
        decide
      home := fun rn ri held _ => by
        obtain rfl := announced_only rn ri held
        exact Or.inl rfl }
  running := rfl

/-- The session stops, its queue runs, and the completion is handled. -/
theorem cleared_when_idle_stopped :
    Cleared 1 (run (step (plainEnv [1]) 1) (step (plainEnv [1]) 1
      (sessionUp (announced (plainEnv [1]) .ip)) stopped) [.clear 1, .pending {}]) :=
  cleared_when_idle (plainEnv [1]) 1 _ announced_kept (Or.inr (Or.inl (by decide))) rfl rfl stopped
    (by decide) _ ⟨by unfold During; decide, by unfold During; decide, trivial⟩ (by decide)

/-- A route that is kept for its history outlasts the clearing; and where only the IPv6
tables have a route, the session is in Idle before its queue has run. -/
theorem uncleared_when_idle :
    (let env : Env := { plainEnv [1] with damping := fun _ _ => true }
      let tables := bgpWithdraw env (plainWorld 0) (announced env .ip)
        (plainRoute 1 (halfOf .ip) (plainAttr 0 0)).toUpdateCall
      let start := step env 1 (sessionUp tables) stopped
      let final := run (step env 1) start [.clear 1, .pending {}]
      start.session.status = .clearing ∧ (step env 1 start (.clear 1)).session.status = .clearing ∧
        final.session.status = .idle ∧
        ∃ ri ∈ final.tables.infos (halfNode .ip), ri.peer = 1 ∧ ri.flags.removed = false) ∧
    (let env := plainEnv [1]
      let start := step env 1 (sessionUp (announced env .ip6)) stopped
      let final := run (step env 1) start [.pending {}]
      start.session.status = .clearing ∧ final.session.status = .idle ∧
        final.session.clearQueue ≠ [] ∧
        ∃ ri ∈ final.tables.infos (halfNode .ip6), ri.peer = 1 ∧ ri.flags.removed = false) := by
  decide

end Bgpd.Clearing
