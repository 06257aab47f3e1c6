import Bgpd.Fsm

/-!
# What the state machine leaves behind

A session that is idle should hold no connection, and a session that was up should
be left through the states in which its routes are cleared. The table ignores some
events on the way to Idle, so both hold exactly as long as no such event meets an
open connection.
-/

namespace Bgpd.SessionHygiene

open Prefixes Rib Fsm

variable (w : World) (s : PeerState) (event : Event)

/-- No connection, and nothing to write. -/
structure Closed (s : PeerState) : Prop where
  fd : s.fd = none
  tRead : s.tRead = false
  tWrite : s.tWrite = false
  obuf : s.obuf = []

/-- Closed, with no timer but the start timer and those of graceful restart and of
the prefix limit. -/
structure Quiet (s : PeerState) : Prop extends Closed s where
  connect : s.timers.connect = false
  holdtime : s.timers.holdtime = false
  keepalive : s.timers.keepalive = false
  asorig : s.timers.asorig = false
  routeadv : s.timers.routeadv = false

/-- The routes of the neighbour were put up for clearing between two states. -/
def RoutesCleared (w : World) (s s' : PeerState) : Prop :=
  s.clearings < s'.clearings ∧ ∀ afi safi, ∀ rn ∈ w.found afi safi, rn ∈ s'.clearQueue

/-- An event, and what it meets. -/
abbrev Step := Event × World

/-- The machine. -/
def step (s : PeerState) (action : Step) : PeerState := bgpEvent action.2 action.1 s

/-- A step leaves a session that was up only to where its routes are cleared, and
arrives in Idle with nothing left of a connection. -/
def Clean (s : PeerState) (action : Step) : Prop :=
  (s.status = .established → (step s action).status ≠ .established →
    (step s action).status.clears ∧ RoutesCleared action.2 s (step s action)) ∧
  ((step s action).status = .idle → Quiet (step s action))

/-- An event that the table ignores on the way to Idle meets no connection. -/
def Careful (s : PeerState) (action : Step) : Prop :=
  fsm s.status action.1 = (.ignore, .idle) → s.fd = none

/-! ## What the states of a careful run have in common -/

/-- Whether a status has a socket. A session that is connecting may have failed to
get one. -/
def holdsSocket : Status → Option Bool
  | .idle | .active | .clearing | .deleted => some false
  | .connect => none
  | .openSent | .openConfirm | .established => some true

/-- Without a socket there is no thread and nothing to write, the status decides
whether there is a socket, and an idle session is quiet. -/
structure Sound (s : PeerState) : Prop where
  unused : s.fd = none → Closed s
  closed : holdsSocket s.status = some false → s.fd = none
  opened : holdsSocket s.status = some true → s.fd ≠ none
  quiet : s.status = .idle → Quiet s

/-- An idle session without a connection is where careful runs start. -/
theorem Quiet.sound {s : PeerState} (quiet : Quiet s) (idle : s.status = .idle) : Sound s where
  unused := fun _ => quiet.toClosed
  closed := fun _ => quiet.fd
  opened := by simp [idle, holdsSocket]
  quiet := fun _ => quiet

theorem eventAdd_eq :
    ∃ events, eventAdd s event = { s with events := events } := by
  unfold eventAdd
  split_ifs
  · exact ⟨s.events, rfl⟩
  · exact ⟨_, rfl⟩

/-! ## Clearing -/

/-- Queueing the nodes of one family touches the queue and the events only. -/
theorem bgpClearRoute_eq (nodes : List Node) :
    ∃ events, bgpClearRoute s nodes = { s with
      events := events, clearQueue := s.clearQueue ++ nodes
      clearThread := s.clearThread || !nodes.isEmpty } := by
  simp only [bgpClearRoute, bgpClearNodeComplete]
  split_ifs
  · exact ⟨s.events, rfl⟩
  · exact eventAdd_eq _ _

theorem clearRoutes_eq {β : Type} (places : List β) (nodes : β → List Node) (s : PeerState) :
    ∃ events thread, places.foldl (fun s place => bgpClearRoute s (nodes place)) s = { s with
      events := events, clearQueue := s.clearQueue ++ places.flatMap nodes
      clearThread := thread } := by
  induction places generalizing s with
  | nil => exact ⟨s.events, s.clearThread, by simp⟩
  | cons place rest ih =>
    obtain ⟨events, first⟩ := bgpClearRoute_eq s (nodes place)
    obtain ⟨events', thread, later⟩ := ih (bgpClearRoute s (nodes place))
    refine ⟨events', thread, ?_⟩
    rw [List.foldl_cons, later, first]
    simp

/-- Clearing all the routes touches nothing of the connection. -/
theorem bgpClearRouteAll_eq :
    ∃ events thread, bgpClearRouteAll w s = { s with
      events := events, clearQueue := s.clearQueue ++ clearFamilies.flatMap w.foundIn
      clearThread := thread, clearings := s.clearings + 1 } := by
  obtain ⟨events, thread, cleared⟩ := clearRoutes_eq clearFamilies w.foundIn s
  exact ⟨events, thread, by simp only [bgpClearRouteAll, cleared]⟩

theorem mem_clearFamilies (afi : Afi) (safi : Safi) : (afi, some safi) ∈ clearFamilies := by
  cases afi <;> cases safi <;> decide

theorem bgpClearRouteAll_routesCleared :
    RoutesCleared w s (bgpClearRouteAll w s) := by
  obtain ⟨events, thread, cleared⟩ := bgpClearRouteAll_eq w s
  rw [cleared]
  refine ⟨Nat.lt_succ_self _, fun afi safi rn found => ?_⟩
  refine List.mem_append_right _ (List.mem_flatMap.2 ⟨_, mem_clearFamilies afi safi, found⟩)

theorem RoutesCleared.mono {w : World} {s s₁ s' s'' : PeerState} (cleared : RoutesCleared w s s')
    (before : s₁.clearings = s.clearings) (count : s'.clearings ≤ s''.clearings)
    (queue : s'.clearQueue ⊆ s''.clearQueue) : RoutesCleared w s₁ s'' :=
  ⟨by have := cleared.1; omega, fun afi safi rn found => queue (cleared.2 afi safi rn found)⟩

/-! ## Arriving in a status -/

/-- The status an entry names, and its timers. -/
def arrive (w : World) (s : PeerState) (next : Status) : PeerState :=
  bgpTimerSet w.config (if next ≠ s.status then bgpFsmChangeStatus w s next else s)

/-- Arriving keeps the connection, and clears the routes where it has to. -/
theorem arrive_spec (next : Status) :
    (arrive w s next).status = next ∧ (arrive w s next).fd = s.fd ∧
      (Closed s → Closed (arrive w s next)) ∧
      (next.clears → s.status ≠ next → RoutesCleared w s (arrive w s next)) := by
  by_cases same : next = s.status
  · have arrived : arrive w s next = bgpTimerSet w.config s := by simp [arrive, same]
    rw [arrived]
    exact ⟨same.symm, rfl, fun closed => ⟨closed.fd, closed.tRead, closed.tWrite, closed.obuf⟩,
      fun _ other => absurd same.symm other⟩
  have arrived : arrive w s next = bgpTimerSet w.config (bgpFsmChangeStatus w s next) := by
    simp [arrive, same]
  rw [arrived]
  by_cases clears : next.clears
  · have changed : bgpFsmChangeStatus w s next =
        { bgpClearRouteAll w s with
          ostatus := (bgpClearRouteAll w s).status, status := next } := by
      simp [bgpFsmChangeStatus, clears]
    obtain ⟨events, thread, cleared⟩ := bgpClearRouteAll_eq w s
    have routes := bgpClearRouteAll_routesCleared w s
    rw [changed]
    refine ⟨rfl, by simp [bgpTimerSet, cleared], fun closed => ?_,
      fun _ _ => ⟨routes.1, routes.2⟩⟩
    constructor <;> simp [bgpTimerSet, cleared, closed.fd, closed.tRead, closed.tWrite, closed.obuf]
  · have changed :
        bgpFsmChangeStatus w s next = { s with ostatus := s.status, status := next } := by
      simp [bgpFsmChangeStatus, clears]
    rw [changed]
    exact ⟨rfl, rfl, fun closed => ⟨closed.fd, closed.tRead, closed.tWrite, closed.obuf⟩,
      fun clears' => absurd clears' clears⟩

theorem arrive_status (next : Status) :
    (arrive w s next).status = next := (arrive_spec w s next).1

theorem arrive_fd (next : Status) :
    (arrive w s next).fd = s.fd := (arrive_spec w s next).2.1

theorem Closed.arrive {s : PeerState} (closed : Closed s) (w : World) (next : Status) :
    Closed (arrive w s next) := (arrive_spec w s next).2.2.1 closed

/-- Setting the timers of an idle session leaves no others on. -/
theorem Closed.arrive_idle {s : PeerState} (closed : Closed s) (w : World) :
    Quiet (SessionHygiene.arrive w s .idle) := by
  have status := arrive_status w s .idle
  have closed' := closed.arrive w .idle
  rw [SessionHygiene.arrive] at status closed' ⊢
  generalize (if Status.idle ≠ s.status then bgpFsmChangeStatus w s .idle else s) = s' at *
  have idle : s'.status = .idle := status
  exact { closed' with
    connect := by simp [bgpTimerSet, idle]
    holdtime := by simp [bgpTimerSet, idle]
    keepalive := by simp [bgpTimerSet, idle]
    asorig := by simp [bgpTimerSet, idle]
    routeadv := by simp [bgpTimerSet, idle] }

variable {next : Status}

/-- An action that closed the connection may lead to any status without a socket. -/
theorem Closed.arrive_sound {s : PeerState} (closed : Closed s) (w : World)
    (socketless : holdsSocket next = some false) : Sound (SessionHygiene.arrive w s next) where
  unused := fun _ => closed.arrive w next
  closed := fun _ => (closed.arrive w next).fd
  opened := by simp [arrive_status, socketless]
  quiet := by
    rw [arrive_status]
    rintro rfl
    exact closed.arrive_idle w

/-- A session with a socket may be in any status that has one. -/
theorem Sound.of_socket {s : PeerState} (socket : s.fd ≠ none)
    (status : holdsSocket s.status = some true) : Sound s where
  unused := fun none => absurd none socket
  closed := by simp [status]
  opened := fun _ => socket
  quiet := fun idle => by simp [idle, holdsSocket] at status

/-! ## Actions -/

/-- Stopping closes the connection, whatever the status. -/
theorem bgpStop_closed (config : Config) (s : PeerState) : Closed (bgpStop config s) :=
  ⟨rfl, rfl, rfl, rfl⟩

/-- Stopping does not change the status, nor what is known of the clearing. -/
theorem bgpStop_frame (config : Config) (s : PeerState) :
    (bgpStop config s).status = s.status ∧ (bgpStop config s).clearings = s.clearings ∧
      (bgpStop config s).clearQueue = s.clearQueue := by
  simp only [bgpStop, tearDown, dropSession, eventFlush]
  split_ifs <;> simp

/-- A notification changes the status no more than it clears routes. -/
theorem bgpNotifySend_frame :
    (bgpNotifySend w s).status = s.status ∧ (bgpNotifySend w s).clearings = s.clearings := by
  simp only [bgpNotifySend, bgpWriteNotify, eventAdd]
  split_ifs <;> simp

/-- Starting from a closed connection ends with a socket or closed, and changes
nothing where it is suppressed. -/
theorem bgpStart_spec {s : PeerState} (closed : Closed s) :
    ((bgpStart w s).1.fd = none → Closed (bgpStart w s).1) ∧
      (bgpStart w s).1.status = s.status ∧ ((bgpStart w s).2 = false → (bgpStart w s).1 = s) := by
  obtain ⟨fd, tRead, tWrite, obuf⟩ := closed
  unfold bgpStart
  split_ifs with suppressed passive
  · exact ⟨fun _ => ⟨fd, tRead, tWrite, obuf⟩, rfl, fun _ => rfl⟩
  · obtain ⟨events, added⟩ :=
      eventAdd_eq { s with remoteId := 0, cap := {} } .tcpConnectionOpenFailed
    simp only [added]
    exact ⟨fun _ => ⟨fd, tRead, tWrite, obuf⟩, trivial, by simp⟩
  · cases socket : w.socket with
    | none => exact ⟨fun _ => ⟨rfl, tRead, tWrite, obuf⟩, rfl, by simp⟩
    | some number =>
      cases w.connected with
      | error =>
        obtain ⟨events, added⟩ := eventAdd_eq
          { s with remoteId := 0, cap := {}, fd := Option.some number } .tcpConnectionOpenFailed
        simp [added]
      | success =>
        obtain ⟨events, added⟩ := eventAdd_eq
          { s with remoteId := 0, cap := {}, fd := Option.some number } .tcpConnectionOpen
        simp [added]
      | inProgress => simp [writeOn, readOn]

/-- The nodes of a neighbour's own tables are queued like those of the others. -/
theorem clearOwn_eq (places : List (Afi × Safi)) (s : PeerState) :
    ∃ events queue thread, places.foldl (clearOwn w) s = { s with
      events := events, clearQueue := s.clearQueue ++ queue, clearThread := thread } := by
  induction places generalizing s with
  | nil => exact ⟨s.events, [], s.clearThread, by simp⟩
  | cons place rest ih =>
    obtain ⟨events, queue, thread, later⟩ := ih (clearOwn w s place)
    rw [List.foldl_cons, later]
    unfold clearOwn
    cases w.ownNodes place.1 place.2 with
    | none => exact ⟨events, queue, thread, rfl⟩
    | some nodes =>
      obtain ⟨events', first⟩ := bgpClearRoute_eq s nodes
      exact ⟨events, nodes ++ queue, thread, by simp [first]⟩

/-- Ending graceful restart clears routes too, and keeps the status. -/
theorem peerNsfStop_clearings :
    s.clearings ≤ (peerNsfStop w s).clearings :=
  Nat.le_of_lt (bgpClearRouteAll_routesCleared w _).1

/-- A deleted neighbour is closed, and its routes are put up for clearing. -/
theorem peerDelete_spec :
    (peerDelete w s).status = .deleted ∧ Closed (peerDelete w s) ∧
      RoutesCleared w s (peerDelete w s) := by
  let waited := if s.sflags.nsfWait then peerNsfStop w s else s
  have waited_clearings : s.clearings ≤ waited.clearings := by
    unfold waited
    split_ifs
    · exact peerNsfStop_clearings w s
    · exact le_rfl
  let stopped := bgpStop w.config waited
  have stopped_clearings : stopped.clearings = waited.clearings := (bgpStop_frame _ _).2.1
  have stopped_closed : Closed stopped := bgpStop_closed _ _
  have routes := bgpClearRouteAll_routesCleared w stopped
  obtain ⟨events, thread, cleared⟩ := bgpClearRouteAll_eq w stopped
  let gone := bgpTimerSet w.config (bgpFsmChangeStatus w stopped .deleted)
  obtain ⟨events', queue, thread', own⟩ := clearOwn_eq w allFamilies gone
  have deleted : peerDelete w s = { gone with
      events := events', clearQueue := gone.clearQueue ++ queue, clearThread := thread'
      obuf := [] } := by
    rw [peerDelete, own]
  have gone_eq : gone = bgpTimerSet w.config
      { bgpClearRouteAll w stopped with
        ostatus := (bgpClearRouteAll w stopped).status, status := .deleted } := rfl
  rw [deleted, gone_eq]
  refine ⟨rfl, ⟨?_, ?_, ?_, rfl⟩, ?_⟩
  · simp [bgpTimerSet, cleared, stopped_closed.fd]
  · simp [bgpTimerSet, cleared, stopped_closed.tRead]
  · simp [bgpTimerSet, cleared, stopped_closed.tWrite]
  · refine ⟨?_, fun afi safi rn found => List.mem_append_left _ (routes.2 afi safi rn found)⟩
    have counted := routes.1
    simp only [bgpTimerSet]
    omega

/-- The session is up, on a given socket. -/
def UpOn (fd : Option Nat) (s : PeerState) : Prop := s.status = .established ∧ s.fd = fd

variable {fd : Option Nat}

theorem UpOn.restartFamily {s : PeerState} (up : UpOn fd s) (place : Afi × Safi) :
    UpOn fd (restartFamily s place) := by
  simp only [Fsm.restartFamily]
  split_ifs <;> exact up

theorem UpOn.refreshFamily {s : PeerState} (up : UpOn fd s) (place : Afi × Safi) :
    UpOn fd (refreshFamily s place) := by
  simp only [Fsm.refreshFamily]
  split_ifs <;> exact up

theorem bgpEstablish_spec :
    UpOn s.fd (bgpEstablish w s).1 ∧ (bgpEstablish w s).2 = true := by
  refine ⟨?_, rfl⟩
  let restarted := nsfFamilies.foldl restartFamily
    { bgpFsmChangeStatus w { s with
        sflags := { s.sflags with capabilityOpen := true }, vStart := 5
        established := s.established + 1 } .established with
      sflags := { s.sflags with capabilityOpen := true, nsfWait := false } }
  have restarted_up : UpOn s.fd restarted :=
    Runs.invariant restartFamily (UpOn s.fd) (fun _ place up => up.restartFamily place) _ _ ⟨rfl,
      rfl⟩
  let kept : PeerState :=
    if nsfFamilies.any fun place => restarted.nsf place.1 place.2 then
      { restarted with sflags := { restarted.sflags with nsfMode := true } }
    else
      { restarted with
        sflags := { restarted.sflags with nsfMode := false }
        timers := { restarted.timers with grStale := false } }
  have kept_up : UpOn s.fd kept := by
    unfold kept
    split_ifs <;> exact restarted_up
  let asked := allFamilies.foldl refreshFamily
    { kept with timers := { kept.timers with grRestart := false } }
  have asked_up : UpOn s.fd asked :=
    Runs.invariant refreshFamily (UpOn s.fd) (fun _ place up => up.refreshFamily place) _ _ kept_up
  let greeted := if asked.vKeepalive ≠ 0 then bgpKeepaliveSend asked else asked
  have greeted_up : UpOn s.fd greeted := by
    unfold greeted
    split_ifs <;> exact asked_up
  exact greeted_up

/-! ## The table -/

/-- What the entries of the table can be, for a status. -/
inductive Entry : Status → Action → Status → Prop
  | stays (status : Status) : Entry status .ignore status
  | strays (status : Status) : Entry status .ignore .idle
  | closes {status next : Status} {action : Action}
      (closing : action = .stop ∨ action = .connectFail ∨ action = .stopWithError)
      (socketless : holdsSocket next = some false)
      (drops : status = .established → next = .clearing) : Entry status action next
  | expires {status next : Status} (socketless : holdsSocket next = some false)
      (drops : status = .established → next = .clearing) : Entry status .holdtimeExpire next
  | completes : Entry .clearing .clearingCompleted .idle
  | starts {status : Status} (socketless : holdsSocket status = some false) :
      Entry status .start .connect
  | reconnects : Entry .connect .reconnect .connect
  | succeeds {status : Status} (other : status ≠ .established) :
      Entry status .connectSuccess .openSent
  | opens : Entry .openSent .fsmOpen .openConfirm
  | establishes : Entry .openConfirm .establish .established
  | works {action : Action}
      (working : action = .keepaliveExpire ∨ action = .fsmKeepalive ∨ action = .fsmUpdate) :
      Entry .established action .established

theorem fsm_entry (status : Status) (event : Event) :
    Entry status (fsm status event).1 (fsm status event).2 := by
  cases status <;> cases event <;>
    first
      | exact .stays _
      | exact .strays _
      | exact .closes (by decide) (by decide) (by decide)
      | exact .expires (by decide) (by decide)
      | exact .completes
      | exact .starts (by decide)
      | exact .reconnects
      | exact .succeeds (by decide)
      | exact .opens
      | exact .establishes
      | exact .works (by decide)

/-! ## Steps and runs -/

variable {action : Action}

/-- What a step does when its action did not ask to stay. -/
theorem step_arrives (w : World) (entry : fsm s.status event = (action, next))
    (goes : (action.func w s).2 = true) :
    step s (event, w) = arrive w (action.func w s).1 next := by
  simp [step, bgpEvent, entry, goes, arrive]

theorem step_stays (w : World) (entry : fsm s.status event = (action, next))
    (refused : (action.func w s).2 = false) : step s (event, w) = (action.func w s).1 := by
  simp [step, bgpEvent, entry, refused]

/-- A step is clean, and leaves a sound state, when it arrives from an action that
closed the connection and clears the routes of a session that was up. -/
theorem clean_of_closed {s stopped : PeerState} {event : Event} {w : World}
    (arrives : step s (event, w) = arrive w stopped next) (closed : Closed stopped)
    (socketless : holdsSocket next = some false)
    (drops : s.status = .established → next = .clearing) (status : stopped.status = s.status)
    (clearings : stopped.clearings = s.clearings) :
    Clean s (event, w) ∧ Sound (step s (event, w)) := by
  have sound := closed.arrive_sound w socketless
  rw [← arrives] at sound
  refine ⟨⟨fun up _ => ?_, sound.quiet⟩, sound⟩
  obtain rfl := drops up
  have cleared := (arrive_spec w stopped .clearing).2.2.2 rfl (by simp [status, up])
  rw [arrives, arrive_status]
  exact ⟨rfl, cleared.mono clearings.symm le_rfl (List.Subset.refl _)⟩

theorem clean_of_socket {s s' : PeerState} {event : Event} {w : World}
    (arrives : step s (event, w) = arrive w s' next) (socket : s'.fd ≠ none)
    (holds : holdsSocket next = some true) (up : s.status = .established → next = .established) :
    Clean s (event, w) ∧ Sound (step s (event, w)) := by
  have status : (step s (event, w)).status = next := by rw [arrives, arrive_status]
  have sound : Sound (step s (event, w)) := by
    refine Sound.of_socket ?_ (by rw [status, holds])
    rw [arrives, arrive_fd]
    exact socket
  refine ⟨⟨fun was left => absurd (status.trans (up was)) left, sound.quiet⟩, sound⟩

theorem clean_of_connect {s s' : PeerState} {event : Event} {w : World}
    (arrives : step s (event, w) = arrive w s' .connect) (unused : s'.fd = none → Closed s')
    (other : s.status ≠ .established) : Clean s (event, w) ∧ Sound (step s (event, w)) := by
  have status : (step s (event, w)).status = .connect := by rw [arrives, arrive_status]
  refine ⟨⟨fun up => absurd up other, by simp [status]⟩, ?_, ?_, ?_, by simp [status]⟩
  · intro none
    rw [arrives, arrive_fd] at none
    rw [arrives]
    exact (unused none).arrive w .connect
  · simp [status, holdsSocket]
  · simp [status, holdsSocket]

theorem clean_of_same {s : PeerState} {action : Step} (sound : Sound s) (same : step s action = s) :
    Clean s action ∧ Sound (step s action) := by
  refine ⟨⟨fun up left => ?_, ?_⟩, ?_⟩
  · rw [same] at left
    exact absurd up left
  · rw [same]
    exact sound.quiet
  · rwa [same]

/-- Only a session that is connecting may or may not have a socket. -/
theorem holdsSocket_eq_none {status : Status} (unknown : holdsSocket status = none) :
    status = .connect := by
  cases status <;> simp_all [holdsSocket]

/-- An expired hold timer stops the session, or deletes a neighbour that was only
accepted. -/
theorem clean_of_expiry {s : PeerState} {event : Event} {w : World}
    (found : fsm s.status event = (.holdtimeExpire, next))
    (socketless : holdsSocket next = some false)
    (drops : s.status = .established → next = .clearing) :
    Clean s (event, w) ∧ Sound (step s (event, w)) := by
  obtain ⟨notified_status, notified_clearings⟩ := bgpNotifySend_frame w s
  by_cases accepted : (bgpNotifySend w s).sflags.acceptPeer
  · have stayed : step s (event, w) = peerDelete w (bgpNotifySend w s) := by
      rw [step_stays s event w found] <;> simp [Action.func, bgpFsmHoldtimeExpire, accepted]
    obtain ⟨status, closed, cleared⟩ := peerDelete_spec w (bgpNotifySend w s)
    rw [← stayed] at status closed cleared
    refine ⟨⟨fun _ _ => ?_, by simp [status]⟩, fun _ => closed, fun _ => closed.fd, ?_,
      by simp [status]⟩
    · rw [status]
      exact ⟨rfl, cleared.mono notified_clearings.symm le_rfl (List.Subset.refl _)⟩
    · simp [status, holdsSocket]
  · have arrived : step s (event, w) = arrive w (bgpStop w.config (bgpNotifySend w s)) next := by
      rw [step_arrives s event w found] <;> simp [Action.func, bgpFsmHoldtimeExpire, accepted]
    obtain ⟨status, clearings, _⟩ := bgpStop_frame w.config (bgpNotifySend w s)
    exact clean_of_closed arrived (bgpStop_closed _ _) socketless drops
      (status.trans notified_status) (clearings.trans notified_clearings)

/-- Every careful step from a sound state is clean and leaves a sound state. -/
theorem careful_step {s : PeerState} (sound : Sound s) (event : Event) (w : World)
    (careful : Careful s (event, w)) : Clean s (event, w) ∧ Sound (step s (event, w)) := by
  rcases found : fsm s.status event with ⟨action, next⟩
  have entry : Entry s.status action next := by simpa [found] using fsm_entry s.status event
  have arrives := step_arrives s event w found
  have stays := step_stays s event w found
  have closed : holdsSocket s.status = some false → Closed s :=
    fun socketless => sound.unused (sound.closed socketless)
  generalize was : s.status = status at entry
  cases entry with
  | stays =>
    have arrived : step s (event, w) = arrive w s next := arrives rfl
    cases socket : holdsSocket next with
    | none =>
      obtain rfl := holdsSocket_eq_none socket
      exact clean_of_connect arrived sound.unused (by simp [was])
    | some held =>
      cases held with
      | false =>
        refine clean_of_closed arrived (closed (was ▸ socket)) socket (fun up => ?_) rfl rfl
        simp [← was, up, holdsSocket] at socket
      | true =>
        exact clean_of_socket arrived (sound.opened (was ▸ socket)) socket (fun up => was ▸ up)
  | strays =>
    -- Here the guard is used: the event is ignored, so nothing else closes the connection.
    have unconnected := sound.unused (careful found)
    refine clean_of_closed (arrives rfl) unconnected rfl (fun up => ?_) rfl rfl
    exact absurd unconnected.fd (sound.opened (by simp [up, holdsSocket]))
  | closes closing socketless drops =>
    have up : s.status = .established → next = .clearing := fun up => drops (was ▸ up)
    rcases closing with rfl | rfl | rfl
    · obtain ⟨status, clearings, _⟩ := bgpStop_frame w.config s
      exact clean_of_closed (arrives rfl) (bgpStop_closed _ _) socketless up status clearings
    · obtain ⟨status, clearings, _⟩ := bgpStop_frame w.config s
      exact clean_of_closed (arrives rfl) (bgpStop_closed _ _) socketless up status clearings
    · obtain ⟨status, clearings, _⟩ :=
        bgpStop_frame w.config { s with vStart := doubleStart s.vStart }
      exact clean_of_closed (arrives rfl) (bgpStop_closed _ _) socketless up status clearings
  | expires socketless drops =>
    exact clean_of_expiry found socketless (fun up => drops (was ▸ up))
  | completes =>
    obtain ⟨status, clearings, _⟩ := bgpStop_frame w.config s
    have stopped : Closed (eventFlush (bgpStop w.config s)) := ⟨rfl, rfl, rfl, rfl⟩
    exact clean_of_closed (arrives rfl) stopped rfl (by simp [was]) status clearings
  | starts socketless =>
    obtain ⟨unused, _, suppressed⟩ := bgpStart_spec w (closed (was ▸ socketless))
    cases started : (bgpStart w s).2 with
    | true =>
      refine clean_of_connect (arrives started) unused (fun up => ?_)
      simp [← was, up, holdsSocket] at socketless
    | false => exact clean_of_same sound ((stays started).trans (suppressed started))
  | reconnects =>
    obtain ⟨unused, _, _⟩ := bgpStart_spec w (bgpStop_closed w.config s)
    exact clean_of_connect (arrives rfl) unused (by simp [was])
  | succeeds other =>
    by_cases socket : s.fd = none
    · refine clean_of_same sound ?_
      rw [stays] <;> simp [Action.func, bgpConnectSuccess, socket]
    · have goes : (Action.connectSuccess.func w s).2 = true := by
        simp [Action.func, bgpConnectSuccess, socket]
      have kept : (Action.connectSuccess.func w s).1.fd = s.fd := by
        cases accepted : s.sflags.acceptPeer <;>
          simp [Action.func, bgpConnectSuccess, socket, readOn, accepted, bgpOpenSend,
            send, writeOn]
      exact clean_of_socket (arrives goes) (kept ▸ socket) rfl (fun up => absurd (was ▸ up) other)
  | opens =>
    exact clean_of_socket (arrives rfl) (sound.opened (by simp [was, holdsSocket])) rfl
      (by simp [was])
  | establishes =>
    obtain ⟨⟨_, kept⟩, goes⟩ := bgpEstablish_spec w s
    have socket := sound.opened (by simp [was, holdsSocket])
    exact clean_of_socket (arrives goes) (fun none => socket (kept.symm.trans none)) rfl (by simp)
  | works working =>
    have socket := sound.opened (by simp [was, holdsSocket])
    rcases working with rfl | rfl | rfl
    · exact clean_of_socket (arrives rfl) socket rfl (by simp)
    · exact clean_of_socket (arrives rfl) socket rfl (by simp)
    · exact clean_of_socket (arrives rfl) socket rfl (by simp)

/-- A step that is not careful keeps the socket of a session it takes to Idle. -/
theorem careful_of_clean {s : PeerState} {action : Step} (clean : Clean s action) :
    Careful s action := by
  obtain ⟨event, w⟩ := action
  intro found
  have arrived : step s (event, w) = arrive w s .idle := step_arrives s event w found rfl
  have quiet := clean.2 (by rw [arrived, arrive_status])
  rw [arrived] at quiet
  exact (arrive_fd w s .idle).symm.trans quiet.fd

/-- A session that starts idle and without a connection is clean in every step of a
run exactly when every step of the run is careful. What breaks it are the events that the
table ignores on the way to Idle, which leave the socket open. -/
theorem clean_iff_careful (s : PeerState) (idle : s.status = .idle) (quiet : Quiet s)
    (steps : List Step) : Runs.Guarded step Clean s steps ↔ Runs.Guarded step Careful s steps := by
  have sound := quiet.sound idle
  clear idle quiet
  induction steps generalizing s with
  | nil => rfl
  | cons action rest ih =>
    obtain ⟨event, w⟩ := action
    simp only [Runs.Guarded]
    constructor
    · rintro ⟨clean, later⟩
      have careful := careful_of_clean clean
      exact ⟨careful, (ih _ (careful_step sound event w careful).2).1 later⟩
    · rintro ⟨careful, later⟩
      obtain ⟨clean, sound'⟩ := careful_step sound event w careful
      exact ⟨clean, (ih _ sound').2 later⟩

/-- A session that comes up and is reset meets no stray event. -/
def upAndDown : List Step :=
  [(.bgpStart, {}), (.tcpConnectionOpen, {}), (.receiveOpenMessage, {}),
    (.receiveKeepaliveMessage, {}), (.bgpStop, {}), (.clearingCompleted, {})]

theorem clean_iff_careful_upAndDown : Runs.Guarded step Clean {} upAndDown :=
  (clean_iff_careful {} rfl ⟨⟨rfl, rfl, rfl, rfl⟩, rfl, rfl, rfl, rfl, rfl⟩ upAndDown).2
    (by simp only [upAndDown, Runs.Guarded, Careful]; decide)

/-- A keepalive before the neighbour's OPEN takes the session to Idle with its socket
open, and the end of a clearing that no session asked for takes an established one
there. -/
theorem stray_events_keep_socket :
    ¬ Runs.Guarded step Clean {}
      [(.bgpStart, {}), (.tcpConnectionOpen, {}), (.receiveKeepaliveMessage, {})] ∧
    ¬ Runs.Guarded step Clean {}
      [(.bgpStart, {}), (.tcpConnectionOpen, {}), (.receiveOpenMessage, {}),
        (.receiveKeepaliveMessage, {}), (.clearingCompleted, {})] := by
  refine ⟨fun clean => ?_, fun clean => ?_⟩
  · have quiet := clean.2.2.1.2 rfl
    exact absurd quiet.fd (by decide)
  · have left := clean.2.2.2.2.1.1 rfl (by decide)
    exact absurd left.1 (by decide)

end Bgpd.SessionHygiene
