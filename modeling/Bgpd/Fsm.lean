import Bgpd.Rib

/-!
# The session state machine

A neighbour's session is a status, a socket, the read and write threads, the packets
waiting to be written, the timers, the events waiting for the machine, and the queue
of nodes whose routes are still to be cleared. An event is handled by the entry of a
table for the status it meets: an action, and the status to go to. The action can
keep the machine where it is by returning a negative value, and two of the actions
change the status themselves.

A thread or a timer is on or off; how long a timer runs has no counterpart. What the
machine cannot know by itself (the configuration at the moment, what the system
answers, where the tables hold routes of the neighbour) is handed in with each event.
-/

namespace Bgpd.Fsm

open Prefixes Neighbors Rib

/-! ## Data -/

/-- The states of a session. -/
inductive Status
  | idle
  | connect
  | active
  | openSent
  | openConfirm
  | established
  | clearing
  | deleted
  deriving DecidableEq, Repr

/-- `status >= Clearing`. -/
def Status.clears : Status → Bool
  | .clearing | .deleted => true
  | _ => false

/-- The events of the machine. -/
inductive Event
  | bgpStart
  | bgpStop
  | tcpConnectionOpen
  | tcpConnectionClosed
  | tcpConnectionOpenFailed
  | tcpFatalError
  | connectRetryTimerExpired
  | holdTimerExpired
  | keepAliveTimerExpired
  | receiveOpenMessage
  | receiveKeepaliveMessage
  | receiveUpdateMessage
  | receiveNotificationMessage
  | clearingCompleted
  deriving DecidableEq, Repr

/-- The kinds of packets the machine queues. -/
inductive Packet
  | openMessage
  | notify
  | keepalive
  | routeRefresh (afi : Afi) (safi : Safi) (old : Bool)
  deriving DecidableEq, Repr

/-- Which of the timers are running. -/
structure Timers where
  start : Bool := false
  connect : Bool := false
  holdtime : Bool := false
  keepalive : Bool := false
  asorig : Bool := false
  routeadv : Bool := false
  pmaxRestart : Bool := false
  grRestart : Bool := false
  grStale : Bool := false
  deriving DecidableEq, Repr

/-- `af_cap`: the capability flags of a family. -/
structure AfCap where
  orfSmAdv : Bool := false
  orfRmAdv : Bool := false
  orfSmRcv : Bool := false
  orfRmRcv : Bool := false
  orfSmOldRcv : Bool := false
  orfRmOldRcv : Bool := false
  restartRcv : Bool := false
  restartPreserveRcv : Bool := false
  deriving DecidableEq, Repr

/-- What a session has negotiated for a family. -/
structure Family where
  nego : Bool := false
  adv : Bool := false
  recv : Bool := false
  cap : AfCap := {}
  /-- `PEER_STATUS_ORF_WAIT_REFRESH`. -/
  waitRefresh : Bool := false
  /-- There is a prefix list received by outbound route filtering. -/
  orfPlist : Bool := false
  deriving DecidableEq, Repr

/-- The status flags of a neighbour. -/
structure StatusFlags where
  acceptPeer : Bool := false
  prefixOverflow : Bool := false
  capabilityOpen : Bool := false
  nsfMode : Bool := false
  nsfWait : Bool := false
  deriving DecidableEq, Repr

/-- What the machine asks of the tables apart from clearing routes. -/
inductive TableCall
  | clearStale (afi : Afi) (safi : Safi)
  | announceAll
  deriving DecidableEq, Repr

/-- The part of `struct peer` the machine works on. -/
structure PeerState where
  status : Status := .idle
  ostatus : Status := .idle
  /-- `none` for -1. -/
  fd : Option Nat := none
  tRead : Bool := false
  tWrite : Bool := false
  obuf : List Packet := []
  timers : Timers := {}
  events : List Event := []
  sflags : StatusFlags := {}
  vStart : Nat := 5
  vHoldtime : Nat := 180
  vKeepalive : Nat := 60
  cap : PeerCap := {}
  remoteId : Nat := 0
  families : Afi → Safi → Family := fun _ _ => {}
  nsf : Afi → Safi → Bool := fun _ _ => false
  established : Nat := 0
  dropped : Nat := 0
  keepaliveIn : Nat := 0
  notifyOut : Nat := 0
  /-- `clear_node_queue->thread`. -/
  clearThread : Bool := false
  clearQueue : List Node := []
  /-- How often all the routes were put up for clearing. -/
  clearings : Nat := 0
  calls : List TableCall := []

/-- The configuration of a neighbour, as far as the machine reads it. -/
structure Config where
  shutdown : Bool := false
  passive : Bool := false
  /-- `peer_active`. -/
  active : Bool := true
  /-- The neighbour's own timers, keepalive first. -/
  timers : Option (Nat × Nat) := none
  defaultKeepalive : Nat := 60
  defaultHoldtime : Nat := 180

/-- `enum connect_result`. -/
inductive ConnectResult
  | error
  | success
  | inProgress
  deriving DecidableEq, Repr

/-- What an event meets outside the session. -/
structure World where
  config : Config := {}
  /-- What `sockunion_socket` returns, `none` for a failure. -/
  socket : Option Nat := some 0
  connected : ConnectResult := .inProgress
  /-- A notification can be written to a socket that is open. -/
  writable : Bool := true
  /-- The nodes of a family with a route of the neighbour, in the order of the walk. -/
  found : Afi → Safi → List Node := fun _ _ => []
  /-- The nodes with a route in the neighbour's own table as a route-server client,
  where it is one. -/
  ownNodes : Afi → Safi → Option (List Node) := fun _ _ => none

/-- Every family the loops over `afi` and `safi` visit and the tables are used for. -/
def allFamilies : List (Afi × Safi) :=
  [(.ip, .unicast), (.ip, .multicast), (.ip, .mplsVpn),
    (.ip6, .unicast), (.ip6, .multicast), (.ip6, .mplsVpn)]

/-- The families below `SAFI_UNICAST_MULTICAST`, in the order of the loops. -/
def nsfFamilies : List (Afi × Safi) :=
  [(.ip, .unicast), (.ip, .multicast), (.ip6, .unicast), (.ip6, .multicast)]

/-- The families `bgp_clear_route_all` visits, in its order. `none` is the number for
unicast and multicast together, whose tables stay empty. -/
def clearFamilies : List (Afi × Option Safi) :=
  [(.ip, some .unicast), (.ip, some .multicast), (.ip, none), (.ip, some .mplsVpn),
    (.ip6, some .unicast), (.ip6, some .multicast), (.ip6, none), (.ip6, some .mplsVpn)]

/-! ## Threads, timers and events -/

/-- `BGP_EVENT_ADD`. -/
def eventAdd (s : PeerState) (event : Event) : PeerState :=
  if s.status = .deleted then s else { s with events := s.events ++ [event] }

/-- `BGP_EVENT_FLUSH`. -/
def eventFlush (s : PeerState) : PeerState := { s with events := [] }

/-- `BGP_READ_ON`, `BGP_WRITE_ON` and `BGP_TIMER_ON`: what a thread or timer is
afterwards. -/
def PeerState.on (s : PeerState) (running : Bool) : Bool := running || s.status ≠ .deleted

/-- `BGP_READ_ON (peer->t_read, bgp_read, peer->fd)`. -/
def readOn (s : PeerState) : PeerState := { s with tRead := s.on s.tRead }

/-- `BGP_WRITE_ON (peer->t_write, bgp_write, peer->fd)`. -/
def writeOn (s : PeerState) : PeerState := { s with tWrite := s.on s.tWrite }

/-- `BGP_PEER_START_SUPPRESSED`. -/
def startSuppressed (config : Config) (s : PeerState) : Bool :=
  config.shutdown || s.sflags.prefixOverflow

/-- The timers of a session that has negotiated its hold time. -/
def sessionTimers (s : PeerState) (t : Timers) : Timers :=
  if s.vHoldtime = 0 then { t with holdtime := false, keepalive := false }
  else { t with holdtime := s.on t.holdtime, keepalive := s.on t.keepalive }

/-- `bgp_timer_set`. -/
def bgpTimerSet (config : Config) (s : PeerState) : PeerState :=
  let t := s.timers
  { s with
    timers :=
      match s.status with
      | .idle =>
        { t with
          start := !startSuppressed config s && config.active && s.on t.start
          connect := false, holdtime := false, keepalive := false
          asorig := false, routeadv := false }
      | .connect =>
        { t with
          start := false, connect := s.on t.connect, holdtime := false, keepalive := false
          asorig := false, routeadv := false }
      | .active =>
        { t with
          start := false
          connect := !(config.passive || s.sflags.nsfWait) && s.on t.connect
          holdtime := false, keepalive := false, asorig := false, routeadv := false }
      | .openSent =>
        { t with
          start := false, connect := false
          holdtime := s.vHoldtime ≠ 0 && s.on t.holdtime
          keepalive := false, asorig := false, routeadv := false }
      | .openConfirm =>
        { sessionTimers s t with
          start := false, connect := false, asorig := false, routeadv := false }
      | .established =>
        { sessionTimers s t with start := false, connect := false, asorig := false }
      | .deleted => {}
      | .clearing =>
        { t with
          start := false, connect := false, holdtime := false, keepalive := false
          asorig := false, routeadv := false } }

/-! ## Packets -/

/-- `bgp_packet_add`, and the write thread. -/
def send (s : PeerState) (packet : Packet) : PeerState :=
  writeOn { s with obuf := s.obuf ++ [packet] }

/-- `bgp_open_send`. -/
def bgpOpenSend (s : PeerState) : PeerState := send s .openMessage

/-- `bgp_keepalive_send`. -/
def bgpKeepaliveSend (s : PeerState) : PeerState := send s .keepalive

/-- `bgp_route_refresh_send`. -/
def bgpRouteRefreshSend (s : PeerState) (afi : Afi) (safi : Safi) (old : Bool) : PeerState :=
  send s (.routeRefresh afi safi old)

/-- The start timer's value after an error. -/
def doubleStart (vStart : Nat) : Nat := if vStart * 2 ≥ 60 * 2 then 60 * 2 else vStart * 2

/-- `bgp_write_notify`. A notification cannot be written without a socket. -/
def bgpWriteNotify (w : World) (s : PeerState) : PeerState :=
  if s.obuf = [] then s
  else if s.fd.isSome && w.writable then
    eventAdd { s with notifyOut := s.notifyOut + 1, vStart := doubleStart s.vStart } .bgpStop
  else eventAdd s .tcpFatalError

/-- `bgp_notify_send`. -/
def bgpNotifySend (w : World) (s : PeerState) : PeerState :=
  bgpWriteNotify w { s with obuf := [.notify], tWrite := false }

/-! ## Clearing the routes -/

/-- `bgp_clear_node_complete`. -/
def bgpClearNodeComplete (s : PeerState) : PeerState := eventAdd s .clearingCompleted

/-- `bgp_clear_route`: the nodes found are queued, which starts the queue's thread. -/
def bgpClearRoute (s : PeerState) (nodes : List Node) : PeerState :=
  let s := { s with
    clearQueue := s.clearQueue ++ nodes, clearThread := s.clearThread || !nodes.isEmpty }
  if s.clearThread then s else bgpClearNodeComplete s

/-- The nodes a visited family yields. -/
def World.foundIn (w : World) : Afi × Option Safi → List Node
  | (afi, some safi) => w.found afi safi
  | (_, none) => []

/-- `bgp_clear_route_all`. -/
def bgpClearRouteAll (w : World) (s : PeerState) : PeerState :=
  { clearFamilies.foldl (fun s place => bgpClearRoute s (w.foundIn place)) s with
    clearings := s.clearings + 1 }

/-- `bgp_fsm_change_status`. -/
def bgpFsmChangeStatus (w : World) (s : PeerState) (status : Status) : PeerState :=
  let s := if status.clears then bgpClearRouteAll w s else s
  { s with ostatus := s.status, status := status }

/-! ## Actions -/

/-- What `bgp_stop` does first to a session that was up. -/
def dropSession (s : PeerState) : PeerState :=
  let s := { s with
    dropped := s.dropped + 1, timers := { s.timers with grStale := false } }
  if s.sflags.nsfWait then
    { s with
      timers := { s.timers with grRestart := s.on s.timers.grRestart, grStale := s.on false } }
  else
    { s with
      sflags := { s.sflags with nsfMode := false }
      nsf := fun afi safi => s.nsf afi safi && (afi, safi) ∉ nsfFamilies }

/-- The rest of `bgp_stop`: threads, timers, buffers, socket, negotiated values. -/
def tearDown (config : Config) (s : PeerState) : PeerState :=
  { s with
    tRead := false, tWrite := false
    timers := { s.timers with
      start := false, connect := false, holdtime := false, keepalive := false
      asorig := false, routeadv := false }
    obuf := []
    fd := none
    families := fun _ _ => {}
    vKeepalive := (config.timers.map Prod.fst).getD config.defaultKeepalive
    vHoldtime := (config.timers.map Prod.snd).getD config.defaultHoldtime }

/-- `bgp_stop`. While the routes are being cleared the waiting events are kept. -/
def bgpStop (config : Config) (s : PeerState) : PeerState :=
  let s := if s.status ≠ .clearing then eventFlush s else s
  let s := if s.status = .established then dropSession s else s
  tearDown config s

/-- `peer_nsf_stop`. -/
def peerNsfStop (w : World) (s : PeerState) : PeerState :=
  bgpClearRouteAll w
    { s with
      sflags := { s.sflags with nsfWait := false, nsfMode := false }
      nsf := fun afi safi => s.nsf afi safi && (afi, safi) ∉ nsfFamilies
      timers := { s.timers with grRestart := false, grStale := false } }

/-- `bgp_clear_route` with `BGP_CLEAR_ROUTE_MY_RSCLIENT`, for a family in which the
neighbour is a route-server client. -/
def clearOwn (w : World) (s : PeerState) (place : Afi × Safi) : PeerState :=
  match w.ownNodes place.1 place.2 with
  | some nodes => bgpClearRoute s nodes
  | none => s

/-- The part of `peer_delete` that concerns the session. -/
def peerDelete (w : World) (s : PeerState) : PeerState :=
  let s := if s.sflags.nsfWait then peerNsfStop w s else s
  let s := bgpFsmChangeStatus w (bgpStop w.config s) .deleted
  let s := bgpTimerSet w.config s
  -- The neighbour's own tables are cleared once it is deleted.
  let s := allFamilies.foldl (clearOwn w) s
  { s with obuf := [] }

/-- What an action leaves, and whether it returned a value that is not negative. -/
abbrev Result := PeerState × Bool

/-- `bgp_stop` as an action. -/
def stop (w : World) (s : PeerState) : Result := (bgpStop w.config s, true)

/-- `bgp_ignore`. -/
def bgpIgnore (_ : World) (s : PeerState) : Result := (s, true)

/-- `bgp_clearing_completed`. -/
def bgpClearingCompleted (w : World) (s : PeerState) : Result :=
  (eventFlush (bgpStop w.config s), true)

/-- `bgp_stop_with_error`. -/
def bgpStopWithError (w : World) (s : PeerState) : Result :=
  (bgpStop w.config { s with vStart := doubleStart s.vStart }, true)

/-- `bgp_connect_success`. -/
def bgpConnectSuccess (_ : World) (s : PeerState) : Result :=
  if s.fd = none then (s, false)
  else
    let s := readOn s
    (if s.sflags.acceptPeer then s else bgpOpenSend s, true)

/-- `bgp_connect_fail`. -/
def bgpConnectFail (w : World) (s : PeerState) : Result := (bgpStop w.config s, true)

/-- `bgp_start`. Without a socket `bgp_connect` returns a value that is none of the
cases. -/
def bgpStart (w : World) (s : PeerState) : Result :=
  if startSuppressed w.config s then (s, false)
  else
    let s := { s with remoteId := 0, cap := {} }
    if w.config.passive then (eventAdd s .tcpConnectionOpenFailed, true)
    else
      let s := { s with fd := w.socket }
      match w.socket with
      | none => (s, true)
      | some _ =>
        match w.connected with
        | .error => (eventAdd s .tcpConnectionOpenFailed, true)
        | .success => (eventAdd s .tcpConnectionOpen, true)
        | .inProgress => (writeOn (readOn s), true)

/-- `bgp_reconnect`, which drops what `bgp_start` returns. -/
def bgpReconnect (w : World) (s : PeerState) : Result :=
  ((bgpStart w (bgpStop w.config s)).1, true)

/-- `bgp_fsm_open`. -/
def bgpFsmOpen (_ : World) (s : PeerState) : Result :=
  let s := bgpKeepaliveSend s
  ({ s with timers := { s.timers with holdtime := false } }, true)

/-- `bgp_fsm_keepalive_expire`. -/
def bgpFsmKeepaliveExpire (_ : World) (s : PeerState) : Result := (bgpKeepaliveSend s, true)

/-- `bgp_fsm_holdtime_expire`. -/
def bgpFsmHoldtimeExpire (w : World) (s : PeerState) : Result :=
  let s := bgpNotifySend w s
  if s.sflags.acceptPeer then (peerDelete w s, false) else (bgpStop w.config s, true)

/-- One family of the graceful-restart loop of `bgp_establish`. -/
def restartFamily (s : PeerState) (place : Afi × Safi) : PeerState :=
  let (afi, safi) := place
  let family := s.families afi safi
  let put (value : Bool) (s : PeerState) : PeerState :=
    { s with nsf := fun a f => if a = afi ∧ f = safi then value else s.nsf a f }
  let stale : PeerState := { s with calls := .clearStale afi safi :: s.calls }
  if family.nego && s.cap.restartAdv && family.cap.restartRcv then
    put true (if s.nsf afi safi && !family.cap.restartPreserveRcv then stale else s)
  else put false (if s.nsf afi safi then stale else s)

/-- The route refresh `bgp_establish` sends for a family. -/
def refreshFamily (s : PeerState) (place : Afi × Safi) : PeerState :=
  let (afi, safi) := place
  let cap := (s.families afi safi).cap
  if cap.orfSmAdv then
    if cap.orfRmRcv then bgpRouteRefreshSend s afi safi false
    else if cap.orfRmOldRcv then bgpRouteRefreshSend s afi safi true
    else s
  else s

/-- The updates of a family wait for the neighbour's filter. -/
def AfCap.waits (cap : AfCap) : Bool := cap.orfRmAdv && (cap.orfSmRcv || cap.orfSmOldRcv)

/-- `bgp_establish`. -/
def bgpEstablish (w : World) (s : PeerState) : Result :=
  let s := { s with
    sflags := { s.sflags with capabilityOpen := true }, vStart := 5
    established := s.established + 1 }
  let s := bgpFsmChangeStatus w s .established
  let s := nsfFamilies.foldl restartFamily { s with sflags := { s.sflags with nsfWait := false } }
  let s :=
    if nsfFamilies.any fun (afi, safi) => s.nsf afi safi then
      { s with sflags := { s.sflags with nsfMode := true } }
    else
      { s with
        sflags := { s.sflags with nsfMode := false }, timers := { s.timers with grStale := false } }
  let s := { s with timers := { s.timers with grRestart := false } }
  let s := allFamilies.foldl refreshFamily s
  let s := if s.vKeepalive ≠ 0 then bgpKeepaliveSend s else s
  let s := { s with
    families := fun afi safi =>
      let family := s.families afi safi
      { family with waitRefresh := family.waitRefresh || family.cap.waits } }
  let s := { s with calls := .announceAll :: s.calls }
  ({ s with timers := { s.timers with routeadv := s.on s.timers.routeadv } }, true)

/-- `bgp_fsm_keepalive`. -/
def bgpFsmKeepalive (_ : World) (s : PeerState) : Result :=
  ({ s with
      keepaliveIn := s.keepaliveIn + 1, timers := { s.timers with holdtime := false } }, true)

/-- `bgp_fsm_update`. -/
def bgpFsmUpdate (_ : World) (s : PeerState) : Result :=
  ({ s with timers := { s.timers with holdtime := false } }, true)

/-! ## The table -/

/-- An action of the table. -/
inductive Action
  | start
  | stop
  | ignore
  | clearingCompleted
  | stopWithError
  | connectSuccess
  | connectFail
  | reconnect
  | fsmOpen
  | keepaliveExpire
  | holdtimeExpire
  | establish
  | fsmKeepalive
  | fsmUpdate
  deriving DecidableEq, Repr

/-- The function an action stands for. -/
def Action.func : Action → World → PeerState → Result
  | .start => bgpStart
  | .stop => Fsm.stop
  | .ignore => bgpIgnore
  | .clearingCompleted => bgpClearingCompleted
  | .stopWithError => bgpStopWithError
  | .connectSuccess => bgpConnectSuccess
  | .connectFail => bgpConnectFail
  | .reconnect => bgpReconnect
  | .fsmOpen => bgpFsmOpen
  | .keepaliveExpire => bgpFsmKeepaliveExpire
  | .holdtimeExpire => bgpFsmHoldtimeExpire
  | .establish => bgpEstablish
  | .fsmKeepalive => bgpFsmKeepalive
  | .fsmUpdate => bgpFsmUpdate

/-- `FSM`: the action for an event, and the status to go to. -/
def fsm : Status → Event → Action × Status
  | .idle, .bgpStart => (.start, .connect)
  | .idle, .bgpStop => (.stop, .idle)
  | .idle, .tcpConnectionOpen => (.stop, .idle)
  | .idle, .tcpConnectionClosed => (.stop, .idle)
  | .idle, .tcpFatalError => (.stop, .idle)
  | .idle, _ => (.ignore, .idle)
  | .connect, .bgpStart => (.ignore, .connect)
  | .connect, .bgpStop => (.stop, .idle)
  | .connect, .tcpConnectionOpen => (.connectSuccess, .openSent)
  | .connect, .tcpConnectionClosed => (.stop, .idle)
  | .connect, .tcpConnectionOpenFailed => (.connectFail, .active)
  | .connect, .tcpFatalError => (.connectFail, .idle)
  | .connect, .connectRetryTimerExpired => (.reconnect, .connect)
  | .connect, .receiveNotificationMessage => (.stop, .idle)
  | .connect, _ => (.ignore, .idle)
  | .active, .bgpStart => (.ignore, .active)
  | .active, .bgpStop => (.stop, .idle)
  | .active, .tcpConnectionOpen => (.connectSuccess, .openSent)
  | .active, .tcpConnectionClosed => (.stop, .idle)
  | .active, .tcpConnectionOpenFailed => (.ignore, .active)
  | .active, .connectRetryTimerExpired => (.start, .connect)
  | .active, .receiveNotificationMessage => (.stopWithError, .idle)
  | .active, _ => (.ignore, .idle)
  | .openSent, .bgpStart => (.ignore, .openSent)
  | .openSent, .bgpStop => (.stop, .idle)
  | .openSent, .tcpConnectionOpen => (.stop, .active)
  | .openSent, .tcpConnectionClosed => (.stop, .active)
  | .openSent, .tcpConnectionOpenFailed => (.stop, .active)
  | .openSent, .tcpFatalError => (.stop, .active)
  | .openSent, .holdTimerExpired => (.holdtimeExpire, .idle)
  | .openSent, .receiveOpenMessage => (.fsmOpen, .openConfirm)
  | .openSent, .receiveNotificationMessage => (.stopWithError, .idle)
  | .openSent, _ => (.ignore, .idle)
  | .openConfirm, .bgpStart => (.ignore, .openConfirm)
  | .openConfirm, .bgpStop => (.stop, .idle)
  | .openConfirm, .tcpConnectionOpen => (.stop, .idle)
  | .openConfirm, .tcpConnectionClosed => (.stop, .idle)
  | .openConfirm, .tcpConnectionOpenFailed => (.stop, .idle)
  | .openConfirm, .tcpFatalError => (.stop, .idle)
  | .openConfirm, .holdTimerExpired => (.holdtimeExpire, .idle)
  | .openConfirm, .keepAliveTimerExpired => (.ignore, .openConfirm)
  | .openConfirm, .receiveKeepaliveMessage => (.establish, .established)
  | .openConfirm, .receiveNotificationMessage => (.stopWithError, .idle)
  | .openConfirm, _ => (.ignore, .idle)
  | .established, .bgpStart => (.ignore, .established)
  | .established, .holdTimerExpired => (.holdtimeExpire, .clearing)
  | .established, .keepAliveTimerExpired => (.keepaliveExpire, .established)
  | .established, .receiveKeepaliveMessage => (.fsmKeepalive, .established)
  | .established, .receiveUpdateMessage => (.fsmUpdate, .established)
  | .established, .receiveNotificationMessage => (.stopWithError, .clearing)
  | .established, .clearingCompleted => (.ignore, .idle)
  | .established, _ => (.stop, .clearing)
  | .clearing, .bgpStart => (.ignore, .clearing)
  | .clearing, .clearingCompleted => (.clearingCompleted, .idle)
  | .clearing, _ => (.stop, .clearing)
  | .deleted, _ => (.ignore, .deleted)

/-- `bgp_event`. -/
def bgpEvent (w : World) (event : Event) (s : PeerState) : PeerState :=
  let entry := fsm s.status event
  let result := entry.1.func w s
  if result.2 then
    bgpTimerSet w.config
      (if entry.2 ≠ result.1.status then bgpFsmChangeStatus w result.1 entry.2 else result.1)
  else result.1

end Bgpd.Fsm
