import Bgpd.Fsm

/-!
# Connections that cross

Two speakers open a connection to each other at the same time. Each has its own neighbour,
on the connection it opened, and another one for the connection it accepted, which stands
in until an OPEN says whose it is. An OPEN on either of the two is compared with the other
one, and one of the connections is closed.

A connection is named by the speaker that opened it. What is written is on its way at once,
and arrives in order on each connection. The neighbours are configured for each other, and
no session is preserved over a restart.
-/

namespace Bgpd.Collision

open Octets Runs
open Fsm (Status Event fsm)

/-! ## Data -/

/-- The two speakers. -/
inductive Side
  | left
  | right
  deriving DecidableEq, Repr

/-- The other one. -/
def Side.other : Side → Side
  | .left => .right
  | .right => .left

@[simp] theorem Side.other_other (t : Side) : t.other.other = t := by cases t <;> rfl
@[simp] theorem Side.other_ne (t : Side) : t.other ≠ t := by cases t <;> decide
@[simp] theorem Side.ne_other (t : Side) : t ≠ t.other := by cases t <;> decide

theorem Side.is (t t' : Side) : t = t' ∨ t = t'.other := by cases t <;> cases t' <;> decide

/-- What is on its way, with the end of a connection. -/
inductive Message
  | openMessage
  | notification
  | keepalive
  | closed
  deriving DecidableEq, Repr

/-- The neighbours a speaker has for the other one: the configured one, and the one with
`PEER_STATUS_ACCEPT_PEER`. -/
inductive PeerName
  | real
  | accepted
  deriving DecidableEq, Repr

/-- The status of a neighbour and its connection. -/
structure Peer where
  status : Status
  fd : Option Side
  deriving DecidableEq, Repr

structure State where
  peer : Side → PeerName → Peer
  /-- What is on its way on a connection to a speaker. -/
  wire : Side → Side → List Message
  /-- The connections a speaker has decided to close: it sent a NOTIFICATION with the code
  Cease there, or dropped it for one it accepted. -/
  decided : Side → Side → Bool

namespace State

variable (s : State)

def setPeer (t : Side) (name : PeerName) (peer : Peer) : State :=
  { s with peer := fun t' name' => if t' = t ∧ name' = name then peer else s.peer t' name' }

def setWire (c t : Side) (messages : List Message) : State :=
  { s with wire := fun c' t' => if c' = c ∧ t' = t then messages else s.wire c' t' }

/-- A message is written to a connection. -/
def write (c t : Side) (message : Message) : State :=
  s.setWire c t.other (s.wire c t.other ++ [message])

def resolve (t c : Side) : State :=
  { s with decided := fun t' c' => s.decided t' c' || (t' = t && c' = c) }

variable (t t' c c' : Side) (name name' : PeerName) (p : Peer) (messages : List Message)

@[simp] theorem setPeer_peer : (s.setPeer t name p).peer t' name' =
    if t' = t ∧ name' = name then p else s.peer t' name' := rfl

@[simp] theorem setPeer_wire : (s.setPeer t name p).wire = s.wire := rfl

@[simp] theorem setPeer_decided : (s.setPeer t name p).decided = s.decided := rfl

@[simp] theorem setWire_peer : (s.setWire c t messages).peer = s.peer := rfl

@[simp] theorem setWire_decided : (s.setWire c t messages).decided = s.decided := rfl

@[simp] theorem setWire_wire : (s.setWire c t messages).wire c' t' =
    if c' = c ∧ t' = t then messages else s.wire c' t' := rfl

@[simp] theorem resolve_peer : (s.resolve t c).peer = s.peer := rfl

@[simp] theorem resolve_wire : (s.resolve t c).wire = s.wire := rfl

@[simp] theorem resolve_decided : (s.resolve t c).decided t' c' =
    (s.decided t' c' || (t' = t && c' = c)) := rfl

end State

/-! ## The source -/

/-- The connection of a neighbour is closed. -/
def close (s : State) (t : Side) (name : PeerName) : State :=
  match (s.peer t name).fd with
  | none => s
  | some c => (s.write c t .closed).setPeer t name { s.peer t name with fd := none }

/-- A message is sent to a neighbour that has a connection. -/
def send (s : State) (t : Side) (name : PeerName) (message : Message) : State :=
  match (s.peer t name).fd with
  | none => s
  | some c => s.write c t message

/-- `bgp_event`, as far as it concerns the connections. -/
def bgpEvent (s : State) (t : Side) (name : PeerName) (event : Event) : State :=
  let entry := fsm (s.peer t name).status event
  let s :=
    match entry.1 with
    | .stop | .stopWithError | .connectFail => close s t name
    | .connectSuccess => if name = PeerName.accepted then s else send s t name .openMessage
    | .fsmOpen => send s t name .keepalive
    | _ => s
  s.setPeer t name { s.peer t name with status := entry.2 }

/-- `bgp_notify_send`, and the event that it adds. -/
def bgpNotifySend (s : State) (t : Side) (name : PeerName) : State :=
  bgpEvent (send s t name .notification) t name .bgpStop

/-- A NOTIFICATION with the code Cease. -/
def sendCease (s : State) (t : Side) (name : PeerName) : State :=
  let s :=
    match (s.peer t name).fd with
    | none => s
    | some c => s.resolve t c
  bgpNotifySend s t name

/-- `bgp_collision_detect`: the neighbour whose connection is to be closed. -/
def bgpCollisionDetect (localId remoteId : U32) (peer : PeerName → Peer) (new : PeerName) :
    Option PeerName :=
  ([.real, .accepted].find? fun name =>
    name ≠ new ∧ ((peer name).status = .openConfirm ∨ (peer name).status = .openSent)).map
        fun name =>
      if localId < remoteId then name else new

/-- The statuses in which the configured neighbour can take an accepted connection over. -/
def takesOver (status : Status) : Bool :=
  status = .active || status = .openSent || status = .openConfirm || status = .connect

/-- The accepted connection becomes that of the configured neighbour. -/
def transfer (s : State) (t : Side) : State :=
  let new := s.peer t .accepted
  let s :=
    match (s.peer t .real).fd with
    | none => s
    | some c => s.resolve t c
  let s := (close s t .real).setPeer t .real new
  let s := s.setPeer t .accepted { new with fd := none }
  send s t .real .openMessage

/-- `bgp_open_receive` after the collision: the identifier is checked, and the machine gets
the event. -/
def openAccepted (localId remoteId : U32) (s : State) (t : Side) : State :=
  if remoteId = 0 ∨ 0xe0000000 ≤ remoteId ∨ localId = remoteId then bgpNotifySend s t .real
  else bgpEvent s t .real .receiveOpenMessage

/-- `bgp_open_receive`. -/
def bgpOpenReceive (localId remoteId : U32) (s : State) (t : Side) (new : PeerName) : State :=
  let proceed (s : State) : State :=
    openAccepted localId remoteId (if new = .accepted then transfer s t else s) t
  match bgpCollisionDetect localId remoteId (s.peer t) new with
  | some name => if name = new then sendCease s t new else proceed (sendCease s t name)
  | none =>
    if new = .accepted ∧ !takesOver (s.peer t .real).status then sendCease s t new
    else proceed s

variable (id : Side → U32)

/-- `bgp_read`, for a message. An accepted neighbour is deleted after its first one. -/
def bgpRead (s : State) (t : Side) (name : PeerName) (message : Message) : State :=
  let s :=
    match message with
    | .openMessage => bgpOpenReceive (id t) (id t.other) s t name
    | .notification => bgpEvent s t name .receiveNotificationMessage
    | .keepalive => bgpEvent s t name .receiveKeepaliveMessage
    | .closed => bgpEvent s t name .tcpConnectionClosed
  match name with
  | .real => s
  | .accepted => (close s t .accepted).setPeer t .accepted ⟨.deleted, none⟩

/-- The neighbour of a speaker that has a connection. -/
def holder (s : State) (t c : Side) : Option PeerName :=
  if (s.peer t .real).fd = some c then some .real
  else if (s.peer t .accepted).fd = some c then some .accepted
  else none

/-- `bgp_connect_check`, where it finds the connection established. -/
def bgpConnectCheck (s : State) (t : Side) : State :=
  if (s.peer t .real).status = .connect then bgpEvent s t .real .tcpConnectionOpen else s

/-- What happens: a connection a speaker opened is established, or the first message on a
connection arrives. -/
inductive Action
  | established (t : Side)
  | deliver (c t : Side)

/-- A step. What arrives where the connection is closed is lost. -/
def step (s : State) : Action → State
  | .established t => bgpConnectCheck s t
  | .deliver c t =>
    match s.wire c t with
    | [] => s
    | message :: later =>
      match holder s t c with
      | none => s.setWire c t later
      | some name =>
        if (s.peer t name).status = .connect then bgpConnectCheck s t
        else bgpRead id (s.setWire c t later) t name message

/-- The connections cross. Whoever has heard of the connection it opened has sent its OPEN. -/
def crossing (waits : Side → Bool) : State where
  peer := fun t name =>
    match name with
    | .real => ⟨if waits t then .connect else .openSent, some t⟩
    | .accepted => ⟨.openSent, some t.other⟩
  wire := fun c t => if t = c.other ∧ !waits c then [.openMessage] else []
  decided := fun _ _ => false

/-! ## What the speakers agree on -/

/-- No two different connections have been given up. -/
def Agree (s : State) : Prop := ∀ t t' c c', s.decided t c = true → s.decided t' c' = true → c = c'

/-- Both speakers have the connection. -/
def LeftOn (s : State) (c : Side) : Prop := ∀ t, ∃ name, (s.peer t name).fd = some c

/-- Every OPEN has been processed, and none is to come. -/
def Settled (s : State) : Prop :=
  (∀ c t, .openMessage ∉ s.wire c t) ∧ ∀ t, (s.peer t .real).status ≠ .connect

/-- What arrives at a neighbour that is configured arrives after its speaker has done with the
connection it accepted. Only an OPEN at the speaker with the smaller identifier may come
before. -/
def Fair (s : State) : Action → Prop
  | .established _ => True
  | .deliver c t =>
    (s.peer t .real).fd = some c → s.wire c t ≠ [] → (s.peer t .accepted).fd = none ∨
      (id t < id t.other ∧ (s.wire c t).head? = some .openMessage)

/-- The identifiers differ, and each may be one. -/
structure Valid (id : Side → U32) : Prop where
  differ : id .left ≠ id .right
  identifier : ∀ t, id t ≠ 0 ∧ id t < 0xe0000000

/-! ## Phases -/

/-- A neighbour that has no connection and takes no part any more. -/
def Gone (peer : Peer) : Prop :=
  peer.fd = none ∧ peer.status ≠ .openSent ∧ peer.status ≠ .openConfirm

/-- Nothing has arrived yet. -/
structure Start (s : State) : Prop where
  real : ∀ t, (s.peer t .real = ⟨.openSent, some t⟩ ∧ s.wire t t.other = [.openMessage]) ∨
    (s.peer t .real = ⟨.connect, some t⟩ ∧ s.wire t t.other = [])
  accepted : ∀ t, s.peer t .accepted = ⟨.openSent, some t.other⟩
  quiet : ∀ t, s.wire t t = []
  undecided : ∀ t c, s.decided t c = false

/-- The speaker with the larger identifier has closed what the other one opened. -/
structure Rejected (low : Side) (s : State) : Prop where
  real : ∀ t, s.peer t .real = ⟨.openSent, some t⟩
  accepted : s.peer low .accepted = ⟨.openSent, some low.other⟩
  gone : Gone (s.peer low.other .accepted)
  coming : s.wire low.other low = [.openMessage]
  refused : s.wire low low = [.notification, .closed]
  quiet : s.wire low.other low.other = []
  decided : ∀ t, s.decided t low.other = false

/-- A speaker has taken over what it accepted, and the other one still waits on what it
accepted itself. -/
structure Taken (low first : Side) (s : State) : Prop where
  real : s.peer first .real = ⟨.openConfirm, some first.other⟩
  gone : Gone (s.peer first .accepted)
  waits : s.peer first.other .real = ⟨.openSent, some first.other⟩
  accepted : s.peer first.other .accepted = ⟨.openSent, some first⟩
  coming : s.wire first.other first.other = [.openMessage, .keepalive]
  quiet : s.wire first.other first = []
  dropped : s.wire first first.other = [.closed] ∨
    (first = low ∧ s.wire first first.other = [.openMessage, .notification, .closed])
  decided : ∀ t, s.decided t first.other = false

/-- How far two speakers on one connection are, the first one having sent its OPEN last. -/
inductive Handshake : Status → Status → List Message → List Message → Prop
  | opened : Handshake .openConfirm .openSent [.openMessage, .keepalive] []
  | confirmed : Handshake .openConfirm .openConfirm [.keepalive] [.keepalive]
  | first : Handshake .established .openConfirm [.keepalive] []
  | second : Handshake .openConfirm .established [] [.keepalive]
  | both : Handshake .established .established [] []

/-- Both speakers are on one connection. -/
structure Met (first : Side) (s : State) : Prop where
  real : ∀ t, (s.peer t .real).fd = some first.other
  gone : ∀ t, Gone (s.peer t .accepted)
  handshake : Handshake (s.peer first .real).status (s.peer first.other .real).status
    (s.wire first.other first.other) (s.wire first.other first)
  decided : ∀ t, s.decided t first.other = false

/-- The phases. -/
inductive Phase (low : Side) (s : State) : Prop
  | start (is : Start s)
  | rejected (is : Rejected low s)
  | taken (first : Side) (is : Taken low first s)
  | met (first : Side) (is : Met first s)

theorem start_crossing (waits : Side → Bool) : Start (crossing waits) := by
  refine ⟨fun t => ?_, fun t => rfl, fun t => ?_, fun _ _ => rfl⟩
  · cases holds : waits t <;> cases t <;> simp [crossing, holds, Side.other]
  · cases t <;> simp [crossing, Side.other]

/-! ## What a step makes of a phase -/

section Steps

variable {id : Side → U32} {low : Side} {s : State}

theorem openAccepted_valid (valid : Valid id) (s : State) (t : Side) :
    openAccepted (id t) (id t.other) s t = bgpEvent s t .real .receiveOpenMessage := by
  have differ : id t ≠ id t.other := by
    cases t with
    | left => exact valid.differ
    | right => exact valid.differ.symm
  obtain ⟨set, below⟩ := valid.identifier t.other
  refine if_neg ?_
  rintro (zero | large | same)
  · exact set zero
  · exact absurd below (BitVec.not_lt.mpr large)
  · exact differ same

attribute [local simp] bgpRead bgpOpenReceive bgpCollisionDetect sendCease bgpNotifySend send
  State.write bgpEvent close fsm transfer takesOver holder Gone

/-- Whoever gets an OPEN first closes what it opened itself, unless its connection is
established and its identifier is the larger one. -/
theorem start_step (valid : Valid id) (less : id low < id low.other) (start : Start s)
    (action : Action) : Phase low (step id s action) := by
  have notLess : ¬ id low.other < id low := fun more =>
    absurd (BitVec.lt_trans less more) (BitVec.lt_irrefl _)
  have ⟨real, accepted, quiet, undecided⟩ := start
  cases action with
  | established t =>
    obtain ⟨here, sent⟩ | ⟨here, sent⟩ := real t
    · have same : step id s (.established t) = s := by simp [step, bgpConnectCheck, here]
      rw [same]
      exact .start start
    · refine .start ⟨fun t' => ?_, fun t' => ?_, fun t' => ?_, fun t' c' => ?_⟩
      · obtain rfl | rfl := t'.is t
        · left
          simp [step, bgpConnectCheck, here, sent]
        · simpa [step, bgpConnectCheck, here, sent] using real t.other
      · simp [step, bgpConnectCheck, here, accepted]
      · obtain rfl | rfl := t'.is t <;> simp [step, bgpConnectCheck, here, quiet]
      · simp [step, bgpConnectCheck, here, undecided]
  | deliver c t =>
    obtain rfl | rfl := c.is t
    · have same : step id s (.deliver c c) = s := by simp [step, quiet]
      rw [same]
      exact .start start
    · obtain ⟨there, sent⟩ | ⟨-, sent⟩ := real t.other <;> rw [Side.other_other] at sent
      · obtain ⟨here, own⟩ | ⟨here, own⟩ := real t
        · obtain rfl | rfl := t.is low
          · refine .taken t ?_
            constructor <;> simp [step, sent, here, accepted, less, openAccepted_valid valid,
              there, own,
              undecided, quiet]
          · rw [Side.other_other] at sent there own
            refine .rejected ⟨fun t => ?_, ?_, ?_, ?_, ?_, ?_, ?_⟩
            · obtain rfl | rfl := t.is low <;> simp [step, sent, here, there, accepted, notLess]
            all_goals simp [step, sent, here, accepted, notLess, own, undecided, quiet]
        · -- the connection it opened is not established, so it is dropped
          refine .taken t ?_
          constructor <;> simp [step, sent, here, accepted, openAccepted_valid valid, there, own,
            undecided, quiet]
      · have same : step id s (.deliver t.other t) = s := by simp [step, sent]
        rw [same]
        exact .start start

/-- What arrives at a speaker that has closed the connection is lost. -/
theorem step_lost (id : Side → U32) {t c : Side} (none : holder s t c = none) :
    step id s (.deliver c t) = s ∨ ∃ later, step id s (.deliver c t) = s.setWire c t later := by
  cases arrives : s.wire c t with
  | nil => exact .inl (by rw [step, arrives])
  | cons message later => exact .inr ⟨later, by rw [step, arrives]; simp only [none]⟩

/-- The other speaker takes over what it accepted. -/
theorem rejected_step (valid : Valid id) (less : id low < id low.other) (rejected : Rejected low s)
    (action : Action) (fair : Fair id s action) : Phase low (step id s action) := by
  have ⟨real, accepted, gone, coming, refused, quiet, decided⟩ := rejected
  cases action with
  | established t =>
    have same : step id s (.established t) = s := by simp [step, bgpConnectCheck, real]
    rw [same]
    exact .rejected rejected
  | deliver c t =>
    obtain rfl | rfl := t.is low
    · obtain rfl | rfl := c.is t
      · -- the NOTIFICATION has to wait
        obtain none | ⟨-, first⟩ := fair (by simp [real]) (by simp [refused])
        · simp [accepted] at none
        · simp [refused] at first
      · refine .met t ⟨fun t' => ?_, fun t' => ?_, ?_, fun t' => ?_⟩
        · obtain rfl | rfl := t'.is t <;>
            simp [step, coming, real, accepted, less, openAccepted_valid valid]
        · obtain rfl | rfl := t'.is t
          · simp [step, coming, real, accepted, less, openAccepted_valid valid]
          · simpa [step, coming, real, accepted, less, openAccepted_valid valid] using gone
        · simpa [step, coming, real, accepted, less, openAccepted_valid valid, quiet]
            using Handshake.opened
        · simp [step, coming, real, accepted, less, openAccepted_valid valid, decided]
    · obtain rfl | rfl := c.is low
      · have nobody : holder s c.other c = none := by simp [real, gone.1]
        obtain same | ⟨later, same⟩ := step_lost id nobody
        · rw [same]
          exact .rejected rejected
        · rw [same]
          refine .rejected ⟨real, accepted, gone, ?_, ?_, ?_, decided⟩ <;>
            simp [coming, refused, quiet]
      · have same : step id s (.deliver low.other low.other) = s := by simp [step, quiet]
        rw [same]
        exact .rejected rejected

variable {first : Side}
variable {s' : State}

/-- The other speaker is done with what it accepted: it hears that it has been closed, refuses
it, or gives it up for the connection it opened. -/
theorem Taken.met (taken : Taken low first s) (real : s'.peer first .real = s.peer first .real)
    (accepted : s'.peer first .accepted = s.peer first .accepted)
    (gone : Gone (s'.peer first.other .accepted))
    (fd : (s'.peer first.other .real).fd = some first.other)
    (handshake : Handshake .openConfirm (s'.peer first.other .real).status
      (s'.wire first.other first.other) (s'.wire first.other first))
    (decided : ∀ t, s'.decided t first.other = false) : Met first s' := by
  refine ⟨fun t => ?_, fun t => ?_, ?_, decided⟩
  · obtain rfl | rfl := t.is first
    · rw [real, taken.real]
    · exact fd
  · obtain rfl | rfl := t.is first
    · rw [accepted]
      exact taken.gone
    · exact gone
  · rw [real, taken.real]
    exact handshake

theorem taken_step (valid : Valid id) (less : id low < id low.other) (taken : Taken low first s)
    (action : Action) (fair : Fair id s action) : Phase low (step id s action) := by
  have notLess : ¬ id low.other < id low := fun more =>
    absurd (BitVec.lt_trans less more) (BitVec.lt_irrefl _)
  have ⟨real, gone, waits, accepted, coming, quiet, dropped, decided⟩ := taken
  cases action with
  | established t =>
    have same : step id s (.established t) = s := by
      obtain rfl | rfl := t.is first <;> simp [step, bgpConnectCheck, real, waits]
    rw [same]
    exact .taken first taken
  | deliver c t =>
    obtain rfl | rfl := t.is first
    · obtain rfl | rfl := c.is t
      · have nobody : holder s c c = none := by simp [real, gone.1]
        obtain same | ⟨later, same⟩ := step_lost id nobody
        · rw [same]
          exact .taken c taken
        · rw [same]
          refine .taken c ⟨real, gone, waits, accepted, ?_, ?_, ?_, decided⟩
          · simp [coming]
          · simp [quiet]
          · simpa using dropped
      · have same : step id s (.deliver t.other t) = s := by simp [step, quiet]
        rw [same]
        exact .taken t taken
    · obtain rfl | rfl := c.is first
      · obtain closes | ⟨rfl, opens⟩ := dropped
        · refine .met c (taken.met ?_ ?_ ?_ ?_ ?_ fun t => ?_)
          · simp [step, closes, waits, accepted]
          · simp [step, closes, waits, accepted]
          · simp [step, closes, waits, accepted]
          · simp [step, closes, waits, accepted]
          · simpa [step, closes, waits, accepted, coming, quiet] using Handshake.opened
          · simp [step, closes, waits, accepted, decided]
        · refine .met c (taken.met ?_ ?_ ?_ ?_ ?_ fun t => ?_)
          · simp [step, opens, waits, accepted, notLess]
          · simp [step, opens, waits, accepted, notLess]
          · simp [step, opens, waits, accepted, notLess]
          · simp [step, opens, waits, accepted, notLess]
          · simpa [step, opens, waits, accepted, notLess, coming, quiet] using Handshake.opened
          · simp [step, opens, waits, accepted, notLess, decided]
      · obtain none | ⟨lower, -⟩ := fair (by simp [waits]) (by simp [coming])
        · simp [accepted] at none
        · have accepts := openAccepted_valid valid (t := first.other)
          rw [Side.other_other] at accepts lower
          refine .met first (taken.met ?_ ?_ ?_ ?_ ?_ fun t => ?_)
          · simp [step, coming, waits, accepted, lower, accepts]
          · simp [step, coming, waits, accepted, lower, accepts]
          · simp [step, coming, waits, accepted, lower, accepts]
          · simp [step, coming, waits, accepted, lower, accepts]
          · simpa [step, coming, waits, accepted, lower, accepts, quiet] using Handshake.confirmed
          · simp [step, coming, waits, accepted, lower, accepts, decided]

theorem Met.onwards (met : Met first s) (fds : ∀ t, (s'.peer t .real).fd = (s.peer t .real).fd)
    (accepted : ∀ t, s'.peer t .accepted = s.peer t .accepted) (decided : s'.decided = s.decided)
    (handshake : Handshake (s'.peer first .real).status (s'.peer first.other .real).status
      (s'.wire first.other first.other) (s'.wire first.other first)) : Met first s' := by
  refine ⟨fun t => (fds t).trans (met.real t), fun t => ?_, handshake, fun t => ?_⟩
  · rw [accepted]
    exact met.gone t
  · rw [decided]
    exact met.decided t

theorem met_step (valid : Valid id) (met : Met first s) (action : Action) :
    Met first (step id s action) := by
  have ⟨real, gone, handshake, _⟩ := met
  generalize own : (s.peer first .real).status = ownStatus at handshake
  generalize its : (s.peer first.other .real).status = itsStatus at handshake
  generalize coming : s.wire first.other first.other = messages at handshake
  generalize back : s.wire first.other first = answers at handshake
  have ownReal : s.peer first .real = ⟨ownStatus, some first.other⟩ := by rw [← own, ← real first]
  have itsReal : s.peer first.other .real = ⟨itsStatus, some first.other⟩ := by
    rw [← its, ← real first.other]
  cases action with
  | established t =>
    have same : step id s (.established t) = s := by
      obtain rfl | rfl := t.is first <;> cases handshake <;> simp [step, bgpConnectCheck, own, its]
    rwa [same]
  | deliver c t =>
    obtain rfl | rfl := c.is first
    · have nobody : holder s t c = none := by simp [real, (gone t).1]
      obtain same | ⟨later, same⟩ := step_lost id nobody
      · rwa [same]
      · rw [same]
        refine met.onwards (fun _ => rfl) (fun _ => rfl) rfl ?_
        simpa [own, its, coming, back] using handshake
    · obtain rfl | rfl := t.is first
      · -- only a KEEPALIVE is on its way back
        cases handshake with
        | opened | first | both =>
          simp only [step, back]
          exact met
        | confirmed =>
          refine met.onwards (fun t' => ?_) (fun t' => ?_) ?_ ?_
          · obtain rfl | rfl := t'.is t <;> simp [step, back, ownReal]
          · simp [step, back, ownReal]
          · simp [step, back, ownReal]
          · simpa [step, back, ownReal, coming, its] using Handshake.first
        | second =>
          refine met.onwards (fun t' => ?_) (fun t' => ?_) ?_ ?_
          · obtain rfl | rfl := t'.is t <;> simp [step, back, ownReal]
          · simp [step, back, ownReal]
          · simp [step, back, ownReal]
          · simpa [step, back, ownReal, coming, its] using Handshake.both
      · cases handshake with
        | second | both =>
          simp only [step, coming]
          exact met
        | opened =>
          have accepts := openAccepted_valid valid (t := first.other)
          rw [Side.other_other] at accepts
          have free := (gone first.other).2
          refine met.onwards (fun t' => ?_) (fun t' => ?_) ?_ ?_
          · obtain rfl | rfl := t'.is first <;> simp [step, coming, itsReal, free, accepts]
          · simp [step, coming, itsReal, free, accepts]
          · simp [step, coming, itsReal, free, accepts]
          · simpa [step, coming, itsReal, free, accepts, back, own] using Handshake.confirmed
        | confirmed =>
          refine met.onwards (fun t' => ?_) (fun t' => ?_) ?_ ?_
          · obtain rfl | rfl := t'.is first <;> simp [step, coming, itsReal]
          · simp [step, coming, itsReal]
          · simp [step, coming, itsReal]
          · simpa [step, coming, itsReal, back, own] using Handshake.second
        | first =>
          refine met.onwards (fun t' => ?_) (fun t' => ?_) ?_ ?_
          · obtain rfl | rfl := t'.is first <;> simp [step, coming, itsReal]
          · simp [step, coming, itsReal]
          · simp [step, coming, itsReal]
          · simpa [step, coming, itsReal, back, own] using Handshake.both

theorem phase_step (valid : Valid id) (less : id low < id low.other) (phase : Phase low s)
    (action : Action) (fair : Fair id s action) : Phase low (step id s action) := by
  cases phase with
  | start is => exact start_step valid less is action
  | rejected is => exact rejected_step valid less is action fair
  | taken first is => exact taken_step valid less is action fair
  | met first is => exact .met first (met_step valid is action)

/-- In every phase only one connection has been given up. -/
theorem Phase.agree (phase : Phase low s) : Agree s := by
  have only : ∀ kept : Side, (∀ t, s.decided t kept.other = false) → Agree s := by
    intro kept none t t' c c' gives gives'
    have here : ∀ t c, s.decided t c = true → c = kept := by
      intro t c gives
      obtain rfl | rfl := c.is kept
      · rfl
      · rw [none t] at gives
        cases gives
    rw [here t c gives, here t' c' gives']
  cases phase with
  | start is => exact only low fun t => is.undecided t _
  | rejected is => exact only low is.decided
  | taken first is => exact only first is.decided
  | met first is => exact only first is.decided

/-- Once every OPEN has been processed, the speakers are on one connection. -/
theorem Phase.left (phase : Phase low s) (settled : Settled s) : ∃! c, LeftOn s c := by
  obtain ⟨processed, established⟩ := settled
  cases phase with
  | start is =>
    obtain ⟨-, sent⟩ | ⟨waits, -⟩ := is.real low
    · exact absurd (by simp [sent]) (processed low low.other)
    · exact absurd (by rw [waits]) (established low)
  | rejected is => exact absurd (by simp [is.coming]) (processed low.other low)
  | taken first is => exact absurd (by simp [is.coming]) (processed first.other first.other)
  | met first is =>
    refine ⟨first.other, fun t => ⟨.real, is.real t⟩, fun c both => ?_⟩
    obtain ⟨name, held⟩ := both first
    cases name with
    | real => exact Option.some.inj (held.symm.trans (is.real first))
    | accepted => exact absurd (held.symm.trans (is.gone first).1) (Option.some_ne_none c)

end Steps

/-! ## Runs -/

/-- As long as every arrival is fair, the two speakers give up the same connection, and the
other one is left to both. -/
theorem agree_when_fair (id : Side → U32) (valid : Valid id) (waits : Side → Bool)
    (actions : List Action) (fair : Guarded (step id) (Fair id) (crossing waits) actions) :
    Agree (run (step id) (crossing waits) actions) ∧
      (Settled (run (step id) (crossing waits) actions) →
        ∃! c, LeftOn (run (step id) (crossing waits) actions) c) := by
  obtain ⟨low, less⟩ : ∃ low, id low < id low.other := by
    obtain less | more := Nat.lt_or_gt_of_ne fun same => valid.differ (BitVec.eq_of_toNat_eq same)
    · exact ⟨.left, BitVec.lt_def.mpr less⟩
    · exact ⟨.right, BitVec.lt_def.mpr more⟩
  have phase := guarded_invariant (step id) (Fair id) (Phase low)
    (fun _ action phase fair => phase_step valid less phase action fair) (crossing waits) actions
    (.start (start_crossing waits)) fair
  exact ⟨phase.agree, phase.left⟩

section Examples

/-- The identifiers 1 and 2. -/
def oneAndTwo : Side → U32
  | .left => 1
  | .right => 2

theorem oneAndTwo_valid : Valid oneAndTwo := ⟨by decide, fun t => by cases t <;> decide⟩

/-- Both have sent their OPEN. -/
def bothSent : State := crossing fun _ => false

/-- The two OPEN messages arrive, and then the one that answers. -/
def inTurn : List Action := [.deliver .right .left, .deliver .left .right, .deliver .right .right]

theorem agree_when_fair_in_turn : ∃! c, LeftOn (run (step oneAndTwo) bothSent inTurn) c := by
  refine (agree_when_fair oneAndTwo oneAndTwo_valid (fun _ => false) inTurn ?_).2 ?_
  · exact ⟨fun here => (nomatch here), fun here => (nomatch here),
      fun _ _ => .inl (by decide), trivial⟩
  · exact ⟨fun c t => by cases c <;> cases t <;> decide, fun t => by cases t <;> decide⟩

/-- The answer arrives before the OPEN on the other connection. -/
def answerFirst : List Action :=
  [.deliver .right .left, .deliver .right .right, .deliver .left .right]

/-- The speaker with the smaller identifier has closed the connection that it opened itself,
the other one closes the other connection, and nothing is left. -/
theorem both_given_up :
    (run (step oneAndTwo) bothSent answerFirst).decided .left .left = true ∧
      (run (step oneAndTwo) bothSent answerFirst).decided .right .right = true ∧
      Settled (run (step oneAndTwo) bothSent answerFirst) ∧
      ∀ c, ¬ LeftOn (run (step oneAndTwo) bothSent answerFirst) c := by
  refine ⟨by decide, by decide, ⟨fun c t =>
    by cases c <;> cases t <;> decide, fun t => by cases t <;> decide⟩, ?_⟩
  intro c both
  obtain ⟨name, held⟩ := both .right
  cases c <;> cases name <;> revert held <;> decide

end Examples

end Bgpd.Collision
