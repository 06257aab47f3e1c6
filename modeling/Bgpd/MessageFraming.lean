import Bgpd.Octets

/-!
# Cutting the byte stream into messages

The reader is called whenever the socket is readable. It keeps how far it got in
the end of the input buffer and in the size it expects, reads the header first,
learns the size from it and then reads the rest, and hands a complete message to
the routine of its type. What the socket gives at one look is any part of what
was asked for.

A peer that only accepts a connection is deleted behind every call, also behind a
call that left a message unfinished. Its first message must therefore arrive
within one call, which is the exact condition for its messages to be independent
of how the stream was cut.
-/

namespace Bgpd.MessageFraming

open Octets

/-! ## Messages -/

/-- `BGP_HEADER_SIZE`, `BGP_MARKER_SIZE` and `BGP_MAX_PACKET_SIZE`. -/
def bgpHeaderSize : Nat := 19
def bgpMarkerSize : Nat := 16
def bgpMaxPacketSize : Nat := 4096

/-- `BGP_MSG_*`. -/
def bgpMsgOpen : U8 := 1
def bgpMsgUpdate : U8 := 2
def bgpMsgNotify : U8 := 3
def bgpMsgKeepalive : U8 := 4
def bgpMsgRouteRefreshNew : U8 := 5
def bgpMsgCapability : U8 := 6
def bgpMsgRouteRefreshOld : U8 := 128

/-- The types a header may have. -/
def knownTypes : List U8 :=
  [bgpMsgOpen, bgpMsgUpdate, bgpMsgNotify, bgpMsgKeepalive, bgpMsgRouteRefreshNew,
    bgpMsgRouteRefreshOld, bgpMsgCapability]

/-- A message as its sender writes it. -/
structure Message where
  marker : List U8
  type : U8
  body : List U8
  deriving DecidableEq, Repr

/-- The length that its header gives. -/
def Message.size (m : Message) : Nat := bgpHeaderSize + m.body.length

def Message.header (m : Message) : List U8 :=
  m.marker ++ putw (BitVec.ofNat 16 m.size) ++ [m.type]

def Message.octets (m : Message) : List U8 := m.header ++ m.body

/-- The octets a body has at least. -/
def bodyMinimum (type : U8) : Nat :=
  if type = bgpMsgOpen then 10
  else if type = bgpMsgUpdate then 4
  else if type = bgpMsgNotify then 2
  else if type = bgpMsgKeepalive then 0
  else if type = bgpMsgRouteRefreshNew ∨ type = bgpMsgRouteRefreshOld then 4
  else 3

/-- A message of a known type, with a body of a possible length. -/
structure Message.WellFormed (m : Message) : Prop where
  marker : m.marker.length = bgpMarkerSize
  synced : m.type = bgpMsgOpen ∨ m.type = bgpMsgKeepalive →
    m.marker = List.replicate bgpMarkerSize 255
  known : m.type ∈ knownTypes
  long : bodyMinimum m.type ≤ m.body.length
  bodiless : m.type = bgpMsgKeepalive → m.body = []
  fits : m.size ≤ bgpMaxPacketSize

/-! ## The connection -/

/-- What a look at the socket finds: octets that arrived together, the end of the
connection, or a failure. A look that finds no octets is a transient error. -/
inductive Arrival
  | octets (chunk : List U8)
  | closed
  | failed
  deriving DecidableEq, Repr

/-- What a routine of a message leaves of its connection. Only an OPEN hands the
connection of an accepted peer over to the configured one. -/
inductive Aftermath
  | keeps
  | handsOver
  | closes
  deriving DecidableEq, Repr

/-- A type and a body. -/
abbrev Dispatch := U8 × List U8

/-- The routines of the messages, by all that were dispatched up to now. -/
abbrev Handler := List Dispatch → Aftermath

/-- What the reader uses of a peer, and what it did. -/
structure Conn where
  accepted : Bool := false
  alive : Bool := true
  packetSize : Nat := 0
  ibuf : List U8 := []
  getp : Nat := 0
  dispatched : List Dispatch := []
  notified : List (U8 × U8 × List U8) := []
  deriving DecidableEq, Repr

/-- The event that ends the session. -/
def Conn.stop (c : Conn) : Conn := { c with alive := false }

/-- `bgp_notify_send_with_data`. -/
def bgpNotifySendWithData (c : Conn) (notice : U8 × U8 × List U8) : Conn :=
  { c.stop with notified := c.notified ++ [notice] }

/-! ## The reader -/

/-- `bgp_read_packet`, with whether the octets are all there. -/
def bgpReadPacket (c : Conn) (wire : List Arrival) : Bool × Conn × List Arrival :=
  let readsize := c.packetSize - c.ibuf.length
  if readsize = 0 then (true, c, wire)
  else if bgpMaxPacketSize - c.ibuf.length < readsize then (false, c.stop, wire)
  else match wire with
    | [] => (false, c, [])
    | .failed :: rest => (false, c.stop, rest)
    | .closed :: rest => (false, c.stop, rest)
    | .octets chunk :: rest =>
      let read := { c with ibuf := c.ibuf ++ chunk.take readsize }
      (decide (read.ibuf.length = read.packetSize), read,
        if chunk.length ≤ readsize then rest else .octets (chunk.drop readsize) :: rest)

/-- The notification a header is answered with. -/
def headerFault (type : U8) (size : Nat) (ibuf : List U8) : Option (U8 × U8 × List U8) :=
  if (type = bgpMsgOpen ∨ type = bgpMsgKeepalive)
      ∧ ¬ (ibuf.take bgpMarkerSize).all (· = 255) then some (1, 1, [])
  else if type ≠ bgpMsgOpen ∧ type ≠ bgpMsgUpdate ∧ type ≠ bgpMsgNotify ∧ type ≠ bgpMsgKeepalive
      ∧ type ≠ bgpMsgRouteRefreshNew ∧ type ≠ bgpMsgRouteRefreshOld
      ∧ type ≠ bgpMsgCapability then some (1, 3, [type])
  else if size < bgpHeaderSize ∨ bgpMaxPacketSize < size
      ∨ (type = bgpMsgOpen ∧ size < bgpHeaderSize + 10)
      ∨ (type = bgpMsgUpdate ∧ size < bgpHeaderSize + 4)
      ∨ (type = bgpMsgNotify ∧ size < bgpHeaderSize + 2)
      ∨ (type = bgpMsgKeepalive ∧ size ≠ bgpHeaderSize + 0)
      ∨ (type = bgpMsgRouteRefreshNew ∧ size < bgpHeaderSize + 4)
      ∨ (type = bgpMsgRouteRefreshOld ∧ size < bgpHeaderSize + 4)
      ∨ (type = bgpMsgCapability ∧ size < bgpHeaderSize + 3) then
    some (1, 2, (ibuf.drop bgpMarkerSize).take 2)
  else none

/-- A peer goes on reading behind a routine. -/
def goesOn (accepted : Bool) (aftermath : Aftermath) : Bool :=
  if accepted then aftermath = .handsOver else aftermath ≠ .closes

/-- The label `done`. -/
def finish (c : Conn) : Conn := if c.accepted then { c with alive := false } else c

/-- The routine of a complete message. An accepted peer is deleted in any case; it
is the configured peer that goes on with the connection, from an empty buffer. -/
def dispatch (handler : Handler) (c : Conn) : Conn :=
  let type := getc (c.ibuf.drop (bgpMarkerSize + 2))
  let size := c.packetSize - bgpHeaderSize
  let dispatched := c.dispatched ++ [(type, (c.ibuf.drop c.getp).take size)]
  { c with
    dispatched
    alive := goesOn c.accepted (handler dispatched)
    accepted := false
    packetSize := 0
    ibuf := []
    getp := 0 }

/-- The part of `bgp_read` behind the header. -/
def readBody (handler : Handler) (c : Conn) (wire : List Arrival) : Conn × List Arrival :=
  match bgpReadPacket c wire with
  | (false, c, wire) => (finish c, wire)
  | (true, c, wire) => (dispatch handler c, wire)

/-- The size to read up to, before anything is read. -/
def expecting (c : Conn) : Conn :=
  if c.packetSize = 0 then { c with packetSize := bgpHeaderSize } else c

/-- `bgp_read`, outside of the state Connect. -/
def bgpRead (handler : Handler) (c : Conn) (wire : List Arrival) : Conn × List Arrival :=
  let c := expecting c
  if c.ibuf.length < bgpHeaderSize then
    match bgpReadPacket c wire with
    | (false, c, wire) => (finish c, wire)
    | (true, c, wire) =>
      let size := (getw (c.ibuf.drop (c.getp + bgpMarkerSize))).toNat
      let type := getc (c.ibuf.drop (c.getp + bgpMarkerSize + 2))
      let c := { c with getp := c.getp + bgpHeaderSize }
      match headerFault type size c.ibuf with
      | some notice => (finish (bgpNotifySendWithData c notice), wire)
      | none => readBody handler { c with packetSize := size } wire
  else readBody handler c wire

/-- The reader is called as long as it has a connection with something to read. -/
def bgpReads (handler : Handler) : Nat → Conn × List Arrival → Conn × List Arrival
  | 0, at_ => at_
  | calls + 1, at_ =>
    let (c, wire) := bgpReads handler calls at_
    if c.alive ∧ wire ≠ [] then bgpRead handler c wire else (c, wire)

/-! ## What is to be dispatched -/

/-- The messages of a stream, one after the other, as long as the connection goes on. -/
def delivered (handler : Handler) : Bool → List Dispatch → List Message → List Dispatch
  | _, before, [] => before
  | accepted, before, m :: rest =>
    let now := before ++ [(m.type, m.body)]
    if goesOn accepted (handler now) then delivered handler false now rest else now

/-! ## One read -/

/-- Octets that arrive in chunks. -/
abbrev wireOf (chunks : List (List U8)) : List Arrival := chunks.map .octets

/-- What one read takes of the chunks. -/
def taken (readsize : Nat) : List (List U8) → List U8
  | [] => []
  | chunk :: _ => chunk.take readsize

/-- What one read leaves of the chunks. -/
def left (readsize : Nat) : List (List U8) → List (List U8)
  | [] => []
  | chunk :: rest => if chunk.length ≤ readsize then rest else chunk.drop readsize :: rest

/-- The octets and the looks that are still to come. -/
def coming (chunks : List (List U8)) : Nat := chunks.length + chunks.flatten.length

section Reading

variable {c : Conn} {chunks : List (List U8)} {readsize : Nat}

variable (chunks readsize) in
theorem taken_left : taken readsize chunks ++ (left readsize chunks).flatten = chunks.flatten := by
  cases chunks with
  | nil => rfl
  | cons chunk rest =>
    simp only [taken, left]
    split
    · rename_i short
      rw [List.take_of_length_le short, List.flatten_cons]
    · rw [List.flatten_cons, List.flatten_cons, ← List.append_assoc, List.take_append_drop]

variable (chunks readsize) in
theorem taken_length : (taken readsize chunks).length ≤ readsize := by
  cases chunks with
  | nil => exact Nat.zero_le _
  | cons chunk rest => exact List.length_take_le _ _

/-- A read of something to come leaves less to come. -/
theorem coming_left (some : chunks ≠ []) (asked : 0 < readsize) :
    coming (left readsize chunks) < coming chunks := by
  cases chunks with
  | nil => exact absurd rfl some
  | cons chunk rest =>
    simp only [coming, left]
    split
    · simp only [List.flatten_cons, List.length_append, List.length_cons]
      omega
    · simp only [List.flatten_cons, List.length_append, List.length_cons, List.length_drop]
      omega

theorem coming_left_le : coming (left readsize chunks) ≤ coming chunks := by
  cases chunks with
  | nil => exact le_rfl
  | cons chunk rest =>
    simp only [coming, left]
    split
    · simp only [List.flatten_cons, List.length_append, List.length_cons]
      omega
    · simp only [List.flatten_cons, List.length_append, List.length_cons, List.length_drop]
      omega

/-- The reader has all it expects. -/
theorem bgpReadPacket_complete {wire : List Arrival} (complete : c.ibuf.length = c.packetSize) :
    bgpReadPacket c wire = (true, c, wire) :=
  if_pos (by omega)

/-- One read appends what it took. -/
theorem bgpReadPacket_octets (short : c.ibuf.length < c.packetSize)
    (fits : c.packetSize ≤ bgpMaxPacketSize) :
    bgpReadPacket c (wireOf chunks)
      = (decide ((c.ibuf ++ taken (c.packetSize - c.ibuf.length) chunks).length = c.packetSize),
        { c with ibuf := c.ibuf ++ taken (c.packetSize - c.ibuf.length) chunks },
        wireOf (left (c.packetSize - c.ibuf.length) chunks)) := by
  unfold bgpReadPacket
  rw [if_neg (by omega), if_neg (by omega)]
  cases chunks with
  | nil =>
    have unfinished : ¬ c.ibuf.length = c.packetSize := by omega
    simp [taken, left, unfinished]
  | cons chunk rest =>
    simp only [taken, left, List.map_cons]
    split <;> rfl

end Reading

/-! ## Headers -/

namespace Message

variable {m : Message}

theorem WellFormed.header_length (wf : m.WellFormed) : m.header.length = bgpHeaderSize := by
  rw [header, List.length_append, List.length_append, putw_length, wf.marker]
  rfl

theorem WellFormed.octets_length (wf : m.WellFormed) : m.octets.length = m.size := by
  rw [octets, List.length_append, wf.header_length, size]

/-- A header behind its marker. -/
theorem WellFormed.drop_marker (wf : m.WellFormed) (rest : List U8) :
    (m.header ++ rest).drop bgpMarkerSize = putw (BitVec.ofNat 16 m.size) ++ (m.type :: rest) := by
  rw [header, List.append_assoc, List.append_assoc, ← wf.marker, List.drop_left]
  rfl

theorem WellFormed.read_size (wf : m.WellFormed) (rest : List U8) :
    (getw ((m.header ++ rest).drop bgpMarkerSize)).toNat = m.size := by
  have small : m.size < 2 ^ 16 := lt_of_le_of_lt wf.fits (by decide)
  rw [wf.drop_marker, getw_putw, BitVec.toNat_ofNat, Nat.mod_eq_of_lt small]

theorem WellFormed.read_type (wf : m.WellFormed) (rest : List U8) :
    getc ((m.header ++ rest).drop (bgpMarkerSize + 2)) = m.type := by
  rw [← List.drop_drop, wf.drop_marker]
  rfl

theorem WellFormed.take_marker (wf : m.WellFormed) : m.header.take bgpMarkerSize = m.marker := by
  rw [header, List.append_assoc, ← wf.marker, List.take_left]

/-- The length of a message is one its type may have. -/
theorem WellFormed.size_allowed (wf : m.WellFormed) :
    ¬ (m.size < bgpHeaderSize ∨ bgpMaxPacketSize < m.size
      ∨ (m.type = bgpMsgOpen ∧ m.size < bgpHeaderSize + 10)
      ∨ (m.type = bgpMsgUpdate ∧ m.size < bgpHeaderSize + 4)
      ∨ (m.type = bgpMsgNotify ∧ m.size < bgpHeaderSize + 2)
      ∨ (m.type = bgpMsgKeepalive ∧ m.size ≠ bgpHeaderSize + 0)
      ∨ (m.type = bgpMsgRouteRefreshNew ∧ m.size < bgpHeaderSize + 4)
      ∨ (m.type = bgpMsgRouteRefreshOld ∧ m.size < bgpHeaderSize + 4)
      ∨ (m.type = bgpMsgCapability ∧ m.size < bgpHeaderSize + 3)) := by
  have long := wf.long
  have size : m.size = bgpHeaderSize + m.body.length := rfl
  rintro (short | long | ⟨type, bad⟩ | ⟨type, bad⟩ | ⟨type, bad⟩ | ⟨type, bad⟩ | ⟨type, bad⟩
    | ⟨type, bad⟩ | ⟨type, bad⟩)
  · omega
  · exact absurd wf.fits (by omega)
  · rw [type, show bodyMinimum bgpMsgOpen = 10 from rfl] at long
    omega
  · rw [type, show bodyMinimum bgpMsgUpdate = 4 from rfl] at long
    omega
  · rw [type, show bodyMinimum bgpMsgNotify = 2 from rfl] at long
    omega
  · rw [size, wf.bodiless type] at bad
    exact bad rfl
  · rw [type, show bodyMinimum bgpMsgRouteRefreshNew = 4 from rfl] at long
    omega
  · rw [type, show bodyMinimum bgpMsgRouteRefreshOld = 4 from rfl] at long
    omega
  · rw [type, show bodyMinimum bgpMsgCapability = 3 from rfl] at long
    omega

/-- No check answers a well-formed message. -/
theorem WellFormed.headerFault_none (wf : m.WellFormed) :
    headerFault m.type m.size m.header = none := by
  have known := wf.known
  unfold headerFault
  rw [if_neg, if_neg, if_neg wf.size_allowed]
  · simp only [knownTypes, List.mem_cons, List.not_mem_nil, or_false] at known
    tauto
  · rintro ⟨kind, unsynced⟩
    rw [wf.take_marker, wf.synced kind] at unsynced
    exact unsynced (by decide)

end Message

/-! ## Bodies -/

/-- The octets of messages that follow each other. -/
def streamOf (ms : List Message) : List U8 := ms.flatMap Message.octets

@[simp] theorem streamOf_cons (m : Message) (ms : List Message) :
    streamOf (m :: ms) = m.octets ++ streamOf ms := rfl

/-- The reader is behind the header of the first message of those that are to come. -/
structure Opened (c : Conn) (chunks : List (List U8)) (m : Message) (ms : List Message) :
    Prop where
  wf : m.WellFormed
  getp : c.getp = bgpHeaderSize
  packetSize : c.packetSize = m.size
  begun : bgpHeaderSize ≤ c.ibuf.length
  ends : c.ibuf.length ≤ m.size
  stream : c.ibuf ++ chunks.flatten = m.octets ++ streamOf ms

section Bodies

variable {handler : Handler} {c : Conn} {chunks : List (List U8)} {m : Message} {ms : List Message}

/-- What is in the buffer is the beginning of the message. -/
theorem Opened.split (opened : Opened c chunks m ms) :
    ∃ more, c.ibuf ++ more = m.octets ∧ chunks.flatten = more ++ streamOf ms := by
  have fits : c.ibuf.length ≤ m.octets.length := by
    rw [opened.wf.octets_length]
    exact opened.ends
  rcases List.append_eq_append_iff.mp opened.stream with ⟨more, whole, rest⟩ | ⟨beyond, whole, rest⟩
  · exact ⟨more, whole.symm, rest⟩
  · have nothing : beyond = [] := by
      rw [whole, List.length_append] at fits
      exact List.eq_nil_of_length_eq_zero (by omega)
    subst nothing
    rw [List.append_nil] at whole
    exact ⟨[], by rw [whole, List.append_nil], by rw [rest]; rfl⟩

variable (handler) in
/-- Where the octets do not reach the end of the message, the reader waits. -/
theorem readBody_waits (opened : Opened c chunks m ms)
    (short : c.ibuf.length + (taken (m.size - c.ibuf.length) chunks).length < m.size) :
    readBody handler c (wireOf chunks)
      = (finish { c with ibuf := c.ibuf ++ taken (m.size - c.ibuf.length) chunks },
        wireOf (left (m.size - c.ibuf.length) chunks)) := by
  have size := opened.packetSize
  have fits := opened.wf.fits
  have unfinished : ¬ (c.ibuf ++ taken (m.size - c.ibuf.length) chunks).length = m.size := by
    rw [List.length_append]
    omega
  rw [readBody, bgpReadPacket_octets (by omega) (by omega), size]
  simp only [unfinished, decide_false]

/-- The reader that waits is still behind the header of the message. -/
theorem Opened.waits (opened : Opened c chunks m ms)
    (short : c.ibuf.length + (taken (m.size - c.ibuf.length) chunks).length < m.size) :
    Opened { c with ibuf := c.ibuf ++ taken (m.size - c.ibuf.length) chunks }
      (left (m.size - c.ibuf.length) chunks) m ms where
  wf := opened.wf
  getp := opened.getp
  packetSize := opened.packetSize
  begun := by
    have begun := opened.begun
    rw [List.length_append]
    omega
  ends := by
    rw [List.length_append]
    omega
  stream := by
    rw [List.append_assoc, taken_left]
    exact opened.stream

variable (handler) in
/-- Where they do, the message is dispatched and its successors are left. -/
theorem readBody_dispatches (opened : Opened c chunks m ms)
    (whole : m.size ≤ c.ibuf.length + (taken (m.size - c.ibuf.length) chunks).length) :
    ∃ chunks', chunks'.flatten = streamOf ms ∧ coming chunks' ≤ coming chunks
      ∧ (c.ibuf.length < m.size → chunks ≠ [] → coming chunks' < coming chunks)
      ∧ readBody handler c (wireOf chunks)
        = (dispatch handler { c with ibuf := m.octets }, wireOf chunks') := by
  have size := opened.packetSize
  have fits := opened.wf.fits
  obtain ⟨more, buffer, rest⟩ := opened.split
  by_cases complete : c.ibuf.length = m.size
  · have nothing : more = [] := by
      have lengths := congrArg List.length buffer
      rw [List.length_append, opened.wf.octets_length] at lengths
      exact List.eq_nil_of_length_eq_zero (by omega)
    subst nothing
    rw [List.append_nil] at buffer
    refine ⟨chunks, rest, le_rfl, fun short => absurd complete (Nat.ne_of_lt short), ?_⟩
    rw [readBody, bgpReadPacket_complete (complete.trans size.symm), ← buffer]
  · have short : c.ibuf.length < m.size := lt_of_le_of_ne opened.ends complete
    have bound := taken_length chunks (m.size - c.ibuf.length)
    have finished : (c.ibuf ++ taken (m.size - c.ibuf.length) chunks).length = m.size := by
      rw [List.length_append]
      omega
    -- Both are as long as the message and begin the same stream.
    have same : c.ibuf ++ taken (m.size - c.ibuf.length) chunks = m.octets
        ∧ (left (m.size - c.ibuf.length) chunks).flatten = streamOf ms := by
      apply List.append_inj
      · rw [List.append_assoc, taken_left]
        exact opened.stream
      · rw [finished, opened.wf.octets_length]
    refine ⟨left (m.size - c.ibuf.length) chunks, same.2, coming_left_le,
      fun _ some => coming_left some (by omega), ?_⟩
    rw [readBody, bgpReadPacket_octets (by omega) (by omega), size, same.1]
    simp [opened.wf.octets_length]

/-- The routine gets the type and the body of the message. -/
theorem dispatch_octets (wf : m.WellFormed) (getp : c.getp = bgpHeaderSize)
    (size : c.packetSize = m.size) :
    dispatch handler { c with ibuf := m.octets }
      = { c with
          dispatched := c.dispatched ++ [(m.type, m.body)]
          alive := goesOn c.accepted (handler (c.dispatched ++ [(m.type, m.body)]))
          accepted := false
          packetSize := 0
          ibuf := []
          getp := 0 } := by
  have body : (m.octets.drop bgpHeaderSize).take (m.size - bgpHeaderSize) = m.body := by
    rw [Message.octets, ← wf.header_length, List.drop_left, wf.header_length, Message.size]
    exact List.take_of_length_le (by omega)
  simp only [dispatch, getp, size, body]
  rw [Message.octets, wf.read_type]

end Bodies

/-- The reader is inside the header of the next message, or in front of it. -/
structure Between (c : Conn) (chunks : List (List U8)) (ms : List Message) : Prop where
  wf : ∀ m ∈ ms, m.WellFormed
  getp : c.getp = 0
  packetSize : c.packetSize = bgpHeaderSize ∨ c.packetSize = 0 ∧ c.ibuf = []
  short : c.ibuf.length < bgpHeaderSize
  stream : c.ibuf ++ chunks.flatten = streamOf ms

theorem header_fits : bgpHeaderSize ≤ bgpMaxPacketSize := by decide

section Headers

variable {handler : Handler} {c : Conn} {chunks : List (List U8)} {ms : List Message}

theorem Between.expecting (between : Between c chunks ms) :
    expecting c = { c with packetSize := bgpHeaderSize } := by
  rw [MessageFraming.expecting]
  rcases between.packetSize with known | ⟨unknown, -⟩
  · rw [known, if_neg (by decide), ← known]
  · rw [if_pos unknown]

variable (handler) in
/-- Where the octets do not reach the end of the header, the reader waits. -/
theorem bgpRead_waits (between : Between c chunks ms)
    (short : c.ibuf.length + (taken (bgpHeaderSize - c.ibuf.length) chunks).length <
      bgpHeaderSize) :
    bgpRead handler c (wireOf chunks)
      = (finish { c with
          packetSize := bgpHeaderSize
          ibuf := c.ibuf ++ taken (bgpHeaderSize - c.ibuf.length) chunks },
        wireOf (left (bgpHeaderSize - c.ibuf.length) chunks)) := by
  have unfinished :
      ¬ (c.ibuf ++ taken (bgpHeaderSize - c.ibuf.length) chunks).length = bgpHeaderSize := by
    rw [List.length_append]
    omega
  rw [bgpRead, between.expecting]
  rw [if_pos between.short, bgpReadPacket_octets between.short header_fits]
  simp only [unfinished, decide_false]

theorem Between.waits (between : Between c chunks ms)
    (short : c.ibuf.length + (taken (bgpHeaderSize - c.ibuf.length) chunks).length <
      bgpHeaderSize) :
    Between { c with
        packetSize := bgpHeaderSize
        ibuf := c.ibuf ++ taken (bgpHeaderSize - c.ibuf.length) chunks }
      (left (bgpHeaderSize - c.ibuf.length) chunks) ms where
  wf := between.wf
  getp := between.getp
  packetSize := .inl rfl
  short := by
    rw [List.length_append]
    exact short
  stream := by
    rw [List.append_assoc, taken_left]
    exact between.stream

variable (handler) in
/-- Where they do, the size of the message is known and its body is next. -/
theorem bgpRead_opens (between : Between c chunks ms)
    (whole : bgpHeaderSize ≤ c.ibuf.length +
      (taken (bgpHeaderSize - c.ibuf.length) chunks).length) :
    ∃ m ms', ms = m :: ms'
      ∧ bgpRead handler c (wireOf chunks)
        = readBody handler { c with packetSize := m.size, getp := bgpHeaderSize, ibuf := m.header }
            (wireOf (left (bgpHeaderSize - c.ibuf.length) chunks))
      ∧ Opened { c with packetSize := m.size, getp := bgpHeaderSize, ibuf := m.header }
          (left (bgpHeaderSize - c.ibuf.length) chunks) m ms' := by
  have bound := taken_length chunks (bgpHeaderSize - c.ibuf.length)
  have short := between.short
  have full : (c.ibuf ++ taken (bgpHeaderSize - c.ibuf.length) chunks).length = bgpHeaderSize := by
    rw [List.length_append]
    omega
  have stream := between.stream
  rw [← taken_left chunks (bgpHeaderSize - c.ibuf.length), ← List.append_assoc] at stream
  cases ms with
  | nil =>
    have lengths := congrArg List.length stream
    rw [List.length_append, full] at lengths
    exact absurd lengths (by simp only [streamOf, List.flatMap_nil, List.length_nil]; omega)
  | cons m ms =>
    have wf := between.wf m List.mem_cons_self
    rw [streamOf_cons, Message.octets, List.append_assoc m.header] at stream
    obtain ⟨header, rest⟩ := List.append_inj stream (full.trans wf.header_length.symm)
    refine ⟨m, ms, rfl, ?_, ?_⟩
    · rw [bgpRead, between.expecting]
      rw [if_pos short, bgpReadPacket_octets short header_fits]
      rw [header, between.getp, decide_eq_true wf.header_length]
      have size := wf.read_size []
      have type := wf.read_type []
      rw [List.append_nil] at size type
      dsimp only
      rw [Nat.zero_add, Nat.zero_add, size, type, wf.headerFault_none]
    · exact
        { wf := wf
          getp := rfl
          packetSize := rfl
          begun := wf.header_length.ge
          ends := by
            rw [wf.header_length, Message.size]
            exact Nat.le_add_right _ _
          stream := by
            rw [rest, Message.octets, List.append_assoc] }

end Headers

/-! ## Whole runs -/

theorem delivered_prefix (handler : Handler) (accepted : Bool) (before : List Dispatch)
    (ms : List Message) : before <+: delivered handler accepted before ms := by
  induction ms generalizing accepted before with
  | nil => exact List.prefix_rfl
  | cons m ms ih =>
    rw [delivered]
    split
    · exact (List.prefix_append _ _).trans (ih false _)
    · exact List.prefix_append _ _

/-- A peer of its own reads towards the messages that are to be dispatched. -/
inductive Tracked (handler : Handler) (total : List Dispatch) :
    Conn → List (List U8) → Prop
  | between {c : Conn} {chunks : List (List U8)} {ms : List Message}
      (alive : c.alive = true) (own : c.accepted = false)
      (at_header : Between c chunks ms) (due : delivered handler false c.dispatched ms = total) :
      Tracked handler total c chunks
  | opened {c : Conn} {chunks : List (List U8)} {m : Message} {ms : List Message}
      (alive : c.alive = true) (own : c.accepted = false) (at_body : Opened c chunks m ms)
      (short : c.ibuf.length < m.size) (wf : ∀ m ∈ ms, m.WellFormed)
      (due : delivered handler false c.dispatched (m :: ms) = total) :
      Tracked handler total c chunks
  | ended {c : Conn} {chunks : List (List U8)} (dead : c.alive = false)
      (due : c.dispatched = total) : Tracked handler total c chunks

section Tracking

variable {handler : Handler} {total : List Dispatch} {c : Conn} {chunks : List (List U8)}
  {m : Message} {ms : List Message}

theorem Tracked.ordered (tracked : Tracked handler total c chunks) : c.dispatched <+: total := by
  cases tracked with
  | between alive own at_header due => exact due ▸ delivered_prefix _ _ _ _
  | opened alive own at_body short wf due => exact due ▸ delivered_prefix _ _ _ _
  | ended dead due => exact due ▸ List.prefix_rfl

/-- With nothing to come, every message was dispatched. -/
theorem Tracked.all (tracked : Tracked handler total c chunks)
    (quiet : c.alive = false ∨ chunks = []) : c.dispatched = total := by
  cases tracked with
  | ended dead due => exact due
  | @between ms alive own at_header due =>
    have nothing : chunks = [] := quiet.resolve_left (by rw [alive]; decide)
    subst nothing
    have stream := at_header.stream
    rw [List.flatten_nil, List.append_nil] at stream
    cases ms with
    | nil => exact due
    | cons m ms =>
      have short := at_header.short
      have long := (at_header.wf m List.mem_cons_self).header_length
      rw [stream, streamOf_cons, Message.octets, List.length_append, List.length_append,
        long] at short
      omega
  | @opened m ms alive own at_body short wf due =>
    have nothing : chunks = [] := quiet.resolve_left (by rw [alive]; decide)
    subst nothing
    have stream := at_body.stream
    rw [List.flatten_nil, List.append_nil] at stream
    rw [stream, List.length_append, at_body.wf.octets_length] at short
    omega

/-- A message that is complete is dispatched, and the reader is at the next one. -/
theorem tracked_dispatch (wf : m.WellFormed) (getp : c.getp = bgpHeaderSize)
    (size : c.packetSize = m.size) (others : ∀ m ∈ ms, m.WellFormed)
    (rest : chunks.flatten = streamOf ms)
    (due : delivered handler c.accepted c.dispatched (m :: ms) = total) :
    Tracked handler total (dispatch handler { c with ibuf := m.octets }) chunks := by
  rw [delivered] at due
  rw [dispatch_octets wf getp size]
  split at due
  · rename_i goes
    exact .between goes rfl
      { wf := others
        getp := rfl
        packetSize := .inr ⟨rfl, rfl⟩
        short := show 0 < bgpHeaderSize by decide
        stream := rest } due
  · rename_i stops
    exact .ended (eq_false_of_ne_true stops) due

/-- What a step of a peer of its own keeps: it is still on track, and it is not
given up with nothing dispatched. -/
structure Advances (handler : Handler) (total : List Dispatch) (c : Conn)
    (after : Conn × List Arrival) (chunks : List (List U8)) : Prop where
  wire : after.2 = wireOf chunks
  tracked : Tracked handler total after.1 chunks
  kept : c.alive = true → after.1.alive = true ∨ after.1.dispatched ≠ c.dispatched

variable (handler total) in
theorem readBody_advances (alive : c.alive = true) (own : c.accepted = false)
    (opened : Opened c chunks m ms) (others : ∀ m ∈ ms, m.WellFormed)
    (due : delivered handler false c.dispatched (m :: ms) = total) :
    ∃ chunks', coming chunks' ≤ coming chunks
      ∧ (c.ibuf.length < m.size → chunks ≠ [] → coming chunks' < coming chunks)
      ∧ Advances handler total c (readBody handler c (wireOf chunks)) chunks' := by
  by_cases short : c.ibuf.length + (taken (m.size - c.ibuf.length) chunks).length < m.size
  · have idle : ∀ ibuf, finish { c with ibuf := ibuf } = { c with ibuf := ibuf } := fun ibuf =>
      if_neg (by rw [own]; decide)
    refine ⟨left (m.size - c.ibuf.length) chunks, coming_left_le,
      fun unfinished more => coming_left more (by omega), ?_⟩
    rw [readBody_waits handler opened short, idle]
    exact
      { wire := rfl
        tracked := .opened alive own (opened.waits short) (by rw [List.length_append]; exact short)
          others due
        kept := .inl }
  · obtain ⟨chunks', rest, less, lessThan, read⟩ :=
      readBody_dispatches handler opened (Nat.le_of_not_lt short)
    refine ⟨chunks', less, lessThan, ?_⟩
    rw [read]
    exact
      { wire := rfl
        tracked := tracked_dispatch opened.wf opened.getp opened.packetSize others rest
          (own ▸ due)
        kept := fun _ => .inr (by
          rw [dispatch_octets opened.wf opened.getp opened.packetSize]
          exact fun same => absurd (List.append_right_eq_self.mp same) (by simp)) }

/-- One call advances a peer of its own, and takes from what is to come. -/
theorem Tracked.step (tracked : Tracked handler total c chunks) (alive : c.alive = true)
    (more : chunks ≠ []) :
    ∃ chunks', coming chunks' < coming chunks
      ∧ Advances handler total c (bgpRead handler c (wireOf chunks)) chunks' := by
  cases tracked with
  | ended dead due => exact absurd alive (by rw [dead]; decide)
  | @opened m ms _ own at_body short wf due =>
    obtain ⟨chunks', -, less, advances⟩ := readBody_advances handler total alive own at_body wf due
    have known : expecting c = c :=
      if_neg (by rw [at_body.packetSize, Message.size, bgpHeaderSize]; omega)
    have behind : bgpRead handler c (wireOf chunks) = readBody handler c (wireOf chunks) := by
      rw [bgpRead, known]
      exact if_neg (Nat.not_lt.mpr at_body.begun)
    exact ⟨chunks', less short more, behind ▸ advances⟩
  | @between ms _ own at_header due =>
    have room := at_header.short
    by_cases short :
        c.ibuf.length + (taken (bgpHeaderSize - c.ibuf.length) chunks).length < bgpHeaderSize
    · refine ⟨left (bgpHeaderSize - c.ibuf.length) chunks, coming_left more (by omega), ?_⟩
      rw [bgpRead_waits handler at_header short, finish, if_neg (by rw [own]; decide)]
      exact
        { wire := rfl
          tracked := .between alive own (at_header.waits short) due
          kept := fun _ => .inl alive }
    · obtain ⟨m, ms, rfl, read, opened⟩ :=
        bgpRead_opens handler at_header (Nat.le_of_not_lt short)
      obtain ⟨chunks', less, -, advances⟩ := readBody_advances handler total
        (by exact alive) (by exact own) opened
        (fun other later => at_header.wf other (List.mem_cons_of_mem _ later)) due
      refine ⟨chunks', lt_of_le_of_lt less (coming_left more (by omega)), ?_⟩
      rw [read]
      exact ⟨advances.wire, advances.tracked, advances.kept⟩

/-- Every state of a run of a peer of its own is on track, and the run ends after as
many calls as there are octets and looks. -/
theorem Tracked.run (tracked : Tracked handler total c chunks) (calls : Nat) :
    ∃ chunks', Tracked handler total (bgpReads handler calls (c, wireOf chunks)).1 chunks'
      ∧ (bgpReads handler calls (c, wireOf chunks)).2 = wireOf chunks'
      ∧ ((bgpReads handler calls (c, wireOf chunks)).1.alive = false ∨ chunks' = []
        ∨ coming chunks' + calls ≤ coming chunks) := by
  induction calls with
  | zero => exact ⟨chunks, tracked, rfl, .inr (.inr le_rfl)⟩
  | succ calls ih =>
    obtain ⟨now, on, wire, progress⟩ := ih
    rw [bgpReads]
    dsimp only
    split
    · rename_i goes
      have more : now ≠ [] := by
        rintro rfl
        exact goes.2 wire
      obtain ⟨after, less, advances⟩ := on.step goes.1 more
      rw [wire]
      refine ⟨after, advances.tracked, advances.wire, .inr (.inr ?_)⟩
      rcases progress with dead | nothing | bound
      · exact absurd goes.1 (by rw [dead]; decide)
      · exact absurd nothing more
      · omega
    · rename_i stops
      refine ⟨now, on, wire, ?_⟩
      by_cases alive : (bgpReads handler calls (c, wireOf chunks)).1.alive = true
      · refine .inr (.inl ?_)
        by_contra more
        exact stops ⟨alive,
          by rw [wire]; exact fun nothing => more (List.map_eq_nil_iff.mp nothing)⟩
      · exact .inl (eq_false_of_ne_true alive)

end Tracking

/-! ## Independence of the cuts -/

/-- However the stream is cut, the messages are dispatched one after the other with
their bodies, and no call gives the peer up without having dispatched one. -/
structure Framed (handler : Handler) (total : List Dispatch) (c : Conn)
    (chunks : List (List U8)) : Prop where
  all : ∃ calls, (bgpReads handler calls (c, wireOf chunks)).1.dispatched = total
  ordered : ∀ calls, (bgpReads handler calls (c, wireOf chunks)).1.dispatched <+: total
  kept : ∀ calls, (bgpReads handler calls (c, wireOf chunks)).1.alive = true →
    (bgpReads handler (calls + 1) (c, wireOf chunks)).1.alive = true
      ∨ (bgpReads handler (calls + 1) (c, wireOf chunks)).1.dispatched
        ≠ (bgpReads handler calls (c, wireOf chunks)).1.dispatched

/-- The first message is there within one call: its first look finds the header at
least, and either the whole message or the header alone, with the rest at the next. -/
def Prompt : List (List U8) → List Message → Prop
  | chunks, [] => chunks = []
  | [], _ :: _ => False
  | chunk :: rest, m :: _ => bgpHeaderSize ≤ chunk.length
    ∧ (m.size ≤ chunk.length
      ∨ chunk.length = bgpHeaderSize ∧ m.size ≤ bgpHeaderSize + (rest.headD []).length)

section Framing

variable {handler : Handler} {total : List Dispatch} {c c' : Conn}
  {chunks chunks' : List (List U8)} {m : Message} {ms : List Message}

/-- The first of the calls is made on what the others start from. -/
theorem bgpReads_succ (handler : Handler) (calls : Nat) (at_ : Conn × List Arrival) :
    bgpReads handler (calls + 1) at_ = bgpReads handler calls (bgpReads handler 1 at_) := by
  induction calls with
  | zero => rfl
  | succ calls ih =>
    rw [bgpReads, ih]
    rfl

/-- A peer of its own is independent of the cuts. -/
theorem Tracked.framed (tracked : Tracked handler total c chunks) :
    Framed handler total c chunks where
  all := by
    obtain ⟨later, on, -, progress⟩ := tracked.run (coming chunks + 1)
    refine ⟨coming chunks + 1, on.all ?_⟩
    rcases progress with dead | nothing | bound
    · exact .inl dead
    · exact .inr nothing
    · omega
  ordered := fun calls =>
    let ⟨_, on, _⟩ := tracked.run calls
    on.ordered
  kept := fun calls alive => by
    obtain ⟨now, on, wire, -⟩ := tracked.run calls
    rw [bgpReads]
    dsimp only
    split
    · rename_i goes
      have more : now ≠ [] := by
        rintro rfl
        exact goes.2 wire
      obtain ⟨_, -, advances⟩ := on.step alive more
      rw [wire]
      exact advances.kept alive
    · exact .inl alive

/-- A first call that dispatches its message leaves the rest to the others. -/
theorem framed_of_first (alive : c.alive = true) (more : chunks ≠ [])
    (first : bgpRead handler c (wireOf chunks) = (c', wireOf chunks'))
    (begun : c.dispatched <+: total) (told : c'.dispatched ≠ c.dispatched)
    (rest : Framed handler total c' chunks') : Framed handler total c chunks := by
  have one : bgpReads handler 1 (c, wireOf chunks) = (c', wireOf chunks') :=
    (if_pos ⟨alive, fun nothing => more (List.map_eq_nil_iff.mp nothing)⟩).trans first
  have later : ∀ calls, bgpReads handler (calls + 1) (c, wireOf chunks)
      = bgpReads handler calls (c', wireOf chunks') := fun calls => by
    rw [bgpReads_succ, one]
  constructor
  · obtain ⟨calls, all⟩ := rest.all
    exact ⟨calls + 1, by rw [later]; exact all⟩
  · rintro (_ | calls)
    · exact begun
    · rw [later]
      exact rest.ordered calls
  · rintro (_ | calls) lives
    · rw [later]
      exact .inr told
    · rw [later] at lives
      rw [later, later]
      exact rest.kept calls lives

/-- A first call that gives the peer up with nothing dispatched breaks the framing. -/
theorem not_framed_of_first (alive : c.alive = true) (more : chunks ≠ [])
    (dead : (bgpRead handler c (wireOf chunks)).1.alive = false)
    (silent : (bgpRead handler c (wireOf chunks)).1.dispatched = c.dispatched) :
    ¬ Framed handler total c chunks := by
  intro framed
  have one : bgpReads handler 1 (c, wireOf chunks) = bgpRead handler c (wireOf chunks) :=
    if_pos ⟨alive, fun nothing => more (List.map_eq_nil_iff.mp nothing)⟩
  have kept := framed.kept 0 alive
  rw [one, dead] at kept
  rcases kept with lives | told
  · exact absurd lives (by decide)
  · exact told silent

/-- A peer that has read nothing yet. -/
def fresh (accepted : Bool) : Conn := { accepted }

theorem fresh_between (accepted : Bool) (wf : ∀ m ∈ ms, m.WellFormed)
    (stream : chunks.flatten = streamOf ms) : Between (fresh accepted) chunks ms where
  wf := wf
  getp := rfl
  packetSize := .inr ⟨rfl, rfl⟩
  short := show 0 < bgpHeaderSize by decide
  stream := stream

/-- A peer with nothing to read is not called. -/
theorem bgpReads_nothing (handler : Handler) (c : Conn) (calls : Nat) :
    bgpReads handler calls (c, wireOf []) = (c, wireOf []) := by
  induction calls with
  | zero => rfl
  | succ calls ih =>
    rw [bgpReads, ih]
    exact if_neg fun goes => goes.2 rfl

/-- The second look of the first call finds the body of a message exactly when its
size is within what the first one left. -/
theorem second_look {chunk : List U8} {rest : List (List U8)} {size : Nat}
    (long : bgpHeaderSize ≤ chunk.length) :
    size ≤ bgpHeaderSize
        + (taken (size - bgpHeaderSize) (left bgpHeaderSize (chunk :: rest))).length
      ↔ size ≤ chunk.length
        ∨ chunk.length = bgpHeaderSize ∧ size ≤ bgpHeaderSize + (rest.headD []).length := by
  simp only [left]
  split
  · rename_i short
    cases rest with
    | nil =>
      simp only [taken, List.headD_nil, List.length_nil]
      omega
    | cons next rest =>
      simp only [taken, List.headD_cons, List.length_take]
      omega
  · simp only [taken, List.length_take, List.length_drop]
    omega

/-- An accepted peer is independent of the cuts exactly if its first message comes
within one call. -/
theorem accepted_framed_iff (wf : ∀ m ∈ ms, m.WellFormed) (stream : chunks.flatten = streamOf ms) :
    Framed handler (delivered handler true [] ms) (fresh true) chunks ↔ Prompt chunks ms := by
  have between := fresh_between true wf stream
  cases chunks with
  | nil =>
    cases ms with
    | nil =>
      refine iff_of_true ?_ rfl
      have still := bgpReads_nothing handler (fresh true)
      constructor
      · exact ⟨0, rfl⟩
      · intro calls
        rw [still]
        exact List.prefix_rfl
      · intro calls alive
        rw [still]
        exact .inl rfl
    | cons m ms =>
      have lengths := congrArg List.length stream
      rw [streamOf_cons, List.length_append, (wf m List.mem_cons_self).octets_length,
        Message.size, bgpHeaderSize, List.flatten_nil, List.length_nil] at lengths
      omega
  | cons chunk rest =>
    have more : chunk :: rest ≠ [] := List.cons_ne_nil _ _
    have look : ((fresh true).ibuf.length
        + (taken (bgpHeaderSize - (fresh true).ibuf.length) (chunk :: rest)).length)
          = min bgpHeaderSize chunk.length := by
      rw [taken, List.length_take]
      exact Nat.zero_add _
    by_cases short : chunk.length < bgpHeaderSize
    · refine iff_of_false ?_ ?_
      · have waits := bgpRead_waits handler between (by rw [look]; omega)
        apply not_framed_of_first rfl more
        · rw [waits]
          rfl
        · rw [waits]
          rfl
      · cases ms with
        | nil => exact more
        | cons m ms => exact fun prompt => absurd prompt.1 (Nat.not_le.mpr short)
    · obtain ⟨m, ms, rfl, read, opened⟩ :=
        bgpRead_opens handler between (by rw [look]; omega)
      have long := Nat.le_of_not_lt short
      have header := opened.wf.header_length
      have prompt : Prompt (chunk :: rest) (m :: ms) ↔ m.size ≤ m.header.length
          + (taken (m.size - m.header.length) (left bgpHeaderSize (chunk :: rest))).length := by
        rw [header, second_look long]
        exact and_iff_right long
      rw [prompt]
      by_cases whole : m.size ≤ m.header.length
          + (taken (m.size - m.header.length) (left bgpHeaderSize (chunk :: rest))).length
      · refine iff_of_true ?_ whole
        obtain ⟨chunks', others, -, -, dispatches⟩ :=
          readBody_dispatches handler opened whole
        refine framed_of_first rfl more (read.trans dispatches) List.nil_prefix ?_ ?_
        · rw [dispatch_octets opened.wf rfl rfl]
          exact List.cons_ne_nil _ _
        · exact (tracked_dispatch opened.wf opened.getp opened.packetSize
            (fun other later => wf other (List.mem_cons_of_mem _ later)) others rfl).framed
      · refine iff_of_false ?_ whole
        have waits := readBody_waits handler opened (Nat.lt_of_not_le whole)
        apply not_framed_of_first rfl more
        · rw [read, waits]
          rfl
        · rw [read, waits]
          rfl

end Framing

/-- Messages are cut out of the stream independently of how it arrives: for a peer of
its own always, and for an accepted peer exactly if the first message comes within one
call. -/
theorem framed_iff (handler : Handler) (accepted : Bool) (chunks : List (List U8))
    (ms : List Message) (wf : ∀ m ∈ ms, m.WellFormed) (stream : chunks.flatten = streamOf ms) :
    Framed handler (delivered handler accepted [] ms) (fresh accepted) chunks
      ↔ (accepted = true → Prompt chunks ms) := by
  cases accepted with
  | false =>
    refine iff_of_true ?_ (fun accepted => absurd accepted (by decide))
    exact (Tracked.between rfl rfl (fresh_between false wf stream) rfl).framed
  | true =>
    rw [accepted_framed_iff wf stream]
    exact ⟨fun prompt _ => prompt, fun prompt => prompt rfl⟩

/-! ## A stream in two chunks -/

/-- An OPEN without options. -/
def openMessage : Message where
  marker := List.replicate 16 255
  type := bgpMsgOpen
  body := [4, 0, 1, 0, 180, 192, 0, 2, 1, 0]

theorem openMessage_wellFormed : ∀ m ∈ [openMessage], m.WellFormed := by
  intro m listed
  cases List.mem_singleton.mp listed
  exact
    { marker := rfl
      synced := fun _ => rfl
      known := by decide
      long := by decide
      bodiless := fun type => absurd type (by decide)
      fits := by decide }

/-- The OPEN, with its last octet apart. -/
def lateOctet : List (List U8) := [openMessage.octets.take 28, openMessage.octets.drop 28]

/-- Every routine keeps its connection, and an OPEN hands an accepted one over. -/
def keeping : Handler := fun before =>
  if before.getLast?.map Prod.fst = some bgpMsgOpen then .handsOver else .keeps

theorem framed_iff_openMessage :
    Framed keeping (delivered keeping true [] [openMessage]) (fresh true) lateOctet
      ↔ (true = true → Prompt lateOctet [openMessage]) :=
  framed_iff keeping true lateOctet [openMessage] openMessage_wellFormed (by decide)

/-- An accepted peer that gets its OPEN but for the last octet is deleted with nothing
dispatched, where one that gets it at once dispatches it. -/
theorem accepted_peer_dropped :
    (∀ m ∈ [openMessage], m.WellFormed) ∧ (∀ chunk ∈ lateOctet, chunk ≠ [])
      ∧ lateOctet.flatten = streamOf [openMessage]
      ∧ (bgpRead keeping (fresh true) (wireOf lateOctet)).1.alive = false
      ∧ (bgpRead keeping (fresh true) (wireOf lateOctet)).1.dispatched = []
      ∧ (bgpRead keeping (fresh true) (wireOf [openMessage.octets])).1.dispatched
        = [(openMessage.type, openMessage.body)]
      ∧ ¬ Framed keeping (delivered keeping true [] [openMessage]) (fresh true) lateOctet := by
  have dead : (bgpRead keeping (fresh true) (wireOf lateOctet)).1.alive = false := by decide
  have silent : (bgpRead keeping (fresh true) (wireOf lateOctet)).1.dispatched = [] := by decide
  exact ⟨openMessage_wellFormed, by decide, by decide, dead, silent, by decide,
    not_framed_of_first rfl (by decide) dead silent⟩

end Bgpd.MessageFraming
