import Bgpd.Fsm
import Bgpd.InputStream

/-!
# Outbound route filters

A router can send one of its inbound prefix lists to a neighbor, inside a
ROUTE-REFRESH message, for the neighbor to apply before it announces anything.
The writer goes through the list entry by entry. The reader goes through the
message with a raw pointer of its own and fills in a prefix list named after
the neighbor and the address family.

The reader's check that four octets are left for the sequence number is
answered the wrong way round: where they are there it skips the rest, and where
they are not it reads them. Either way nothing is left for the next field, no
entry is ever accepted, and no list is ever installed.
-/

namespace Bgpd.OrfRefresh

open Octets Prefixes InputStream
open Function (update update_self)

/-! ## Prefix lists -/

/-- `struct prefix` as it stands in memory: any length, with the host bits. -/
structure RawPrefix where
  family : Afi
  prefixlen : U8 := 0
  address : List U8 := []
  deriving DecidableEq, Repr

/-- `prefix_blen`. -/
def prefixBlen (family : Afi) : Nat := family.bits / 8

/-- The memory of a prefix without host bits. -/
def raw (p : Prefix) : RawPrefix where
  family := p.family
  prefixlen := BitVec.ofNat 8 p.prefixlen
  address := p.octets ++ List.replicate (prefixBlen p.family - psize p.prefixlen) 0

/-- `enum prefix_list_type`. -/
inductive ListType
  | permit
  | deny
  deriving DecidableEq, Repr

/-- `struct prefix_list_entry`. -/
structure Entry where
  type : ListType
  p : RawPrefix
  seq : Int
  le : Nat := 0
  ge : Nat := 0
  deriving DecidableEq, Repr

/-- `prefix_new_seq_get`. -/
def prefixNewSeqGet (plist : List Entry) : Int :=
  plist.foldl (fun maxseq pentry => if maxseq < pentry.seq then pentry.seq else maxseq) 0 / 5 * 5 +
    5

/-- `prefix_entry_dup_check`: another entry says the same. -/
def prefixEntryDupCheck (plist : List Entry) (new : Entry) : Bool :=
  let seq := if new.seq = -1 then prefixNewSeqGet plist else new.seq
  plist.any fun pentry => pentry.p = new.p ∧ pentry.type = new.type ∧ pentry.le = new.le
    ∧ pentry.ge = new.ge ∧ pentry.seq ≠ seq

/-- `prefix_list_entry_add`: an entry takes the place of one with its number. -/
def prefixListEntryAdd (plist : List Entry) (pentry : Entry) : List Entry :=
  let pentry := if pentry.seq = -1 then { pentry with seq := prefixNewSeqGet plist } else pentry
  let others := plist.eraseP (·.seq = pentry.seq)
  others.takeWhile (·.seq < pentry.seq) ++ pentry :: others.dropWhile (·.seq < pentry.seq)

/-- What `prefix_list_entry_lookup` looks for. -/
def Entry.answers (wanted pentry : Entry) : Bool :=
  pentry.p = wanted.p ∧ pentry.type = wanted.type ∧ (wanted.seq < 0 ∨ pentry.seq = wanted.seq)
    ∧ pentry.le = wanted.le ∧ pentry.ge = wanted.ge

/-- The prefix lists received from neighbors, by name. -/
abbrev Lists := String → Option (List Entry)

/-- `struct orf_prefix`. -/
structure OrfPrefix where
  seq : U32 := 0
  ge : U8 := 0
  le : U8 := 0
  p : RawPrefix
  deriving DecidableEq, Repr

/-- The bounds of a received entry leave some length between them. -/
def OrfPrefix.ranged (orfp : OrfPrefix) : Bool :=
  ¬ (orfp.ge ≠ 0 ∧ orfp.ge ≤ orfp.p.prefixlen) ∧ ¬ (orfp.le ≠ 0 ∧ orfp.le ≤ orfp.p.prefixlen)
    ∧ ¬ (orfp.le ≠ 0 ∧ orfp.le < orfp.ge)

/-- The entry made of a received one. -/
def OrfPrefix.entry (orfp : OrfPrefix) (afi : Afi) (permit : Bool) : Entry where
  type := if permit then .permit else .deny
  p := orfp.p
  seq := orfp.seq.toInt
  le := if orfp.ge ≠ 0 ∧ orfp.le.toNat = afi.bits then 0 else orfp.le.toNat
  ge := orfp.ge.toNat

/-- `prefix_bgp_orf_set`, with whether it succeeded. -/
def prefixBgpOrfSet (lists : Lists) (name : String) (afi : Afi) (orfp : OrfPrefix)
    (permit set : Bool) : Bool × Lists :=
  if !orfp.ranged then (false, lists)
  else
    let plist := (lists name).getD []
    let pentry := orfp.entry afi permit
    if set then
      if prefixEntryDupCheck plist pentry then
        (false, update lists name (some plist))
      else (true, update lists name (some (prefixListEntryAdd plist pentry)))
    else if plist.any pentry.answers then
      -- The last entry takes its list along.
      let left := plist.eraseP pentry.answers
      (true, update lists name (if left.isEmpty then none else some left))
    else (false, update lists name (some plist))

/-- `prefix_bgp_orf_remove_all`. -/
def prefixBgpOrfRemoveAll (lists : Lists) (name : String) : Lists :=
  update lists name none

/-! ## Peers -/

/-- What the two functions use of a peer. `outside` is history: a raw pointer
was followed beyond the filter it reads. No function looks at it. -/
structure Peer where
  host : String
  refreshAdv : Bool := true
  refreshNewRcv : Bool := true
  status : Fsm.Status := .established
  filterIn : Afi → Safi → Option (List Entry) := fun _ _ => none
  orfPrefixSend : Afi → U8 → Bool := fun _ _ => false
  obuf : List (List U8) := []
  lists : Lists := fun _ => none
  orfPlist : Afi → Safi → Option (List Entry) := fun _ _ => none
  orfWaitRefresh : Afi → Safi → Bool := fun _ _ => false
  notified : List (U8 × U8) := []
  announced : List (Afi × Safi) := []
  outside : Bool := false

/-! ## The writer -/

/-- `ORF_TYPE_PREFIX` and `ORF_TYPE_PREFIX_OLD`. -/
def orfTypePrefix : U8 := 64
def orfTypePrefixOld : U8 := 128

/-- `ORF_COMMON_PART_*`. -/
def orfCommonPartAdd : U8 := 0x00
def orfCommonPartRemove : U8 := 0x80
def orfCommonPartRemoveAll : U8 := 0xC0
def orfCommonPartPermit : U8 := 0x00
def orfCommonPartDeny : U8 := 0x20

/-- `REFRESH_IMMEDIATE` and `REFRESH_DEFER`. -/
def refreshImmediate : U8 := 1
def refreshDefer : U8 := 2

/-- `BGP_HEADER_SIZE` and `BGP_MAX_PACKET_SIZE`. -/
def bgpHeaderSize : Nat := 19
def bgpMaxPacketSize : Nat := 4096

/-- `stream_put_prefix`. -/
def streamPutRawPrefix (p : RawPrefix) : List U8 :=
  p.prefixlen :: p.address.take (psize p.prefixlen.toNat)

/-- `prefix_bgp_orf_entry`. -/
def prefixBgpOrfEntry (plist : List Entry) (initFlag permitFlag denyFlag : U8) : List U8 :=
  plist.flatMap fun pentry =>
    [initFlag ||| (if pentry.type = .permit then permitFlag else denyFlag)]
      ++ putl (BitVec.ofInt 32 pentry.seq)
      ++ [BitVec.ofNat 8 pentry.ge, BitVec.ofNat 8 pentry.le]
      ++ streamPutRawPrefix pentry.p

/-- The filters of a message are prefix lists. -/
def isPrefixOrf (orfType : U8) : Bool := orfType = orfTypePrefix ∨ orfType = orfTypePrefixOld

/-- The filter that follows the address family, if there is one. -/
def orfSection (peer : Peer) (afi : Afi) (safi : Safi) (orfType whenToRefresh : U8)
    (remove : Bool) : List U8 :=
  if isPrefixOrf orfType ∧ (remove ∨ (peer.filterIn afi safi).isSome) then
    let entries := if remove then [orfCommonPartRemoveAll]
      else prefixBgpOrfEntry ((peer.filterIn afi safi).getD []) orfCommonPartAdd
        orfCommonPartPermit orfCommonPartDeny
    [whenToRefresh, orfType] ++ putw (BitVec.ofNat 16 entries.length) ++ entries
  else []

/-- What follows the header of a message. -/
def refreshBody (peer : Peer) (afi : Afi) (safi : Safi) (orfType whenToRefresh : U8)
    (remove : Bool) : List U8 :=
  putw afi.code ++ [0, safi.code] ++ orfSection peer afi safi orfType whenToRefresh remove

/-- The header of a message with the given body. -/
def header (type : U8) (body : List U8) : List U8 :=
  List.replicate 16 255 ++ putw (BitVec.ofNat 16 (bgpHeaderSize + body.length)) ++ [type]

/-- `bgp_route_refresh_send`. A message that does not fit ends the process. The
flag that a filter was sent is kept under the number on the wire. -/
def bgpRouteRefreshSend (peer : Peer) (afi : Afi) (safi : Safi) (orfType whenToRefresh : U8)
    (remove : Bool) : Option Peer :=
  let body := refreshBody peer afi safi orfType whenToRefresh remove
  let message := header (if peer.refreshNewRcv then 5 else 128) body ++ body
  if bgpMaxPacketSize < message.length then none
  else some { peer with
    obuf := peer.obuf ++ [message]
    orfPrefixSend :=
      if isPrefixOrf orfType ∧ (remove ∨ (peer.filterIn afi safi).isSome) then
        update peer.orfPrefixSend afi
          (update (peer.orfPrefixSend afi) safi.code !remove)
      else peer.orfPrefixSend }

/-! ## The reader -/

/-- The raw pointer into a filter, what was made of the entry so far, whether
the last check passed and whether the pointer was followed too far. -/
structure Reading where
  pnt : Nat
  orfp : OrfPrefix
  ok : Bool := true
  outside : Bool := false

/-- The sequence number. The check is the wrong way round. -/
def readSeq (s : Stream) (fin : Nat) (r : Reading) : Reading :=
  let ok := r.pnt + 4 ≤ fin
  if ¬ ok then
    { r with
      pnt := r.pnt + 4
      orfp := { r.orfp with seq := getl (s.octetsAt r.pnt 4) }
      ok := false
      outside := r.outside || fin < r.pnt + 4 }
  else { r with pnt := fin, ok := true }

/-- One octet, put where it belongs. -/
def readOctet (s : Stream) (fin : Nat) (put : OrfPrefix → U8 → OrfPrefix) (r : Reading) : Reading :=
  if r.pnt < fin then
    { r with pnt := r.pnt + 1, orfp := put r.orfp (getc (s.octetsAt r.pnt 1)), ok := true }
  else { r with ok := false }

def readGe (s : Stream) (fin : Nat) : Reading → Reading :=
  readOctet s fin fun orfp octet => { orfp with ge := octet }

def readLe (s : Stream) (fin : Nat) : Reading → Reading :=
  readOctet s fin fun orfp octet => { orfp with le := octet }

def readPrefixlen (s : Stream) (fin : Nat) : Reading → Reading :=
  readOctet s fin fun orfp octet => { orfp with p := { orfp.p with prefixlen := octet } }

/-- The address. Its size is cut to the family's and to what is left, which is
negative where the pointer is past the end. -/
def readAddress (s : Stream) (fin : Nat) (r : Reading) : Reading :=
  let claimed : Int := psize r.orfp.p.prefixlen.toNat
  let blen : Int := prefixBlen r.orfp.p.family
  let left : Int := (fin : Int) - r.pnt
  let (ok, size) := if claimed > blen then (false, blen) else (r.ok, claimed)
  let (ok, size) := if size > left then (false, left) else (ok, size)
  let octets := s.octetsAt r.pnt size.toNat
  { r with
    pnt := ((r.pnt : Int) + size).toNat
    orfp := { r.orfp with p := { r.orfp.p with
      address := octets ++ List.replicate (prefixBlen r.orfp.p.family - octets.length) 0 } }
    ok := ok }

/-- One entry, behind its common part. -/
def readEntry (s : Stream) (fin pnt : Nat) (afi : Afi) : Reading :=
  readAddress s fin <| readPrefixlen s fin <| readLe s fin <| readGe s fin <| readSeq s fin
    { pnt, orfp := { p := { family := afi } } }

/-- The entries of one filter, from the raw pointer on. -/
def readEntries (s : Stream) (fin : Nat) (afi : Afi) (name : String) :
    Nat → Nat → Peer → Peer
  | 0, _, peer => peer
  | fuel + 1, pnt, peer =>
    if pnt < fin then
      let common := getc (s.octetsAt pnt 1)
      if common &&& orfCommonPartRemoveAll ≠ 0 then
        { peer with lists := prefixBgpOrfRemoveAll peer.lists name }
      else
        let r := readEntry s fin (pnt + 1) afi
        let peer := { peer with outside := peer.outside || r.outside }
        let (done, lists) :=
          if r.ok then prefixBgpOrfSet peer.lists name afi r.orfp
            (common &&& orfCommonPartDeny = 0) (common &&& orfCommonPartRemove = 0)
          else (false, peer.lists)
        if done then readEntries s fin afi name fuel r.pnt { peer with lists }
        else { peer with lists := prefixBgpOrfRemoveAll lists name }
    else peer

/-- The name of a neighbor's list. -/
def orfName (host : String) (afi : Afi) (safi : Safi) : String :=
  let number := match safi with
    | .unicast => "1"
    | .multicast => "2"
    | .mplsVpn => "4"
  host ++ "." ++ (match afi with | .ip => "1" | .ip6 => "2") ++ "." ++ number

/-- The filters of a message, up to `fin`. -/
def readOrfs (fin : Nat) (afi : Afi) (safi : Safi) : Nat → Stream → Peer → Option Peer
  | 0, _, peer => some peer
  | fuel + 1, s, peer =>
    if s.getp + 2 < fin then do
      let (orfType, s) ← s.streamGetc
      let (orfLen, s) ← s.streamGetw
      if fin < s.getp + orfLen.toNat then return peer
      if isPrefixOrf orfType ∧ orfLen.toNat < 7 then return peer
      let peer :=
        if isPrefixOrf orfType then
          let name := orfName peer.host afi safi
          let read := readEntries s (s.getp + orfLen.toNat) afi name orfLen.toNat s.getp peer
          { read with
            orfPlist := update read.orfPlist afi
              (update (read.orfPlist afi) safi (read.lists name)) }
        else peer
      let s ← s.streamForwardGetp orfLen.toNat
      readOrfs fin afi safi fuel s peer
    else some peer

/-- The families a refresh can ask for. -/
def refreshFamily (afi : U16) (safi : U8) : Option (Afi × Safi) := do
  let afi ← if afi = 1 then some Afi.ip else if afi = 2 then some Afi.ip6 else none
  let safi ← if safi = 1 then some Safi.unicast else if safi = 2 then some Safi.multicast
    else if safi = 128 then some Safi.mplsVpn else none
  return (afi, safi)

/-- `bgp_notify_send`. -/
def bgpNotifySend (peer : Peer) (code subCode : U8) : Peer :=
  { peer with notified := peer.notified ++ [(code, subCode)] }

/-- What a refresh does when nothing defers it. -/
def refresh (peer : Peer) (afi : Afi) (safi : Safi) : Peer :=
  { peer with
    orfWaitRefresh := update peer.orfWaitRefresh afi
      (update (peer.orfWaitRefresh afi) safi false)
    announced := peer.announced ++ [(afi, safi)] }

/-- `bgp_route_refresh_receive`, on a stream at the end of the header. -/
def bgpRouteRefreshReceive (peer : Peer) (s : Stream) (size : Nat) : Option Peer :=
  if !peer.refreshAdv then some (bgpNotifySend peer 1 3)
  else if peer.status ≠ .established then some (bgpNotifySend peer 5 0)
  else do
    let (afi, s) ← s.streamGetw
    let (_, s) ← s.streamGetc
    let (safi, s) ← s.streamGetc
    match refreshFamily afi safi with
    | none => return peer
    | some (afi, safi) =>
      if size = 4 then return refresh peer afi safi
      if size < 4 + 5 then return bgpNotifySend peer 6 0
      let (whenToRefresh, s) ← s.streamGetc
      let peer ← readOrfs (s.getp + (size - 5)) afi safi size s peer
      if whenToRefresh = refreshDefer then return peer
      return refresh peer afi safi

/-! ## No entry is accepted -/

section Entries

variable {s : Stream} {fin : Nat} {r : Reading}

theorem readSeq_exhausts : fin ≤ (readSeq s fin r).pnt := by
  unfold readSeq
  dsimp only
  split
  · rename_i short
    dsimp only
    omega
  · exact le_rfl

theorem readSeq_inside (room : r.pnt + 4 ≤ fin) :
    readSeq s fin r = { r with pnt := fin, ok := true } :=
  if_neg (not_not_intro room)

theorem readOctet_past {put : OrfPrefix → U8 → OrfPrefix} (past : fin ≤ r.pnt) :
    readOctet s fin put r = { r with ok := false } :=
  if_neg (Nat.not_lt.mpr past)

theorem readBounds_past (past : fin ≤ r.pnt) :
    readPrefixlen s fin (readLe s fin (readGe s fin r)) = { r with ok := false } := by
  have still : fin ≤ ({ r with ok := false } : Reading).pnt := past
  rw [readGe, readOctet_past past, readLe, readOctet_past still, readPrefixlen,
    readOctet_past still]

theorem readAddress_ok (broken : r.ok = false) : (readAddress s fin r).ok = false := by
  unfold readAddress
  dsimp only
  split <;> split <;> first | rfl | exact broken

@[simp] theorem readAddress_outside : (readAddress s fin r).outside = r.outside := rfl

theorem readEntry_malformed (pnt : Nat) (afi : Afi) : (readEntry s fin pnt afi).ok = false := by
  apply readAddress_ok
  rw [readBounds_past readSeq_exhausts]

/-- An entry with four octets behind its common part is read from inside. -/
theorem readEntry_inside {pnt : Nat} (afi : Afi) (room : pnt + 4 ≤ fin) :
    (readEntry s fin pnt afi).outside = false := by
  rw [readEntry, readAddress_outside, readSeq_inside room, readBounds_past]
  exact le_rfl

end Entries

variable {s : Stream}

/-- A filter with an entry removes the neighbor's list and stops at that entry.
Nothing beyond the filter is read. -/
theorem readEntries_removes {fin pnt fuel : Nat} (afi : Afi) (name : String) (peer : Peer)
    (entry : pnt + 7 ≤ fin) :
    readEntries s fin afi name (fuel + 1) pnt peer
      = { peer with lists := prefixBgpOrfRemoveAll peer.lists name } := by
  rw [readEntries, if_pos (by omega)]
  dsimp only
  split
  · rfl
  · rw [readEntry_malformed, readEntry_inside afi (by omega)]
    simp

/-! ## No list is installed -/

/-- A peer without a list for the family, neither by name nor in use. -/
def Bare (afi : Afi) (safi : Safi) (peer : Peer) : Prop :=
  peer.lists (orfName peer.host afi safi) = none ∧ peer.orfPlist afi safi = none

section Filters

variable {fin : Nat} {afi : Afi} {safi : Safi}

/-- The peer behind one filter. -/
def afterOrf (s : Stream) (orfLen : Nat) (afi : Afi) (safi : Safi) (peer : Peer) : Peer :=
  let name := orfName peer.host afi safi
  let read := readEntries s (s.getp + orfLen) afi name orfLen s.getp peer
  { read with
    orfPlist := update read.orfPlist afi
      (update (read.orfPlist afi) safi (read.lists name)) }

variable {s : Stream}

/-- A filter that is long enough to hold an entry leaves no list, by name or in use. -/
theorem afterOrf_bare (afi : Afi) (safi : Safi) {orfLen : Nat} (peer : Peer) (long : ¬ orfLen < 7) :
    Bare afi safi (afterOrf s orfLen afi safi peer)
      ∧ (afterOrf s orfLen afi safi peer).outside = peer.outside := by
  obtain ⟨fuel, rfl⟩ : ∃ fuel, orfLen = fuel + 1 := ⟨orfLen - 1, by omega⟩
  unfold afterOrf
  dsimp only
  rw [readEntries_removes afi _ peer (by omega)]
  simp [Bare, prefixBgpOrfRemoveAll]

/-- However many filters follow each other, a peer without a list stays without one,
and nothing outside of a filter is read. -/
theorem readOrfs_bare {fuel : Nat} {peer peer' : Peer} (bare : Bare afi safi peer)
    (read : readOrfs fin afi safi fuel s peer = some peer') :
    Bare afi safi peer' ∧ peer'.outside = peer.outside := by
  induction fuel generalizing s peer with
  | zero =>
    cases read
    exact ⟨bare, rfl⟩
  | succ fuel ih =>
    rw [readOrfs] at read
    split at read
    · simp only [Option.bind_eq_bind, Option.bind_eq_some_iff, Option.pure_def] at read
      obtain ⟨⟨orfType, s₁⟩, -, ⟨orfLen, s₂⟩, -, read⟩ := read
      split at read
      · cases read
        exact ⟨bare, rfl⟩
      · split at read
        · cases read
          exact ⟨bare, rfl⟩
        · rename_i long
          obtain ⟨s₃, -, read⟩ := Option.bind_eq_some_iff.mp read
          split at read
          · rename_i known
            obtain ⟨bareNow, inside⟩ := afterOrf_bare afi safi (s := s₂) peer
              (fun short => long ⟨known, short⟩)
            obtain ⟨bareThen, insideThen⟩ := ih bareNow read
            exact ⟨bareThen, insideThen.trans inside⟩
          · exact ih bare read
    · cases read
      exact ⟨bare, rfl⟩

end Filters

theorem refreshFamily_code (afi : Afi) (safi : Safi) :
    refreshFamily afi.code safi.code = some (afi, safi) := by
  cases afi <;> cases safi <;> rfl

variable {afi : Afi} {safi : Safi}

/-- A refresh for a family leaves a peer without a list for it without one. -/
theorem bgpRouteRefreshReceive_bare {peer peer' : Peer} {size : Nat} (room : s.getp + 4 ≤ s.endp)
    (afiRead : getw (s.octetsAt s.getp 2) = afi.code)
    (safiRead : getc (s.octetsAt (s.getp + 3) 1) = safi.code) (bare : Bare afi safi peer)
    (received : bgpRouteRefreshReceive peer s size = some peer') :
    Bare afi safi peer' ∧ peer'.outside = peer.outside := by
  unfold bgpRouteRefreshReceive at received
  split at received
  · cases received
    exact ⟨bare, rfl⟩
  · split at received
    · cases received
      exact ⟨bare, rfl⟩
    · rw [s.streamGetw_eq (by omega), Option.bind_eq_bind, Option.bind_some] at received
      dsimp only at received
      rw [(s.advance 2).streamGetc_eq
        (by simp only [Stream.advance_getp, Stream.advance_endp]; omega),
        Option.bind_eq_bind, Option.bind_some] at received
      rw [((s.advance 2).advance 1).streamGetc_eq
        (by simp only [Stream.advance_getp, Stream.advance_endp]; omega),
        Option.bind_eq_bind, Option.bind_some] at received
      have named : getc (((s.advance 2).advance 1).octetsAt (s.getp + 2 + 1) 1) = safi.code :=
        safiRead
      rw [afiRead, Stream.advance_getp, Stream.advance_getp, named, refreshFamily_code] at received
      dsimp only at received
      split at received
      · cases received
        exact ⟨bare, rfl⟩
      · split at received
        · cases received
          exact ⟨bare, rfl⟩
        · obtain ⟨⟨whenToRefresh, s₁⟩, -, received⟩ := Option.bind_eq_some_iff.mp received
          obtain ⟨read, found, received⟩ := Option.bind_eq_some_iff.mp received
          have kept := readOrfs_bare bare found
          split at received
          · cases received
            exact kept
          · cases received
            exact kept

/-! ## From the writer to the reader -/

/-- A message in the input buffer, read up to the end of its header. What the
buffer holds behind the message is left open. -/
structure Arrived (s : Stream) (message : List U8) : Prop where
  getp : s.getp = bgpHeaderSize
  endp : s.endp = message.length
  octets : s.data.take message.length = message

/-- What the message of a list is to achieve at its receiver: the list in use has
exactly the entries, and nothing outside of a filter was read. -/
def Conveyed (entries : List Entry) (afi : Afi) (safi : Safi) (receiver : Peer) (s : Stream)
    (size : Nat) : Prop :=
  ∃ receiver', bgpRouteRefreshReceive receiver s size = some receiver'
    ∧ (∃ plist, receiver'.orfPlist afi safi = some plist ∧ plist.Perm entries)
    ∧ receiver'.outside = receiver.outside

/-- A prefix list that the command line can hold, without host bits, for a family. -/
structure Configured (afi : Afi) (entries : List Entry) : Prop where
  family : ∀ pentry ∈ entries, ∃ p : Prefix, p.family = afi ∧ pentry.p = raw p
  numbered : entries.Pairwise fun first second => first.seq < second.seq
  numbers : ∀ pentry ∈ entries, 0 < pentry.seq ∧ pentry.seq < 2 ^ 31
  ge : ∀ pentry ∈ entries, pentry.ge = 0
    ∨ pentry.p.prefixlen.toNat < pentry.ge ∧ pentry.ge ≤ afi.bits
  le : ∀ pentry ∈ entries, pentry.le = 0
    ∨ pentry.p.prefixlen.toNat < pentry.le ∧ pentry.ge ≤ pentry.le ∧ pentry.le ≤ afi.bits
  open_ended : ∀ pentry ∈ entries, pentry.ge ≠ 0 → pentry.le ≠ afi.bits
  distinct : entries.Pairwise fun first second => ¬ (first.p = second.p ∧ first.type = second.type
    ∧ first.le = second.le ∧ first.ge = second.ge)

@[simp] theorem header_length (type : U8) (body : List U8) :
    (header type body).length = bgpHeaderSize := rfl

section Arriving

variable {s : Stream} {type : U8} {body : List U8}

theorem Arrived.octetsAt (arrived : Arrived s (header type body ++ body)) {pos count : Nat}
    (inside : pos + count ≤ body.length) :
    s.octetsAt (s.getp + pos) count = (body.drop pos).take count := by
  have length : (header type body ++ body).length = bgpHeaderSize + body.length := by
    rw [List.length_append, header_length]
  rw [Stream.octetsAt, arrived.getp]
  calc (s.data.drop (bgpHeaderSize + pos)).take count
      = ((s.data.take (header type body ++ body).length).drop (bgpHeaderSize + pos)).take
          count := by
        rw [List.drop_take, List.take_take, length]
        congr 1
        omega
    _ = (((header type body ++ body).drop bgpHeaderSize).drop pos).take count := by
        rw [arrived.octets, List.drop_drop]
    _ = (body.drop pos).take count := by
        rw [← header_length type body, List.drop_left]

theorem Arrived.family {peer : Peer} {afi : Afi} {safi : Safi} {orfType whenToRefresh : U8}
    {remove : Bool} (known : body = refreshBody peer afi safi orfType whenToRefresh remove)
    (arrived : Arrived s (header type body ++ body)) :
    s.getp + 4 ≤ s.endp ∧ getw (s.octetsAt s.getp 2) = afi.code
      ∧ getc (s.octetsAt (s.getp + 3) 1) = safi.code := by
  have long : 4 ≤ body.length := by
    rw [known, refreshBody, List.length_append]
    exact Nat.le_add_right 4 _
  refine ⟨?_, ?_, ?_⟩
  · rw [arrived.endp, arrived.getp, List.length_append, header_length]
    omega
  · have inside : 0 + 2 ≤ body.length := by omega
    have read := arrived.octetsAt inside
    rw [Nat.add_zero] at read
    rw [read, known]
    exact getw_putw afi.code []
  · rw [arrived.octetsAt (by omega), known]
    rfl

end Arriving

/-- A router sends its inbound prefix list for a family, in one message. -/
structure Sent (sender : Peer) (afi : Afi) (safi : Safi) (orfType whenToRefresh : U8)
    (entries : List Entry) (message : List U8) : Prop where
  configured : Configured afi entries
  inbound : sender.filterIn afi safi = some entries
  kind : isPrefixOrf orfType
  sends : ∃ sender', bgpRouteRefreshSend sender afi safi orfType whenToRefresh false = some sender'
    ∧ sender'.obuf = sender.obuf ++ [message]

theorem Sent.message {sender : Peer} {orfType whenToRefresh : U8} {entries : List Entry}
    {message : List U8} (sent : Sent sender afi safi orfType whenToRefresh entries message) :
    ∃ type, message = header type (refreshBody sender afi safi orfType whenToRefresh false)
      ++ refreshBody sender afi safi orfType whenToRefresh false := by
  obtain ⟨sender', sends, last⟩ := sent.sends
  obtain ⟨-, rest⟩ := Option.ite_none_left_eq_some.mp sends
  cases rest
  exact ⟨_, (List.singleton_inj.mp (List.append_cancel_left last)).symm⟩

/-- No list arrives, whatever its entries: where an entry has room the receiver goes to the
end of the list, so that it never reads one. -/
theorem orf_list_lost (sender receiver : Peer) (afi : Afi) (safi : Safi)
    (orfType whenToRefresh : U8) (entries : List Entry) (message : List U8) (s : Stream)
    (sent : Sent sender afi safi orfType whenToRefresh entries message)
    (arrived : Arrived s message) (bare : Bare afi safi receiver) :
    ¬ Conveyed entries afi safi receiver s (message.length - bgpHeaderSize) := by
  rintro ⟨receiver', received, ⟨plist, installed, -⟩, -⟩
  obtain ⟨type, rfl⟩ := sent.message
  obtain ⟨room, afiRead, safiRead⟩ := arrived.family rfl
  obtain ⟨⟨-, unused⟩, -⟩ := bgpRouteRefreshReceive_bare room afiRead safiRead bare received
  rw [unused] at installed
  cases installed

/-! ## A list of one entry -/

/-- `permit 10.0.0.0/8 ge 16`, the tenth line. -/
def tenthEntry : Entry :=
  { type := .permit
    p := raw { family := .ip, bits := [false, false, false, false, true, false, true, false] }
    seq := 10
    ge := 16 }

def filteringPeer : Peer :=
  { host := "192.0.2.1", filterIn := fun _ _ => some [tenthEntry] }

/-- The refresh of the filtering peer: nineteen octets of header, the family, when to
refresh, the type and the length of the filter and its only entry. -/
def tenthMessage : List U8 :=
  List.replicate 16 255 ++ [0, 36, 5]
    ++ [0, 1, 0, 1] ++ [1, 64, 0, 9] ++ [0, 0, 0, 0, 10, 16, 0, 8, 10]

def tenthStream : Stream where
  data := tenthMessage
  getp := bgpHeaderSize
  endp := tenthMessage.length
  touched := []
  sized := le_rfl

def filteredPeer : Peer := { host := "192.0.2.2" }

theorem tenthEntry_sent :
    Sent filteringPeer .ip .unicast orfTypePrefix refreshImmediate [tenthEntry] tenthMessage where
  configured :=
    { family := by
        intro pentry listed
        cases List.mem_singleton.mp listed
        exact ⟨_, rfl, rfl⟩
      numbered := List.pairwise_singleton _ _
      numbers := by decide
      ge := by decide
      le := by decide
      open_ended := by decide
      distinct := List.pairwise_singleton _ _ }
  inbound := rfl
  kind := rfl
  sends := ⟨_, rfl, by decide⟩

theorem tenthMessage_arrived : Arrived tenthStream tenthMessage := ⟨rfl, rfl, by decide⟩

theorem orf_list_lost_one :
    Sent filteringPeer .ip .unicast orfTypePrefix refreshImmediate [tenthEntry] tenthMessage
      ∧ Arrived tenthStream tenthMessage ∧ Bare .ip .unicast filteredPeer
      ∧ ¬ Conveyed [tenthEntry] .ip .unicast filteredPeer tenthStream 17 :=
  ⟨tenthEntry_sent, tenthMessage_arrived, ⟨rfl, rfl⟩,
    orf_list_lost filteringPeer filteredPeer .ip .unicast orfTypePrefix refreshImmediate
      [tenthEntry] tenthMessage tenthStream tenthEntry_sent tenthMessage_arrived ⟨rfl, rfl⟩⟩

/-- The receiver answers with its table and keeps no list. -/
theorem tenth_entry_dropped :
    Sent filteringPeer .ip .unicast orfTypePrefix refreshImmediate [tenthEntry] tenthMessage
      ∧ Arrived tenthStream tenthMessage ∧ Bare .ip .unicast filteredPeer
      ∧ (bgpRouteRefreshReceive filteredPeer tenthStream 17).map
          (fun peer => (peer.orfPlist .ip .unicast, peer.announced)) =
            some (none, [(.ip, .unicast)])
      ∧ ¬ Conveyed [tenthEntry] .ip .unicast filteredPeer tenthStream 17 := by
  have outcome : (bgpRouteRefreshReceive filteredPeer tenthStream 17).map
      (fun peer => (peer.orfPlist .ip .unicast, peer.announced)) =
          some (none, [(.ip, .unicast)]) := by
    decide
  refine ⟨tenthEntry_sent, tenthMessage_arrived, ⟨rfl, rfl⟩, outcome, ?_⟩
  rintro ⟨receiver, received, ⟨plist, installed, -⟩, -⟩
  rw [received, Option.map_some, installed] at outcome
  cases outcome

end Bgpd.OrfRefresh
