import Bgpd.AttrHash

/-!
# What neighbours are told

A node has an entry for every neighbour that was told its prefix, or is going to be:
`struct bgp_adj_out` keeps the attributes last sent, and points to what is pending. What is
pending waits in one of the two queues of the neighbour and the family. An announcement is
also on the list of its attributes, which `bgp_update_packet` follows to fill a packet, so
that announcements leave the queue out of order.

A pointer is an address, and following one to what was freed has no value.
-/

namespace Bgpd.AdjOut

open Octets Prefixes Attributes

/-! ## The structures -/

/-- An address family and a subsequent one. -/
structure Family where
  afi : Afi
  safi : Safi
  deriving DecidableEq, Repr

/-- A node of the table of a family, named by what is announced of it: the route
distinguisher, if there is one, and the prefix. -/
structure Node where
  family : Family
  prn : Option (List U8)
  p : Prefix
  deriving DecidableEq, Repr

/-- What is read of the route that is announced: its neighbour and its label. -/
structure Binfo where
  peer : Nat
  tag : Option (List U8)
  deriving DecidableEq, Repr

/-- `struct bgp_adj_out`. -/
structure BgpAdjOut where
  peer : Nat
  attr : Option Attr
  adv : Option Nat
  deriving DecidableEq, Repr

/-- `struct bgp_advertise`. -/
structure BgpAdvertise where
  rn : Node
  adj : Nat
  baa : Option Nat
  binfo : Option Binfo
  deriving DecidableEq, Repr

/-- `struct bgp_advertise_attr`. -/
structure BgpAdvertiseAttr where
  adv : List Nat
  refcnt : Nat
  attr : Option Attr
  deriving DecidableEq, Repr

/-- A packet for a neighbour. -/
inductive Message
  | announce (attr : Attr) (nlri : List Node)
  | withdraw (nlri : List Node)
  deriving DecidableEq, Repr

/-- A neighbour and a family. -/
structure Out where
  peer : Nat
  family : Family
  deriving DecidableEq, Repr

/-- The entries of the nodes, and for every neighbour and family the groups of one
attribute set, the queues and the count of what was sent. -/
structure State where
  adjOut : Node → List Nat
  adjs : Nat → Option BgpAdjOut
  advs : Nat → Option BgpAdvertise
  baas : Nat → Option BgpAdvertiseAttr
  hash : Out → List Nat
  update : Out → List Nat
  withdraw : Out → List Nat
  scount : Out → Int
  obuf : Nat → List Message
  /-- The next address. -/
  next : Nat

/-- Nothing was announced. -/
def State.start : State where
  adjOut _ := []
  adjs _ := none
  advs _ := none
  baas _ := none
  hash _ := []
  update _ := []
  withdraw _ := []
  scount _ := 0
  obuf _ := []
  next := 0

namespace State

/-! ## Attribute sets -/

/-- The attribute sets in `attrhash`: those referred to here, and those referred to
elsewhere. A set is there as long as something refers to it. -/
def attrhash (s : State) (elsewhere : List Attr) : List Attr :=
  ((List.range s.next).filterMap fun adj => (s.adjs adj).bind (·.attr))
    ++ ((List.range s.next).filterMap fun baa => (s.baas baa).bind (·.attr)) ++ elsewhere

/-- `bgp_attr_intern`. -/
def bgpAttrIntern (s : State) (elsewhere : List Attr) (attr : Attr) : Attr :=
  ((s.attrhash elsewhere).find? fun find => Rib.attrhashCmp find attr).getD attr

/-- `baa_hash_cmp`, for a group and an attribute set. -/
def baaHashCmp (s : State) (attr : Attr) (baa : Nat) : Bool :=
  ((s.baas baa).bind (·.attr)).any fun find => Rib.attrhashCmp find attr

/-- `hash_get` with `baa_hash_alloc`. -/
def baaGet (s : State) (out : Out) (attr : Attr) : Nat × State :=
  match (s.hash out).find? (s.baaHashCmp attr) with
  | some baa => (baa, s)
  | none => (s.next,
      { s with
        baas := Function.update s.baas s.next (some ⟨[], 0, some attr⟩)
        hash := Function.update s.hash out (s.next :: s.hash out)
        next := s.next + 1 })

/-- `bgp_advertise_intern`. -/
def bgpAdvertiseIntern (s : State) (out : Out) (elsewhere : List Attr) (attr : Attr) :
    Option (Nat × State) := do
  let (baa, s) := s.baaGet out (s.bgpAttrIntern elsewhere attr)
  let group ← s.baas baa
  return (baa, { s with
    baas := Function.update s.baas baa (some { group with refcnt := group.refcnt + 1 }) })

/-- `bgp_advertise_unintern`. -/
def bgpAdvertiseUnintern (s : State) (out : Out) (baa : Nat) : Option State := do
  let group ← s.baas baa
  let refcnt := group.refcnt - 1
  match group.attr with
  | none => return { s with baas := Function.update s.baas baa none }
  | some attr =>
    if refcnt ≠ 0 then
      return { s with baas := Function.update s.baas baa (some { group with refcnt }) }
    else
      return { s with
        hash := Function.update s.hash out ((s.hash out).eraseP (s.baaHashCmp attr))
        baas := Function.update s.baas baa none }

/-- `bgp_advertise_add`. -/
def bgpAdvertiseAdd (s : State) (baa adv : Nat) : Option State := do
  let group ← s.baas baa
  return { s with
    baas := Function.update s.baas baa (some { group with adv := adv :: group.adv }) }

/-- `bgp_advertise_delete`. -/
def bgpAdvertiseDelete (s : State) (baa adv : Nat) : Option State := do
  let group ← s.baas baa
  return { s with
    baas := Function.update s.baas baa (some { group with adv := group.adv.erase adv }) }

/-! ## Entries -/

/-- The entry for a neighbour. -/
def lookup (s : State) (peer : Nat) : List Nat → Option (Option Nat)
  | [] => some none
  | adj :: next => do
    let here ← s.adjs adj
    if here.peer = peer then return some adj else s.lookup peer next

/-- An entry in front of the others, with nothing sent and nothing pending. -/
def bgpAdjOutAdd (s : State) (rn : Node) (peer : Nat) : State :=
  { s with
    adjs := Function.update s.adjs s.next (some ⟨peer, none, none⟩)
    adjOut := Function.update s.adjOut rn (s.next :: s.adjOut rn)
    next := s.next + 1 }

/-- `BGP_ADJ_OUT_DEL` and `bgp_adj_out_free`. -/
def bgpAdjOutDel (s : State) (rn : Node) (adj : Nat) : State :=
  { s with
    adjOut := Function.update s.adjOut rn ((s.adjOut rn).erase adj)
    adjs := Function.update s.adjs adj none }

/-- `FIFO_DEL`: it leaves the queue it is in. -/
def fifoDel (s : State) (adv : Nat) : State :=
  { s with
    update := fun out => (s.update out).erase adv
    withdraw := fun out => (s.withdraw out).erase adv }

/-- What is pending leaves its group. The result is the next one of the group. -/
def leaveGroup (s : State) (out : Out) (adv : Nat) : Option Nat → Option (Option Nat × State)
  | none => some (none, s)
  | some baa => do
    let s ← s.bgpAdvertiseDelete baa adv
    let group ← s.baas baa
    let s ← s.bgpAdvertiseUnintern out baa
    return (group.adv.head?, s)

/-- `bgp_advertise_clean`. The result is the next one of the group. -/
def bgpAdvertiseClean (s : State) (out : Out) (adj : Nat) : Option (Option Nat × State) := do
  let here ← s.adjs adj
  let adv ← here.adv
  let pending ← s.advs adv
  let (next, s) ← s.leaveGroup out adv pending.baa
  let s := s.fifoDel adv
  return (next, { s with
    advs := Function.update s.advs adv none
    adjs := Function.update s.adjs adj (some { here with adv := none }) })

/-- `if (adj->adv) bgp_advertise_clean (peer, adj, afi, safi)`. -/
def cleanPending (s : State) (out : Out) (adj : Nat) : Option State := do
  let here ← s.adjs adj
  if here.adv.isSome then (s.bgpAdvertiseClean out adj).map (·.2) else return s

/-- `bgp_advertise_new`, and the pointers between it and its entry. -/
def advertise (s : State) (rn : Node) (adj : Nat) (baa : Option Nat) (binfo : Option Binfo) :
    Option (Nat × State) := do
  let here ← s.adjs adj
  return (s.next, { s with
    advs := Function.update s.advs s.next (some ⟨rn, adj, baa, binfo⟩)
    adjs := Function.update s.adjs adj (some { here with adv := some s.next })
    next := s.next + 1 })

/-- The group of an announcement: one of its own where there are no attributes. -/
def groupFor (s : State) (out : Out) (elsewhere : List Attr) : Option Attr → Option (Nat × State)
  | some attr => s.bgpAdvertiseIntern out elsewhere attr
  | none => some (s.next,
      { s with
        baas := Function.update s.baas s.next (some ⟨[], 0, none⟩)
        next := s.next + 1 })

/-- The entry of `bgp_adj_out_set`: there may have been none. -/
def entryFor (s : State) (rn : Node) (peer : Nat) : Option (Nat × State) := do
  match ← s.lookup peer (s.adjOut rn) with
  | some adj => return (adj, s)
  | none => return (s.next, s.bgpAdjOutAdd rn peer)

/-- The end of `bgp_adj_out_set`: an announcement in its group and in the queue. -/
def announce (s : State) (rn : Node) (out : Out) (adj : Nat) (attr : Option Attr) (binfo : Binfo)
    (elsewhere : List Attr) : Option State := do
  let (baa, s) ← s.groupFor out elsewhere attr
  let (adv, s) ← s.advertise rn adj (some baa) (some binfo)
  let s ← s.bgpAdvertiseAdd baa adv
  return { s with update := Function.update s.update out (s.update out ++ [adv]) }

/-- `bgp_adj_out_set`. -/
def bgpAdjOutSet (s : State) (rn : Node) (peer : Nat) (attr : Option Attr) (binfo : Binfo)
    (elsewhere : List Attr) : Option State := do
  let out : Out := ⟨peer, rn.family⟩
  let (adj, s) ← s.entryFor rn peer
  let s ← s.cleanPending out adj
  s.announce rn out adj attr binfo elsewhere

/-- The end of `bgp_adj_out_unset`: what was announced is to be withdrawn, and an entry
of which nothing was announced goes. -/
def withdrawOrDel (s : State) (rn : Node) (out : Out) (adj : Nat) : Option State := do
  let here ← s.adjs adj
  if here.attr.isSome then
    let (adv, s) ← s.advertise rn adj none none
    return { s with withdraw := Function.update s.withdraw out (s.withdraw out ++ [adv]) }
  else return s.bgpAdjOutDel rn adj

/-- `bgp_adj_out_unset`. -/
def bgpAdjOutUnset (s : State) (rn : Node) (peer : Nat) : Option State := do
  let out : Out := ⟨peer, rn.family⟩
  match ← s.lookup peer (s.adjOut rn) with
  | none => return s
  | some adj => do
    let s ← s.cleanPending out adj
    s.withdrawOrDel rn out adj

/-- `bgp_adj_out_remove`. -/
def bgpAdjOutRemove (s : State) (rn : Node) (out : Out) (adj : Nat) : Option State := do
  let here ← s.adjs adj
  let s ← { s with adjs := Function.update s.adjs adj (some { here with attr := none })
    }.cleanPending
    out adj
  return s.bgpAdjOutDel rn adj

end State

/-! ## Packets -/

/-- `BGP_MAX_PACKET_SIZE`, `BGP_HEADER_SIZE`, `BGP_NLRI_LENGTH`, `BGP_UNFEASIBLE_LEN` and
`BGP_TOTAL_ATTR_LEN`. -/
def bgpMaxPacketSize : Nat := 4096
def bgpHeaderSize : Nat := 19
def bgpNlriLength : Nat := 1
def bgpUnfeasibleLen : Nat := 2
def bgpTotalAttrLen : Nat := 2

/-- `PSIZE` of the prefix of a node. -/
def Node.psize (rn : Node) : Nat := (rn.p.prefixlen + 7) / 8

/-- Several prefixes share a packet, and follow the attributes. -/
def Family.packs (family : Family) : Bool := family.afi = .ip ∧ family.safi = .unicast

/-- The packet that is written, and its `endp`. -/
structure Written where
  attr : Attr
  nlri : List Node
  endp : Nat
  deriving DecidableEq, Repr

/-- What is written goes into the stream, where writing past the end is an assertion. -/
def inStream {α : Type} (endp : Nat) (written : α) : Option α :=
  if endp ≤ bgpMaxPacketSize then some written else none

section Packets

/- How many octets `bgp_packet_attribute` writes for an attribute set, a node and the
route that is announced. -/
variable (attributeLength : Attr → Node → Option Binfo → Nat)

/-- The attributes, if the packet is empty, and then the prefix. `binfo` is the one of this
announcement where it is looked at, since there was none before. -/
def place (packs : Bool) (written : Option Written) (adv : BgpAdvertise) (attr : Attr) :
    Option Written := do
  let written := written.getD ⟨attr, [],
    bgpHeaderSize + bgpUnfeasibleLen + bgpTotalAttrLen + attributeLength attr adv.rn adv.binfo⟩
  let endp := if packs then written.endp + bgpNlriLength + adv.rn.psize else written.endp
  inStream endp { written with nlri := written.nlri ++ [adv.rn], endp }

/-- `adj->attr` becomes what is announced. The set is interned already, so that interning
it again finds itself. -/
def State.synchronize (s : State) (out : Out) (adj : Nat) (attr : Attr) : Option State := do
  let here ← s.adjs adj
  return { s with
    adjs := Function.update s.adjs adj (some { here with attr := some attr })
    scount := if here.attr.isSome then s.scount
      else Function.update s.scount out (s.scount out + 1) }

/-- The loop of `bgp_update_packet`. Each turn takes an announcement out of the queue. -/
def updateLoop (out : Out) :
    Nat → State → Option Written → Option Nat → Option (Option Written × State)
  | _, s, written, none => some (written, s)
  | 0, _, _, some _ => none
  | fuel + 1, s, written, some adv => do
    let pending ← s.advs adv
    if bgpMaxPacketSize - (written.map (·.endp)).getD 0 ≤ bgpNlriLength + pending.rn.psize then
      return (written, s)
    else
      let baa ← pending.baa
      let group ← s.baas baa
      let attr ← group.attr
      let written ← place attributeLength out.family.packs written pending attr
      let s ← s.synchronize out pending.adj attr
      let (next, s) ← s.bgpAdvertiseClean out pending.adj
      if out.family.packs then updateLoop out fuel s (some written) next
      else return (some written, s)

/-- `bgp_update_packet`. -/
def State.bgpUpdatePacket (s : State) (out : Out) : Option State := do
  let (written, s) ← updateLoop attributeLength out (s.update out).length s
    none (s.update out).head?
  match written with
  | none => return s
  | some written => return { s with
      obuf := Function.update s.obuf out.peer
        (s.obuf out.peer ++ [.announce written.attr written.nlri]) }

end Packets

/-- How many octets `bgp_packet_withdraw` writes. -/
def bgpPacketWithdraw (rn : Node) : Nat :=
  6 + match rn.family.safi with
    | .mplsVpn => 12 + rn.psize
    | _ => 1 + rn.psize

/-- `endp` behind a prefix that is withdrawn. -/
def withdrawnEndp (packs : Bool) (endp : Nat) (rn : Node) : Nat :=
  let endp := if endp = 0 then bgpHeaderSize + bgpUnfeasibleLen else endp
  if packs then endp + bgpNlriLength + rn.psize
  else endp + bgpTotalAttrLen + bgpPacketWithdraw rn

/-- The loop of `bgp_withdraw_packet`. Each turn takes the head of the queue. -/
def withdrawLoop (out : Out) : Nat → State → Nat → List Node → Option (Nat × List Node × State)
  | fuel, s, endp, nlri =>
    match fuel, s.withdraw out with
    | _, [] => some (endp, nlri, s)
    | 0, _ :: _ => none
    | fuel + 1, adv :: _ => do
      let pending ← s.advs adv
      if bgpMaxPacketSize - endp < bgpNlriLength + bgpTotalAttrLen + pending.rn.psize then
        return (endp, nlri, s)
      else
        let endp ← inStream (withdrawnEndp out.family.packs endp pending.rn)
          (withdrawnEndp out.family.packs endp pending.rn)
        let s ← { s with
          scount := Function.update s.scount out (s.scount out - 1) }.bgpAdjOutRemove
            pending.rn out pending.adj
        if out.family.packs then withdrawLoop out fuel s endp (nlri ++ [pending.rn])
        else return (endp, nlri ++ [pending.rn], s)

/-- `bgp_withdraw_packet`. The length of the attributes, none, ends a packet that shares. -/
def State.bgpWithdrawPacket (s : State) (out : Out) : Option State := do
  let (endp, nlri, s) ← withdrawLoop out (s.withdraw out).length s 0 []
  if endp = 0 then return s
  else
    inStream (if out.family.packs then endp + bgpTotalAttrLen else endp) { s with
      obuf := Function.update s.obuf out.peer (s.obuf out.peer ++ [.withdraw nlri]) }

/-! ## Runs -/

/-- The operations. With an announcement comes what else `attrhash` holds at that time. -/
inductive Action
  | set (rn : Node) (peer : Nat) (attr : Attr) (binfo : Binfo) (elsewhere : List Attr)
  | unset (rn : Node) (peer : Nat)
  | updatePacket (out : Out)
  | withdrawPacket (out : Out)

/-- One operation. -/
def step (attributeLength : Nat → Attr → Node → Option Binfo → Nat) (s : State) :
    Action → Option State
  | .set rn peer attr binfo elsewhere => s.bgpAdjOutSet rn peer (some attr) binfo elsewhere
  | .unset rn peer => s.bgpAdjOutUnset rn peer
  | .updatePacket out => s.bgpUpdatePacket (attributeLength out.peer) out
  | .withdrawPacket out => s.bgpWithdrawPacket out

/-- A neighbour reads a packet. -/
def hear (held : Node → Option Attr) : Message → Node → Option Attr
  | .announce attr nlri, n => if n ∈ nlri then some attr else held n
  | .withdraw nlri, n => if n ∈ nlri then none else held n

/-- What a neighbour holds after the packets it was sent. -/
def told (messages : List Message) : Node → Option Attr := messages.foldl hear fun _ => none

/-- What a neighbour is to hold after one more operation. -/
def ask (asked : Nat × Node → Option Attr) : Action → Nat × Node → Option Attr
  | .set rn peer attr _ _ => Function.update asked (peer, rn) (some attr)
  | .unset rn peer => Function.update asked (peer, rn) none
  | .updatePacket _ => asked
  | .withdrawPacket _ => asked

/-- The attributes of the last `bgp_adj_out_set` for a neighbour and a node, unless
`bgp_adj_out_unset` came after it. -/
def asked (actions : List Action) : Nat × Node → Option Attr := actions.foldl ask fun _ => none

/-! ## What is to hold -/

/-- An entry of a neighbour, with attributes that were sent. -/
def State.Counted (s : State) (out : Out) (entry : Node × Nat) : Prop :=
  entry.1.family = out.family ∧ entry.2 ∈ s.adjOut entry.1
    ∧ ∃ adj, s.adjs entry.2 = some adj ∧ adj.peer = out.peer ∧ adj.attr.isSome

/-- The entries and the queues agree, and what was sent is counted. -/
structure State.Booked (s : State) : Prop where
  /-- `scount` is the number of entries with attributes. -/
  counted : ∀ out, ∃ entries : Finset (Node × Nat),
    (∀ entry, entry ∈ entries ↔ s.Counted out entry) ∧ s.scount out = entries.card
  /-- A node has every entry once. -/
  once : ∀ rn, (s.adjOut rn).Nodup
  /-- A node has one entry for a neighbour. -/
  one : ∀ rn, ∀ i ∈ s.adjOut rn, ∀ j ∈ s.adjOut rn, ∀ adj adj', s.adjs i = some adj →
    s.adjs j = some adj' → adj.peer = adj'.peer → i = j
  /-- What is pending for an entry is in one of the queues of its neighbour and family, once,
  and in no other queue. -/
  pending : ∀ rn, ∀ i ∈ s.adjOut rn, ∀ adj, s.adjs i = some adj → ∀ adv, adj.adv = some adv →
    ∀ out, (s.update out).count adv + (s.withdraw out).count adv
      = if out = ⟨adj.peer, rn.family⟩ then 1 else 0
  /-- What is queued is what is pending for some entry. -/
  queued : ∀ out, ∀ adv ∈ s.update out ++ s.withdraw out, ∃ pending adj,
    s.advs adv = some pending ∧ pending.adj ∈ s.adjOut pending.rn
      ∧ s.adjs pending.adj = some adj ∧ adj.adv = some adv ∧ out = ⟨adj.peer, pending.rn.family⟩

/-- Where nothing is queued for a neighbour in a family, it was told what it is to hold, as
far as the view goes. -/
def State.Delivered (view : Attr → Attr) (s : State) (asked : Nat × Node → Option Attr) : Prop :=
  ∀ peer rn, s.update ⟨peer, rn.family⟩ = [] → s.withdraw ⟨peer, rn.family⟩ = [] →
    (told (s.obuf peer) rn).map view = (asked (peer, rn)).map view

end Bgpd.AdjOut
