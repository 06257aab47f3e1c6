import Bgpd.AdjOut
import Bgpd.AttrHash
import Bgpd.Encoding

/-!
# Packing routes into updates

What is to be announced to a neighbour waits in a queue, and in groups of routes
with one attribute set. `bgp_update_packet` takes the route at the head of the queue,
writes the attributes of its group, and then takes one route of the group after the
other while there is room. The neighbour a route comes from is looked at once, for the
first route, although the attributes of a reflected route depend on it.
-/

namespace Bgpd.Packing

open Octets Prefixes Attributes Neighbors AttrParse AttrSection Announce Rib AttrHash

/-! ## The queue -/

/-- What is read of a route in the queue: the neighbour it comes from and its label. -/
structure Binfo where
  peer : Nat
  tag : Option (List U8)
  deriving DecidableEq, Repr

/-- `struct bgp_advertise`: a route in the queue, its group, and the attributes it
was announced with, which only the group keeps. There is at most one for an
adjacency. -/
structure Advertise where
  adj : Nat
  p : Prefix
  prd : Option (List U8)
  binfo : Option Binfo
  baa : Nat
  attr : Attr
  deriving DecidableEq, Repr

/-- `struct bgp_advertise_attr`: a group, the newest route first. Its count is the
number of its routes. -/
structure Baa where
  /-- Stands for the address of the structure. -/
  id : Nat
  attr : Attr
  adv : List Advertise
  deriving DecidableEq, Repr

/-- What a neighbour is to be told in one family, and what it was told. -/
structure Sync where
  /-- The routes to announce, the oldest first. -/
  update : List Advertise
  /-- The adjacencies to withdraw. -/
  withdraw : List Nat
  hash : List Baa
  /-- `adj->attr`. -/
  sent : Nat → Option Attr
  scount : Int
  /-- The next address. -/
  nextBaa : Nat

/-- Nothing is queued. -/
def Sync.empty : Sync := ⟨[], [], [], fun _ => none, 0, 0⟩

/-- The group at an address. -/
def Sync.baa? (s : Sync) (id : Nat) : Option Baa := s.hash.find? fun baa => baa.id = id

/-- A group without one of its routes; with the last one it goes. -/
def Baa.delete (adv : Advertise) (baa : Baa) : Option Baa :=
  if baa.id = adv.baa then
    match baa.adv.filter fun other => other.adj ≠ adv.adj with
    | [] => none
    | rest => some { baa with adv := rest }
  else some baa

/-- `bgp_advertise_clean`: the route leaves its group and the queue. The result is
the next one of the group. -/
def bgpAdvertiseClean (s : Sync) (adv : Advertise) : Sync × Option Advertise :=
  let hash := s.hash.filterMap (Baa.delete adv)
  ({ s with hash, update := s.update.filter fun other => other.adj ≠ adv.adj },
    (hash.find? fun baa => baa.id = adv.baa).bind fun baa => baa.adv.head?)

/-- The beginning of `bgp_adj_out_set` and `bgp_adj_out_unset`: whatever is queued
for the adjacency is taken out. -/
def cleanPending (s : Sync) (adj : Nat) : Sync :=
  match s.update.find? fun adv => adv.adj = adj with
  | some adv => (bgpAdvertiseClean s adv).1
  | none => { s with withdraw := s.withdraw.filter fun other => other ≠ adj }

/-- `bgp_advertise_intern`, for attributes that are interned already. -/
def bgpAdvertiseIntern (s : Sync) (interned : Attr) : Nat × Sync :=
  match s.hash.find? fun baa => attrhashCmp baa.attr interned with
  | some baa => (baa.id, s)
  | none => (s.nextBaa,
      { s with hash := ⟨s.nextBaa, interned, []⟩ :: s.hash, nextBaa := s.nextBaa + 1 })

/-- `bgp_advertise_add`. -/
def bgpAdvertiseAdd (adv : Advertise) (baa : Baa) : Baa :=
  if baa.id = adv.baa then { baa with adv := adv :: baa.adv } else baa

/-- A route to announce: `interned` is what `bgp_attr_intern` returns for its
attributes. -/
structure AdjOut where
  adj : Nat
  p : Prefix
  prd : Option (List U8)
  binfo : Option Binfo
  attr : Attr
  interned : Attr
  intern_cmp : attrhashCmp interned attr = true

/-- `bgp_adj_out_set`. -/
def bgpAdjOutSet (s : Sync) (out : AdjOut) : Sync :=
  let (baa, s) := bgpAdvertiseIntern (cleanPending s out.adj) out.interned
  let adv : Advertise := ⟨out.adj, out.p, out.prd, out.binfo, baa, out.attr⟩
  { s with hash := s.hash.map (bgpAdvertiseAdd adv), update := s.update ++ [adv] }

/-- `bgp_adj_out_unset`. -/
def bgpAdjOutUnset (s : Sync) (adj : Nat) : Sync :=
  let s := cleanPending s adj
  if (s.sent adj).isSome then { s with withdraw := s.withdraw ++ [adj] } else s

/-- `bgp_adj_out_remove`. -/
def bgpAdjOutRemove (s : Sync) (adj : Nat) : Sync :=
  cleanPending { s with sent := Function.update s.sent adj none } adj

/-! ## The packet -/

/-- What a packet is written for: the neighbour and the family, and the neighbours
that routes come from. -/
structure Target where
  bgp : Bgp
  peer : Peer
  cap : PeerCap
  peers : Nat → Peer
  afi : Afi
  safi : Safi

/-- Several routes share a packet. -/
def Target.packs (t : Target) : Bool := t.afi = .ip ∧ t.safi = .unicast

/-- `BGP_MAX_PACKET_SIZE`, `BGP_HEADER_SIZE` and `BGP_NLRI_LENGTH`. -/
def bgpMaxPacketSize : Nat := 4096
def bgpHeaderSize : Nat := 19
def bgpNlriLength : Nat := 1

/-- The attributes written for a route: the room is what the header and the two
length fields leave. -/
def Target.attributes (t : Target) (attr : Attr) (adv : Advertise) : Packet :=
  bgpPacketAttribute t.bgp t.peer t.cap (bgpMaxPacketSize - (bgpHeaderSize + 4)) attr adv.p t.safi
    (adv.binfo.map fun binfo => t.peers binfo.peer) (adv.prd.getD [])
    ((adv.binfo.bind (·.tag)).getD [])

/-- A packet: its attributes, the routes placed in it, and the prefixes that follow
the attributes. -/
structure Written where
  attributes : Packet
  placed : List Advertise
  nlri : List Prefix

/-- The octets of the packet. -/
def Written.octets (written : Written) : List U8 :=
  let body := putw 0 ++ putw (BitVec.ofNat 16 written.attributes.encode.length)
    ++ written.attributes.encode ++ written.nlri.flatMap streamPutPrefix
  List.replicate 16 0xFF ++ putw (BitVec.ofNat 16 (bgpHeaderSize + body.length)) ++ [2] ++ body

/-- `stream_get_endp`. -/
def endp (written : Option Written) : Nat := (written.map fun w => w.octets.length).getD 0

/-- A route is written to the packet. The attributes are written where the packet is
empty; `binfo` is then the one of this route, since there was no turn before. -/
def Target.place (t : Target) (written : Option Written) (baa : Baa) (adv : Advertise) : Written :=
  let written := written.getD ⟨t.attributes baa.attr adv, [], []⟩
  { written with
    placed := written.placed ++ [adv]
    nlri := if t.packs then written.nlri ++ [adv.p] else written.nlri }

/-- `AdjOut` counts the octets that are written here, so that both find the same room for
the next route. -/
theorem place_endp (t : Target) (length : Attr → AdjOut.Node → Option AdjOut.Binfo → Nat)
    {written : Option Written} {counted : Option AdjOut.Written} {baa : Baa} {adv : Advertise}
    {pending : AdjOut.BgpAdvertise} {next : AdjOut.Written}
    (before : counted.map (·.endp) = written.map (·.octets.length))
    (route : pending.rn.p = adv.p)
    (attributes : length baa.attr pending.rn pending.binfo =
      (t.attributes baa.attr adv).encode.length)
    (placed : AdjOut.place length t.packs counted pending baa.attr = some next) :
    next.endp = endp (some (t.place written baa adv)) := by
  have counts (w : Written) : w.octets.length =
      23 + w.attributes.encode.length + (w.nlri.flatMap streamPutPrefix).length := by
    simp [Written.octets, putw_length]
    omega
  have size : (streamPutPrefix adv.p).length = AdjOut.bgpNlriLength + pending.rn.psize := by
    rw [streamPutPrefix, List.length_cons, octets_length, Nat.add_comm, ← route]
    rfl
  have start : (counted.getD ⟨baa.attr, [], AdjOut.bgpHeaderSize + AdjOut.bgpUnfeasibleLen +
      AdjOut.bgpTotalAttrLen + length baa.attr pending.rn pending.binfo⟩).endp =
      (written.getD ⟨t.attributes baa.attr adv, [], []⟩).octets.length := by
    cases counted <;> cases written
    · rw [Option.getD_none, Option.getD_none, counts, ← attributes]
      simp [AdjOut.bgpHeaderSize, AdjOut.bgpUnfeasibleLen, AdjOut.bgpTotalAttrLen]
    · cases before
    · cases before
    · exact Option.some.inj before
  obtain ⟨-, same⟩ := Option.ite_none_right_eq_some.mp placed
  rw [endp, Option.map_some, Option.getD_some, counts, Target.place, ← Option.some.inj same]
  dsimp only
  rw [start, counts]
  cases t.packs with
  | false => rfl
  | true =>
    rw [if_pos rfl, if_pos rfl, List.flatMap_append, List.length_append, List.flatMap_singleton,
      size]
    omega

/-- What the neighbour has been told of an adjacency. -/
def Sync.synchronize (s : Sync) (adj : Nat) (attr : Attr) : Sync :=
  { s with
    sent := Function.update s.sent adj (some attr)
    scount := if (s.sent adj).isSome then s.scount else s.scount + 1 }

/-- The loop of `bgp_update_packet`. Each turn takes a route out of the queue. -/
def Target.loop (t : Target) :
    Nat → Sync → Option Written → Option Advertise → Sync × Option Written
  | fuel + 1, s, written, some adv =>
    if bgpMaxPacketSize - endp written ≤ bgpNlriLength + (adv.p.prefixlen + 7) / 8 then (s, written)
    else
      match s.baa? adv.baa with
      | none => (s, written)
      | some baa =>
        let written := t.place written baa adv
        let (s, next) := bgpAdvertiseClean (s.synchronize adv.adj baa.attr) adv
        if t.packs then t.loop fuel s (some written) next else (s, some written)
  | _, s, written, _ => (s, written)

/-- `bgp_update_packet`. -/
def Target.bgpUpdatePacket (t : Target) (s : Sync) : Sync × Option Written :=
  t.loop s.update.length s none s.update.head?

/-! ## Groups -/

/-- The routes of a group have its attributes but for the originator, and they are
the routes of the queue. -/
structure Grouped (afi : Afi) (s : Sync) : Prop where
  ids : s.hash.Pairwise fun left right => left.id ≠ right.id
  fresh : ∀ baa ∈ s.hash, baa.id < s.nextBaa
  listed : ∀ baa ∈ s.hash, ∀ adv ∈ baa.adv, adv ∈ s.update ∧ adv.baa = baa.id ∧
    valueSansOriginator adv.attr = valueSansOriginator baa.attr
  found : ∀ adv ∈ s.update, ∃ baa ∈ s.hash, adv ∈ baa.adv
  distinct : ∀ left ∈ s.update, ∀ right ∈ s.update, left.adj = right.adj → left = right
  family : ∀ adv ∈ s.update, adv.p.family = afi

section Queue

variable {afi : Afi} {s : Sync}

theorem grouped_empty : Grouped afi Sync.empty where
  ids := List.Pairwise.nil
  fresh _ inside := (List.not_mem_nil inside).elim
  listed _ inside := (List.not_mem_nil inside).elim
  found _ inside := (List.not_mem_nil inside).elim
  distinct _ inside := (List.not_mem_nil inside).elim
  family _ inside := (List.not_mem_nil inside).elim

/-- Two groups at one address are one group. -/
theorem Grouped.one (grouped : Grouped afi s) {left right : Baa} (member : left ∈ s.hash)
    (member' : right ∈ s.hash) (same : left.id = right.id) : left = right := by
  have : Std.Symm fun left right : Baa => left.id ≠ right.id := ⟨fun _ _ apart => apart.symm⟩
  by_contra differ
  exact grouped.ids.forall member member' differ same

variable {baa : Baa} {adv : Advertise}

theorem mem_delete {after : Baa} (kept : Baa.delete adv baa = some after) :
    after.id = baa.id ∧ after.attr = baa.attr ∧
      ∀ other, other ∈ after.adv ↔ other ∈ baa.adv ∧ (baa.id = adv.baa → other.adj ≠ adv.adj) := by
  unfold Baa.delete at kept
  split at kept
  · rename_i here
    split at kept
    · cases kept
    · rename_i rest
      cases kept
      refine ⟨rfl, rfl, fun other => ?_⟩
      simp [List.mem_filter, here]
  · rename_i elsewhere
    cases kept
    exact ⟨rfl, rfl, fun other => ⟨fun member => ⟨member, fun here => (elsewhere here).elim⟩,
      fun both => both.1⟩⟩

theorem delete_some {other : Advertise} (member : other ∈ baa.adv)
    (apart : baa.id = adv.baa → other.adj ≠ adv.adj) :
    ∃ after, Baa.delete adv baa = some after ∧ other ∈ after.adv := by
  unfold Baa.delete
  split
  · rename_i here
    have inside : other ∈ baa.adv.filter fun other => other.adj ≠ adv.adj :=
      List.mem_filter.mpr ⟨member, decide_eq_true (apart here)⟩
    split
    · rename_i nothing
      rw [nothing] at inside
      cases inside
    · exact ⟨_, rfl, inside⟩
  · exact ⟨_, rfl, member⟩

/-- Taking a route of the queue out of it keeps the groups. -/
theorem Grouped.clean (grouped : Grouped afi s) (queued : adv ∈ s.update) :
    Grouped afi (bgpAdvertiseClean s adv).1 where
  ids := by
    refine List.Pairwise.filterMap _ ?_ grouped.ids
    intro left right apart left' kept right' kept'
    rw [(mem_delete kept).1, (mem_delete kept').1]
    exact apart
  fresh := by
    intro after member
    obtain ⟨baa, before, kept⟩ := List.mem_filterMap.mp member
    rw [(mem_delete kept).1]
    exact grouped.fresh baa before
  listed := by
    intro after member other inside
    obtain ⟨baa, before, kept⟩ := List.mem_filterMap.mp member
    obtain ⟨id, attr, members⟩ := mem_delete kept
    obtain ⟨was, apart⟩ := (members other).mp inside
    obtain ⟨waits, group, same⟩ := grouped.listed baa before other was
    refine ⟨List.mem_filter.mpr ⟨waits, decide_eq_true fun equal => ?_⟩, group.trans id.symm,
      attr ▸ same⟩
    have one := grouped.distinct other waits adv queued equal
    exact apart (by rw [← one, group]) equal
  found := by
    intro other inside
    obtain ⟨waits, apart⟩ := List.mem_filter.mp inside
    obtain ⟨baa, before, was⟩ := grouped.found other waits
    obtain ⟨after, kept, still⟩ := delete_some was fun _ => of_decide_eq_true apart
    exact ⟨after, List.mem_filterMap.mpr ⟨baa, before, kept⟩, still⟩
  distinct left inside right inside' :=
    grouped.distinct left (List.mem_filter.mp inside).1 right (List.mem_filter.mp inside').1
  family other inside := grouped.family other (List.mem_filter.mp inside).1

theorem Grouped.cleanPending (grouped : Grouped afi s) (adj : Nat) :
    Grouped afi (cleanPending s adj) ∧
      ∀ adv ∈ (Packing.cleanPending s adj).update, adv.adj ≠ adj := by
  unfold Packing.cleanPending
  split
  · rename_i adv hit
    have here : adv.adj = adj := by simpa using List.find?_some hit
    refine ⟨grouped.clean (List.mem_of_find?_eq_some hit), fun other inside => ?_⟩
    rw [← here]
    exact of_decide_eq_true (List.mem_filter.mp inside).2
  · rename_i miss
    refine ⟨⟨grouped.ids, grouped.fresh, grouped.listed, grouped.found, grouped.distinct,
      grouped.family⟩, fun other inside equal => ?_⟩
    have apart := List.find?_eq_none.mp miss other inside
    exact apart (decide_eq_true equal)

/-- A group with the attributes is there, or made. -/
theorem Grouped.intern (grouped : Grouped afi s) (interned : Attr) :
    Grouped afi (bgpAdvertiseIntern s interned).2 ∧
      (bgpAdvertiseIntern s interned).2.update = s.update ∧
      ∃ baa ∈ (bgpAdvertiseIntern s interned).2.hash,
        baa.id = (bgpAdvertiseIntern s interned).1 ∧
        valueSansOriginator baa.attr = valueSansOriginator interned := by
  unfold bgpAdvertiseIntern
  split
  · rename_i baa hit
    have same : attrhashCmp baa.attr interned = true := by simpa using List.find?_some hit
    exact ⟨grouped, rfl, baa, List.mem_of_find?_eq_some hit, rfl,
      (ribAttrhashCmp_iff _ _).mp same⟩
  · refine ⟨⟨?_, ?_, ?_, ?_, grouped.distinct, grouped.family⟩, rfl, _, List.mem_cons_self, rfl,
      rfl⟩
    · refine List.pairwise_cons.mpr ⟨fun baa member => ?_, grouped.ids⟩
      have below := grouped.fresh baa member
      dsimp only
      omega
    · intro baa member
      rcases List.mem_cons.mp member with rfl | member
      · exact Nat.lt_succ_self _
      · exact Nat.lt_succ_of_lt (grouped.fresh baa member)
    · intro baa member
      rcases List.mem_cons.mp member with rfl | member
      · exact fun _ inside => (List.not_mem_nil inside).elim
      · exact grouped.listed baa member
    · intro adv inside
      obtain ⟨baa, member, was⟩ := grouped.found adv inside
      exact ⟨baa, List.mem_cons_of_mem _ member, was⟩

theorem Grouped.adjOutSet (grouped : Grouped afi s) (out : AdjOut) (family : out.p.family = afi) :
    Grouped afi (bgpAdjOutSet s out) := by
  obtain ⟨cleaned, free⟩ := grouped.cleanPending out.adj
  obtain ⟨interned, same, group, inside, id, attr⟩ := cleaned.intern out.interned
  rw [← same] at free
  unfold bgpAdjOutSet
  generalize bgpAdvertiseIntern (Packing.cleanPending s out.adj) out.interned = made at *
  obtain ⟨baa, u⟩ := made
  have values := (ribAttrhashCmp_iff _ _).mp out.intern_cmp
  have added (other : Baa) (adv : Advertise) :
      (bgpAdvertiseAdd adv other).id = other.id ∧ (bgpAdvertiseAdd adv other).attr = other.attr ∧
        ∀ one, one ∈ (bgpAdvertiseAdd adv other).adv ↔
          one ∈ other.adv ∨ one = adv ∧ other.id = adv.baa := by
    unfold bgpAdvertiseAdd
    split
    · rename_i here
      refine ⟨rfl, rfl, fun one => ?_⟩
      simp only [List.mem_cons, here, and_true]
      exact Or.comm
    · rename_i elsewhere
      simp [elsewhere]
  constructor
  · refine List.pairwise_map.mpr (interned.ids.imp fun apart => ?_)
    rw [(added _ _).1, (added _ _).1]
    exact apart
  · intro after member
    obtain ⟨before, was, rfl⟩ := List.mem_map.mp member
    rw [(added _ _).1]
    exact interned.fresh before was
  · intro after member adv listed
    obtain ⟨before, was, rfl⟩ := List.mem_map.mp member
    obtain ⟨sameId, sameAttr, members⟩ :=
      added before ⟨out.adj, out.p, out.prd, out.binfo, baa, out.attr⟩
    rw [sameId, sameAttr]
    rcases (members adv).mp listed with old | ⟨rfl, here⟩
    · obtain ⟨waits, rest⟩ := interned.listed before was adv old
      exact ⟨List.mem_append_left _ waits, rest⟩
    · refine ⟨List.mem_append_right _ List.mem_cons_self, here.symm, ?_⟩
      -- the group is the one that was found or made
      have one : before = group := interned.one was inside (here.trans id.symm)
      rw [one, attr, values]
  · intro adv waits
    rcases List.mem_append.mp waits with old | new
    · obtain ⟨before, was, listed⟩ := interned.found adv old
      exact ⟨_, List.mem_map_of_mem was, ((added before _).2.2 adv).mpr (Or.inl listed)⟩
    · have equal := List.mem_singleton.mp new
      exact ⟨_, List.mem_map_of_mem inside,
        ((added group _).2.2 adv).mpr (Or.inr ⟨equal, id⟩)⟩
  · intro left waits right waits' equal
    rcases List.mem_append.mp waits with old | new <;>
      rcases List.mem_append.mp waits' with old' | new'
    · exact interned.distinct left old right old' equal
    · rw [List.mem_singleton.mp new'] at equal
      exact (free left old equal).elim
    · rw [List.mem_singleton.mp new] at equal
      exact (free right old' equal.symm).elim
    · exact (List.mem_singleton.mp new).trans (List.mem_singleton.mp new').symm
  · intro adv waits
    rcases List.mem_append.mp waits with old | new
    · exact interned.family adv old
    · rw [List.mem_singleton.mp new]
      exact family

/-- What was sent and what is to be withdrawn plays no part. -/
theorem Grouped.congr (grouped : Grouped afi s) {u : Sync} (update : u.update = s.update)
    (hash : u.hash = s.hash) (nextBaa : u.nextBaa = s.nextBaa) : Grouped afi u where
  ids := hash ▸ grouped.ids
  fresh := by rw [hash, nextBaa]; exact grouped.fresh
  listed := by rw [hash, update]; exact grouped.listed
  found := by rw [hash, update]; exact grouped.found
  distinct := by rw [update]; exact grouped.distinct
  family := by rw [update]; exact grouped.family

theorem Grouped.synchronize (grouped : Grouped afi s) (adj : Nat) (attr : Attr) :
    Grouped afi (s.synchronize adj attr) := grouped.congr rfl rfl rfl

theorem Grouped.adjOutUnset (grouped : Grouped afi s) (adj : Nat) :
    Grouped afi (bgpAdjOutUnset s adj) := by
  have cleaned := (grouped.cleanPending adj).1
  unfold bgpAdjOutUnset
  dsimp only
  split
  · exact cleaned.congr rfl rfl rfl
  · exact cleaned

theorem Grouped.adjOutRemove (grouped : Grouped afi s) (adj : Nat) :
    Grouped afi (bgpAdjOutRemove s adj) := by
  have removed : Grouped afi { s with sent := Function.update s.sent adj none } :=
    grouped.congr rfl rfl rfl
  exact (removed.cleanPending adj).1

/-- A route of the queue has its group. -/
theorem Grouped.group (grouped : Grouped afi s) (queued : adv ∈ s.update) :
    ∃ baa ∈ s.hash, s.baa? adv.baa = some baa ∧ adv ∈ baa.adv := by
  obtain ⟨baa, member, listed⟩ := grouped.found adv queued
  have id := (grouped.listed baa member adv listed).2.1
  refine ⟨baa, member, ?_, listed⟩
  obtain ⟨there, hit⟩ : ∃ there, s.baa? adv.baa = some there := by
    refine Option.isSome_iff_exists.mp (List.find?_isSome.mpr ⟨baa, member, ?_⟩)
    exact decide_eq_true id.symm
  have same : there.id = adv.baa := by simpa using List.find?_some hit
  rw [hit, grouped.one (List.mem_of_find?_eq_some hit) member (same.trans id)]

/-- The next route of the group waits in the queue too, in a group with the same
attributes. -/
theorem Grouped.next (grouped : Grouped afi s) {next : Advertise} (member : baa ∈ s.hash)
    (listed : adv ∈ baa.adv) (follows : (bgpAdvertiseClean s adv).2 = some next) :
    next ∈ (bgpAdvertiseClean s adv).1.update ∧
      ∃ after ∈ (bgpAdvertiseClean s adv).1.hash, next ∈ after.adv ∧ after.attr = baa.attr := by
  obtain ⟨queued, id, _⟩ := grouped.listed baa member adv listed
  obtain ⟨after, hit, first⟩ := Option.bind_eq_some_iff.mp follows
  have there := List.mem_of_find?_eq_some hit
  have here : after.id = adv.baa := by simpa using List.find?_some hit
  have inside := List.mem_of_mem_head? first
  obtain ⟨before, was, kept⟩ := List.mem_filterMap.mp there
  have one : before = baa := grouped.one was member (by rw [← (mem_delete kept).1, here, id])
  subst one
  exact ⟨((grouped.clean queued).listed after there next inside).1, after, there, inside,
    (mem_delete kept).2.1⟩

end Queue

/-- The queues a neighbour can have in a family. The configuration may change from
packet to packet. -/
inductive Reachable (afi : Afi) : Sync → Prop
  | empty : Reachable afi Sync.empty
  | set {s : Sync} (reached : Reachable afi s) (out : AdjOut) (family : out.p.family = afi) :
      Reachable afi (bgpAdjOutSet s out)
  | unset {s : Sync} (reached : Reachable afi s) (adj : Nat) : Reachable afi (bgpAdjOutUnset s adj)
  | remove {s : Sync} (reached : Reachable afi s) (adj : Nat) :
      Reachable afi (bgpAdjOutRemove s adj)
  | packet {s : Sync} (reached : Reachable afi s) (t : Target) (family : t.afi = afi) :
      Reachable afi (t.bgpUpdatePacket s).1

/-! ## The routes of a packet -/

section Loop

variable (t : Target)

/-- A packet with the attributes `attr` of the group of its first route. -/
structure Holds (attr : Attr) (first : Advertise) (queue : List Advertise) (written : Written) :
    Prop where
  attributes : written.attributes = t.attributes attr first
  placed : ∀ adv ∈ written.placed, adv ∈ queue ∧
    valueSansOriginator adv.attr = valueSansOriginator attr ∧ (t.packs = false → adv = first)

variable {t}
variable {attr : Attr} {queue : List Advertise} {written : Written}

theorem Holds.place {first adv : Advertise} {baa : Baa} (holds : Holds t attr first queue written)
    (queued : adv ∈ queue) (same : valueSansOriginator adv.attr = valueSansOriginator attr)
    (packs : t.packs = true) :
    Holds t attr first queue (t.place (some written) baa adv) where
  attributes := holds.attributes
  placed other member := by
    rcases List.mem_append.mp member with old | new
    · exact holds.placed other old
    · rw [List.mem_singleton.mp new]
      exact ⟨queued, same, fun none => by rw [packs] at none; cases none⟩

variable {s : Sync}

/-- The turns after the first one add routes of the same group. -/
theorem loop_holds {first : Advertise} (packs : t.packs = true) (fuel : Nat)
    (grouped : Grouped t.afi s) (waits : s.update ⊆ queue)
    (holds : Holds t attr first queue written) (next : Option Advertise)
    (group : ∀ adv ∈ next, adv ∈ s.update ∧ ∃ baa ∈ s.hash, adv ∈ baa.adv ∧ baa.attr = attr) :
    Grouped t.afi (t.loop fuel s (some written) next).1 ∧
      ∃ written', (t.loop fuel s (some written) next).2 = some written' ∧
        Holds t attr first queue written' := by
  induction fuel generalizing s written next with
  | zero =>
    unfold Target.loop
    exact ⟨grouped, written, rfl, holds⟩
  | succ fuel ih =>
    rcases next with _ | adv
    · unfold Target.loop
      exact ⟨grouped, written, rfl, holds⟩
    · obtain ⟨queued, baa, member, listed, values⟩ := group adv rfl
      obtain ⟨_, id, same⟩ := grouped.listed baa member adv listed
      unfold Target.loop
      split
      · exact ⟨grouped, written, rfl, holds⟩
      · obtain ⟨found, inside, hit, listed'⟩ := grouped.group queued
        have one : found = baa := grouped.one inside member
          ((grouped.listed found inside adv listed').2.1.symm.trans id)
        subst one
        simp only [hit]
        have synced := grouped.synchronize adv.adj found.attr
        have inside : adv ∈ (s.synchronize adv.adj found.attr).update := queued
        have cleaned := synced.clean inside
        refine ih cleaned (fun other left => waits (List.mem_filter.mp left).1)
          (holds.place (waits queued) (values ▸ same) packs) _ fun other follows => ?_
        obtain ⟨left, after, there, in_, kept⟩ := synced.next member listed follows
        exact ⟨left, after, there, in_, kept.trans values⟩

/-- `bgp_update_packet` writes the attributes of the group of the first route, and
places routes of that group; they come from the queue. -/
theorem bgpUpdatePacket_holds (grouped : Grouped t.afi s) :
    Grouped t.afi (t.bgpUpdatePacket s).1 ∧
      ∀ written, (t.bgpUpdatePacket s).2 = some written →
        ∃ first baa, s.update.head? = some first ∧ s.baa? first.baa = some baa ∧
          Holds t baa.attr first s.update written := by
  unfold Target.bgpUpdatePacket
  rcases queue : s.update with _ | ⟨first, rest⟩
  · exact ⟨grouped, nofun⟩
  · have queued : first ∈ s.update := queue ▸ List.mem_cons_self
    obtain ⟨baa, member, hit, listed⟩ := grouped.group queued
    obtain ⟨_, _, same⟩ := grouped.listed baa member first listed
    simp only [List.head?_cons, List.length_cons]
    unfold Target.loop
    split
    · exact ⟨grouped, nofun⟩
    · simp only [hit]
      have synced := grouped.synchronize first.adj baa.attr
      have inside : first ∈ (s.synchronize first.adj baa.attr).update := queued
      have cleaned := synced.clean inside
      have opened : Holds t baa.attr first (first :: rest) (t.place none baa first) := by
        refine ⟨rfl, fun adv inside => ?_⟩
        rw [List.mem_singleton.mp inside]
        exact ⟨List.mem_cons_self, same, fun _ => rfl⟩
      split
      · rename_i packs
        have left : (bgpAdvertiseClean (s.synchronize first.adj baa.attr) first).1.update ⊆
            first :: rest := fun other inside => queue ▸ (List.mem_filter.mp inside).1
        obtain ⟨kept, written, run, holds⟩ := loop_holds packs rest.length cleaned left opened
          _ fun other follows => synced.next member listed follows
        refine ⟨kept, fun written' run' => ⟨first, baa, rfl, hit, ?_⟩⟩
        rw [run] at run'
        cases run'
        exact holds
      · exact ⟨cleaned, fun written run => ⟨first, baa, rfl, hit, Option.some.inj run ▸ opened⟩⟩

end Loop

/-- Every queue a neighbour can have is grouped. -/
theorem Reachable.grouped {afi : Afi} {s : Sync} (reached : Reachable afi s) : Grouped afi s := by
  induction reached with
  | empty => exact grouped_empty
  | set _ out family ih => exact ih.adjOutSet out family
  | unset _ adj ih => exact ih.adjOutUnset adj
  | remove _ adj ih => exact ih.adjOutRemove adj
  | packet _ t family ih => exact family ▸ (bgpUpdatePacket_holds (family ▸ ih)).1

/-! ## What the attributes of a packet depend on -/

section Section

variable (t : Target)
variable (attr : Attr) (p : Prefix)

/-- The originator the encoder writes for a route of the given attributes from the
given neighbour; none where the route is not reflected. -/
def Target.originator (attr : Attr) (source : Option Peer) : Option U32 :=
  match source with
  | none => none
  | some source =>
    if reflects t.bgp source t.peer then
      some (if attr.has .originatorId then (attr.extra.getD .zero).originatorId
        else source.remoteId)
    else none

/-- The originator and the cluster list, for the originator that is written. -/
def Target.reflector (attr : Attr) : Option U32 → List Tlv
  | none => []
  | some originator =>
    let own := if t.bgp.configClusterId then t.bgp.clusterId else t.bgp.routerId
    let body := putl own ++ ((attr.extra.getD .zero).cluster.getD []).flatMap putl
    [sized attrFlagOptional .originatorId 4 (putl originator),
      sized attrFlagOptional .clusterList body.length body]

/-- The section around the attributes of a reflected route and those of the prefix. -/
def Target.around (attr : Attr) (p : Prefix) (reflector reach : List Tlv) : Packet :=
  let room := bgpMaxPacketSize - (bgpHeaderSize + 4)
  let sent := sentAspath t.bgp t.peer attr p.family t.safi
  let main := Encoding.packetOpening t.peer t.cap room attr p t.safi sent
    ++ Encoding.packetAggregator t.cap attr ++ Encoding.packetCommunities t.peer attr p t.safi
    ++ reflector ++ reach ++ Encoding.packetExtCommunities t.bgp t.peer attr p t.safi
  ⟨main ++ (if !t.cap.as4Rcv && AsPath.aspathHasAs4 sent then
      [Encoding.packetAs4Path (room - (encodeAll main).length - 4)
        (AsPath.aspathDeleteConfedSeq sent)] else [])
    ++ Encoding.packetAs4Aggregator t.cap attr, ((attr.extra.getD .zero).transit).getD []⟩

/-- The neighbour a route comes from. -/
def Target.source (adv : Advertise) : Option Peer := adv.binfo.map fun binfo => t.peers binfo.peer

theorem attributes_eq (adv : Advertise) :
    t.attributes attr adv = t.around attr adv.p
      (t.reflector attr (t.originator attr (t.source adv)))
      (packetMpReach attr adv.p t.safi (adv.prd.getD []) ((adv.binfo.bind (·.tag)).getD [])) := by
  have reflector : ((t.source adv).elim [] fun source =>
      if reflects t.bgp source t.peer then packetReflector t.bgp source attr
      else []) = t.reflector attr (t.originator attr (t.source adv)) := by
    unfold Target.originator
    rcases t.source adv with _ | source
    · rfl
    · by_cases reflected : reflects t.bgp source t.peer = true
      · simp only [Option.elim_some, if_pos reflected]
        rfl
      · simp only [Option.elim_some, if_neg reflected]
        rfl
  unfold Target.attributes
  rw [Encoding.packet_eq]
  unfold Target.around
  rw [← reflector]
  unfold Target.source
  cases adv.binfo <;> rfl

/-- The originator in the attributes is written where the route is reflected and
nowhere else. -/
theorem around_sansOriginator (reflector reach : List Tlv) :
    t.around (valueSansOriginator attr) p reflector reach = t.around attr p reflector reach := by
  obtain ⟨aspath, community, extra, flag, nexthop, med, localPref, origin⟩ := attr
  rcases extra with _ | extra <;> rfl

theorem reflector_sansOriginator (originator : Option U32) :
    t.reflector (valueSansOriginator attr) originator = t.reflector attr originator := by
  obtain ⟨aspath, community, extra, flag, nexthop, med, localPref, origin⟩ := attr
  rcases originator with _ | originator <;> rcases extra with _ | extra <;> rfl

theorem packetMpReach_sansOriginator (safi : Safi) (prd tag : List U8) :
    packetMpReach (valueSansOriginator attr) p safi prd tag =
      packetMpReach attr p safi prd tag := by
  obtain ⟨aspath, community, extra, flag, nexthop, med, localPref, origin⟩ := attr
  rcases extra with _ | extra <;> rfl

/-- Of the prefix only the family is read. -/
theorem around_family {p q : Prefix} (same : p.family = q.family) (attr : Attr)
    (reflector reach : List Tlv) :
    t.around attr p reflector reach = t.around attr q reflector reach := by
  unfold Target.around Encoding.packetOpening Encoding.packetCommunities
    Encoding.packetExtCommunities
  rw [same]

theorem variableLength_type (type : AttrType) (body : List U8) :
    (variableLength type body).type = type.code := by
  unfold variableLength
  split <;> rfl

/-- What is written behind the prefix are attributes of other types. -/
theorem behind_reflector (as4 : Option Tlv)
    (isAs4 : ∀ tlv ∈ as4, tlv.type = AttrType.as4Path.code) :
    ∀ tlv ∈ Encoding.packetExtCommunities t.bgp t.peer attr p t.safi ++ as4.toList
      ++ Encoding.packetAs4Aggregator t.cap attr, tlv.type ≠ AttrType.originatorId.code := by
  intro tlv member
  rcases List.mem_append.mp member with member | member
  · rcases List.mem_append.mp member with member | member
    · have type : tlv.type = AttrType.extCommunities.code := by
        unfold Encoding.packetExtCommunities at member
        dsimp only at member
        split at member
        · split at member
          · rw [List.mem_singleton.mp member, variableLength_type]
          · split at member
            · cases member
            · rw [List.mem_singleton.mp member, variableLength_type]
        · cases member
      rw [type]
      decide
    · rw [isAs4 tlv (Option.mem_toList.mp member)]
      decide
  · have type : tlv.type = AttrType.as4Aggregator.code := by
      unfold Encoding.packetAs4Aggregator at member
      dsimp only at member
      split at member
      · rw [List.mem_singleton.mp member]
        rfl
      · cases member
    rw [type]
    decide

variable {left right : Option U32}

/-- In front of attributes of other types the originator can be told. -/
theorem reflector_injective {attr : Attr} {rest rest' : List Tlv}
    (behind : ∀ tlv ∈ rest, tlv.type ≠ AttrType.originatorId.code)
    (behind' : ∀ tlv ∈ rest', tlv.type ≠ AttrType.originatorId.code)
    (same : t.reflector attr left ++ rest = t.reflector attr right ++ rest') : left = right := by
  rcases left with _ | left <;> rcases right with _ | right
  · rfl
  · have first : sized attrFlagOptional .originatorId 4 (putl right) ∈ rest := by
      rw [show rest = t.reflector attr (some right) ++ rest' from same]
      exact List.mem_cons_self
    exact (behind _ first rfl).elim
  · have first : sized attrFlagOptional .originatorId 4 (putl left) ∈ rest' := by
      rw [← show t.reflector attr (some left) ++ rest = rest' from same]
      exact List.mem_cons_self
    exact (behind' _ first rfl).elim
  · have heads := (List.cons.inj same).1
    exact congrArg some (putl_injective left right (congrArg Tlv.body heads))

/-- The attributes around those of a reflected route tell which they are. -/
theorem around_injective {attr : Attr} {p : Prefix} {reach : List Tlv}
    (behind : ∀ tlv ∈ reach, tlv.type ≠ AttrType.originatorId.code)
    (same : t.around attr p (t.reflector attr left) reach =
      t.around attr p (t.reflector attr right) reach) : left = right := by
  have tlvs := congrArg Packet.tlvs same
  simp only [Target.around, List.append_assoc, List.append_cancel_left_eq] at tlvs
  have others (as4 : Option Tlv) (isAs4 : ∀ tlv ∈ as4, tlv.type = AttrType.as4Path.code) :
      ∀ tlv ∈ reach ++ (Encoding.packetExtCommunities t.bgp t.peer attr p t.safi ++ (as4.toList
        ++ Encoding.packetAs4Aggregator t.cap attr)), tlv.type ≠ AttrType.originatorId.code := by
    intro tlv member
    rcases List.mem_append.mp member with member | member
    · exact behind tlv member
    · rw [← List.append_assoc] at member
      exact behind_reflector t attr p as4 isAs4 tlv member
  split at tlvs
  · exact reflector_injective t (others (some _) fun tlv here => by cases here; rfl)
      (others (some _) fun tlv here => by cases here; rfl) tlvs
  · exact reflector_injective t (others none nofun) (others none nofun) tlvs

/-- The attributes that reach a prefix by are of one type. -/
theorem packetMpReach_type (safi : Safi) (prd tag : List U8) :
    ∀ tlv ∈ packetMpReach attr p safi prd tag, tlv.type ≠ AttrType.originatorId.code := by
  intro tlv member
  have type : tlv.type = AttrType.mpReachNlri.code := by
    unfold packetMpReach at member
    split at member
    · rw [List.mem_singleton.mp member]
      rfl
    · rw [List.mem_singleton.mp member]
      rfl
    · rw [List.mem_singleton.mp member]
      rfl
    · cases member
  rw [type]
  decide

/-- The sections of two routes whose attributes are equal but for the originator are
the same exactly where the same originator is written, or none. -/
theorem attributes_eq_iff {attr attr' : Attr} {first adv : Advertise}
    (same : valueSansOriginator attr = valueSansOriginator attr') (family : first.p.family = t.afi)
    (family' : adv.p.family = t.afi) (alone : t.packs = false → adv = first) :
    t.attributes attr first = t.attributes attr' adv ↔
      t.originator attr (t.source first) = t.originator attr' (t.source adv) := by
  rw [attributes_eq, attributes_eq]
  have reach : packetMpReach attr first.p t.safi (first.prd.getD [])
      ((first.binfo.bind (·.tag)).getD []) = packetMpReach attr' adv.p t.safi (adv.prd.getD [])
      ((adv.binfo.bind (·.tag)).getD []) := by
    by_cases packs : t.packs = true
    · obtain ⟨ip, unicast⟩ := of_decide_eq_true packs
      simp only [packetMpReach, family, family', ip, unicast]
    · rw [alone (Bool.eq_false_iff.mpr packs), ← packetMpReach_sansOriginator, same,
        packetMpReach_sansOriginator]
  have other := packetMpReach_type attr' adv.p t.safi (adv.prd.getD [])
    ((adv.binfo.bind (·.tag)).getD [])
  rw [reach, around_family t (family.trans family'.symm), ← around_sansOriginator, same,
    around_sansOriginator, ← reflector_sansOriginator, same, reflector_sansOriginator]
  exact ⟨around_injective t other, fun equal => by rw [equal]⟩

end Section

/-- Whatever was queued, the attributes of a packet are those of a route placed in it
exactly where the same originator is written for the route as for the first one, or
neither is reflected. -/
theorem packing_exactly {t : Target} {s : Sync} (reached : Reachable t.afi s) {written : Written}
    (run : (t.bgpUpdatePacket s).2 = some written) :
    ∃ first baa, s.update.head? = some first ∧ s.baa? first.baa = some baa ∧
      written.attributes = t.attributes baa.attr first ∧
      ∀ adv ∈ written.placed, adv ∈ s.update ∧
        (written.attributes = t.attributes adv.attr adv ↔
          t.originator baa.attr (t.source first) = t.originator adv.attr (t.source adv)) := by
  have grouped := reached.grouped
  obtain ⟨first, baa, head, hit, holds⟩ := (bgpUpdatePacket_holds grouped).2 written run
  refine ⟨first, baa, head, hit, holds.attributes, fun adv placed => ?_⟩
  obtain ⟨queued, same, alone⟩ := holds.placed adv placed
  have queuedFirst := List.mem_of_mem_head? head
  rw [holds.attributes]
  exact ⟨queued, attributes_eq_iff t same.symm (grouped.family first queuedFirst)
    (grouped.family adv queued) alone⟩

/-- An internal neighbour, and routes from an external one and from another
internal one. -/
def internalPeer : Target where
  bgp := .plain 65001 1
  peer := .plain 1 65001 65001
  cap := { as4Rcv := true }
  peers id := if id = 2 then .plain 2 65002 65001 else .plain id 65001 65001
  afi := .ip
  safi := .unicast

/-- Attributes that do not name an originator. -/
def routeAttr : Attr :=
  { bgpAttrDefaultSet bgpOriginIgp with nexthop := 0x0A000001, localPref := 100 }

/-- A route of a neighbour to announce. -/
def routeOut (adj : Nat) (bits : List Bool) (fits : bits.length ≤ 32) (peer : Nat) : AdjOut where
  adj := adj
  p := ⟨.ip, bits, fits⟩
  prd := none
  binfo := some ⟨peer, none⟩
  attr := routeAttr
  interned := routeAttr
  intern_cmp := by decide

/-- Two routes with one attribute set are queued. -/
def twoQueued (source : Nat) : Sync :=
  bgpAdjOutSet (bgpAdjOutSet Sync.empty (routeOut 0 [false] (by decide) 2))
    (routeOut 1 [true] (by decide) source)

theorem twoQueued_reachable (source : Nat) : Reachable .ip (twoQueued source) :=
  (Reachable.empty.set (routeOut 0 [false] (by decide) 2) rfl).set
    (routeOut 1 [true] (by decide) source) rfl

/-- Two routes from one neighbour share a packet and are both as they are. -/
theorem packing_exactly_sample :
    ∃ written first baa, (internalPeer.bgpUpdatePacket (twoQueued 2)).2 = some written ∧
      written.placed.length = 2 ∧ (twoQueued 2).update.head? = some first ∧
      (twoQueued 2).baa? first.baa = some baa ∧
      written.attributes = internalPeer.attributes baa.attr first ∧
      ∀ adv ∈ written.placed, adv ∈ (twoQueued 2).update ∧
        (written.attributes = internalPeer.attributes adv.attr adv ↔
          internalPeer.originator baa.attr (internalPeer.source first) =
            internalPeer.originator adv.attr (internalPeer.source adv)) := by
  have two : (internalPeer.bgpUpdatePacket (twoQueued 2)).2.map (·.placed.length) = some 2 := by
    decide +kernel
  obtain ⟨written, run, placed⟩ := Option.map_eq_some_iff.mp two
  obtain ⟨first, baa, rest⟩ := packing_exactly (twoQueued_reachable 2) run
  exact ⟨written, first, baa, run, placed, rest⟩

/-- The second of two routes from different neighbours goes out without the originator
and the cluster list that it has alone: the first one is not reflected. -/
theorem reflected_unmarked :
    ∃ written adv, (internalPeer.bgpUpdatePacket (twoQueued 3)).2 = some written ∧
      adv ∈ written.placed ∧ written.attributes ≠ internalPeer.attributes adv.attr adv := by
  have wrong : (internalPeer.bgpUpdatePacket (twoQueued 3)).2.map (fun written =>
      written.placed.any fun adv => written.attributes ≠ internalPeer.attributes adv.attr adv) =
        some true := by decide +kernel
  obtain ⟨written, run, some_⟩ := Option.map_eq_some_iff.mp wrong
  obtain ⟨adv, placed, differs⟩ := List.any_eq_true.mp some_
  exact ⟨written, adv, run, placed, of_decide_eq_true differs⟩

end Bgpd.Packing
