import Bgpd.SentSection
import Bgpd.Admission

/-!
# The MED along a chain of speakers

Each hop takes the route stored at one speaker, passes it through
`bgp_announce_check`, writes it with `bgp_packet_attribute`, reads it back with
`bgp_attr_parse` at the next speaker and stores what the inbound policy leaves.
The receiver's metric for the sender is part of the hop, so a chain ranges over
every history of the sessions along it.

One hop adds its metric to the MED in four octets. So along a chain the MED is
the sum of the metrics modulo 2^32, and it is the exact sum, and never smaller
than at an earlier speaker, precisely when the sum fits.
-/

namespace Bgpd.MetricChain

open Octets Prefixes Attributes Neighbors AttrParse HandlerEffects LearnedMetric Announce
  SentSection Admission

/-- One hop: both ends' configuration of each other, and their state. -/
structure Hop where
  /-- The sender, the neighbour it has the route from, and whether an aggregate
  suppresses the route there. -/
  sender : Bgp
  source : Peer
  suppressed : Bool
  /-- The receiver as the sender knows it. -/
  peer : Peer
  sentCap : PeerCap
  defaultOriginate : Bool
  safi : Safi
  writeable : Nat
  reflectedFrom : Option Peer
  prd : List U8
  tag : List U8
  /-- The receiver, and the sender as the receiver knows it. -/
  receiver : Bgp
  neighbor : Peer
  heardCap : PeerCap
  /-- `peer->local_med` at the receiver before the message. -/
  localMed : U32

/-- A hop takes the stored route to the next speaker: the route is announced
and written, the message carries a MED and the preference named, it is
accepted, and its attributes are stored as the inbound policy leaves them. No
route map on the way rewrites the MED. The third value is the receiver's metric
for the sender after the message. -/
structure Forwards (p : Prefix) (hop : Hop) (attr : Attr) (heard localMed : U32) (next : Attr) :
    Prop where
  outMap : MedKept (hop.peer.policy p.family hop.safi).mapOut
  unsuppressMap : MedKept (hop.peer.policy p.family hop.safi).unsuppressMap
  inMap : MedKept (hop.neighbor.policy p.family hop.safi).mapIn
  step : ∃ announced parsed,
    bgpAnnounceCheck hop.sender ⟨hop.source, attr, hop.suppressed⟩ hop.peer hop.defaultOriginate p
      hop.safi = some announced ∧
    announced.has .multiExitDisc = true ∧ announced.has .localPref = true ∧
    announced.localPref = heard ∧
    (∀ tlv ∈ packetCore hop.sender hop.peer hop.sentCap hop.writeable announced p hop.safi,
      tlv.Framed) ∧
    bgpAttrParse hop.receiver hop.neighbor hop.heardCap hop.localMed
      (bgpPacketAttribute hop.sender hop.peer hop.sentCap hop.writeable announced p hop.safi
        hop.reflectedFrom hop.prd hop.tag).encode = (parsed, .proceed) ∧
    parsed.localMed = localMed ∧
    bgpInputModifier hop.neighbor p parsed.attr hop.safi = some next

/-- The metric of a hop by what was heard on it: the first preference that is not
zero, which is this message's when there was none before. -/
def Hop.metric (hop : Hop) (heard : U32) : U32 := learned hop.localMed heard

/-- A chain from a stored route: the routes stored on the way, the metrics the
receivers have after parsing, the metrics by what was heard, and the route
stored last. -/
inductive Relay (p : Prefix) : Attr → List Hop → List Attr → List U32 → List U32 → Attr → Prop
  | last (attr : Attr) : Relay p attr [] [] [] [] attr
  | hop (attr next final : Attr) (hop : Hop) (heard localMed : U32) (hops : List Hop)
      (earlier : List Attr) (localMeds metrics : List U32) :
      Forwards p hop attr heard localMed next → Relay p next hops earlier localMeds metrics final →
        Relay p attr (hop :: hops) (attr :: earlier) (localMed :: localMeds)
          (hop.metric heard :: metrics) final

/-- The announcement keeps the MED when the maps do. -/
theorem bgpAnnounceCheck_med (bgp : Bgp) (ri : RouteView) (peer : Peer) (defaultOriginate : Bool)
    (p : Prefix) (safi : Safi) (announced : Attr)
    (outMap : MedKept (peer.policy p.family safi).mapOut)
    (unsuppressMap : MedKept (peer.policy p.family safi).unsuppressMap)
    (checked : bgpAnnounceCheck bgp ri peer defaultOriginate p safi = some announced) :
    announced.med = ri.attr.med := by
  have assembled := (announceAttr_core bgp ri peer p safi).1
  obtain ⟨-, rfl | ⟨map, chosen, applied⟩⟩ :=
    bgpAnnounceCheck_some bgp ri peer defaultOriginate p safi announced checked
  · exact assembled
  · rw [← assembled]
    split at chosen
    · exact unsuppressMap map chosen p _ announced applied
    · exact outMap map chosen p _ announced applied

/-- One hop adds its metric to the MED, in four octets, and its metric is what
the receiver keeps for the sender. -/
theorem forwards_med (p : Prefix) (hop : Hop) (attr next : Attr) (heard localMed : U32)
    (forwards : Forwards p hop attr heard localMed next) :
    next.med = attr.med + hop.metric heard ∧ localMed = hop.metric heard := by
  obtain ⟨announced, parsed, checked, hasMed, hasPref, heardEq, framed, read, kept, stored⟩ :=
    forwards.step
  have sent : announced.med = attr.med :=
    bgpAnnounceCheck_med hop.sender _ hop.peer _ p hop.safi announced forwards.outMap
      forwards.unsuppressMap checked
  obtain ⟨rest, octets⟩ := packet_encode_core hop.sender hop.peer hop.sentCap hop.writeable
    announced p hop.safi hop.reflectedFrom hop.prd hop.tag
  rw [octets] at read
  have learnt := accepted_core_metric hop.receiver hop.neighbor hop.heardCap hop.localMed _ rest
    parsed framed (.wellKnown .multiExitDisc (putl announced.med))
    (.wellKnown .localPref (putl announced.localPref))
    (by simp [packetCore, hasMed]) (by simp [packetCore, hasPref]) rfl rfl read
  simp only [metric, medValue, localPrefValue, Tlv.wellKnown, putl_length, if_true,
    getl_putl_exact, Metric.mk.injEq] at learnt
  obtain ⟨medEq, -, localMedEq⟩ := learnt
  constructor
  · rw [bgpInputModifier_med hop.neighbor p parsed.attr next hop.safi forwards.inMap stored, medEq,
      sent, heardEq, Hop.metric]
  · rw [← kept, localMedEq, heardEq, Hop.metric]

/-- Along a chain the receivers keep the metrics by what was heard, the MED is
the sum modulo 2^32, and every route stored on the way has a sum that is not
larger. -/
theorem relay_med (p : Prefix) (attr final : Attr) (hops : List Hop) (earlier : List Attr)
    (localMeds metrics : List U32) (relayed : Relay p attr hops earlier localMeds metrics final) :
    localMeds = metrics ∧
      final.med.toNat = (attr.med.toNat + (metrics.map BitVec.toNat).sum) % 2 ^ 32 ∧
      ∀ stored ∈ earlier, ∃ part ≤ (metrics.map BitVec.toNat).sum,
        stored.med.toNat = (attr.med.toNat + part) % 2 ^ 32 := by
  induction relayed with
  | last attr =>
    refine ⟨rfl, ?_, by simp⟩
    simp only [List.map_nil, List.sum_nil, Nat.add_zero]
    exact (Nat.mod_eq_of_lt attr.med.isLt).symm
  | hop attr next final hop heard localMed hops earlier localMeds metrics forwards relayed ih =>
    obtain ⟨nextMed, kept⟩ := forwards_med p hop attr next heard localMed forwards
    have first : next.med.toNat = (attr.med.toNat + (hop.metric heard).toNat) % 2 ^ 32 := by
      rw [nextMed, BitVec.toNat_add]
    obtain ⟨same, whole, parts⟩ := ih
    refine ⟨by rw [kept, same], ?_, ?_⟩
    · rw [whole, first, List.map_cons, List.sum_cons, Nat.mod_add_mod, Nat.add_assoc]
    · intro stored member
      rcases List.mem_cons.mp member with rfl | later
      · exact ⟨0, Nat.zero_le _, by simpa using (Nat.mod_eq_of_lt stored.med.isLt).symm⟩
      · obtain ⟨part, within, partEq⟩ := parts stored later
        refine ⟨(hop.metric heard).toNat + part, ?_, ?_⟩
        · simp only [List.map_cons, List.sum_cons]
          omega
        · rw [partEq, first, Nat.mod_add_mod, Nat.add_assoc]

/-- The MED at the end of a chain is the exact sum of the originated MED and the
receivers' metrics, and at least the MED at every earlier speaker, if and only
if that sum, by what was heard along the chain, fits four octets. -/
theorem relay_exact_iff (p : Prefix) (attr final : Attr) (hops : List Hop) (earlier : List Attr)
    (localMeds metrics : List U32) (relayed : Relay p attr hops earlier localMeds metrics final) :
    (final.med.toNat = attr.med.toNat + (localMeds.map BitVec.toNat).sum ∧
        ∀ stored ∈ earlier, stored.med.toNat ≤ final.med.toNat) ↔
      attr.med.toNat + (metrics.map BitVec.toNat).sum < 2 ^ 32 := by
  obtain ⟨same, whole, parts⟩ := relay_med p attr final hops earlier localMeds metrics relayed
  rw [same]
  constructor
  · rintro ⟨exactSum, -⟩
    rw [← exactSum]
    exact final.med.isLt
  · intro fits
    have exactSum : final.med.toNat = attr.med.toNat + (metrics.map BitVec.toNat).sum := by
      rw [whole, Nat.mod_eq_of_lt fits]
    refine ⟨exactSum, fun stored member => ?_⟩
    obtain ⟨part, within, partEq⟩ := parts stored member
    rw [partEq, exactSum, Nat.mod_eq_of_lt (by omega)]
    omega

/-! ## Plain hops -/

/-- A hop to the next AS, between two external neighbours with no history and every option off. -/
def plainHop (as : U32) : Hop where
  sender := .plain as 1
  source := .plain 1 65000 as
  suppressed := false
  peer := .plain 2 (as + 1) as
  sentCap := {}
  defaultOriginate := false
  safi := .unicast
  writeable := 4096
  reflectedFrom := none
  prd := []
  tag := []
  receiver := .plain (as + 1) 2
  neighbor := .plain 3 as (as + 1)
  heardCap := {}
  localMed := 0

/-- A route with the given MED and a preference of 100. -/
def storedAttr (med : U32) : Attr :=
  { bgpAttrDefaultSet bgpOriginIgp with med := med, localPref := 100, nexthop := 0x0A000001 }

section PlainHop

variable (as : U32) (attr : Attr)

/-- What the receiver of the hop reads. -/
def relayedState : ParseState × ParseRet :=
  let hop := plainHop as
  bgpAttrParse hop.receiver hop.neighbor hop.heardCap hop.localMed
    (bgpPacketAttribute hop.sender hop.peer hop.sentCap hop.writeable attr (.default .ip) hop.safi
      hop.reflectedFrom hop.prd hop.tag).encode

/-- The hop takes a route across when the announcement passes and the section is
accepted. -/
theorem plainHop_forwards
    (flagged : attr.has .multiExitDisc = true ∧ attr.has .localPref = true)
    (announced : bgpAnnounceCheck (plainHop as).sender ⟨(plainHop as).source, attr, false⟩
      (plainHop as).peer false (.default .ip) .unicast = some attr)
    (framed : ∀ tlv ∈ packetCore (plainHop as).sender (plainHop as).peer {} 4096 attr
      (.default .ip) .unicast, tlv.Framed)
    (read : (relayedState as attr).2 = .proceed) :
    Forwards (.default .ip) (plainHop as) attr attr.localPref (relayedState as attr).1.localMed
      (relayedState as attr).1.attr := by
  have unbound : MedKept none := fun _ bound => nomatch bound
  exact ⟨unbound, unbound, unbound, attr, (relayedState as attr).1, announced, flagged.1,
    flagged.2, rfl, framed, Prod.ext rfl read, rfl, rfl⟩

end PlainHop

/-- A MED of 10 crosses two hops as 210. -/
theorem relay_exact_iff_small :
    let once := (relayedState 65001 (storedAttr 10)).1
    let twice := (relayedState 65002 once.attr).1
    twice.attr.med.toNat = 10 + ([once.localMed, twice.localMed].map BitVec.toNat).sum ∧
      ∀ stored ∈ [storedAttr 10, once.attr], stored.med.toNat ≤ twice.attr.med.toNat := by
  have first := plainHop_forwards 65001 (storedAttr 10) (by decide) (by decide) (by decide)
    (by decide)
  have second := plainHop_forwards 65002 (relayedState 65001 (storedAttr 10)).1.attr (by decide)
    (by decide) (by decide) (by decide)
  exact (relay_exact_iff _ _ _ _ _ _ _ (.hop _ _ _ _ _ _ _ _ _ _ first
    (.hop _ _ _ _ _ _ _ _ _ _ second (.last _)))).mpr (by decide)

/-- The largest MED crosses the hop as 99: the sum has wrapped, and the longer
path looks better than the shorter one. -/
theorem relay_wraps :
    let stored := storedAttr 0xFFFFFFFF
    let final := (relayedState 65001 stored).1.attr
    Relay (.default .ip) stored [plainHop 65001] [stored] [100] [100] final ∧
      final.med.toNat = 99 ∧
      ¬(final.med.toNat = stored.med.toNat + (([100] : List U32).map BitVec.toNat).sum ∧
        ∀ earlier ∈ [stored], earlier.med.toNat ≤ final.med.toNat) := by
  have kept : (relayedState 65001 (storedAttr 0xFFFFFFFF)).1.localMed = 100 := by decide
  have forwards := plainHop_forwards 65001 (storedAttr 0xFFFFFFFF) (by decide) (by decide)
    (by decide) (by decide)
  exact ⟨.hop _ _ _ _ 100 _ _ _ _ _ (kept ▸ forwards) (.last _), by decide, by decide⟩

end Bgpd.MetricChain
