import Bgpd.As4Transition

/-!
# The path and the aggregator come back

The sender's half of a two-octet session: the path that is sent, its two
encodings and the two aggregators. Put together with the receiver's half, the
merged path is the path that was sent, whatever the order of the attributes, if
both encodings fit what is left of the packet. `aspath_put` stops at the first
segment that does not.

Confederation segments are taken off the four-octet path, so the own member AS
number in front of a path survives only if two octets hold it.
-/

namespace Bgpd.As4RoundTrip

open Octets Prefixes AsPath Attributes Neighbors AttrParse AttrSection Announce
open Encoding PathCodec SentSection As4Transition

/-! ## The path that is sent -/

/-- A path in normal form without confederation segments, whose segments fit the
wire but for sequences that grew. -/
structure Encodable (bound : Nat) (segments : List Assegment) : Prop where
  normal : Normal segments
  plain : ∀ seg ∈ segments, seg.confed = false
  short : ∀ seg ∈ segments,
    seg.as.length ≤ asSegmentMax ∨ seg.type = .asSequence ∧ seg.as.length ≤ bound

variable {bound : Nat} {segments : List Assegment}

theorem Encodable.splittable (encodable : Encodable bound segments) :
    Splittable segments := fun seg member =>
  (encodable.short seg member).elim Or.inr fun both => Or.inl both.1

/-- Putting an AS number in front is what normalising with it in front is. -/
theorem aspathAddSeq_eq (filled : ∀ seg ∈ segments, seg.as ≠ []) (asno : U32) :
    aspathAddSeq ⟨segments⟩ asno = ⟨normaliseOne ⟨.asSequence, [asno]⟩ segments⟩ := by
  unfold aspathAddSeq aspathAddOneAs
  rcases segments with _ | ⟨⟨type, as⟩, rest⟩
  · rfl
  · have some_members : as.length ≠ 0 := fun none =>
      filled ⟨type, as⟩ List.mem_cons_self (List.eq_nil_of_length_eq_zero none)
    simp only [if_neg some_members]
    cases type <;> rfl

/-- One AS number more makes at most one sequence one longer. -/
theorem Encodable.addSeq (encodable : Encodable bound segments) (wide : asSegmentMax ≤ bound)
    (asno : U32) : Encodable (bound + 1) (aspathAddSeq ⟨segments⟩ asno).segments := by
  rw [aspathAddSeq_eq encodable.normal.filled]
  have new : [asno].length ≤ asSegmentMax := by
    simp only [List.length_singleton, asSegmentMax]
    omega
  have kept : ∀ seg ∈ segments,
      seg.as.length ≤ asSegmentMax ∨ seg.type = .asSequence ∧ seg.as.length ≤ bound + 1 :=
    fun seg member => (encodable.short seg member).imp_right fun both => ⟨both.1, by omega⟩
  -- the new number is a segment of its own, or the first sequence takes it in
  have front : normaliseOne ⟨.asSequence, [asno]⟩ segments = ⟨.asSequence, [asno]⟩ :: segments ∨
      ∃ as rest, segments = ⟨.asSequence, as⟩ :: rest ∧
        normaliseOne ⟨.asSequence, [asno]⟩ segments = ⟨.asSequence, asno :: as⟩ :: rest := by
    rcases segments with _ | ⟨⟨_ | _ | _ | _, as⟩, rest⟩
    · exact Or.inl rfl
    · exact Or.inl rfl
    · exact Or.inr ⟨as, rest, rfl, rfl⟩
    · exact Or.inl rfl
    · exact Or.inl rfl
  have filled : (⟨.asSequence, [asno]⟩ : Assegment).as ≠ [] := List.cons_ne_nil _ _
  refine ⟨normal_normaliseOne encodable.normal filled, ?_, ?_⟩
  · intro seg member
    rcases front with whole | ⟨as, rest, rfl, whole⟩
    · rw [whole] at member
      rcases List.mem_cons.mp member with rfl | later
      · rfl
      · exact encodable.plain seg later
    · rw [whole] at member
      rcases List.mem_cons.mp member with rfl | later
      · rfl
      · exact encodable.plain seg (.tail _ later)
  · intro seg member
    rcases front with whole | ⟨as, rest, rfl, whole⟩
    · rw [whole] at member
      rcases List.mem_cons.mp member with rfl | later
      · exact Or.inl new
      · exact kept seg later
    · rw [whole] at member
      rcases List.mem_cons.mp member with rfl | later
      · refine Or.inr ⟨rfl, ?_⟩
        have before := encodable.short ⟨.asSequence, as⟩ List.mem_cons_self
        simp only [List.length_cons, true_and] at before ⊢
        omega
      · exact kept seg (.tail _ later)

/-- A path without confederation segments keeps all its segments. -/
theorem deleteConfedSeq_plain (plain : ∀ seg ∈ segments, seg.confed = false) :
    aspathDeleteConfedSeq ⟨segments⟩ = ⟨segments⟩ := by
  rcases segments with _ | ⟨⟨_ | _ | _ | _, as⟩, rest⟩
  · rfl
  · rfl
  · rfl
  · cases plain _ List.mem_cons_self
  · rfl

/-- Behind a member AS in front nothing else is taken off. -/
theorem deleteConfedSeq_front (plain : ∀ seg ∈ segments, seg.confed = false) (asno : U32) :
    aspathDeleteConfedSeq ⟨⟨.asConfedSequence, [asno]⟩ :: segments⟩ = ⟨segments⟩ := by
  have kept : segments.dropWhile Assegment.confed = segments := by
    rcases segments with _ | ⟨seg, rest⟩
    · rfl
    · exact List.dropWhile_cons_of_neg (Bool.eq_false_iff.mp (plain seg List.mem_cons_self))
  exact congrArg Aspath.mk ((List.dropWhile_cons_of_pos rfl).trans kept)

variable (bgp : Bgp) (peer : Peer) {attr : Attr} {path : Aspath} (afi : Afi) (safi : Safi)

/-- The path that is sent has no confederation segments, or only the own member
AS in front. -/
theorem sentAspath_shape (present : attr.aspath = some path)
    (encodable : Encodable asSegmentMax path.segments) :
    Encodable (asSegmentMax + 2) (sentAspath bgp peer attr afi safi).segments ∨
      peerSort bgp peer = .confed ∧
        (sentAspath bgp peer attr afi safi).segments =
          ⟨.asConfedSequence, [peer.localAs]⟩ :: path.segments := by
  obtain ⟨segments⟩ := path
  have wider {bound : Nat} (more : bound ≤ asSegmentMax + 2) {segments : List Assegment}
      (fits : Encodable bound segments) : Encodable (asSegmentMax + 2) segments :=
    ⟨fits.normal, fits.plain, fun seg member => (fits.short seg member).imp_right fun both =>
      ⟨both.1, by omega⟩⟩
  unfold sentAspath
  rw [present, Option.getD_some]
  by_cases outside : peerSort bgp peer = .ebgp ∧
      (!(peer.afFlags afi safi).asPathUnchanged ∨ segments = [])
      ∧ !(peer.afFlags afi safi).rserverClient
  · rw [if_pos outside]
    left
    by_cases confederation : bgp.confederation = true
    · rw [if_pos confederation, deleteConfedSeq_plain encodable.plain]
      exact wider (by omega) (encodable.addSeq (Nat.le_refl _) bgp.confedId)
    · rw [if_neg confederation]
      have once := encodable.addSeq (Nat.le_refl _) peer.localAs
      by_cases changed : peer.changeLocalAs ≠ 0
      · rw [if_pos changed]
        exact once.addSeq (by omega) peer.changeLocalAs
      · rw [if_neg changed]
        exact wider (by omega) once
  · rw [if_neg outside]
    by_cases confed : peerSort bgp peer = .confed
    · rw [if_pos confed]
      refine Or.inr ⟨confed, ?_⟩
      rcases segments with _ | ⟨⟨type, as⟩, rest⟩
      · rfl
      · have filled : as.length ≠ 0 := fun none => encodable.normal.filled ⟨type, as⟩
          List.mem_cons_self (List.eq_nil_of_length_eq_zero none)
        have plain := encodable.plain ⟨type, as⟩ List.mem_cons_self
        have other : type ≠ .asConfedSequence := by
          rintro rfl
          cases plain
        simp only [aspathAddConfedSeq, aspathAddOneAs, if_neg filled, if_neg other]
    · rw [if_neg confed]
      exact Or.inl (wider (by omega) encodable)

/-- Nothing joins a confederation sequence. -/
theorem Encodable.confed_normal (encodable : Encodable bound segments) (asno : U32) :
    Normal (⟨.asConfedSequence, [asno]⟩ :: segments) := by
  refine encodable.normal.cons (List.cons_ne_nil _ _) ?_ nofun
  rintro next _ ⟨first, _⟩
  cases first

/-- What the two encodings need of the path that is sent. -/
theorem sentAspath_sound (present : attr.aspath = some path)
    (encodable : Encodable asSegmentMax path.segments) :
    Normal (sentAspath bgp peer attr afi safi).segments ∧
      Splittable (sentAspath bgp peer attr afi safi).segments ∧
      ∀ seg ∈ (sentAspath bgp peer attr afi safi).segments, seg.as.length ≤ 510 := by
  have short {bound : Nat} (more : bound ≤ 510) {segments : List Assegment}
      (fits : Encodable bound segments) : ∀ seg ∈ segments, seg.as.length ≤ 510 := by
    intro seg member
    have bounds := fits.short seg member
    simp only [asSegmentMax] at bounds
    omega
  rcases sentAspath_shape bgp peer afi safi present encodable with sent | ⟨_, sent⟩
  · exact ⟨sent.normal, sent.splittable, short (by decide) sent⟩
  · rw [sent]
    refine ⟨encodable.confed_normal _, ?_, ?_⟩
    · intro seg member
      rcases List.mem_cons.mp member with rfl | later
      · right
        simp only [List.length_singleton, asSegmentMax]
        omega
      · exact encodable.splittable seg later
    · intro seg member
      rcases List.mem_cons.mp member with rfl | later
      · simp
      · exact short (by decide) encodable seg later

/-- The four-octet path is the path that is sent, or the one of the attributes. -/
theorem sentAspath_stripped (present : attr.aspath = some path)
    (encodable : Encodable asSegmentMax path.segments) :
    let stripped := (aspathDeleteConfedSeq (sentAspath bgp peer attr afi safi)).segments
    Normal stripped ∧ ∀ seg ∈ stripped, seg.as.length ≤ 510 := by
  intro stripped
  obtain ⟨normal, _, short⟩ := sentAspath_sound bgp peer afi safi present encodable
  rcases sentAspath_shape bgp peer afi safi present encodable with shape | ⟨_, shape⟩
  · have kept : stripped = (sentAspath bgp peer attr afi safi).segments :=
      congrArg Aspath.segments (deleteConfedSeq_plain shape.plain)
    rw [kept]
    exact ⟨normal, short⟩
  · have sent : sentAspath bgp peer attr afi safi =
        ⟨⟨.asConfedSequence, [peer.localAs]⟩ :: path.segments⟩ := congrArg Aspath.mk shape
    have front : stripped = path.segments := by
      simp only [stripped, sent, deleteConfedSeq_front encodable.plain peer.localAs]
    rw [shape] at short
    rw [front]
    exact ⟨encodable.normal, fun seg inside => short seg (.tail _ inside)⟩

/-- The octets of both encodings, read back and merged, are the path that was
sent. -/
theorem sentAspath_comes_back (present : attr.aspath = some path)
    (encodable : Encodable asSegmentMax path.segments)
    (member : peerSort bgp peer = .confed → peer.localAs ≤ bgpAsMax) :
    let sent := sentAspath bgp peer attr afi safi
    ∃ two, aspathParse (wireOctets false sent.segments) false = some two ∧
      (aspathHasAs4 sent = false → two = sent) ∧
      (aspathHasAs4 sent = true → ∃ four,
        aspathParse (wireOctets true (aspathDeleteConfedSeq sent).segments) true = some four ∧
        aspathReconcileAs4 two four = sent) := by
  intro sent
  obtain ⟨normal, splittable, _⟩ := sentAspath_sound bgp peer afi safi present encodable
  refine ⟨_, aspathParse_sent false normal splittable, fun small => ?_, fun _ => ?_⟩
  · have whole := aspathParse_two normal splittable small
    rw [aspathParse_sent false normal splittable] at whole
    exact Option.some.inj whole
  · rcases sentAspath_shape bgp peer afi safi present
      encodable with shape | ⟨confed, shape⟩
    · refine ⟨sent, ?_, ?_⟩
      · have kept : aspathDeleteConfedSeq sent = sent := deleteConfedSeq_plain shape.plain
        rw [kept]
        exact aspathParse_four normal splittable
      · exact aspathReconcileAs4_plain shape.plain
    · have segments : sent = ⟨⟨.asConfedSequence, [peer.localAs]⟩ :: path.segments⟩ :=
        congrArg Aspath.mk shape
      refine ⟨path, ?_, ?_⟩
      · have stripped : aspathDeleteConfedSeq sent = path := by
          rw [segments]
          exact deleteConfedSeq_front encodable.plain peer.localAs
        rw [stripped]
        exact aspathParse_four encodable.normal encodable.splittable
      · have back := aspathReconcileAs4_confed encodable.plain (member confed)
          (encodable.confed_normal peer.localAs)
        rw [segments]
        exact back

/-! ## The four attributes of a section -/

section Section

variable (cap : PeerCap) (writeable : Nat) (attr) (p : Prefix)
  (source : Option Peer) (prd tag : List U8)

/-- The two-octet path. -/
def asPathTlv (sent : Aspath) : Tlv :=
  let put := aspathPut (writeable - 8) sent cap.as4Rcv
  sized (FlagWord.set attrFlagTrans attrFlagExtlen) .asPath put.bytes put.octets

/-- The four-octet path, where there is a large AS number. -/
def as4PathTlvs (main : List Tlv) (sent : Aspath) : List Tlv :=
  if !cap.as4Rcv && aspathHasAs4 sent then
    [packetAs4Path (writeable - (encodeAll main).length - 4) (aspathDeleteConfedSeq sent)]
  else []

variable {type : AttrType}

theorem filter_sized (other : transitional type = false) (flag : U8) (length : Nat)
    (body : List U8) :
    [sized flag type length body].filter isFour = [] := by
  simp [sized, isFour, other]

theorem filter_ite (condition : Bool) {tlvs : List Tlv} (none : tlvs.filter isFour = []) :
    (if condition then tlvs else []).filter isFour = [] := by
  cases condition
  · rfl
  · exact none

theorem filter_wellKnown (type : AttrType) (other : transitional type = false) (condition : Bool)
    (body : List U8) : (if condition then [Tlv.wellKnown type body] else []).filter isFour = [] :=
  filter_ite condition (by simp [Tlv.wellKnown, isFour, other])

theorem filter_packetOpening (sent : Aspath) :
    (packetOpening peer cap writeable attr p safi sent).filter isFour =
      [asPathTlv cap writeable sent] := by
  unfold packetOpening
  simp only [List.filter_append, filter_wellKnown .nextHop rfl,
    filter_wellKnown .multiExitDisc rfl, filter_wellKnown .localPref rfl,
    filter_wellKnown .atomicAggregate rfl, List.append_nil]
  rfl

theorem filter_variableLength (other : transitional type = false) (body : List U8) :
    [variableLength type body].filter isFour = [] := by
  unfold variableLength
  split
  · exact filter_sized other ..
  · exact filter_sized other ..

theorem filter_packetMpReach : (packetMpReach attr p safi prd tag).filter isFour = [] := by
  unfold packetMpReach
  split
  · exact filter_sized rfl ..
  · exact filter_sized rfl ..
  · exact filter_sized rfl ..
  · rfl

theorem filter_packetExtCommunities :
    (packetExtCommunities bgp peer attr p safi).filter isFour = [] := by
  unfold packetExtCommunities
  dsimp only
  refine filter_ite _ ?_
  split
  · exact filter_variableLength rfl _
  · split
    · rfl
    · exact filter_variableLength rfl _

theorem filter_packetReflector : (match source with
    | some source => if reflects bgp source peer then packetReflector bgp source attr else []
    | none => []).filter isFour = [] := by
  rcases source with _ | source
  · rfl
  · exact filter_ite _ rfl

theorem filter_packetAggregator :
    (packetAggregator cap attr).filter isFour = packetAggregator cap attr := by
  unfold packetAggregator
  split
  · split <;> rfl
  · rfl

/-- The four attributes among all. -/
theorem filter_packet :
    let sent := sentAspath bgp peer attr p.family safi
    let main := packetMain bgp peer cap writeable attr p safi source prd tag sent
    (bgpPacketAttribute bgp peer cap writeable attr p safi source prd tag).tlvs.filter isFour =
      [asPathTlv cap writeable sent] ++ packetAggregator cap attr
        ++ as4PathTlvs cap writeable main sent ++ packetAs4Aggregator cap attr := by
  intro sent main
  have as4 : (as4PathTlvs cap writeable main sent).filter isFour =
      as4PathTlvs cap writeable main sent := by
    unfold as4PathTlvs
    split <;> rfl
  have as4Aggregator : (packetAs4Aggregator cap attr).filter isFour =
      packetAs4Aggregator cap attr := by
    unfold packetAs4Aggregator
    dsimp only
    split <;> rfl
  have groups := congrArg Packet.tlvs
    (packet_eq bgp peer cap writeable attr p safi source prd tag)
  rw [groups]
  change (main ++ as4PathTlvs cap writeable main sent ++ packetAs4Aggregator cap attr).filter isFour
    = _
  have first :
      main.filter isFour = [asPathTlv cap writeable sent] ++ packetAggregator cap attr := by
    have communities : (packetCommunities peer attr p safi).filter isFour = [] :=
      filter_ite _ (filter_variableLength rfl _)
    simp only [main, packetMain, List.filter_append, filter_packetOpening, filter_packetAggregator,
      communities, filter_packetMpReach, filter_packetExtCommunities, List.append_nil]
    exact (congrArg ([asPathTlv cap writeable sent] ++ packetAggregator cap attr ++ ·)
      (filter_packetReflector bgp peer attr source)).trans (List.append_nil _)
  rw [List.filter_append, List.filter_append, first, as4, as4Aggregator]

/-- Both encodings of the path fit what is left of the packet. -/
structure Fits : Prop where
  asPath : (wireOctets false (sentAspath bgp peer attr p.family safi).segments).length ≤
    writeable - 8
  as4Path :
    let sent := sentAspath bgp peer attr p.family safi
    let main := packetMain bgp peer cap writeable attr p safi source prd tag sent
    aspathHasAs4 sent = true →
      (wireOctets true (aspathDeleteConfedSeq sent).segments).length ≤
        writeable - (encodeAll main).length - 4

end Section

section Distinct

variable (cap : PeerCap) (writeable : Nat) (attr) (p : Prefix)
  (source : Option Peer) (prd tag : List U8)

/-- The types of the attributes the writer knows, in ascending order. -/
def packetTypes : List U8 :=
  [AttrType.origin, .asPath, .nextHop, .multiExitDisc, .localPref, .atomicAggregate, .aggregator,
    .communities, .originatorId, .clusterList, .mpReachNlri, .extCommunities, .as4Path,
    .as4Aggregator].map AttrType.code

theorem types_ite (condition : Bool) {tlvs : List Tlv} {types : List U8}
    (among : (tlvs.map Tlv.type).Sublist types) :
    ((if condition then tlvs else []).map Tlv.type).Sublist types := by
  cases condition
  · exact List.nil_sublist _
  · exact among

theorem types_variableLength (type : AttrType) (body : List U8) :
    ([variableLength type body].map Tlv.type).Sublist [type.code] := by
  unfold variableLength
  split <;> exact List.Sublist.refl _

/-- The writer emits its types in order. -/
theorem packet_types_among :
    ((bgpPacketAttribute bgp peer cap writeable attr p safi source prd tag).tlvs.map
      Tlv.type).Sublist packetTypes := by
  have reflector : ((match source with
      | some source => if reflects bgp source peer then packetReflector bgp source attr else []
      | none => []).map Tlv.type).Sublist [AttrType.originatorId.code,
            AttrType.clusterList.code] := by
    rcases source with _ | source
    · exact List.nil_sublist _
    · exact types_ite _ (List.Sublist.refl _)
  have aggregator : ((packetAggregator cap attr).map Tlv.type).Sublist
      [AttrType.aggregator.code] := by
    unfold packetAggregator
    refine types_ite _ ?_
    split <;> exact List.Sublist.refl _
  have mpReach : ((packetMpReach attr p safi prd tag).map Tlv.type).Sublist
      [AttrType.mpReachNlri.code] := by
    unfold packetMpReach
    split <;> first | exact List.Sublist.refl _ | exact List.nil_sublist _
  have extCommunities : ((packetExtCommunities bgp peer attr p safi).map Tlv.type).Sublist
      [AttrType.extCommunities.code] := by
    unfold packetExtCommunities
    refine types_ite _ ?_
    dsimp only
    split
    · exact types_variableLength ..
    · split
      · exact List.nil_sublist _
      · exact types_variableLength ..
  have opening : ((packetOpening peer cap writeable attr p safi
      (sentAspath bgp peer attr p.family safi)).map Tlv.type).Sublist
      ([AttrType.origin.code, AttrType.asPath.code] ++ [AttrType.nextHop.code]
        ++ [AttrType.multiExitDisc.code] ++ [AttrType.localPref.code]
        ++ [AttrType.atomicAggregate.code]) := by
    unfold packetOpening
    simp only [List.map_append]
    exact ((((List.Sublist.refl _).append (types_ite _ (List.Sublist.refl _))).append
      (types_ite _ (List.Sublist.refl _))).append (types_ite _ (List.Sublist.refl _))).append
      (types_ite _ (List.Sublist.refl _))
  have communities : ((packetCommunities peer attr p safi).map Tlv.type).Sublist
      [AttrType.communities.code] := types_ite _ (types_variableLength ..)
  have as4Path : ((as4PathTlvs cap writeable (packetMain bgp peer cap writeable attr p safi source
      prd tag (sentAspath bgp peer attr p.family safi)) (sentAspath bgp peer attr p.family
      safi)).map Tlv.type).Sublist [AttrType.as4Path.code] := types_ite _ (List.Sublist.refl _)
  have as4Aggregator : ((packetAs4Aggregator cap attr).map Tlv.type).Sublist
      [AttrType.as4Aggregator.code] := types_ite _ (List.Sublist.refl _)
  have all := (((((((opening.append aggregator).append communities).append reflector).append
    mpReach).append extCommunities).append as4Path).append as4Aggregator)
  simp only [← List.map_append] at all
  exact all

/-- The writer emits every type at most once. -/
theorem packet_types_nodup :
    ((bgpPacketAttribute bgp peer cap writeable attr p safi source prd tag).tlvs.map
      Tlv.type).Nodup := by
  have distinct : packetTypes.Nodup := by decide
  exact distinct.sublist (packet_types_among ..)

end Distinct

/-- `BGP_MAX_PACKET_SIZE`. -/
def bgpMaxPacketSize : Nat := 4096

/-- A path that fits is put whole, and its size is reported right. -/
theorem sized_put {sent : Aspath} {use32bit : Bool} {room : Nat} (normal : Normal sent.segments)
    (short : ∀ seg ∈ sent.segments, seg.as.length ≤ 510)
    (fits : (wireOctets use32bit sent.segments).length ≤ room) (small : room < 65536)
    (flag : U8) (extended : FlagWord.check flag attrFlagExtlen = true) (type : AttrType) :
    let put := aspathPut room sent use32bit
    (sized flag type put.bytes put.octets).body = wireOctets use32bit sent.segments ∧
      (sized flag type put.bytes put.octets).Framed := by
  intro put
  have octets : put.octets = wireOctets use32bit sent.segments :=
    aspathPut_octets use32bit room sent normal short fits
  have bytes : put.bytes = put.octets.length := aspathPut_exact room sent use32bit short
  have limited : put.bytes < 65536 := by
    rw [bytes, octets]
    omega
  exact ⟨octets, bytes, limited.trans_eq (if_pos extended).symm⟩

/-- An attribute of a fixed size is framed. -/
theorem sized_framed {flag : U8} (plain : FlagWord.check flag attrFlagExtlen = false) {length : Nat}
    (small : length < 256) {body : List U8} (exact_ : length = body.length) (type : AttrType) :
    (sized flag type length body).Framed :=
  ⟨exact_, small.trans_eq (if_neg (Bool.eq_false_iff.mp plain)).symm⟩

/-- The two-octet aggregator as it is read back. -/
def shownAggregator (attr : Attr) : Option (U32 × U32) :=
  (aggregatorOf attr).map fun (as, address) =>
    (if as > bgpAsMax then bgpAsTrans.setWidth 32 else as, address)

theorem carry_aggregator (t : Transition) (flag : U8) (word : U16) (address : U32) :
    carry t (sized flag .aggregator 6 (putw word ++ putl address)) =
      { t with aggregator := some (word.setWidth 32, address) } := by
  have behind : (putw word ++ putl address).drop 2 = putl address := rfl
  simp [carry, sized, AttrType.code, behind]

theorem carry_as4Aggregator (t : Transition) (flag : U8) (as address : U32) :
    carry t (sized flag .as4Aggregator 8 (putl as ++ putl address)) =
      { t with as4Aggregator := some (as, address) } := by
  have behind : (putl as ++ putl address).drop 4 = putl address := rfl
  simp [carry, sized, AttrType.code, behind]

theorem carry_packetAggregator {cap : PeerCap} (old : cap.as4Rcv = false) (attr : Attr)
    (t : Transition) (missing : t.aggregator = none) :
    (packetAggregator cap attr).foldl carry t = { t with aggregator := shownAggregator attr } := by
  obtain ⟨aspath, as4Path, aggregator, as4Aggregator⟩ := t
  obtain rfl : aggregator = none := missing
  unfold packetAggregator shownAggregator aggregatorOf
  by_cases flagged : attr.has .aggregator = true
  · simp only [flagged, if_true, old, Bool.false_eq_true, if_false, List.foldl_cons,
      List.foldl_nil, Option.map_some]
    by_cases large : (attr.extra.getD .zero).aggregatorAs > bgpAsMax
    · rw [if_pos large, if_pos large, carry_aggregator]
    · rw [if_neg large, if_neg large, carry_aggregator]
      have whole : ((attr.extra.getD .zero).aggregatorAs.setWidth 16).setWidth 32 =
          (attr.extra.getD .zero).aggregatorAs := by
        have bound : (attr.extra.getD .zero).aggregatorAs.toNat ≤ 65535 := BitVec.not_lt.mp large
        apply BitVec.eq_of_toNat_eq
        simp only [BitVec.toNat_setWidth]
        omega
      rw [whole]
  · simp [flagged]

theorem carry_packetAs4Aggregator {cap : PeerCap} (old : cap.as4Rcv = false) (attr : Attr)
    (t : Transition) (missing : t.as4Aggregator = none) :
    (packetAs4Aggregator cap attr).foldl carry t =
      { t with as4Aggregator := (aggregatorOf attr).filter fun four => bgpAsMax < four.1 } := by
  obtain ⟨aspath, as4Path, aggregator, as4Aggregator⟩ := t
  obtain rfl : as4Aggregator = none := missing
  unfold packetAs4Aggregator aggregatorOf
  by_cases flagged : attr.has .aggregator = true
  · by_cases large : (attr.extra.getD .zero).aggregatorAs > bgpAsMax
    · have within : bgpAsMax < (attr.extra.getD .zero).aggregatorAs := large
      simp [flagged, old, within, carry_as4Aggregator, Option.filter]
    · have within : ¬ bgpAsMax < (attr.extra.getD .zero).aggregatorAs := large
      simp [flagged, old, within, Option.filter]
  · simp [flagged]

/-- The aggregators of a section merge into the one that was sent. -/
theorem aggregator_comes_back (attr : Attr) (t : Transition)
    (two : t.aggregator = shownAggregator attr)
    (four : t.as4Aggregator = (aggregatorOf attr).filter fun four => bgpAsMax < four.1) :
    Agrees t ∧ (t.as4Aggregator.orElse fun _ => t.aggregator) = aggregatorOf attr := by
  unfold Agrees
  rw [two, four]
  unfold shownAggregator
  rcases aggregatorOf attr with _ | ⟨as, address⟩
  · exact ⟨nofun, rfl⟩
  · by_cases large : bgpAsMax < as
    · simp [Option.filter, large]
    · simp [Option.filter, large]

/-! ## There and back -/

section RoundTrip

variable {cap : PeerCap} {writeable : Nat} {p : Prefix} (source : Option Peer) (prd tag : List U8)

-- the receiver's half: its own configuration, and a neighbour without the capability
variable (bgp' : Bgp) (peer' : Peer) {cap' : PeerCap}

theorem asPathTlv_spec (old : cap.as4Rcv = false) (room : writeable ≤ bgpMaxPacketSize)
    (present : attr.aspath = some path) (encodable : Encodable asSegmentMax path.segments)
    (fits : Fits bgp peer attr safi cap writeable p source prd tag) :
    let sent := sentAspath bgp peer attr p.family safi
    (asPathTlv cap writeable sent).Framed ∧
      (asPathTlv cap writeable sent).body = wireOctets false sent.segments := by
  intro sent
  obtain ⟨normal, _, short⟩ := sentAspath_sound bgp peer p.family safi present encodable
  have limit : writeable - 8 < 65536 := by
    unfold bgpMaxPacketSize at room
    omega
  unfold asPathTlv
  rw [old]
  exact (sized_put normal short fits.asPath limit _ (by decide) .asPath).symm

theorem as4PathTlv_spec (room : writeable ≤ bgpMaxPacketSize)
    (present : attr.aspath = some path) (encodable : Encodable asSegmentMax path.segments)
    (fits : Fits bgp peer attr safi cap writeable p source prd tag) :
    let sent := sentAspath bgp peer attr p.family safi
    let main := packetMain bgp peer cap writeable attr p safi source prd tag sent
    let tlv := packetAs4Path (writeable - (encodeAll main).length - 4) (aspathDeleteConfedSeq sent)
    aspathHasAs4 sent = true →
      tlv.Framed ∧ tlv.body = wireOctets true (aspathDeleteConfedSeq sent).segments := by
  intro sent main tlv large
  obtain ⟨normal, short⟩ := sentAspath_stripped bgp peer p.family safi present encodable
  have limit : writeable - (encodeAll main).length - 4 < 65536 := by
    unfold bgpMaxPacketSize at room
    omega
  exact (sized_put normal short (fits.as4Path large) limit _ (by decide) .as4Path).symm

/-- The receiver reads each of the four. -/
theorem four_read (old : cap.as4Rcv = false) (room : writeable ≤ bgpMaxPacketSize)
    (present : attr.aspath = some path) (encodable : Encodable asSegmentMax path.segments)
    (member : peerSort bgp peer = .confed → peer.localAs ≤ bgpAsMax)
    (fits : Fits bgp peer attr safi cap writeable p source prd tag) (old' : cap'.as4Rcv = false) :
    ∀ tlv ∈ (bgpPacketAttribute bgp peer cap writeable attr p safi source prd tag).tlvs,
      isFour tlv = true → tlv.Framed ∧ Reads bgp' peer' cap' tlv := by
  intro tlv inside four
  have among := List.mem_filter.mpr ⟨inside, four⟩
  rw [filter_packet] at among
  obtain ⟨two, parsed, _, large⟩ := sentAspath_comes_back bgp peer p.family safi present
    encodable member
  simp only [List.mem_append] at among
  rcases among with ((path | aggregator) | as4Path) | as4Aggregator
  · obtain rfl := List.mem_singleton.mp path
    obtain ⟨framed, body⟩ :=
      asPathTlv_spec bgp peer safi source prd tag old room present encodable fits
    exact ⟨framed, reads_asPath bgp' peer' cap' old' rfl rfl (body ▸ parsed)⟩
  · unfold packetAggregator at aggregator
    simp only [old, Bool.false_eq_true, if_false, List.mem_ite_nil_right,
      List.mem_singleton] at aggregator
    obtain ⟨_, rfl⟩ := aggregator
    have framed (word : U16) (address : U32) :
        (sized (FlagWord.set attrFlagOptional attrFlagTrans) .aggregator 6
          (putw word ++ putl address)).Framed := by
      have length : 6 = (putw word ++ putl address).length := rfl
      exact sized_framed (by decide) (by decide) length .aggregator
    split
    · exact ⟨framed _ _, reads_aggregator bgp' peer' cap' old' rfl rfl⟩
    · exact ⟨framed _ _, reads_aggregator bgp' peer' cap' old' rfl rfl⟩
  · unfold as4PathTlvs at as4Path
    simp only [old, Bool.not_false, Bool.true_and, List.mem_ite_nil_right,
      List.mem_singleton] at as4Path
    obtain ⟨needed, rfl⟩ := as4Path
    obtain ⟨framed, body⟩ := as4PathTlv_spec bgp peer safi source prd tag room present encodable
      fits needed
    obtain ⟨four, read, _⟩ := large needed
    exact ⟨framed, reads_as4Path bgp' peer' cap' rfl rfl (body ▸ read)⟩
  · unfold packetAs4Aggregator at as4Aggregator
    simp only [List.mem_ite_nil_right, List.mem_singleton] at as4Aggregator
    obtain ⟨_, rfl⟩ := as4Aggregator
    have length : 8 = (putl (attr.extra.getD .zero).aggregatorAs
        ++ putl (attr.extra.getD .zero).aggregatorAddr).length := rfl
    exact ⟨sized_framed (by decide) (by decide) length _,
      reads_as4Aggregator bgp' peer' cap' rfl rfl⟩

/-- What the four leave, whatever order they come in. -/
theorem four_carried (old : cap.as4Rcv = false) (room : writeable ≤ bgpMaxPacketSize)
    (present : attr.aspath = some path) (encodable : Encodable asSegmentMax path.segments)
    (member : peerSort bgp peer = .confed → peer.localAs ≤ bgpAsMax)
    (fits : Fits bgp peer attr safi cap writeable p source prd tag) (t : Transition)
    (carried : (bgpPacketAttribute bgp peer cap writeable attr p safi source prd tag).tlvs.foldl
      carry ⟨none, none, none, none⟩ = t) :
    (∃ two, t.aspath = some two ∧
      (t.as4Path.map (aspathReconcileAs4 two)).getD two = sentAspath bgp peer attr p.family safi) ∧
      Agrees t ∧ (t.as4Aggregator.orElse fun _ => t.aggregator) = aggregatorOf attr := by
  obtain ⟨two, parsed, small, large⟩ := sentAspath_comes_back bgp peer p.family safi present
    encodable member
  have body := (asPathTlv_spec bgp peer safi source prd tag old room present encodable fits).2
  have body4 := as4PathTlv_spec bgp peer safi source prd tag room present encodable fits
  rw [foldl_carry_filter, filter_packet] at carried
  generalize sentAspath bgp peer attr p.family safi = sent at *
  have first : carry ⟨none, none, none, none⟩ (asPathTlv cap writeable sent) =
      ⟨some two, none, none, none⟩ := by
    rw [← parsed, ← body]
    rfl
  rw [List.foldl_append, List.foldl_append, List.foldl_append, List.foldl_cons, List.foldl_nil,
    first, carry_packetAggregator old attr _ rfl] at carried
  -- the four-octet path is there exactly when an AS number is too large for two octets
  by_cases needed : aspathHasAs4 sent = true
  · obtain ⟨four, read, merged⟩ := large needed
    have second (main : List Tlv) (t : Transition)
        (body : (packetAs4Path (writeable - (encodeAll main).length - 4)
          (aspathDeleteConfedSeq sent)).body = wireOctets true
            (aspathDeleteConfedSeq sent).segments) :
        (as4PathTlvs cap writeable main sent).foldl carry t = { t with as4Path := some four } := by
      unfold as4PathTlvs
      rw [old, needed, Bool.not_false, Bool.true_and, if_pos rfl, List.foldl_cons, List.foldl_nil,
        ← read, ← body]
      rfl
    rw [second _ _ (body4 needed).2, carry_packetAs4Aggregator old attr _ rfl] at carried
    subst carried
    exact ⟨⟨two, rfl, merged⟩, aggregator_comes_back attr _ rfl rfl⟩
  · have none (main : List Tlv) : as4PathTlvs cap writeable main sent = [] := by
      unfold as4PathTlvs
      rw [Bool.eq_false_iff.mpr needed, Bool.and_false]
      rfl
    rw [none, List.foldl_nil, carry_packetAs4Aggregator old attr _ rfl] at carried
    subst carried
    exact ⟨⟨two, rfl, small (Bool.eq_false_iff.mpr needed)⟩, aggregator_comes_back attr _ rfl rfl⟩

/-- The path an accepted section leaves: a changed local AS is put in front of
what came. -/
def keptPath (peer : Peer) (path : Aspath) : Aspath :=
  if peer.changeLocalAs ≠ 0 ∧ !peer.localAsNoPrepend then aspathAddSeq path peer.changeLocalAs
  else path

theorem bgpAttrAspathCheck_kept (st final : ParseState) {sent : Aspath}
    (stored : st.attr.aspath = some sent)
    (accepted : bgpAttrAspathCheck bgp' peer' st = (final, .proceed)) :
    final.attr.aspath = some (keptPath peer' sent) ∧
      aggregatorOf final.attr = aggregatorOf st.attr := by
  have refused (flag : U8) : (bgpAttrMalformed bgp' peer' AttrType.asPath.code flag
      notifyUpdateMalAsPath [] st).2 ≠ .proceed := by
    unfold bgpAttrMalformed
    split
    · nofun
    · rw [AttrType.ofCode_code]
      nofun
  unfold bgpAttrAspathCheck at accepted
  dsimp only at accepted
  unfold keptPath
  split at accepted
  · exact absurd (congrArg Prod.snd accepted) (refused _)
  · split at accepted
    · exact absurd (congrArg Prod.snd accepted) (refused _)
    · split at accepted
      · rename_i changed
        cases accepted
        rw [if_pos changed, stored]
        exact ⟨rfl, rfl⟩
      · rename_i changed
        cases accepted
        rw [if_neg changed]
        exact ⟨stored, rfl⟩

/-- Unknown attributes do not repeat a type that the writer knows. -/
theorem order_nodup {unknown order : List Tlv}
    (unhandled : ∀ tlv ∈ unknown, AttrType.ofCode tlv.type = none)
    (distinct : (unknown.map Tlv.type).Nodup)
    (permuted : order.Perm
      ((bgpPacketAttribute bgp peer cap writeable attr p safi source prd tag).tlvs ++ unknown)) :
    (order.map Tlv.type).Nodup := by
  refine (permuted.map Tlv.type).nodup_iff.mpr ?_
  rw [List.map_append, List.nodup_append]
  refine ⟨packet_types_nodup .., distinct, ?_⟩
  rintro type known _ strange rfl
  obtain ⟨tlv, inside, named⟩ := List.mem_map.mp strange
  have handled : ∀ code ∈ packetTypes, (AttrType.ofCode code).isSome := by decide
  have among := (packet_types_among bgp peer attr safi cap writeable p source prd tag).subset known
  have missing := unhandled tlv inside
  rw [named] at missing
  have found := handled type among
  rw [missing] at found
  cases found

/-- A parse starts without any of the four. -/
theorem transition_start (localMed : U32) :
    transition (.start localMed) = ⟨none, none, none, none⟩ := by
  have unflagged (type : AttrType) : Attr.zero.has type = false := by cases type <;> decide
  simp [transition, aggregatorOf, ParseState.start, unflagged]

end RoundTrip

/-- A route with an aggregator in an AS with a large number. -/
def aggregated (segments : List Assegment) : Attr :=
  { (bgpAttrDefaultSet bgpOriginIgp).mark .aggregator with
    aspath := some ⟨segments⟩
    nexthop := 0x0A000002
    extra := some { AttrExtra.zero with aggregatorAs := 80000, aggregatorAddr := 0x0A000001 } }

/-- The packet for a neighbour, with what is left of it behind the header and
the two lengths. -/
def packetFor (bgp : Bgp) (peer : Peer) (segments : List Assegment) : Packet :=
  bgpPacketAttribute bgp peer {} 4073 (aggregated segments) (.mk .ip [] (by decide)) .unicast none
    [] []

/-- A receiver in an AS of its own reads the attributes beside the four. -/
theorem others_read {tlv : Tlv}
    (inside : tlv ∈ (packetFor (.plain 65001 1) (.plain 2 65002 65001)
      [⟨.asSequence, [70000, 3]⟩]).tlvs)
    (other : isFour tlv = false) : tlv.Framed ∧
      ∀ st, (bgpAttrRead (.plain 65002 2) (.plain 3 65001 65002) {} tlv st).2 = none := by
  have among := (List.mem_filter (p := fun tlv => !isFour tlv)).mpr ⟨inside, by simp [other]⟩
  have rest : ((packetFor (.plain 65001 1) (.plain 2 65002 65001)
      [⟨.asSequence, [70000, 3]⟩]).tlvs.filter fun tlv => !isFour tlv) =
        [.wellKnown .origin [0], .wellKnown .nextHop (putl 0x0A000002),
          .wellKnown .multiExitDisc (putl 0), .wellKnown .localPref (putl 0)] := by decide
  rw [rest] at among
  simp only [List.mem_cons, List.not_mem_nil, or_false] at among
  rcases among with rfl | rfl | rfl | rfl
  · exact ⟨by decide, fun _ => rfl⟩
  · exact ⟨by decide, fun _ => rfl⟩
  · exact ⟨by decide, fun _ => rfl⟩
  · refine ⟨by decide, fun st => ?_⟩
    have turn : bgpAttrHandle (.plain 65002 2) (.plain 3 65001 65002) {}
        (.wellKnown .localPref (putl 0)) st =
        if st.localMed = 0 then
          accepted .localPref { st with localMed := 0 }
            { st.attr with localPref := 0, med := st.attr.med + 0 } 4
        else accepted .localPref st { st.attr with localPref := 0 } 4 := rfl
    unfold bgpAttrRead
    rw [turn]
    split <;> rfl

/-- Eight full sequences and sets in turn, more than a packet holds. -/
def crowded : List Assegment :=
  (List.replicate 8 [⟨.asSequence, List.replicate 255 5⟩, ⟨.asSet, [6]⟩]).flatten

/-- A member AS whose own number needs four octets, and its neighbour in the
next member AS. -/
def largeMember : Bgp :=
  { Bgp.plain 70000 1 with confederation := true, confedId := 100, confedPeers := [65002] }

def nextMember : Bgp :=
  { Bgp.plain 65002 2 with confederation := true, confedId := 100, confedPeers := [70000] }

/-- The path that comes out of the packet at a neighbour. -/
def pathRead (sender receiver : Bgp) (segments : List Assegment) : Option Aspath × ParseRet :=
  let packet := packetFor sender (.plain 2 receiver.as sender.as) segments
  let (final, ret) := bgpAttrParse receiver (.plain 3 sender.as receiver.as) {} 0 packet.encode
  (final.attr.aspath, ret)

end Bgpd.As4RoundTrip
