import Bgpd.Announce
import Bgpd.SharedAttrs

/-!
# Writing attributes in place

`bgp_packet_attribute` on attributes in memory. It copies the AS path where it
puts an AS number in front, and frees the copy at the end; towards every other
neighbour it works on the path of the attributes itself. For a neighbour
without four-octet AS numbers it takes the confederation segments off whichever
path it works on, and so off the shared path in the second case.
-/

namespace Bgpd.Encoding

open Octets Prefixes AsPath Attributes Neighbors AttrParse AttrSection Announce
open Interning PathStore SharedAttrs

variable (bgp : Bgp) (peer : Peer) (cap : PeerCap)

/-! ## The attributes in groups -/

/-- Everything up to the atomic aggregate, around the path to send. -/
def packetOpening (writeable : Nat) (attr : Attr) (p : Prefix) (safi : Safi) (sent : Aspath) :
    List Tlv :=
  let path := aspathPut (writeable - 8) sent cap.as4Rcv
  let nexthop :=
    if safi = .mplsVpn ∧ attr.nexthop = 0 then peer.nexthopV4 else attr.nexthop
  [.wellKnown .origin [attr.origin],
    sized (FlagWord.set attrFlagTrans attrFlagExtlen) .asPath path.bytes path.octets]
  ++ (if attr.has .nextHop && p.family = .ip then [.wellKnown .nextHop (putl nexthop)] else [])
  ++ (if attr.has .multiExitDisc then [.wellKnown .multiExitDisc (putl attr.med)] else [])
  ++ (if attr.has .localPref then [.wellKnown .localPref (putl attr.localPref)] else [])
  ++ (if attr.has .atomicAggregate then [.wellKnown .atomicAggregate []] else [])

/-- The aggregator, with `AS_TRANS` in place of a large AS number. -/
def packetAggregator (attr : Attr) : List Tlv :=
  let extra := attr.extra.getD .zero
  let optionalTrans := FlagWord.set attrFlagOptional attrFlagTrans
  if attr.has .aggregator then
    [if cap.as4Rcv then
      sized optionalTrans .aggregator 8 (putl extra.aggregatorAs ++ putl extra.aggregatorAddr)
    else
      sized optionalTrans .aggregator 6
        ((if extra.aggregatorAs > bgpAsMax then putw bgpAsTrans
          else putw (extra.aggregatorAs.setWidth 16)) ++ putl extra.aggregatorAddr)]
  else []

/-- The communities, if the neighbour is to see them. -/
def packetCommunities (attr : Attr) (p : Prefix) (safi : Safi) : List Tlv :=
  if (peer.afFlags p.family safi).sendCommunity && attr.has .communities then
    [variableLength .communities ((attr.community.getD []).flatMap putl)]
  else []

/-- The extended communities, outside the AS only the transitive ones. -/
def packetExtCommunities (attr : Attr) (p : Prefix) (safi : Safi) : List Tlv :=
  let extra := attr.extra.getD .zero
  if (peer.afFlags p.family safi).sendExtCommunity && attr.has .extCommunities then
    let all := extra.ecommunity.getD []
    if peerSort bgp peer = .ibgp ∨ peerSort bgp peer = .confed then
      [variableLength .extCommunities (all.flatMap putEcommunity)]
    else
      let transitive := all.filter fun value => !value.getLsbD 62
      if transitive = [] then []
      else [variableLength .extCommunities (transitive.flatMap putEcommunity)]
  else []

/-- Everything up to the four-octet path. -/
def packetMain (writeable : Nat) (attr : Attr) (p : Prefix) (safi : Safi) (source : Option Peer)
    (prd tag : List U8) (sent : Aspath) : List Tlv :=
  packetOpening peer cap writeable attr p safi sent
  ++ packetAggregator cap attr
  ++ packetCommunities peer attr p safi
  ++ (match source with
    | some source => if reflects bgp source peer then packetReflector bgp source attr else []
    | none => [])
  ++ packetMpReach attr p safi prd tag
  ++ packetExtCommunities bgp peer attr p safi

/-- The four-octet path. -/
def packetAs4Path (room : Nat) (as4path : Aspath) : Tlv :=
  let optionalTrans := FlagWord.set attrFlagOptional attrFlagTrans
  let put := aspathPut room as4path true
  sized (FlagWord.set optionalTrans attrFlagExtlen) .as4Path put.bytes put.octets

/-- The four-octet aggregator. -/
def packetAs4Aggregator (attr : Attr) : List Tlv :=
  let extra := attr.extra.getD .zero
  if attr.has .aggregator && !cap.as4Rcv && extra.aggregatorAs > bgpAsMax then
    [sized (FlagWord.set attrFlagOptional attrFlagTrans) .as4Aggregator 8
      (putl extra.aggregatorAs ++ putl extra.aggregatorAddr)]
  else []

/-! ## The writer -/

/-- The path to send: a private copy with AS numbers in front of it, or the
path of the attributes itself. -/
def sendAspath (s : Paths) (aspath : Nat) (afi : Afi) (safi : Safi) : Option (Nat × Paths) := do
  let data ← s.store.read aspath
  let flags := peer.afFlags afi safi
  if peerSort bgp peer = .ebgp ∧ (!flags.asPathUnchanged ∨ data.path.segments = [])
      ∧ !flags.rserverClient then
    let (copy, s) ← aspathDup s aspath
    if bgp.confederation then
      let s ← PathStore.aspathDeleteConfedSeq s copy
      let s ← PathStore.aspathAddSeq s copy bgp.confedId
      return (copy, s)
    else
      let s ← PathStore.aspathAddSeq s copy peer.localAs
      if peer.changeLocalAs ≠ 0 then
        let s ← PathStore.aspathAddSeq s copy peer.changeLocalAs
        return (copy, s)
      else return (copy, s)
  else if peerSort bgp peer = .confed then
    let (copy, s) ← aspathDup s aspath
    let s ← PathStore.aspathAddConfedSeq s copy peer.localAs
    return (copy, s)
  else return (aspath, s)

/-- `bgp_packet_attribute` on attributes in memory. The other objects are only
read. -/
def bgpPacketAttribute (writeable : Nat) (s : Objects) (attr : AttrRef) (p : Prefix) (safi : Safi)
    (source : Option Peer) (prd tag : List U8) : Option (Packet × Objects) := do
  let seen ← attr.resolve s
  let (aspath, paths) ← sendAspath bgp peer s.paths attr.aspath p.family safi
  let sent ← paths.store.read aspath
  let main := packetMain bgp peer cap writeable seen p safi source prd tag sent.path
  let sendAs4Path := !cap.as4Rcv && aspathHasAs4 sent.path
  let paths ← if sendAs4Path then PathStore.aspathDeleteConfedSeq paths aspath else some paths
  let as4path ← paths.store.read aspath
  let as4 := if sendAs4Path then
    [packetAs4Path (writeable - (encodeAll main).length - 4) as4path.path] else []
  let paths ← if aspath ≠ attr.aspath then aspathFree paths aspath else some paths
  let transit := ((seen.extra.getD .zero).transit).getD []
  return (⟨main ++ as4 ++ packetAs4Aggregator cap seen, transit⟩, { s with paths })

/-! ## When it works on a copy -/

/-- The path of the attributes is copied before anything is put in front. -/
def copies (path : Aspath) (afi : Afi) (safi : Safi) : Prop :=
  let flags := peer.afFlags afi safi
  (peerSort bgp peer = .ebgp ∧ (!flags.asPathUnchanged ∨ path.segments = [])
    ∧ !flags.rserverClient) ∨ peerSort bgp peer = .confed

/-- The path an AS number is put in front of first. -/
def extended (path : Aspath) : Aspath :=
  if peerSort bgp peer ≠ .confed ∧ bgp.confederation then AsPath.aspathDeleteConfedSeq path
  else path

/-- The shared path itself loses its confederation segments. -/
def EditsShared (path : Aspath) (afi : Afi) (safi : Safi) : Prop :=
  ¬ copies bgp peer path afi safi ∧ cap.as4Rcv = false ∧ aspathHasAs4 path = true
    ∧ startsConfed path.segments = true

/-- The copy starts with an empty segment whose followers are forgotten. -/
def LosesSegments (path : Aspath) (afi : Afi) (safi : Safi) : Prop :=
  copies bgp peer path afi safi ∧ orphaned (extended bgp peer path).segments ≠ []

section Path

variable {bgp peer cap} {s : Paths} {aspath : Nat} {data : PathData} {seen : Attr} {afi : Afi}
  {safi : Safi}

/-- On the copying branches the path to send is private, it is the path of the
value-level writer, and only followers of an empty first segment are lost. -/
theorem sendAspath_private (copied : copies bgp peer data.path afi safi)
    (read : s.store.read aspath = some data) (present : seen.aspath = some data.path) :
    ∃ copy t, sendAspath bgp peer s aspath afi safi = some (copy, t) ∧
      Private s copy (sentAspath bgp peer seen afi safi)
        (orphaned (extended bgp peer data.path).segments) t := by
  obtain ⟨copy, s₁, duplicated, made⟩ := aspathDup_private read
  unfold sendAspath sentAspath extended
  rw [read, present]
  simp only [Option.bind_eq_bind, Option.bind_some, Option.getD_some]
  by_cases outside : peerSort bgp peer = .ebgp ∧
      (!(peer.afFlags afi safi).asPathUnchanged ∨ data.path.segments = [])
      ∧ !(peer.afFlags afi safi).rserverClient
  · have notConfed : peerSort bgp peer ≠ .confed := by rw [outside.1]; exact nofun
    simp only [if_pos outside]
    by_cases confederation : bgp.confederation = true
    · obtain ⟨s₂, deleted, made⟩ := made.deleteConfedSeq
      obtain ⟨s₃, added, made⟩ := made.addOneAs bgp.confedId .asSequence
      refine ⟨copy, s₃, ?_, ?_⟩
      · simp [duplicated, confederation, deleted, PathStore.aspathAddSeq, added]
      · simpa [notConfed, confederation, AsPath.aspathAddSeq] using made
    · obtain ⟨s₂, added, made⟩ := made.addOneAs peer.localAs .asSequence
      simp only [if_neg confederation]
      by_cases changed : peer.changeLocalAs ≠ 0
      · simp only [if_pos changed]
        obtain ⟨s₃, added', made⟩ := made.addOneAs peer.changeLocalAs .asSequence
        refine ⟨copy, s₃, ?_, ?_⟩
        · simp [duplicated, PathStore.aspathAddSeq, added, added']
        · -- a second AS number goes in front of a segment that is not empty
          rw [orphaned_addOneAs] at made
          simpa [confederation, AsPath.aspathAddSeq] using made
      · simp only [if_neg changed]
        refine ⟨copy, s₂, ?_, ?_⟩
        · simp [duplicated, PathStore.aspathAddSeq, added]
        · simpa [confederation, AsPath.aspathAddSeq] using made
  · have inside : peerSort bgp peer = .confed := copied.resolve_left outside
    obtain ⟨s₂, added, made⟩ := made.addOneAs peer.localAs .asConfedSequence
    simp only [if_neg outside, if_pos inside]
    refine ⟨copy, s₂, ?_, ?_⟩
    · simp [duplicated, PathStore.aspathAddConfedSeq, added]
    · simpa [inside, AsPath.aspathAddConfedSeq] using made

/-- Towards every other neighbour the path of the attributes is sent itself. -/
theorem sendAspath_shared (kept : ¬ copies bgp peer data.path afi safi)
    (read : s.store.read aspath = some data) (present : seen.aspath = some data.path) :
    sendAspath bgp peer s aspath afi safi = some (aspath, s) ∧
      sentAspath bgp peer seen afi safi = data.path := by
  have outside := fun both => kept (Or.inl both)
  have inside := fun sort => kept (Or.inr sort)
  unfold sendAspath sentAspath
  rw [read, present]
  constructor
  · simp only [Option.bind_eq_bind, Option.bind_some]
    rw [if_neg outside, if_neg inside]
    rfl
  · simp only [Option.getD_some]
    rw [if_neg outside, if_neg inside]

end Path

/-! ## The octets -/

/-- The groups in their order are what the value-level writer writes. -/
theorem packet_eq (writeable : Nat) (attr : Attr) (p : Prefix) (safi : Safi) (source : Option Peer)
    (prd tag : List U8) :
    let sent := sentAspath bgp peer attr p.family safi
    let main := packetMain bgp peer cap writeable attr p safi source prd tag sent
    Announce.bgpPacketAttribute bgp peer cap writeable attr p safi source prd tag =
      ⟨main ++ (if !cap.as4Rcv && aspathHasAs4 sent then
          [packetAs4Path (writeable - (encodeAll main).length - 4)
            (AsPath.aspathDeleteConfedSeq sent)] else [])
        ++ packetAs4Aggregator cap attr, ((attr.extra.getD .zero).transit).getD []⟩ := by
  rfl

/-! ## What is left behind -/

section Frame

variable {bgp peer} (writeable : Nat) {s : Objects} {attr : AttrRef} {seen : Attr}
  {data : PathData} (p : Prefix) (safi : Safi) (source : Option Peer) (prd tag : List U8)

/-- On the copying branches the copy is freed again, and only the followers of
an empty first segment stay behind. -/
theorem bgpPacketAttribute_copied (copied : copies bgp peer data.path p.family safi)
    (reads : attr.resolve s = some seen) (read : s.paths.store.read attr.aspath = some data)
    (present : seen.aspath = some data.path) :
    ∃ paths, bgpPacketAttribute bgp peer cap writeable s attr p safi source prd tag =
        some (Announce.bgpPacketAttribute bgp peer cap writeable seen p safi source prd tag,
          { s with paths }) ∧
      Interning.Same s.paths.store paths.store ∧
      paths.lost = orphaned (extended bgp peer data.path).segments ++ s.paths.lost := by
  obtain ⟨copy, t, sending, made⟩ := sendAspath_private copied read present
  obtain ⟨sent, readSent, sentPath⟩ := made.read
  have apart : copy ≠ attr.aspath := (made.ne read).symm
  rw [packet_eq]
  unfold bgpPacketAttribute
  by_cases old : (!cap.as4Rcv && aspathHasAs4 (sentAspath bgp peer seen p.family safi)) = true
  · obtain ⟨t', deleted, made'⟩ := made.deleteConfedSeq
    obtain ⟨as4path, readAs4, as4Path⟩ := made'.read
    obtain ⟨paths, freed, same, lost⟩ := made'.free
    refine ⟨paths, ?_, same, lost⟩
    simp only [Option.bind_eq_bind, reads, sending, readSent, sentPath, Option.bind_some,
      if_pos old, deleted, readAs4, as4Path, if_pos apart, freed]
    rfl
  · obtain ⟨paths, freed, same, lost⟩ := made.free
    refine ⟨paths, ?_, same, lost⟩
    simp only [Option.bind_eq_bind, reads, sending, readSent, sentPath, Option.bind_some,
      if_neg old, if_pos apart, freed]
    rfl

/-- On the other branches only the path of the attributes can change: a
neighbour without four-octet AS numbers has its confederation segments deleted
in place. -/
theorem bgpPacketAttribute_kept (kept : ¬ copies bgp peer data.path p.family safi)
    (reads : attr.resolve s = some seen) (read : s.paths.store.read attr.aspath = some data)
    (present : seen.aspath = some data.path) :
    ∃ paths edited, bgpPacketAttribute bgp peer cap writeable s attr p safi source prd tag =
        some (Announce.bgpPacketAttribute bgp peer cap writeable seen p safi source prd tag,
          { s with paths }) ∧
      paths.store.read attr.aspath = some edited ∧
      ((!cap.as4Rcv && aspathHasAs4 data.path) = true →
        edited.path = AsPath.aspathDeleteConfedSeq data.path) ∧
      (¬ ((!cap.as4Rcv && aspathHasAs4 data.path) = true ∧
        startsConfed data.path.segments = true) → paths = s.paths) := by
  obtain ⟨sending, sent⟩ := sendAspath_shared (s := s.paths) kept read present
  rw [packet_eq]
  unfold bgpPacketAttribute
  simp only [Option.bind_eq_bind, reads, sending, sent, Option.bind_some, read, ne_eq,
    not_true_eq_false, if_false]
  by_cases old : (!cap.as4Rcv && aspathHasAs4 data.path) = true
  · obtain ⟨paths, edited, deleted, readBack, editedPath, other⟩ :=
      aspathDeleteConfedSeq_read read
    refine ⟨paths, edited, ?_, readBack, fun _ => editedPath, fun untouched => ?_⟩
    · simp only [if_pos old, deleted, Option.bind_some, readBack, editedPath]
      rfl
    · exact other (Bool.eq_false_iff.mpr fun starts => untouched ⟨old, starts⟩)
  · refine ⟨s.paths, data, ?_, read, fun needed => absurd needed old, fun _ => rfl⟩
    simp only [if_neg old]
    rfl

/-- The objects with other paths that are the same. -/
theorem same_of_paths {paths : Paths} (same : s.paths.Same paths) : s.Same { s with paths } :=
  { Objects.Same.refl s with paths := same }

/-- Where nothing shared is edited and nothing forgotten, every object stays as
it was. -/
theorem bgpPacketAttribute_same (reads : attr.resolve s = some seen)
    (read : s.paths.store.read attr.aspath = some data)
    (careful : ¬ EditsShared bgp peer cap data.path p.family safi)
    (keeps : ¬ LosesSegments bgp peer data.path p.family safi) :
    ∃ t, bgpPacketAttribute bgp peer cap writeable s attr p safi source prd tag =
        some (Announce.bgpPacketAttribute bgp peer cap writeable seen p safi source prd tag, t) ∧
      s.Same t := by
  obtain ⟨data', read', present⟩ := AttrRef.resolve_path reads
  obtain rfl : data = data' := Option.some.inj (read.symm.trans read')
  by_cases copied : copies bgp peer data.path p.family safi
  · obtain ⟨paths, encodes, same, lost⟩ :=
      bgpPacketAttribute_copied cap writeable p safi source prd tag copied reads read present
    have none : orphaned (extended bgp peer data.path).segments = [] := by
      by_contra some
      exact keeps ⟨copied, some⟩
    rw [none] at lost
    exact ⟨_, encodes, same_of_paths ⟨same, lost⟩⟩
  · obtain ⟨paths, edited, encodes, _, _, unedited⟩ :=
      bgpPacketAttribute_kept cap writeable p safi source prd tag copied reads read present
    have same : paths = s.paths := unedited fun ⟨needed, starts⟩ => careful
      ⟨copied, by simpa using (Bool.and_eq_true_iff.mp needed).1,
        (Bool.and_eq_true_iff.mp needed).2, starts⟩
    exact ⟨_, encodes, same_of_paths (same ▸ Paths.Same.refl _)⟩

/-- Where every object stays as it was, nothing shared was edited and nothing
was forgotten. -/
theorem careful_of_same (reads : attr.resolve s = some seen)
    (read : s.paths.store.read attr.aspath = some data) {t : Objects} {packet : Packet}
    (encodes : bgpPacketAttribute bgp peer cap writeable s attr p safi source prd tag =
      some (packet, t)) (same : s.Same t) :
    ¬ EditsShared bgp peer cap data.path p.family safi ∧
      ¬ LosesSegments bgp peer data.path p.family safi := by
  obtain ⟨data', read', present⟩ := AttrRef.resolve_path reads
  obtain rfl : data = data' := Option.some.inj (read.symm.trans read')
  by_cases copied : copies bgp peer data.path p.family safi
  · obtain ⟨paths, encodes', _, lost⟩ :=
      bgpPacketAttribute_copied cap writeable p safi source prd tag copied reads read present
    cases encodes.symm.trans encodes'
    have none : orphaned (extended bgp peer data.path).segments = [] :=
      List.append_left_eq_self.mp (lost.symm.trans same.paths.lost)
    exact ⟨fun edits => edits.1 copied, fun loses => loses.2 none⟩
  · obtain ⟨paths, edited, encodes', readBack, editedPath, _⟩ :=
      bgpPacketAttribute_kept cap writeable p safi source prd tag copied reads read present
    cases encodes.symm.trans encodes'
    refine ⟨?_, fun loses => copied loses.1⟩
    rintro ⟨_, old, large, starts⟩
    rw [same.paths.store.read, read] at readBack
    cases readBack
    exact aspathDeleteConfedSeq_ne starts (editedPath (by rw [old, large]; rfl)).symm

/-- `bgp_packet_attribute` returns the packet of the value-level writer and
leaves every object as it was if and only if it neither edits the shared path
nor forgets the followers of an empty first segment. -/
theorem encoding_preserves_iff (reads : attr.resolve s = some seen)
    (read : s.paths.store.read attr.aspath = some data) :
    (∃ t, bgpPacketAttribute bgp peer cap writeable s attr p safi source prd tag =
        some (Announce.bgpPacketAttribute bgp peer cap writeable seen p safi source prd tag, t) ∧
      s.Same t) ↔
    ¬ EditsShared bgp peer cap data.path p.family safi ∧
      ¬ LosesSegments bgp peer data.path p.family safi := by
  constructor
  · rintro ⟨t, encodes, same⟩
    exact careful_of_same cap writeable p safi source prd tag reads read encodes same
  · rintro ⟨careful, keeps⟩
    exact bgpPacketAttribute_same cap writeable p safi source prd tag reads read careful keeps

end Frame

/-- The shared path with these segments is the only object there is. -/
def onePath (segments : List Assegment) : Objects where
  paths :=
    ⟨Store.empty.put 0 (some ⟨1, segments, some (aspathMakeStrCount segments)⟩), []⟩
  communities := .empty
  ecommunities := .empty
  clusters := .empty
  transits := .empty

/-- Attributes with the path at an address and nothing else. -/
def pathOnly (aspath : Nat) : AttrRef where
  aspath := aspath
  community := none
  extra := none
  flag := 0
  nexthop := 0
  med := 0
  localPref := 100
  origin := 0

/-- A path through another member AS and an AS with a large number. -/
def throughConfed : List Assegment := [⟨.asConfedSequence, [65001]⟩, ⟨.asSequence, [70000]⟩]

/-- A member AS of a confederation, and its neighbour in the same AS. -/
def memberAs : Bgp := { Bgp.plain 65002 1 with confederation := true, confedId := 100 }

/-- Towards a neighbour of the same AS with four-octet AS numbers the path
stays. -/
theorem encoding_preserves_iff_member :
    let p : Prefix := .mk .ip [] (by decide)
    ∃ t, bgpPacketAttribute memberAs (Peer.plain 1 65002 65002) { as4Rcv := true } 4096
        (onePath throughConfed) (pathOnly 0) p .unicast none [] [] =
        some (Announce.bgpPacketAttribute memberAs (Peer.plain 1 65002 65002) { as4Rcv := true }
          4096 { Attr.zero with aspath := some ⟨throughConfed⟩, localPref := 100 } p .unicast none
          [] [], t) ∧ (onePath throughConfed).Same t :=
  (encoding_preserves_iff _ 4096 (.mk .ip [] (by decide)) .unicast none [] [] rfl rfl).mpr
    ⟨fun edits => Bool.noConfusion edits.2.1,
      fun loses => loses.2 rfl⟩

/-- Towards a neighbour of its own AS without four-octet AS numbers a member AS
deletes the confederation segments of the path it stores. -/
theorem shared_path_edited :
    let p : Prefix := .mk .ip [] (by decide)
    let s := onePath throughConfed
    ∃ packet t, bgpPacketAttribute memberAs (Peer.plain 1 65002 65002) {} 4096 s (pathOnly 0) p
        .unicast none [] [] = some (packet, t) ∧
      (s.paths.store.read 0).map (·.segments) = some throughConfed ∧
      (t.paths.store.read 0).map (·.segments) = some [⟨.asSequence, [70000]⟩] ∧ ¬ s.Same t := by
  intro p s
  rcases run : bgpPacketAttribute memberAs (Peer.plain 1 65002 65002) {} 4096 s (pathOnly 0) p
    .unicast none [] [] with _ | ⟨packet, t⟩
  · have returns : (bgpPacketAttribute memberAs (Peer.plain 1 65002 65002) {} 4096 s (pathOnly 0) p
        .unicast none [] []).isSome = true := by decide
    rw [run] at returns
    cases returns
  · have after : ((bgpPacketAttribute memberAs (Peer.plain 1 65002 65002) {} 4096 s (pathOnly 0) p
        .unicast none [] []).bind fun result => (result.2.paths.store.read 0).map (·.segments)) =
        some [⟨.asSequence, [70000]⟩] := by decide
    rw [run] at after
    refine ⟨packet, t, rfl, rfl, after, fun same => ?_⟩
    have unchanged := same.paths.store.read 0
    have edited : (t.paths.store.read 0).map (·.segments) = some [⟨.asSequence, [70000]⟩] := after
    rw [unchanged] at edited
    revert edited
    decide

end Bgpd.Encoding
