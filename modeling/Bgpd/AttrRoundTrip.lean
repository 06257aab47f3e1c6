import Bgpd.AttrChanges
import Bgpd.Packing

/-!
# Attributes inside the AS

What one router of an AS sends to another with `bgp_packet_attribute`, the other reads
with `bgp_attr_parse`. Which of the attributes are sent depends on the neighbour's
configuration and on whether the route is reflected.

The section is a list of steps: an attribute, and what it makes of the set so far. The
attributes are what the writer emits, and each step sets the part of its own type.
-/

namespace Bgpd.AttrRoundTrip

open Octets Prefixes AsPath Attributes Neighbors AttrParse AttrSection Announce Encoding PathCodec
open AttrChanges
open Packing (Target)
open As4RoundTrip (keptPath bgpMaxPacketSize sized_put)
open As4Transition (aggregatorOf)

/-! ## What is sent -/

/-- Attributes whose encoding is what the formats allow: a path in normal form whose
segments the wire can hold, communities that are sorted and there if they are flagged,
and unknown attributes as the receiver of them kept them. -/
structure Sendable (writeable : Nat) (attr : Attr) (path : Aspath) (unknown : List Tlv) : Prop where
  room : writeable ≤ bgpMaxPacketSize
  origin : attr.origin = bgpOriginIgp ∨ attr.origin = bgpOriginEgp ∨
    attr.origin = bgpOriginIncomplete
  present : attr.aspath = some path
  normal : Normal path.segments
  splittable : Splittable path.segments
  short : ∀ seg ∈ path.segments, seg.as.length ≤ 510
  fits : (wireOctets true path.segments).length ≤ writeable - 8
  nextHop : attr.has .nextHop = true
  med : attr.has .multiExitDisc = true
  localPref : attr.has .localPref = true
  noPreference : attr.localPref = 0
  communities : attr.has .communities = true → ∃ com, attr.community = some com ∧ com ≠ [] ∧
    com.Pairwise (· < ·) ∧ 4 * com.length ≤ writeable
  extCommunities : attr.has .extCommunities = true →
    ∃ ecom, (attr.extra.getD .zero).ecommunity = some ecom ∧ ecom ≠ [] ∧
      ecom.Pairwise (· < ·) ∧ 8 * ecom.length ≤ writeable
  transit :
    (attr.extra.getD .zero).transit = if unknown = [] then none else some (encodeAll unknown)
  passed : ∀ tlv ∈ unknown, PassedOn tlv
  distinct : (unknown.map Tlv.type).Nodup

section Sender

variable (t : Target) (attr : Attr) (source : Option Peer)

/-- The cluster list of a reflected route: the own identifier and what was there. -/
def reflectedClusters : List U32 :=
  (if t.bgp.configClusterId then t.bgp.clusterId else t.bgp.routerId) ::
    (attr.extra.getD .zero).cluster.getD []

/-- The communities go to the neighbour. -/
def sendsCommunities : Bool :=
  (t.peer.afFlags .ip .unicast).sendCommunity && attr.has .communities

/-- The extended communities go to the neighbour. -/
def sendsExtCommunities : Bool :=
  (t.peer.afFlags .ip .unicast).sendExtCommunity && attr.has .extCommunities

/-- The attributes every route has, and what each makes of the set so far. -/
def mandatorySteps (asPath : Tlv) (path : Aspath) : List (Tlv × (Attr → Attr)) :=
  [(.wellKnown .origin [attr.origin], fun got => { got with origin := attr.origin }.mark .origin),
    (asPath, fun got => { got with aspath := some path }.mark .asPath),
    (.wellKnown .nextHop (putl attr.nexthop),
      fun got => { got with nexthop := attr.nexthop }.mark .nextHop),
    (.wellKnown .multiExitDisc (putl attr.med),
      fun got => { got with med := attr.med }.mark .multiExitDisc),
    (.wellKnown .localPref (putl 0), fun got => { got with localPref := 0 }.mark .localPref)]

def atomicSteps : List (Tlv × (Attr → Attr)) :=
  if attr.has .atomicAggregate then
    [(.wellKnown .atomicAggregate [], fun got => got.mark .atomicAggregate)]
  else []

def aggregatorSteps : List (Tlv × (Attr → Attr)) :=
  let extra := attr.extra.getD .zero
  if attr.has .aggregator then
    [(sized (FlagWord.set attrFlagOptional attrFlagTrans) .aggregator 8
        (putl extra.aggregatorAs ++ putl extra.aggregatorAddr),
      fun got => (got.withExtra fun block => { block with
        aggregatorAs := extra.aggregatorAs, aggregatorAddr := extra.aggregatorAddr }).mark
          .aggregator)]
  else []

def communitySteps : List (Tlv × (Attr → Attr)) :=
  if sendsCommunities t attr then
    [(variableLength .communities ((attr.community.getD []).flatMap putl),
      fun got => { got with community := some (attr.community.getD []) }.mark .communities)]
  else []

def reflectorSteps : Option U32 → List (Tlv × (Attr → Attr))
  | none => []
  | some originatorId =>
    let clusters := reflectedClusters t attr
    [(sized attrFlagOptional .originatorId 4 (putl originatorId),
        fun got => (got.withExtra fun block => { block with originatorId }).mark .originatorId),
      (sized attrFlagOptional .clusterList (clusters.flatMap putl).length (clusters.flatMap putl),
        fun got => (got.withExtra fun block => { block with cluster := some clusters }).mark
          .clusterList)]

def extCommunitySteps : List (Tlv × (Attr → Attr)) :=
  let ecom := (attr.extra.getD .zero).ecommunity.getD []
  if sendsExtCommunities t attr then
    [(variableLength .extCommunities (ecom.flatMap putEcommunity),
      fun got => (got.withExtra fun block => { block with ecommunity := some ecom }).mark
        .extCommunities)]
  else []

def unknownSteps (unknown : List Tlv) : List (Tlv × (Attr → Attr)) :=
  unknown.map fun tlv => (tlv, keepUnknown tlv)

/-- The attributes the writer knows, and what each makes of the set so far. -/
def knownSteps (asPath : Tlv) (path : Aspath) : List (Tlv × (Attr → Attr)) :=
  mandatorySteps attr asPath path ++ atomicSteps attr ++ aggregatorSteps attr
    ++ communitySteps t attr ++ reflectorSteps t attr (t.originator attr source)
    ++ extCommunitySteps t attr

/-- The attributes of a section. -/
def steps (asPath : Tlv) (path : Aspath) (unknown : List Tlv) : List (Tlv × (Attr → Attr)) :=
  knownSteps t attr source asPath path ++ unknownSteps unknown

/-- The path of a section, with its length in two octets. -/
def asPathTlv (writeable : Nat) (path : Aspath) : Tlv :=
  let put := aspathPut (writeable - 8) path true
  sized (FlagWord.set attrFlagTrans attrFlagExtlen) .asPath put.bytes put.octets

variable {t attr source} {writeable : Nat} {path : Aspath} {unknown : List Tlv} {p : Prefix}
  (prd tag : List U8)

/-- Inside the AS the path is sent as it is. -/
theorem sentAspath_inside (inside : peerSort t.bgp t.peer = .ibgp)
    (present : attr.aspath = some path)
    (afi : Afi) (safi : Safi) : sentAspath t.bgp t.peer attr afi safi = path := by
  unfold sentAspath
  rw [present]
  simp [inside]

/-- The steps are what `bgp_packet_attribute` writes, and the unknown attributes behind
it. -/
theorem steps_written (sendable : Sendable writeable attr path unknown)
    (inside : peerSort t.bgp t.peer = .ibgp) (four : t.cap.as4Rcv = true) (ip : p.family = .ip) :
    (steps t attr source (asPathTlv writeable path) path unknown).map Prod.fst =
      (bgpPacketAttribute t.bgp t.peer t.cap writeable attr p .unicast source prd tag).tlvs
        ++ unknown := by
  have opening : Encoding.packetOpening t.peer t.cap writeable attr p .unicast path =
      (mandatorySteps attr (asPathTlv writeable path) path).map Prod.fst
        ++ (atomicSteps attr).map Prod.fst := by
    simp [Encoding.packetOpening, mandatorySteps, atomicSteps, asPathTlv, sendable.nextHop,
      sendable.med, sendable.localPref, sendable.noPreference, ip, four,
      apply_ite (List.map Prod.fst)]
  have aggregator : Encoding.packetAggregator t.cap attr = (aggregatorSteps attr).map Prod.fst := by
    simp [Encoding.packetAggregator, aggregatorSteps, four, apply_ite (List.map Prod.fst)]
  have communities : Encoding.packetCommunities t.peer attr p .unicast =
      (communitySteps t attr).map Prod.fst := by
    unfold Encoding.packetCommunities communitySteps sendsCommunities
    rw [ip]
    split <;> rfl
  have reflector : (source.elim [] fun source =>
      if reflects t.bgp source t.peer then packetReflector t.bgp source attr
      else []) = (reflectorSteps t attr (t.originator attr source)).map Prod.fst := by
    unfold Target.originator
    rcases source with _ | source
    · rfl
    · by_cases reflected : reflects t.bgp source t.peer = true
      · simp only [Option.elim_some, if_pos reflected]
        rfl
      · simp only [Option.elim_some, if_neg reflected]
        rfl
  have reach : packetMpReach attr p .unicast prd tag = [] := by
    simp only [packetMpReach, ip]
  have extCommunities : Encoding.packetExtCommunities t.bgp t.peer attr p .unicast =
      (extCommunitySteps t attr).map Prod.fst := by
    unfold Encoding.packetExtCommunities extCommunitySteps
    rw [ip]
    simp only [inside, true_or, if_true]
    by_cases sends : sendsExtCommunities t attr = true
    · rw [if_pos sends]
      exact if_pos sends
    · rw [if_neg sends]
      exact if_neg sends
  have strange : (unknownSteps unknown).map Prod.fst = unknown := by
    unfold unknownSteps
    rw [List.map_map]
    exact List.map_id unknown
  rw [Encoding.packet_eq]
  simp only [Encoding.packetMain, sentAspath_inside inside sendable.present, opening, aggregator,
    communities, reach, extCommunities, four, Bool.not_true, Bool.false_and,
    Bool.false_eq_true, if_false, List.append_nil, steps, knownSteps, List.map_append, strange,
    Encoding.packetAs4Aggregator, Bool.and_false]
  rw [← reflector]
  cases source <;> rfl

/-- The receiver reads every attribute of the section. -/
theorem steps_read {bgp' : Bgp} {peer' : Peer} {cap' : PeerCap} (four' : cap'.as4Rcv = true)
    (sendable : Sendable writeable attr path unknown)
    (clusters : (t.originator attr source).isSome → (reflectedClusters t attr).length ≤ 63) :
    ∀ step ∈ steps t attr source (asPathTlv writeable path) path unknown,
      Changes bgp' peer' cap' step.1 step.2 := by
  have room : writeable ≤ 4096 := sendable.room
  intro step inside
  simp only [steps, knownSteps, List.mem_append] at inside
  rcases inside with (((((mandatory | atomic) | aggregator) | communities) | reflector) |
    extCommunities) | strange
  · have limit : writeable - 8 < 65536 := by omega
    obtain ⟨body, framed⟩ := sized_put sendable.normal sendable.short sendable.fits limit
      (FlagWord.set attrFlagTrans attrFlagExtlen) (by decide) .asPath
    have parsed : aspathParse (asPathTlv writeable path).body true = some path := by
      rw [asPathTlv, body]
      exact aspathParse_four sendable.normal sendable.splittable
    simp only [mandatorySteps, List.mem_cons, List.not_mem_nil, or_false] at mandatory
    rcases mandatory with rfl | rfl | rfl | rfl | rfl
    · exact changes_origin sendable.origin
    · exact changes_asPath four' framed rfl rfl parsed
    · exact changes_nextHop attr.nexthop
    · exact changes_med attr.med
    · exact changes_localPref
  · simp only [atomicSteps, List.mem_ite_nil_right, List.mem_singleton] at atomic
    obtain ⟨_, rfl⟩ := atomic
    exact changes_atomic
  · simp only [aggregatorSteps, List.mem_ite_nil_right, List.mem_singleton] at aggregator
    obtain ⟨_, rfl⟩ := aggregator
    exact changes_aggregator four' _ _
  · simp only [communitySteps, List.mem_ite_nil_right, List.mem_singleton] at communities
    obtain ⟨sent, rfl⟩ := communities
    have flagged : attr.has .communities = true := (Bool.and_eq_true_iff.mp sent).2
    obtain ⟨com, stored, filled, sorted, small⟩ := sendable.communities flagged
    have fits : 4 * com.length < 65536 := by omega
    rw [stored]
    exact changes_communities filled sorted fits
  · cases originator : t.originator attr source with
    | none =>
      rw [originator] at reflector
      exact absurd reflector List.not_mem_nil
    | some originatorId =>
      rw [originator] at reflector clusters
      simp only [reflectorSteps, List.mem_cons, List.not_mem_nil, or_false] at reflector
      rcases reflector with rfl | rfl
      · exact changes_originatorId originatorId
      · exact changes_clusterList (clusters rfl)
  · simp only [extCommunitySteps, List.mem_ite_nil_right, List.mem_singleton] at extCommunities
    obtain ⟨sent, rfl⟩ := extCommunities
    have flagged : attr.has .extCommunities = true := (Bool.and_eq_true_iff.mp sent).2
    obtain ⟨ecom, stored, filled, sorted, small⟩ := sendable.extCommunities flagged
    have fits : 8 * ecom.length < 65536 := by omega
    rw [stored]
    exact changes_extCommunities filled sorted fits
  · obtain ⟨tlv, member, rfl⟩ := List.mem_map.mp strange
    exact changes_unknown (sendable.passed tlv member)

/-! ## What comes back -/

/-- The attributes that stand in a section. -/
def sendsType (t : Target) (attr : Attr) (source : Option Peer) : AttrType → Bool
  | .origin | .asPath => true
  | .communities => sendsCommunities t attr
  | .extCommunities => sendsExtCommunities t attr
  | .originatorId | .clusterList => (t.originator attr source).isSome
  | .mpReachNlri | .mpUnreachNlri | .as4Path | .as4Aggregator => false
  | type => attr.has type

/-- The value of an attribute. -/
inductive Part
  | nothing
  | octet (value : U8)
  | word (value : U32)
  | path (value : Option Aspath)
  | speaker (as address : U32)
  | words (value : Option (List U32))
  | doubleWords (value : Option (List (BitVec 64)))

/-- Where an attribute set keeps the value of a type. -/
def part (got : Attr) : AttrType → Part
  | .origin => .octet got.origin
  | .asPath => .path got.aspath
  | .nextHop => .word got.nexthop
  | .multiExitDisc => .word got.med
  | .localPref => .word got.localPref
  | .aggregator =>
    .speaker (got.extra.getD .zero).aggregatorAs (got.extra.getD .zero).aggregatorAddr
  | .communities => .words got.community
  | .originatorId => .word (got.extra.getD .zero).originatorId
  | .clusterList => .words (got.extra.getD .zero).cluster
  | .extCommunities => .doubleWords (got.extra.getD .zero).ecommunity
  | .atomicAggregate | .mpReachNlri | .mpUnreachNlri | .as4Path | .as4Aggregator => .nothing

/-- The values that are sent: those of the route, but for the path, and the originator
and the clusters when it is reflected. -/
def sentPart (t : Target) (attr : Attr) (source : Option Peer) (path : Aspath) : AttrType → Part
  | .asPath => .path (some path)
  | .originatorId => .word ((t.originator attr source).getD 0)
  | .clusterList => .words (some (reflectedClusters t attr))
  | type => part attr type

/-- The attributes that were sent have come, each with its value, and no other. -/
structure ComesBack (t : Target) (attr : Attr) (source : Option Peer) (path : Aspath)
    (got : Attr) : Prop where
  types : ∀ type, got.has type = sendsType t attr source type
  parts : ∀ type, part got type =
    if sendsType t attr source type then sentPart t attr source path type else part .zero type
  transit : (got.extra.getD .zero).transit = (attr.extra.getD .zero).transit

/-- What is flagged so far has the value that was sent. -/
def Carried (sent : AttrType → Part) (got : Attr) : Prop :=
  ∀ type, part got type = if got.has type then sent type else part .zero type

/-- A step of the section: it flags its own type and sets its part, and none of the
others, and it leaves the unknown attributes alone. -/
structure Sets (sent : AttrType → Part) (type : AttrType) (step : Tlv × (Attr → Attr)) :
    Prop where
  code : step.1.type = type.code
  marks : ∀ got other, (step.2 got).has other = (got.has other || type = other)
  sets : ∀ got other, part (step.2 got) other = if type = other then sent type else part got other
  transit : ∀ got, ((step.2 got).extra.getD .zero).transit = (got.extra.getD .zero).transit

variable {got : Attr}
variable {sent : AttrType → Part}

theorem Sets.carried {type : AttrType} {step : Tlv × (Attr → Attr)}
    (step_sets : Sets sent type step) (carried : Carried sent got) : Carried sent (step.2 got) := by
  intro other
  rw [step_sets.sets, step_sets.marks]
  by_cases own : type = other
  · rw [if_pos own, if_pos (by simp [own]), own]
  · rw [if_neg own, carried other]
    simp [own]

/-- The values after a run of such steps. -/
theorem foldl_sets {group : List (Tlv × (Attr → Attr))}
    (each : ∀ step ∈ group, ∃ type, Sets sent type step) (carried : Carried sent got) :
    let after := group.foldl (fun attr step => step.2 attr) got
    Carried sent after ∧
      (∀ type, after.has type = (got.has type || group.any fun step => step.1.type = type.code)) ∧
      (after.extra.getD .zero).transit = (got.extra.getD .zero).transit := by
  induction group generalizing got with
  | nil => exact ⟨carried, fun type => (Bool.or_false _).symm, rfl⟩
  | cons step rest ih =>
    obtain ⟨own, sets⟩ := each step List.mem_cons_self
    obtain ⟨whole, types, transit⟩ := ih (fun other member => each other (.tail _ member))
      (sets.carried carried)
    refine ⟨whole, fun type => ?_, transit.trans (sets.transit got)⟩
    have same : decide (own = type) = decide (step.1.type = type.code) := by
      rw [sets.code, decide_eq_decide]
      refine ⟨congrArg AttrType.code, fun codes => ?_⟩
      have named := congrArg AttrType.ofCode codes
      rw [AttrType.ofCode_code, AttrType.ofCode_code] at named
      exact Option.some.inj named
    rw [List.foldl_cons, types, sets.marks, List.any_cons, same, Bool.or_assoc]

theorem foldl_unknownSteps (unknown : List Tlv) (got : Attr) :
    (unknownSteps unknown).foldl (fun attr step => step.2 attr) got =
      if unknown = [] then got
      else got.withExtra fun extra =>
        { extra with transit := some (extra.transit.getD [] ++ encodeAll unknown) } := by
  unfold unknownSteps
  rw [List.foldl_map]
  induction unknown generalizing got with
  | nil => rfl
  | cons tlv rest ih =>
    rw [List.foldl_cons, ih, if_neg (List.cons_ne_nil tlv rest), encodeAll_cons]
    split
    · rename_i none
      simp [none, keepUnknown, encodeAll_nil]
    · simp [keepUnknown, Attr.withExtra]

variable {asPath : Tlv}

/-- Each attribute the writer knows sets its own part. -/
theorem knownSteps_set (sendable : Sendable writeable attr path unknown)
    (code : asPath.type = AttrType.asPath.code) :
    ∀ step ∈ knownSteps t attr source asPath path, ∃ type,
      Sets (sentPart t attr source path) type step := by
  intro step inside
  simp only [knownSteps, List.mem_append] at inside
  rcases inside with ((((mandatory | atomic) | aggregator) | communities) | reflector) |
    extCommunities
  · simp only [mandatorySteps, List.mem_cons, List.not_mem_nil, or_false] at mandatory
    have zero : sentPart t attr source path .localPref = .word 0 :=
      congrArg Part.word sendable.noPreference
    rcases mandatory with rfl | rfl | rfl | rfl | rfl
    · exact ⟨.origin, rfl, fun _ _ => Attr.has_mark .., fun _ other => by cases other <;> rfl,
        fun _ => rfl⟩
    · exact ⟨.asPath, code, fun _ _ => Attr.has_mark .., fun _ other => by cases other <;> rfl,
        fun _ => rfl⟩
    · exact ⟨.nextHop, rfl, fun _ _ => Attr.has_mark .., fun _ other => by cases other <;> rfl,
        fun _ => rfl⟩
    · exact ⟨.multiExitDisc, rfl, fun _ _ => Attr.has_mark ..,
        fun _ other => by cases other <;> rfl, fun _ => rfl⟩
    · exact ⟨.localPref, rfl, fun _ _ => Attr.has_mark ..,
        fun _ other => by rw [zero]; cases other <;> rfl, fun _ => rfl⟩
  · simp only [atomicSteps, List.mem_ite_nil_right, List.mem_singleton] at atomic
    obtain ⟨_, rfl⟩ := atomic
    exact ⟨.atomicAggregate, rfl, fun _ _ => Attr.has_mark ..,
      fun _ other => by cases other <;> rfl, fun _ => rfl⟩
  · simp only [aggregatorSteps, List.mem_ite_nil_right, List.mem_singleton] at aggregator
    obtain ⟨_, rfl⟩ := aggregator
    exact ⟨.aggregator, rfl, fun _ _ => Attr.has_mark .., fun _ other => by cases other <;> rfl,
      fun _ => rfl⟩
  · simp only [communitySteps, List.mem_ite_nil_right, List.mem_singleton] at communities
    obtain ⟨sent, rfl⟩ := communities
    obtain ⟨com, stored, _⟩ := sendable.communities (Bool.and_eq_true_iff.mp sent).2
    have value :
        sentPart t attr source path .communities = .words (some (attr.community.getD [])) := by
      rw [stored]
      exact congrArg Part.words stored
    exact ⟨.communities, (variableLength_fields ..).1, fun _ _ => Attr.has_mark ..,
      fun _ other => by rw [value]; cases other <;> rfl, fun _ => rfl⟩
  · cases originator : t.originator attr source with
    | none =>
      rw [originator] at reflector
      exact absurd reflector List.not_mem_nil
    | some originatorId =>
      rw [originator] at reflector
      simp only [reflectorSteps, List.mem_cons, List.not_mem_nil, or_false] at reflector
      have value : sentPart t attr source path .originatorId = .word originatorId := by
        unfold sentPart
        rw [originator, Option.getD_some]
      rcases reflector with rfl | rfl
      · exact ⟨.originatorId, rfl, fun _ _ => Attr.has_mark ..,
          fun _ other => by rw [value]; cases other <;> rfl, fun _ => rfl⟩
      · exact ⟨.clusterList, rfl, fun _ _ => Attr.has_mark ..,
          fun _ other => by cases other <;> rfl, fun _ => rfl⟩
  · simp only [extCommunitySteps, List.mem_ite_nil_right, List.mem_singleton] at extCommunities
    obtain ⟨sent, rfl⟩ := extCommunities
    obtain ⟨ecom, stored, _⟩ := sendable.extCommunities (Bool.and_eq_true_iff.mp sent).2
    have value : sentPart t attr source path .extCommunities =
        .doubleWords (some ((attr.extra.getD .zero).ecommunity.getD [])) := by
      rw [stored]
      exact congrArg Part.doubleWords stored
    exact ⟨.extCommunities, (variableLength_fields ..).1, fun _ _ => Attr.has_mark ..,
      fun _ other => by rw [value]; cases other <;> rfl, fun _ => rfl⟩

/-- The types of the section. -/
theorem knownSteps_types (sendable : Sendable writeable attr path unknown)
    (code : asPath.type = AttrType.asPath.code) (type : AttrType) :
    ((knownSteps t attr source asPath path).any fun step => step.1.type = type.code) =
      sendsType t attr source type := by
  have any_ite (condition : Bool) (group : List (Tlv × (Attr → Attr))) :
      (if condition then group else []).any (fun step => decide (step.1.type = type.code)) =
        (condition && group.any fun step => step.1.type = type.code) := by
    cases condition <;> rfl
  have com := (variableLength_fields .communities ((attr.community.getD []).flatMap putl)).1
  have ecom := (variableLength_fields .extCommunities
    (((attr.extra.getD .zero).ecommunity.getD []).flatMap putEcommunity)).1
  simp only [knownSteps, List.any_append, mandatorySteps, atomicSteps, aggregatorSteps,
    communitySteps, extCommunitySteps, any_ite, List.any_cons, List.any_nil, code, com, ecom,
    Tlv.wellKnown, sized, Bool.or_false]
  cases originator : t.originator attr source with
  | none =>
    cases type <;> simp [reflectorSteps, sendsType, AttrType.code, sendable.nextHop, sendable.med,
      sendable.localPref, originator]
  | some originatorId =>
    cases type <;> simp [reflectorSteps, sendsType, AttrType.code, sendable.nextHop, sendable.med,
      sendable.localPref, originator, sized]

/-- The set that is read has what was sent. -/
theorem steps_come_back (sendable : Sendable writeable attr path unknown)
    (code : asPath.type = AttrType.asPath.code) :
    ComesBack t attr source path
      ((steps t attr source asPath path unknown).foldl (fun attr step => step.2 attr) .zero) := by
  have start : Carried (sentPart t attr source path) .zero := fun type => by
    rw [Attr.has_zero]
    rfl
  obtain ⟨carried, types, transit⟩ := foldl_sets (knownSteps_set sendable code) start
  unfold steps
  rw [List.foldl_append, foldl_unknownSteps]
  generalize (knownSteps t attr source asPath path).foldl (fun attr step => step.2 attr) .zero = got
    at carried types transit
  have flagged (type : AttrType) : got.has type = sendsType t attr source type := by
    rw [types, Attr.has_zero, Bool.false_or, knownSteps_types sendable code]
  have parts (type : AttrType) : part got type =
      if sendsType t attr source type then sentPart t attr source path type
      else part .zero type := by
    rw [← flagged]
    exact carried type
  by_cases nothing : unknown = []
  · rw [if_pos nothing]
    refine ⟨flagged, parts, ?_⟩
    rw [transit, sendable.transit, if_pos nothing]
    rfl
  · rw [if_neg nothing]
    refine ⟨flagged, fun type => ?_, ?_⟩
    · rw [← parts]
      cases type <;> rfl
    · rw [sendable.transit, if_neg nothing]
      simp only [Attr.withExtra, Option.getD_some, transit]
      rfl

/-- Another path in the place of the one that came. -/
theorem ComesBack.withPath (comes : ComesBack t attr source path got) (kept : Aspath) :
    ComesBack t attr source kept { got with aspath := some kept } := by
  refine ⟨comes.types, fun type => ?_, comes.transit⟩
  have value := comes.parts type
  cases type <;> first | rfl | exact value

theorem packet_encode (sendable : Sendable writeable attr path unknown)
    (inside : peerSort t.bgp t.peer = .ibgp) (four : t.cap.as4Rcv = true) (ip : p.family = .ip) :
    (bgpPacketAttribute t.bgp t.peer t.cap writeable attr p .unicast source prd tag).encode =
      encodeAll ((steps t attr source (asPathTlv writeable path) path unknown).map Prod.fst) := by
  have transit : (bgpPacketAttribute t.bgp t.peer t.cap writeable attr p .unicast source prd
      tag).transit = encodeAll unknown := by
    have stored : (bgpPacketAttribute t.bgp t.peer t.cap writeable attr p .unicast source prd
        tag).transit = (attr.extra.getD .zero).transit.getD [] := rfl
    rw [stored, sendable.transit]
    by_cases nothing : unknown = []
    · rw [if_pos nothing, nothing]
      rfl
    · rw [if_neg nothing]
      rfl
  rw [steps_written prd tag sendable inside four ip, Packet.encode, transit]
  unfold encodeAll
  rw [List.flatMap_append]

/-- No type stands in the section twice. -/
theorem steps_distinct (sendable : Sendable writeable attr path unknown)
    (inside : peerSort t.bgp t.peer = .ibgp) (four : t.cap.as4Rcv = true) (ip : p.family = .ip) :
    ((steps t attr source (asPathTlv writeable path) path unknown).map
      fun step => step.1.type).Nodup := by
  have types : (((bgpPacketAttribute t.bgp t.peer t.cap writeable attr p .unicast source [] []).tlvs
      ++ unknown).map Tlv.type).Nodup :=
    As4RoundTrip.order_nodup t.bgp t.peer .unicast source [] []
      (fun tlv member => (sendable.passed tlv member).unhandled) sendable.distinct
      (List.Perm.refl _)
  rw [← steps_written [] [] sendable inside four ip, List.map_map] at types
  exact types

end Sender

/-- Two routers of an AS, and a third whose route the first one passes on. -/
def insider (id : Nat) : Peer :=
  { Peer.plain id 65001 65001 with afFlags := fun _ _ => { sendCommunity := true } }

/-- The session from the first router to the second. -/
def towards (peer : Peer) : Target where
  bgp := .plain 65001 1
  peer := peer
  cap := { as4Rcv := true }
  peers := fun _ => peer
  afi := .ip
  safi := .unicast

/-- An optional transitive attribute that nobody knew so far. -/
def strange : Tlv where
  flag := 0xE0
  type := 99
  length := 2
  body := [5, 6]

/-- A route with communities, an aggregator, a cluster and an unknown attribute. -/
def travelled : Attr :=
  { (((bgpAttrDefaultSet bgpOriginEgp).mark .aggregator).mark .communities).mark .clusterList with
    aspath := some ⟨[⟨.asSequence, [70000, 3]⟩, ⟨.asSet, [4, 9]⟩]⟩
    nexthop := 0x0A000002
    med := 50
    community := some [0x00010002, 0xFFFFFF01]
    extra := some { AttrExtra.zero with
      aggregatorAs := 80000, aggregatorAddr := 0x0A000001, cluster := some [7],
      transit := some strange.encode } }

theorem travelled_sendable : Sendable 4073 travelled
    ⟨[⟨.asSequence, [70000, 3]⟩, ⟨.asSet, [4, 9]⟩]⟩ [strange] where
  room := by decide
  origin := by decide
  present := rfl
  normal := by
    refine ⟨by decide, ?_, ?_⟩
    · simp [Unjoinable]
    · simp
  splittable := by
    unfold Splittable
    decide
  short := by decide
  fits := by decide
  nextHop := by decide
  med := by decide
  localPref := by decide
  noPreference := rfl
  communities := fun _ => ⟨_, rfl, by decide, by decide, by decide⟩
  extCommunities := fun flagged => absurd flagged (by decide)
  transit := by decide
  passed := by
    intro tlv member
    obtain rfl := List.mem_singleton.mp member
    exact ⟨by decide, by decide, by decide, by decide, by decide⟩
  distinct := by decide

end Bgpd.AttrRoundTrip
