import Bgpd.Announce

/-!
# When a route is announced

The tests of `bgp_announce_check` are early returns in a sequence. Put together they
are the policy one would write down for IPv4 routes, with one exception: while a
default route is originated to a neighbour, every prefix whose address is zero is
taken for it, whatever its length.
-/

namespace Bgpd.AnnouncePolicy

open Octets Prefixes AsPath Attributes Neighbors Announce

variable (bgp : Bgp)
variable (ri : RouteView) (peer : Peer) (defaultOriginate : Bool)

/-- A community forbids to announce the route to the neighbour. -/
def Forbids (peer : Peer) (attr : Attr) : Prop :=
  ∃ community, attr.community = some community ∧
    (communityNoAdvertise ∈ community ∨
      peerSort bgp peer = .ebgp ∧ communityNoExport ∈ community ∨
      (peerSort bgp peer = .ebgp ∨ peerSort bgp peer = .confed) ∧
        communityNoExportSubconfed ∈ community)

/-- The reflection rules: between internal neighbours a route goes from or to a
client, and not between clients where that is disabled. -/
def Reflectable (source peer : Peer) (family : Afi) (safi : Safi) : Prop :=
  peerSort bgp source = .ibgp → peerSort bgp peer = .ibgp →
    let client := (source.afFlags family safi).reflectorClient
    let toClient := (peer.afFlags family safi).reflectorClient
    (client = true ∨ toClient = true) ∧
      ¬ (bgp.noClientToClient = true ∧ client = true ∧ toClient = true)

/-- The map a route goes through: the unsuppress map for a suppressed one, the
outbound map for any other. -/
def boundMap (ri : RouteView) (peer : Peer) (family : Afi) (safi : Safi) :
    Option (Prefix → Attr → Option Attr) :=
  if ri.suppressed then (peer.policy family safi).unsuppressMap
  else (peer.policy family safi).mapOut

/-- The policy for a route and a neighbour. -/
structure Permitted (ri : RouteView) (peer : Peer) (defaultOriginate : Bool) (p : Prefix)
    (safi : Safi) : Prop where
  source : ri.peer.id ≠ peer.id
  server : (peer.afFlags p.family safi).rserverClient = false
  nexthop : peer.remoteId ≠ ri.attr.nexthop
  originator : ri.attr.has .originatorId = true →
    peer.remoteId ≠ (ri.attr.extra.getD .zero).originatorId
  default : ¬ (defaultOriginate = true ∧ p.prefixlen = 0)
  communities : ¬ Forbids bgp peer ri.attr
  orf : (peer.policy p.family safi).orfPermits p = true
  filters : (peer.policy p.family safi).outputFilter p ri.attr = true
  confederation : bgp.confederation = true →
    aspathLoopCheck (ri.attr.aspath.getD aspathEmpty) bgp.confedId = 0
  reflection : Reflectable bgp ri.peer peer p.family safi
  unsuppressed : ri.suppressed = true → (peer.policy p.family safi).unsuppressMap.isSome = true
  map : ∀ map, boundMap ri peer p.family safi = some map →
    (map p (announceAttr bgp ri peer p safi)).isSome = true

theorem bgpCommunityFilter_iff (attr : Attr) :
    bgpCommunityFilter bgp peer attr = true ↔ Forbids bgp peer attr := by
  unfold bgpCommunityFilter Forbids
  cases attr.community with
  | none => simp
  | some community => simp

/-- The test of the reflection rules. -/
theorem reflectable_iff (source peer : Peer) (family : Afi) (safi : Safi) :
    (!(reflects bgp source peer &&
      if (source.afFlags family safi).reflectorClient then
        bgp.noClientToClient && (peer.afFlags family safi).reflectorClient
      else !(peer.afFlags family safi).reflectorClient)) = true ↔
      Reflectable bgp source peer family safi := by
  unfold reflects Reflectable
  by_cases inner : peerSort bgp source = .ibgp
  · by_cases inner' : peerSort bgp peer = .ibgp
    · cases (source.afFlags family safi).reflectorClient <;>
        simp [inner, inner', imp_iff_not_or]
    · simp [inner, inner']
  · simp [inner]

/-- A prefix of length zero has the address zero. -/
theorem addressZero_of_prefixlen (p : Prefix) (whole : p.prefixlen = 0) : p.addressZero = true := by
  unfold Prefix.prefixlen at whole
  unfold Prefix.addressZero
  rw [List.length_eq_zero_iff.mp whole]
  rfl

/-- A neighbour is refused, with a default route originated to it, every prefix of
the address zero. -/
theorem announceable_iff (p : Prefix) (ip : p.family = .ip) (safi : Safi) :
    announceable bgp ri peer defaultOriginate p safi = true ∧
        (∀ map, boundMap ri peer p.family safi = some map →
          (map p (announceAttr bgp ri peer p safi)).isSome = true) ↔
      Permitted bgp ri peer defaultOriginate p safi ∧
        ¬ (defaultOriginate = true ∧ p.addressZero = true) := by
  have communities := bgpCommunityFilter_iff bgp peer ri.attr
  have reflection := reflectable_iff bgp ri.peer peer p.family safi
  constructor
  · rintro ⟨passes, map⟩
    unfold announceable at passes
    simp only [Bool.and_eq_true] at passes
    obtain ⟨⟨⟨⟨⟨⟨⟨⟨⟨⟨server, source⟩, nexthop⟩, suppressed⟩, default⟩, community⟩, originator⟩,
      orf⟩, filters⟩, confederation⟩, reflected⟩ := passes
    rw [ip] at nexthop default
    have zero : ¬ (defaultOriginate = true ∧ p.addressZero = true) := by
      simpa [imp_iff_not_or] using default
    refine ⟨?_, zero⟩
    exact
      { source := by simpa using source
        server := by simpa using server
        nexthop := by simpa using nexthop
        originator := by simpa [imp_iff_not_or] using originator
        default := fun ⟨active, whole⟩ => zero ⟨active, addressZero_of_prefixlen p whole⟩
        communities := by
          rw [← communities]
          simpa using community
        orf := orf
        filters := filters
        confederation := by simpa [imp_iff_not_or] using confederation
        reflection := reflection.mp reflected
        unsuppressed := by
          intro held
          rw [held] at suppressed
          simpa [Option.isSome_iff_ne_none] using suppressed
        map := map }
  · rintro ⟨permitted, zero⟩
    refine ⟨?_, permitted.map⟩
    unfold announceable
    simp only [Bool.and_eq_true]
    refine ⟨⟨⟨⟨⟨⟨⟨⟨⟨⟨?_, ?_⟩, ?_⟩, ?_⟩, ?_⟩, ?_⟩, ?_⟩, permitted.orf⟩, permitted.filters⟩, ?_⟩,
      reflection.mpr permitted.reflection⟩
    · simpa using permitted.server
    · simpa using permitted.source
    · rw [ip]
      simpa using permitted.nexthop
    · cases held : ri.suppressed with
      | false => rfl
      | true => simpa [Option.isSome_iff_ne_none] using permitted.unsuppressed held
    · rw [ip]
      simpa [imp_iff_not_or] using zero
    · rw [Bool.not_eq_true', Bool.eq_false_iff, ne_eq, communities]
      exact permitted.communities
    · simpa [imp_iff_not_or] using permitted.originator
    · simpa [imp_iff_not_or] using permitted.confederation

/-- The check answers with attributes where the tests pass and the map permits. -/
theorem bgpAnnounceCheck_isSome (p : Prefix) (safi : Safi) :
    (bgpAnnounceCheck bgp ri peer defaultOriginate p safi).isSome = true ↔
      announceable bgp ri peer defaultOriginate p safi = true ∧
        ∀ map, boundMap ri peer p.family safi = some map →
          (map p (announceAttr bgp ri peer p safi)).isSome = true := by
  unfold bgpAnnounceCheck boundMap
  split
  · rename_i passes
    dsimp only
    cases bound : if ri.suppressed then (peer.policy p.family safi).unsuppressMap
      else (peer.policy p.family safi).mapOut with
    | none => simp [passes]
    | some map =>
      cases applied : map p (announceAttr bgp ri peer p safi) with
      | none => simp [applied]
      | some changed =>
        simp only [applied]
        split <;> simp [passes, applied]
  · rename_i refused
    simp [refused]

/-- A map takes no preference away. -/
def KeepsLocalPref (map : Prefix → Attr → Option Attr) : Prop :=
  ∀ p attr changed, attr.has .localPref = true → map p attr = some changed →
    changed.has .localPref = true

/-- The attributes that come to the map have a preference, for a neighbour with an
AS on our side. -/
theorem announceAttr_localPref (p : Prefix) (safi : Safi) (localAs : peer.localAs ≠ 0) :
    (announceAttr bgp ri peer p safi).has .localPref = true := by
  have outer : peerSort bgp peer ≠ .internal := by
    unfold peerSort
    rw [if_neg localAs, if_neg localAs]
    split
    · split
      · split <;> simp
      · split <;> simp
    · split <;> simp
  have same := (announceAttr_core bgp ri peer p safi).2.1
  unfold Attr.has
  rw [same]
  change (announceLocalPref bgp peer ri.attr).has .localPref = true
  unfold announceLocalPref
  split
  · change (ri.attr.mark .localPref).has .localPref = true
    simp
  · rename_i given
    simpa [outer] using given

/-- So have those that are handed back. -/
theorem bgpAnnounceCheck_localPref (p : Prefix) (safi : Safi) (localAs : peer.localAs ≠ 0)
    (keeps : ∀ map, boundMap ri peer p.family safi = some map → KeepsLocalPref map)
    (announced : Attr)
    (checked : bgpAnnounceCheck bgp ri peer defaultOriginate p safi = some announced) :
    announced.has .localPref = true := by
  have assembled := announceAttr_localPref bgp ri peer p safi localAs
  obtain ⟨-, rfl | ⟨map, bound, applied⟩⟩ :=
    bgpAnnounceCheck_some bgp ri peer defaultOriginate p safi announced checked
  · exact assembled
  · exact keeps map bound p _ announced assembled applied

/-- The check does what the policy says: it answers exactly for the routes that are
permitted, with a preference. -/
def FollowsPolicy (ri : RouteView) (peer : Peer) (defaultOriginate : Bool) (p : Prefix) : Prop :=
  ((bgpAnnounceCheck bgp ri peer defaultOriginate p .unicast).isSome = true ↔
      Permitted bgp ri peer defaultOriginate p .unicast) ∧
    ∀ announced, bgpAnnounceCheck bgp ri peer defaultOriginate p .unicast = some announced →
      (∀ map, boundMap ri peer p.family .unicast = some map → KeepsLocalPref map) →
      announced.has .localPref = true

/-- It does so for every IPv4 route but the permitted ones of a prefix that is not
the default route and has the address zero, while a default route is originated. -/
theorem follows_policy_iff (ri : RouteView) (peer : Peer) (defaultOriginate : Bool) (p : Prefix)
    (ip : p.family = .ip) (localAs : peer.localAs ≠ 0) :
    FollowsPolicy bgp ri peer defaultOriginate p ↔
      ¬ (defaultOriginate = true ∧ p.addressZero = true ∧ p.prefixlen ≠ 0 ∧
        Permitted bgp ri peer defaultOriginate p .unicast) := by
  have answers := (bgpAnnounceCheck_isSome bgp ri peer defaultOriginate p .unicast).trans
    (announceable_iff bgp ri peer defaultOriginate p ip .unicast)
  unfold FollowsPolicy
  constructor
  · rintro ⟨exact_, -⟩ ⟨active, zero, -, permitted⟩
    exact (answers.mp (exact_.mpr permitted)).2 ⟨active, zero⟩
  · intro apart
    refine ⟨answers.trans ⟨And.left, fun permitted => ⟨permitted, ?_⟩⟩, ?_⟩
    · rintro ⟨active, zero⟩
      apply apart
      exact ⟨active, zero, fun whole => permitted.default ⟨active, whole⟩, permitted⟩
    · intro announced checked keeps
      exact bgpAnnounceCheck_localPref bgp ri peer defaultOriginate p .unicast localAs
        keeps announced
        checked

/-- An external route, and a neighbour to which nothing forbids to announce it. -/
def plainView : RouteView where
  peer := .plain 1 65002 65001
  attr :=
    { bgpAttrDefaultSet bgpOriginIgp with aspath := some ⟨[⟨.asSequence, [65002]⟩]⟩, nexthop := 7 }
  suppressed := false

theorem follows_policy_iff_plain :
    FollowsPolicy (.plain 65001 1) plainView (.plain 2 65003 65001) true ⟨.ip, [true], by decide⟩ :=
  (follows_policy_iff (.plain 65001 1) plainView (.plain 2 65003 65001) true ⟨.ip, [true],
    by decide⟩
    rfl (by decide)).mpr fun ⟨_, zero, _⟩ => absurd zero (by decide)

/-- The prefix 0.0.0.0/8 is not announced to a neighbour to which a default route is
originated, though nothing forbids it. -/
theorem zero_network_refused :
    ¬ FollowsPolicy (.plain 65001 1) plainView (.plain 2 65003 65001) true
      ⟨.ip, List.replicate 8 false, by decide⟩ := by
  rintro ⟨answers, -⟩
  refine absurd (answers.mpr ?_) (by decide)
  refine ⟨by decide, rfl, by decide, by decide, by decide, ?_, rfl, rfl, by decide, ?_, by decide,
    fun map bound => nomatch bound⟩
  · rintro ⟨community, given, -⟩
    exact nomatch (given : (none : Option (List U32)) = some community)
  · intro inner
    exact absurd inner (by decide)

end Bgpd.AnnouncePolicy
