import Bgpd.MetricChain
import Bgpd.Relaxation
import Bgpd.RouteOrder

/-!
# Metrics across a network

Speakers that each select one route to a prefix and pass it on. A link adds the metric
that its receiver keeps for the sender to the MED, and the selection asks for the MED
first. So once the routes do not change any more, every speaker has the route whose MED
is the least sum over the walks from the speaker that originates the prefix.
-/

namespace Bgpd.StableNetwork

open Octets Prefixes Rib Selection RouteOrder MetricChain Relaxation

/-! ## The least MED is selected -/

section Least

variable {env : Env} (always : env.bestPath.alwaysCompareMed = true)
  (plain : env.bestPath.deterministicMed = false)

/-- The MED a route is compared by. -/
def medOf (env : Env) (ri : BgpInfo) : Nat := (bgpMedValue env ri.attr).toNat

include always

/-- The comparison never goes against the MED. -/
theorem bgpInfoCmp_med (new exist : BgpInfo) :
    (bgpInfoCmp env new (some exist) = true → medOf env new ≤ medOf env exist) ∧
      (bgpInfoCmp env new (some exist) = false → medOf env exist ≤ medOf env new) := by
  have compared : medsCompare env new exist = true := by
    unfold medsCompare
    simp [always]
  have first : (comparisons env new exist).head? =
      some (lower (medOf env new) (medOf env exist)) := by
    simp only [comparisons, compared, List.head?_cons]
    rfl
  obtain ⟨rest, tests⟩ := List.head?_eq_some_iff.mp first
  change (((comparisons env new exist).findSome? id).getD true = true → _) ∧
    (((comparisons env new exist).findSome? id).getD true = false → _)
  rw [tests, List.findSome?_cons]
  rcases Nat.lt_trichotomy (medOf env new) (medOf env exist) with less | same | more
  · simp [lower, less, less.le]
  · simp [same]
  · simp [lower, more, more.le, more.not_gt]

include plain

/-- The selection picks a route with the least MED among those that can be used. -/
theorem selection_med (infos : List BgpInfo) :
    ((bgpBestSelection env infos).new = none ∧ usable infos = []) ∨
      ∃ best ∈ usable infos, (bgpBestSelection env infos).new = some best.id ∧
        ∀ other ∈ usable infos, medOf env best ≤ medOf env other := by
  have contest : (bgpBestSelection env infos).new =
      (Contest.winner (prefers env) ((usable infos).map unmarked)).map BgpInfo.id := by
    unfold bgpBestSelection
    rw [plain, ← candidates_usable plain]
    exact selectLoop_contest infos none none
  by_cases filled : (usable infos).map unmarked = []
  · rw [contest, filled]
    exact Or.inl ⟨rfl, List.map_eq_nil_iff.mp filled⟩
  · obtain ⟨winner, won⟩ := @Contest.exists_winner _ (prefers env) _ filled
    obtain ⟨best, inside, rfl⟩ := List.mem_map.mp (Contest.winner_mem won)
    refine Or.inr ⟨best, inside, by rw [contest, won]; rfl, fun other member => ?_⟩
    exact Contest.winner_least (medOf env) (fun _ _ => (bgpInfoCmp_med always _ _).1)
      (fun _ _ => (bgpInfoCmp_med always _ _).2) won (unmarked other)
      (List.mem_map_of_mem member)

end Least

/-! ## Networks -/

/-- The link as a route of the sender's takes it. -/
def carrying (env : Env) (ri : BgpInfo) (hop : Hop) : Hop :=
  { hop with source := env.config ri.peer, suppressed := ri.suppressed }

/-- Speakers that compare every MED, and the links between them with the metric that the
receiver keeps for the sender. -/
structure Network (ι : Type) where
  env : ι → Env
  link : ι → ι → Option (Hop × U32)
  /-- The speaker that a speaker has under a neighbour's number. -/
  behind : ι → Nat → ι
  always : ∀ i, (env i).bestPath.alwaysCompareMed = true
  plain : ∀ i, (env i).bestPath.deterministicMed = false
  ends : ∀ i j hop metric, link i j = some (hop, metric) →
    hop.sender = (env i).bgp ∧ hop.receiver = (env j).bgp ∧
      ∃ peer, hop.neighbor = (env j).config peer ∧ behind j peer = i
  positive : ∀ i j hop metric, link i j = some (hop, metric) → metric ≠ 0

section Routes

variable {ι : Type} (network : Network ι) (p : Prefix) (routes : ι → List BgpInfo)

/-- The metrics of the links. -/
def Network.weight (i j : ι) : Option Nat := (network.link i j).map fun link => link.2.toNat

/-- The route that a speaker selects. -/
def Network.best (i : ι) : Option BgpInfo :=
  (routes i).find? fun ri => (bgpBestSelection (network.env i) (routes i)).new = some ri.id

/-- The route came over a link, where it is the one the sender has selected. -/
structure Arrived (j : ι) (ri sent : BgpInfo) (hop : Hop) (metric : U32) : Prop where
  best : network.best routes (network.behind j ri.peer) = some sent
  link : network.link (network.behind j ri.peer) j = some (hop, metric)
  crossed : ∃ heard, Forwards p (carrying (network.env (network.behind j ri.peer)) sent hop)
    sent.attr heard metric ri.attr

/-- The selected route has passed through the speaker. -/
inductive Passed (j : ι) : ι → Prop
  | here : Passed j j
  | on {i : ι} {ri sent : BgpInfo} {hop : Hop} {metric : U32} : network.best routes i = some ri →
      Arrived network p routes i ri sent hop metric → Passed j (network.behind i ri.peer) →
        Passed j i

/-- Every speaker has what the others have selected and nothing else. A link need not
bring a route back to where it has been. -/
structure Stable (origin : ι) (own : BgpInfo) : Prop where
  distinct : ∀ i, ((routes i).map BgpInfo.id).Nodup
  flagged : ∀ i, ∀ ri ∈ routes i, ri.attr.has .multiExitDisc = true
  originated : own ∈ usable (routes origin)
  learned : ∀ j, ∀ ri ∈ usable (routes j), (j = origin ∧ ri = own) ∨
    ∃ sent hop metric, Arrived network p routes j ri sent hop metric
  told : ∀ i j sent hop metric, network.best routes i = some sent →
    network.link i j = some (hop, metric) → Passed network p routes j i ∨
      ∃ ri ∈ usable (routes j), network.behind j ri.peer = i ∧
        Arrived network p routes j ri sent hop metric

/-- No MED that is sent wraps. -/
def Fits : Prop := ∀ i j sent hop metric, network.best routes i = some sent →
  network.link i j = some (hop, metric) → sent.attr.med.toNat + metric.toNat < 2 ^ 32

variable {network p routes} {origin : ι} {own : BgpInfo}

/-- The selected route can be used, and no other such route has a smaller MED. -/
theorem Stable.best_least (stable : Stable network p routes origin own) (i : ι) :
    (∀ ri, network.best routes i = some ri → ri ∈ usable (routes i)) ∧
      ∀ other ∈ usable (routes i), ∃ ri, network.best routes i = some ri ∧
        ri.attr.med.toNat ≤ other.attr.med.toNat := by
  have med {ri : BgpInfo} (inside : ri ∈ usable (routes i)) :
      medOf (network.env i) ri = ri.attr.med.toNat := by
    unfold medOf bgpMedValue
    rw [if_pos (stable.flagged i ri (List.mem_of_mem_filter inside))]
  rcases selection_med (network.always i) (network.plain i) (routes i) with
    ⟨nothing, empty⟩ | ⟨best, inside, picked, least⟩
  · rw [empty]
    refine ⟨fun ri chosen => ?_, fun other member => absurd member List.not_mem_nil⟩
    have named := List.find?_some chosen
    rw [decide_eq_true_iff, nothing] at named
    cases named
  · -- the number that is picked belongs to one route of the node
    have found : network.best routes i = some best := by
      have member := List.mem_of_mem_filter inside
      have any : (network.best routes i).isSome :=
        List.find?_isSome.mpr ⟨best, member, decide_eq_true picked⟩
      obtain ⟨ri, chosen⟩ := Option.isSome_iff_exists.mp any
      have named := List.find?_some chosen
      rw [decide_eq_true_iff, picked, Option.some.injEq] at named
      rw [chosen, List.inj_on_of_nodup_map (stable.distinct i) member
        (List.mem_of_find?_eq_some chosen) named]
    refine ⟨fun ri chosen => ?_, fun other member => ⟨best, found, ?_⟩⟩
    · rw [← Option.some.inj (found.symm.trans chosen)]
      exact inside
    · rw [← med inside, ← med member]
      exact least other member

/-- A link adds its metric. -/
theorem Arrived.med {j : ι} {ri sent : BgpInfo} {hop : Hop} {metric : U32}
    (arrived : Arrived network p routes j ri sent hop metric) (fits : Fits network routes) :
    ri.attr.med.toNat = sent.attr.med.toNat + metric.toNat := by
  obtain ⟨heard, crossed⟩ := arrived.crossed
  obtain ⟨added, kept⟩ := forwards_med p _ _ _ heard metric crossed
  rw [added, ← kept, BitVec.toNat_add]
  exact Nat.mod_eq_of_lt (fits _ _ sent hop metric arrived.best arrived.link)

/-- Where a route has passed through, it had a MED that was not larger. -/
theorem Passed.le (fits : Fits network routes) {i j : ι} (passed : Passed network p routes j i)
    {sent : BgpInfo} (best : network.best routes i = some sent) :
    ∃ ri, network.best routes j = some ri ∧ ri.attr.med.toNat ≤ sent.attr.med.toNat := by
  induction passed generalizing sent with
  | here => exact ⟨sent, best, Nat.le_refl _⟩
  | on chosen arrived _ ih =>
    obtain ⟨ri, held, below⟩ := ih arrived.best
    have grown := arrived.med fits
    cases Option.some.inj (best.symm.trans chosen)
    exact ⟨ri, held, by omega⟩

/-- The MEDs of the selected routes are distances that do not change any more. -/
theorem Stable.settled (stable : Stable network p routes origin own) (fits : Fits network routes) :
    Settled network.weight origin own.attr.med.toNat
      fun i => (network.best routes i).map fun ri => ri.attr.med.toNat := by
  constructor
  · obtain ⟨ri, chosen, below⟩ := (stable.best_least origin).2 own stable.originated
    exact ⟨_, below, by rw [chosen]; rfl⟩
  · intro j d held
    obtain ⟨ri, chosen, rfl⟩ := Option.map_eq_some_iff.mp held
    rcases stable.learned j ri ((stable.best_least j).1 ri chosen) with
      ⟨here, rfl⟩ | ⟨sent, hop, metric, arrived⟩
    · exact Or.inl ⟨here, rfl⟩
    · refine Or.inr ⟨_, _, metric.toNat, by rw [arrived.best]; rfl, ?_, ?_, arrived.med fits⟩
      · rw [Network.weight, arrived.link]
        rfl
      · have positive := network.positive _ _ hop metric arrived.link
        exact Nat.pos_of_ne_zero fun zero => positive (BitVec.eq_of_toNat_eq zero)
  · intro i j before step held link
    obtain ⟨sent, best, rfl⟩ := Option.map_eq_some_iff.mp held
    obtain ⟨⟨hop, metric⟩, linked, rfl⟩ := Option.map_eq_some_iff.mp link
    have reached : ∃ ri, network.best routes j = some ri ∧
        ri.attr.med.toNat ≤ sent.attr.med.toNat + metric.toNat := by
      rcases stable.told i j sent hop metric best linked with passed | ⟨ri, inside, -, arrived⟩
      · obtain ⟨ri, chosen, below⟩ := passed.le fits best
        exact ⟨ri, chosen, by omega⟩
      · obtain ⟨ri', chosen, below⟩ := (stable.best_least j).2 ri inside
        exact ⟨ri', chosen, by rw [← arrived.med fits]; exact below⟩
    obtain ⟨ri, chosen, below⟩ := reached
    exact ⟨_, below, by rw [chosen]; rfl⟩

/-- In a stable network whose MEDs fit, a speaker has selected a route with some MED if
and only if that is the least sum of metrics over the walks from the origin. -/
theorem best_least_iff (stable : Stable network p routes origin own) (fits : Fits network routes)
    (j : ι) (d : Nat) :
    (∃ ri, network.best routes j = some ri ∧ ri.attr.med.toNat = d) ↔
      IsLeast {sum | Walk network.weight origin own.attr.med.toNat j sum} d :=
  Option.map_eq_some_iff.symm.trans ((stable.settled fits).least_iff j d)

end Routes

/-! ## Two speakers -/

/-- The two ends of the plain hop, which has a metric of 100. -/
def pair : Network Bool where
  env := fun i =>
    { Actions.plainEnv [1, 3] with
      bgp := if i then (plainHop 65001).receiver else (plainHop 65001).sender
      bestPath := { alwaysCompareMed := true }
      config := fun peer =>
        .plain peer (if peer = 1 then 65000 else 65001) (if i then 65002 else 65001)
      config_id := fun _ => rfl }
  link := fun i j => if !i && j then some (plainHop 65001, 100) else none
  behind := fun _ _ => false
  always := fun _ => rfl
  plain := fun _ => rfl
  ends := by
    rintro (_ | _) (_ | _) hop metric ⟨⟩
    exact ⟨rfl, rfl, 3, rfl, rfl⟩
  positive := by
    rintro (_ | _) (_ | _) hop metric ⟨⟩
    decide

/-- The route of a speaker: what the first one has from outside, and what it told the
second one. -/
def pairRoute (i : Bool) : BgpInfo where
  id := 1
  peer := if i then 3 else 1
  type := .bgp
  subType := .normal
  attr := if i then (relayedState 65001 (storedAttr 10)).1.attr else storedAttr 10
  extra := none
  flags := { valid := true }

/-- The second speaker has selected the route with a MED of 110. -/
theorem best_least_iff_pair : IsLeast {sum | Walk pair.weight false 10 true sum} 110 := by
  have best (i : Bool) : pair.best (fun i => [pairRoute i]) i = some (pairRoute i) := by
    cases i <;> decide
  have arrived : Arrived pair (.default .ip) (fun i => [pairRoute i]) true (pairRoute true)
      (pairRoute false) (plainHop 65001) 100 := by
    have metric : (relayedState 65001 (storedAttr 10)).1.localMed = 100 := by decide
    have forwards := plainHop_forwards 65001 (storedAttr 10) (by decide) (by decide) (by decide)
      (by decide)
    exact ⟨best false, rfl, _, metric ▸ forwards⟩
  have stable : Stable pair (.default .ip) (fun i => [pairRoute i]) false (pairRoute false) := by
    refine ⟨fun _ => List.nodup_singleton _, by decide, by decide, ?_, ?_⟩
    · rintro (_ | _) ri inside
      · exact Or.inl ⟨rfl, List.mem_singleton.mp (List.mem_of_mem_filter inside)⟩
      · cases List.mem_singleton.mp (List.mem_of_mem_filter inside)
        exact Or.inr ⟨_, _, _, arrived⟩
    · rintro (_ | _) (_ | _) sent hop metric chosen ⟨⟩
      cases Option.some.inj (chosen.symm.trans (best false))
      exact Or.inr ⟨_, by decide, rfl, arrived⟩
  have fits : Fits pair fun i => [pairRoute i] := by
    rintro (_ | _) (_ | _) sent hop metric chosen ⟨⟩
    cases Option.some.inj (chosen.symm.trans (best false))
    decide
  exact (best_least_iff stable fits true 110).mp ⟨_, best true, by decide⟩

end Bgpd.StableNetwork
