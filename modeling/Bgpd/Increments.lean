import Bgpd.Rebuild

/-!
# Counting a route in and out

A route that comes or goes has every aggregate above it rebuilt, from the longest
prefix to the shortest. One rebuild after the other evolves, and what holds of the
route below one aggregate still holds when the next one is rebuilt.
-/

namespace Bgpd.Increments

open Prefixes Rib Damping Aggregation Evolution Primitives Rebuild

/-- The prefixes above one are those that cover it strictly. -/
theorem mem_above (p outer : Prefix) : outer ∈ above p ↔ outer.strictlyCovers p = true := by
  simp only [above, List.mem_map, List.mem_reverse, List.mem_range, Prefix.strictlyCovers,
    Bool.decide_and, Bool.and_eq_true, decide_eq_true_eq, List.isPrefixOf_iff_prefix,
    Prefix.prefixlen]
  constructor
  · rintro ⟨n, short, rfl⟩
    refine ⟨rfl, ?_, List.take_prefix n p.bits⟩
    rw [List.length_take]
    exact lt_of_le_of_lt (min_le_left _ _) short
  · rintro ⟨family, shorter, leading⟩
    refine ⟨outer.bits.length, shorter, ?_⟩
    obtain ⟨family', bits, fits⟩ := outer
    subst family
    congr 1
    exact (List.prefix_iff_eq_take.mp leading).symm

variable (env : Env) {scope : Scope}
variable (s : State) (rn : Node) (id : Nat)

/-- Nothing of a settled route changes that its counting depends on. -/
theorem settled_rebuild (afi : Afi) (safi : Safi) (p outer : Prefix) (rn : Node) (id : Nat)
    (subject : Subject) (here : Settled s afi safi p rn id) (later : Settled s afi safi outer rn id)
    (evolves : Evolves scope s (rebuild env s afi safi p (some subject) none).1) :
    Settled (rebuild env s afi safi p (some subject) none).1 afi safi outer rn id := by
  refine ⟨?_, ?_⟩
  · have place := (mem_below s afi safi outer rn).mp later.1
    exact (mem_below _ afi safi outer rn).mpr ⟨evolves.nodes rn place.1, place.2⟩
  · have apart : rn ≠ ownNode safi p := by
      rintro rfl
      exact ownNode_not_below s afi safi p here.1
    obtain ⟨change, same, touched⟩ := rebuild_touches env s afi safi p (some subject) none rn apart
    rw [same]
    intro ri' member named
    obtain ⟨ri, held, rfl⟩ := List.mem_map.mp member
    rw [(touched ri).id] at named
    rw [(touched ri).countable]
    exact later.2 ri held named

/-- One aggregate of the walk. -/
def incrementOne (afi : Afi) (safi : Safi) (state : State × Subject) (outer : Prefix) :
    State × Subject :=
  if (state.1.aggregates afi safi outer).isSome then
    let built := rebuild env state.1 afi safi outer (some state.2) none
    (built.1, built.2.getD state.2)
  else state

/-- A walk evolves where the subject may be counted at each of its aggregates. -/
theorem incrementWalk_evolves (covers : scope.Covers env) (afi : Afi) (safi : Safi)
    (outers : List Prefix) (s : State) (subject : Subject)
    (allowed : ∀ rn id, subject = .listed rn id →
      scope.Spares rn id ∨ ∀ outer ∈ outers, Settled s afi safi outer rn id) :
    Evolves scope s (outers.foldl (incrementOne env afi safi) (s, subject)).1 ∧
      Alike subject (outers.foldl (incrementOne env afi safi) (s, subject)).2 := by
  induction outers generalizing s subject with
  | nil => exact ⟨Evolves.refl s, .refl subject⟩
  | cons outer later ih =>
    rw [List.foldl_cons]
    by_cases configured : (s.aggregates afi safi outer).isSome = true
    · obtain ⟨subject', built, alike⟩ := rebuild_alike env s afi safi outer subject none
      have step : incrementOne env afi safi (s, subject) outer =
          ((rebuild env s afi safi outer (some subject) none).1, subject') := by
        simp [incrementOne, configured, built]
      have evolves : Evolves scope s (rebuild env s afi safi outer (some subject) none).1 := by
        apply rebuild_evolves env s afi safi outer (some subject) none covers
        · rintro rn id ⟨⟩
        · intro rn id listed
          refine (allowed rn id (Option.some.inj listed)).imp_right fun settled => ?_
          exact ⟨settled outer List.mem_cons_self, rfl⟩
      rw [step]
      have rest := ih (rebuild env s afi safi outer (some subject) none).1 subject' ?_
      · exact ⟨evolves.trans rest.1, alike.trans rest.2⟩
      · rintro rn id rfl
        cases subject with
        | fresh ri => exact alike.elim
        | listed rn' id' =>
          obtain ⟨rfl, rfl⟩ := alike
          refine (allowed rn id rfl).imp_right fun settled outer' member => ?_
          exact settled_rebuild env s afi safi outer outer' rn id _
            (settled outer List.mem_cons_self) (settled outer' (List.mem_cons_of_mem _ member))
            evolves
    · have step : incrementOne env afi safi (s, subject) outer = (s, subject) := by
        simp [incrementOne, configured]
      rw [step]
      exact ih s subject fun rn id listed => (allowed rn id listed).imp_right
        fun settled outer' member => settled outer' (List.mem_cons_of_mem _ member)

/-- A subject that is in hold-down counts for nothing. -/
def Subject.holddown (s : State) : Subject → Bool
  | .listed rn id => (s.info? rn id).all BgpInfo.holddown
  | .fresh ri => ri.holddown

theorem bgpAggregateIncrement_eq (afi : Afi) (safi : Safi) (p : Prefix) (subject : Subject) :
    bgpAggregateIncrement env s afi safi p subject =
      if safi = .mplsVpn ∨ p.prefixlen = 0 ∨ Subject.holddown s subject then (s, subject)
      else (above p).foldl (incrementOne env afi safi) (s, subject) := by
  cases subject <;> rfl

/-- A new route is counted: only its extra block changes. -/
theorem increment_fresh (covers : scope.Covers env) (s : State) (afi : Afi) (safi : Safi)
    (p : Prefix) (ri : BgpInfo) :
    ∃ ri', (bgpAggregateIncrement env s afi safi p (.fresh ri)).2 = .fresh ri' ∧
      ri' = { ri with extra := ri'.extra } ∧
      Evolves scope s (bgpAggregateIncrement env s afi safi p (.fresh ri)).1 := by
  rw [bgpAggregateIncrement_eq]
  split
  · exact ⟨ri, rfl, rfl, Evolves.refl s⟩
  · obtain ⟨evolves, alike⟩ := incrementWalk_evolves env covers afi safi (above p) s (.fresh ri)
      fun rn id listed => nomatch listed
    cases built : ((above p).foldl (incrementOne env afi safi) (s, .fresh ri)).2 with
    | listed rn id =>
      rw [built] at alike
      exact alike.elim
    | fresh ri' =>
      rw [built] at alike
      exact ⟨ri', rfl, alike, evolves⟩

/-- A route of a node is counted where its suppress count may change. -/
theorem aggregateIncrement_evolves (covers : scope.Covers env) (s : State) (rn : Node) (id : Nat)
    (spared : scope.Spares rn id) : Evolves scope s (aggregateIncrement env s rn id) := by
  unfold aggregateIncrement
  rw [bgpAggregateIncrement_eq]
  split
  · exact Evolves.refl s
  · apply (incrementWalk_evolves env covers rn.afi rn.safi (above rn.p) s (.listed rn id) _).1
    rintro _ _ ⟨⟩
    exact Or.inl spared

/-- It is also counted without that where it is the only one of its name in a main
table: every aggregate that counts it then marks it and queues its node. -/
theorem aggregateIncrement_settled (covers : scope.Covers env) (s : State) (rn : Node) (id : Nat)
    (present : rn ∈ s.nodes) (main : rn.owner = .main)
    (named : ∀ ri ∈ s.infos rn, ri.id = id → s.info? rn id = some ri ∧ ri.subType ≠ .aggregate) :
    Evolves scope s (aggregateIncrement env s rn id) := by
  unfold aggregateIncrement
  rw [bgpAggregateIncrement_eq]
  split
  · exact Evolves.refl s
  · rename_i proceeds
    push Not at proceeds
    apply (incrementWalk_evolves env covers rn.afi rn.safi (above rn.p) s (.listed rn id) _).1
    rintro _ _ ⟨⟩
    refine Or.inr fun outer member => ⟨?_, ?_⟩
    · exact (mem_below s rn.afi rn.safi outer rn).mpr
        ⟨present, main, rfl, rfl, rn.prd_none proceeds.1, (mem_above rn.p outer).mp member⟩
    · intro ri held same
      obtain ⟨found, normal⟩ := named ri held same
      have usable := proceeds.2.2
      simp only [Subject.holddown, found, Option.all_some] at usable
      simp [BgpInfo.countable, usable, normal]

/-- One aggregate of the way out. -/
def decrementOne (rn : Node) (id : Nat) (s : State) (outer : Prefix) : State :=
  if (s.aggregates rn.afi rn.safi outer).isSome then
    (rebuild env s rn.afi rn.safi outer none (some (rn, id))).1
  else s

theorem bgpAggregateDecrement_eq :
    bgpAggregateDecrement env s rn id =
      if rn.safi = .mplsVpn ∨ rn.p.prefixlen = 0 then s
      else (above rn.p).foldl (decrementOne env rn id) s := rfl

section Walks

variable {P : State → Prop} {s : State}

/-- Counting a route in keeps what the rebuild of every aggregate above it keeps. -/
theorem bgpAggregateIncrement_induct {afi : Afi} {safi : Safi} {p : Prefix}
    (rebuilt : ∀ s, ∀ outer ∈ above p, ∀ rinew, P s → P (rebuild env s afi safi outer rinew none).1)
    (start : P s) (subject : Subject) : P (bgpAggregateIncrement env s afi safi p subject).1 := by
  rw [bgpAggregateIncrement_eq]
  split
  · exact start
  · refine List.foldlRecOn (motive := fun state : State × Subject => P state.1) (above p)
      (incrementOne env afi safi) start ?_
    intro state kept outer member
    unfold incrementOne
    split
    · exact rebuilt state.1 outer member (some state.2) kept
    · exact kept

/-- So does counting it out. -/
theorem bgpAggregateDecrement_induct {rn : Node} {id : Nat}
    (rebuilt : ∀ s, ∀ outer ∈ above rn.p, P s →
      P (rebuild env s rn.afi rn.safi outer none (some (rn, id))).1)
    (start : P s) : P (bgpAggregateDecrement env s rn id) := by
  rw [bgpAggregateDecrement_eq]
  split
  · exact start
  · apply List.foldlRecOn _ _ start
    intro s kept outer member
    unfold decrementOne
    split
    · exact rebuilt s outer member kept
    · exact kept

end Walks

/-- No aggregate above a node has its route there. -/
theorem ownNode_above (outer : Prefix) (member : outer ∈ above rn.p) :
    rn ≠ ownNode rn.safi outer := by
  intro same
  have covers := (mem_above rn.p outer).mp member
  rw [same] at covers
  simp [ownNode, nodeOf, strictlyCovers_irrefl] at covers

/-- The routes of a node that is no aggregate's are only touched on the way out. -/
theorem decrement_touches_apart (other : Node)
    (apart : ∀ outer ∈ above rn.p, other ≠ ownNode rn.safi outer) :
    ∃ change, (bgpAggregateDecrement env s rn id).infos other = (s.infos other).map change ∧
      ∀ ri, Touched ri (change ri) := by
  apply bgpAggregateDecrement_induct env (P := fun s' => ∃ change,
    s'.infos other = (s.infos other).map change ∧ ∀ ri, Touched ri (change ri))
  · rintro s' outer member ⟨change, same, touched⟩
    obtain ⟨last, same', touched'⟩ := rebuild_touches env s' rn.afi rn.safi outer none
      (some (rn, id)) other (apart outer member)
    refine ⟨last ∘ change, by rw [same', same, List.map_map], fun ri => ?_⟩
    exact (touched ri).trans (touched' (change ri))
  · exact ⟨fun ri => ri, (List.map_id' _).symm, .refl⟩

/-- So are those of the node itself. -/
theorem decrement_touches :
    ∃ change, (bgpAggregateDecrement env s rn id).infos rn = (s.infos rn).map change ∧
      ∀ ri, Touched ri (change ri) :=
  decrement_touches_apart env s rn id rn (ownNode_above rn)

/-- A route is counted out where its suppress count may change, or where it counts
for nothing. -/
theorem bgpAggregateDecrement_evolves (covers : scope.Covers env) (s : State) (rn : Node) (id : Nat)
    (allowed : scope.Spares rn id ∨ Idle s rn id) :
    Evolves scope s (bgpAggregateDecrement env s rn id) := by
  suffices both : Evolves scope s (bgpAggregateDecrement env s rn id) ∧
      (scope.Spares rn id ∨ Idle (bgpAggregateDecrement env s rn id) rn id) from both.1
  apply bgpAggregateDecrement_induct env (P := fun s' =>
    Evolves scope s s' ∧ (scope.Spares rn id ∨ Idle s' rn id))
  · rintro s' outer member ⟨evolves, allowed⟩
    constructor
    · apply evolves.trans
      apply rebuild_evolves env s' rn.afi rn.safi outer none (some (rn, id)) covers
      · rintro _ _ ⟨⟩
        exact allowed
      · rintro _ _ ⟨⟩
    · refine allowed.imp_right fun idle ri' held named => ?_
      obtain ⟨change, same, touched⟩ := rebuild_touches env s' rn.afi rn.safi outer none
        (some (rn, id)) rn (ownNode_above rn outer member)
      rw [same] at held
      obtain ⟨ri, before, rfl⟩ := List.mem_map.mp held
      rw [(touched ri).id] at named
      rw [(touched ri).countable]
      exact idle ri before named
  · exact ⟨Evolves.refl s, allowed⟩

end Bgpd.Increments
