import Bgpd.Primitives

/-!
# Taking an aggregate down and building it up again

Between the two steps the suppress counts of the routes below are one too low.
Taken together they leave every route that still counts with a mark and its node
in the queue where anything of it was touched. The routes the aggregate is built
up for or without are the exception.
-/

namespace Bgpd.Rebuild

open Prefixes Rib Damping Aggregation Evolution Primitives

variable (s : State) (afi : Afi) (safi : Safi)

/-! ## The nodes below -/

theorem mem_below (p : Prefix) (rn : Node) :
    rn ∈ below s afi safi p ↔ rn ∈ s.nodes ∧ rn.owner = .main ∧ rn.afi = afi ∧ rn.safi = safi ∧
      rn.prd = none ∧ p.strictlyCovers rn.p = true := by
  simp [below, List.mem_filter]

theorem strictlyCovers_irrefl (p : Prefix) : p.strictlyCovers p = false := by
  simp [Prefix.strictlyCovers]

theorem ownNode_not_below (p : Prefix) : ownNode safi p ∉ below s afi safi p := by
  intro member
  have covers := ((mem_below s afi safi p _).mp member).2.2.2.2.2
  simp [ownNode, nodeOf, strictlyCovers_irrefl] at covers

theorem below_congr {s s' : State} (same : s'.nodes = s.nodes) (afi : Afi) (safi : Safi)
    (p : Prefix) : below s' afi safi p = below s afi safi p := by
  unfold below
  rw [same]

/-- A place in the walk does not disturb the nodes of another kind. -/
theorem filter_placeNode (keep : Node → Bool) (rn : Node) (nodes : List Node)
    (dropped : keep rn = false) : (placeNode rn nodes).filter keep = nodes.filter keep := by
  induction nodes with
  | nil => simp [placeNode, dropped]
  | cons first later ih =>
    simp only [placeNode]
    split
    · rw [List.filter_cons_of_neg (by simp [dropped])]
    · simp only [List.filter_cons, ih]

/-- The node of the aggregate itself is not below it. -/
theorem below_ownNode (p : Prefix) :
    below (bgpNodeGet s (ownNode safi p)) afi safi p = below s afi safi p := by
  unfold bgpNodeGet
  split
  · rfl
  · exact filter_placeNode _ _ _ (by simp [ownNode, nodeOf, strictlyCovers_irrefl])

/-- Nothing is below an address. -/
theorem below_address (p : Prefix) (address : p.prefixlen = p.family.bits) (rn : Node) :
    rn ∉ below s afi safi p := by
  intro member
  have covers := ((mem_below s afi safi p rn).mp member).2.2.2.2.2
  simp only [Prefix.strictlyCovers, Bool.decide_and, Bool.and_eq_true, decide_eq_true_eq] at covers
  have fits := rn.p.fits
  rw [← covers.1, ← address] at fits
  exact absurd fits (by simpa [Prefix.prefixlen] using covers.2.1)

section Visit

variable (s : State) (nodes : List Node) (change : Node → BgpInfo → BgpInfo)
  (matched : Node → BgpInfo → Bool)

theorem visit_infos (rn : Node) : (visit s nodes change matched).infos rn =
    if rn ∈ nodes then (s.infos rn).map (change rn) else s.infos rn := rfl

/-- A node with a route that matches is queued. -/
theorem visit_queued (rn : Node) (ri : BgpInfo) (visited : rn ∈ nodes) (member : ri ∈ s.infos rn)
    (matches' : matched rn ri = true) : rn ∈ (visit s nodes change matched).mainQueue := by
  refine List.mem_append_right _ (List.mem_filter.mpr ⟨visited, ?_⟩)
  exact List.any_eq_true.mpr ⟨ri, member, matches'⟩

end Visit

section Count

variable (s : State) (afi : Afi) (safi : Safi) (p : Prefix) (aggregate : Aggregate) (count : Int)

@[simp] theorem setCount_infos : (setCount s afi safi p aggregate count).infos = s.infos := rfl
@[simp] theorem setCount_mainQueue :
    (setCount s afi safi p aggregate count).mainQueue = s.mainQueue := rfl

@[simp] theorem setCount_aggregates :
    (setCount s afi safi p aggregate count).aggregates afi safi p =
      some { aggregate with count } := by
  simp [setCount]

end Count

variable (env : Env) {scope : Scope}
variable (aggregate : Aggregate) (ri : BgpInfo) (del : Option (Node × Nat))

/-! ## The routes below -/

/-- What an aggregate does to a route below it: nothing but the suppress count and
a mark. -/
structure Touched (ri ri' : BgpInfo) : Prop where
  id : ri'.id = ri.id
  peer : ri'.peer = ri.peer
  type : ri'.type = ri.type
  subType : ri'.subType = ri.subType
  attr : ri'.attr = ri.attr
  dampInfo : BgpInfo.dampInfo ri' = BgpInfo.dampInfo ri
  flags : ri'.flags = ri.flags ∨ ri'.flags = ri.flags.put .attrChanged true

theorem Touched.refl : Touched ri ri :=
  ⟨rfl, rfl, rfl, rfl, rfl, rfl, Or.inl rfl⟩

theorem Touched.trans {first second third : BgpInfo} (left : Touched first second)
    (right : Touched second third) : Touched first third where
  id := right.id.trans left.id
  peer := right.peer.trans left.peer
  type := right.type.trans left.type
  subType := right.subType.trans left.subType
  attr := right.attr.trans left.attr
  dampInfo := right.dampInfo.trans left.dampInfo
  flags := by
    rcases right.flags with same | marked
    · rw [same]
      exact left.flags
    · rw [marked]
      rcases left.flags with same | marked'
      · rw [same]
        exact Or.inr rfl
      · rw [marked']
        exact Or.inr rfl

/-- A suppress count does not concern damping. -/
theorem withSuppress_touched (count : Int → Int) :
    Touched ri (ri.withExtra fun extra => { extra with suppress := count extra.suppress }) := by
  refine ⟨rfl, rfl, rfl, rfl, rfl, ?_, Or.inl rfl⟩
  unfold BgpInfo.dampInfo BgpInfo.withExtra
  cases ri.extra <;> rfl

theorem mark_touched : Touched ri (ri.put .attrChanged true) :=
  ⟨rfl, rfl, rfl, rfl, rfl, rfl, Or.inr rfl⟩

theorem release_touched :
    Touched ri (release aggregate ri) := by
  unfold release
  have lower := withSuppress_touched ri (· - 1)
  split
  · dsimp only
    split
    · exact lower.trans (mark_touched _)
    · exact lower
  · exact .refl ri

theorem suppressOne_touched (counts : Bool) (ri : BgpInfo) :
    Touched ri (suppressOne aggregate counts ri) := by
  unfold suppressOne
  split
  · exact (withSuppress_touched ri (· + 1)).trans (mark_touched _)
  · exact .refl ri

/-- A touched route counts as before. -/
theorem Touched.countable {ri ri' : BgpInfo} (touched : Touched ri ri') :
    BgpInfo.countable ri' = BgpInfo.countable ri := by
  unfold BgpInfo.countable BgpInfo.holddown
  rw [touched.subType]
  rcases touched.flags with same | marked
  · rw [same]
  · rw [marked]
    rfl

/-- It is kin where its suppress count need not be kept or is what it was, or it is
marked in a queued node. -/
theorem Touched.kin {queue : List Node} {rn : Node} {ri ri' : BgpInfo} (touched : Touched ri ri')
    (course : scope.Spares rn ri.id ∨ ri'.suppressed = ri.suppressed ∨ Loud queue rn ri') :
    Kin scope queue rn ri ri' where
  id := touched.id
  peer := touched.peer
  type := touched.type
  subType := touched.subType
  selected := by
    rcases touched.flags with same | marked
    · rw [same]
    · rw [marked]
      rfl
  admitted := Or.inl touched.attr
  igpChanged := by
    intro changed
    rcases touched.flags with same | marked
    · rw [same] at changed
      exact Or.inl changed
    · rw [marked] at changed
      exact Or.inl changed
  course := by
    have silent : (scope.counted → ri'.suppressed = ri.suppressed) →
        Silent scope.counted ri ri' := by
      intro same
      refine ⟨touched.attr, same, ?_, ?_⟩
      · intro before
        rcases touched.flags with same | marked
        · rw [same]
          exact before
        · rw [marked]
          rfl
      · intro before
        rcases touched.flags with same | marked
        · rw [same]
          exact before
        · rw [marked]
          exact before
    rcases course with (exempt | uncounted) | same | loud
    · exact Or.inl exempt
    · exact Or.inr (Or.inl (silent fun counted => absurd counted uncounted))
    · exact Or.inr (Or.inl (silent fun _ => same))
    · exact Or.inr (Or.inr loud)

/-- A route that is let go and counted again. -/
def rebuilt (aggregate : Aggregate) (del : Option (Node × Nat)) (rn : Node) (ri : BgpInfo) :
    BgpInfo :=
  suppressOne aggregate (countsBut del rn (release aggregate ri)) (release aggregate ri)

theorem rebuilt_touched (rn : Node) (ri : BgpInfo) : Touched ri (rebuilt aggregate del rn ri) :=
  (release_touched aggregate ri).trans (suppressOne_touched aggregate _ _)

theorem countsBut_release (rn : Node) (ri : BgpInfo) :
    countsBut del rn (release aggregate ri) = countsBut del rn ri := by
  have touched := release_touched aggregate ri
  unfold countsBut
  rw [touched.countable, touched.id]

/-- A route that counts is marked. -/
theorem rebuilt_marked (rn : Node) (ri : BgpInfo) (counts : countsBut del rn ri = true)
    (summary : aggregate.summaryOnly = true) :
    (rebuilt aggregate del rn ri).flags.attrChanged = true := by
  unfold rebuilt suppressOne
  rw [countsBut_release, if_pos ⟨counts, summary⟩]
  rfl

/-- A rebuilt route is kin, but for the one that is left out. -/
theorem rebuilt_kin (queue : List Node) (rn : Node) (ri : BgpInfo)
    (without : BgpInfo.countable ri = true → del = some (rn, ri.id) → scope.Spares rn ri.id)
    (queued : countsBut del rn ri = true → aggregate.summaryOnly = true → rn ∈ queue) :
    Kin scope queue rn ri (rebuilt aggregate del rn ri) := by
  apply (rebuilt_touched aggregate del rn ri).kin
  by_cases summary : aggregate.summaryOnly = true
  · by_cases countable : BgpInfo.countable ri = true
    · by_cases left : del = some (rn, ri.id)
      · exact Or.inl (without countable left)
      · have counts : countsBut del rn ri = true := by simp [countsBut, countable, left]
        exact Or.inr (Or.inr ⟨Or.inl (rebuilt_marked aggregate del rn ri counts summary),
          queued counts summary⟩)
    · have skipped : countsBut del rn ri = false := by simp [countsBut, countable]
      refine Or.inr (Or.inl ?_)
      unfold rebuilt suppressOne
      rw [countsBut_release, skipped]
      simp [release, countable]
  · refine Or.inr (Or.inl ?_)
    simp [rebuilt, suppressOne, release, summary]

/-! ## The steps evolve -/

theorem setCount_evolves (s : State) (afi : Afi) (safi : Safi) (p : Prefix) (aggregate : Aggregate)
    (count : Int) : Evolves scope s (setCount s afi safi p aggregate count) where
  infos := fun rn => ⟨[], fun ri => ri, by simp, fun ri _ => Kin.refl ri, by simp, by simp⟩
  nextId := le_refl _
  nodes := fun _ member => member
  listed := fun _ => Or.inl
  mainQueue := ⟨[], by simp, by simp⟩
  rsclientQueue := ⟨[], by simp [setCount], by simp⟩
  defaultOriginate := rfl
  log := ⟨[], rfl, by simp⟩

/-- A visit evolves where every route stays kin. -/
theorem visit_evolves (s : State) (nodes : List Node) (change : Node → BgpInfo → BgpInfo)
    (matched : Node → BgpInfo → Bool) (reaches : ∀ rn ∈ nodes, scope.nodes rn)
    (kin : ∀ rn ∈ nodes, ∀ ri ∈ s.infos rn,
      Kin scope (visit s nodes change matched).mainQueue rn ri (change rn ri)) :
    Evolves scope s (visit s nodes change matched) where
  infos := fun rn => by
    by_cases visited : rn ∈ nodes
    · refine ⟨[], change rn, ?_, kin rn visited, by simp, by simp⟩
      rw [visit_infos, if_pos visited, List.nil_append]
    · refine ⟨[], fun ri => ri, ?_, fun ri _ => Kin.refl ri, by simp, by simp⟩
      rw [visit_infos, if_neg visited]
      simp
  nextId := le_refl _
  nodes := fun _ member => member
  listed := by
    intro rn held
    rw [visit_infos] at held
    split at held
    · exact Or.inl fun none => held (by rw [none]; rfl)
    · exact Or.inl held
  mainQueue := by
    refine ⟨_, rfl, fun rn member => ?_⟩
    exact reaches rn (List.mem_filter.mp member).1
  rsclientQueue := ⟨[], by simp [visit], by simp⟩
  defaultOriginate := rfl
  log := ⟨[], rfl, by simp⟩

/-- The routes of some nodes. -/
def Among (nodes : List Node) : Node → Nat → Prop := fun rn _ => rn ∈ nodes

theorem takeDown_evolves (covers : scope.Covers env) (s : State) (afi : Afi) (safi : Safi)
    (p : Prefix) (aggregate : Aggregate) :
    Evolves (scope.exempting (Among (below s afi safi p))) s (takeDown s afi safi p aggregate) := by
  apply (setCount_evolves s afi safi p aggregate _).trans
  apply visit_evolves
  · intro rn member
    exact covers.main rn ((mem_below s afi safi p rn).mp member).2.1
  · intro rn member ri _
    exact (release_touched aggregate ri).kin (Or.inl (Or.inl (Or.inr member)))

theorem withdrawAggregate_evolves (s : State) (rn : Node) (reaches : Scope.Reaches scope rn) :
    Evolves scope s (withdrawAggregate env s rn) := by
  unfold withdrawAggregate
  dsimp only
  split
  · exact bgpNodeGet_evolves s rn
  · exact ((bgpNodeGet_evolves s rn).trans (bgpInfoDelete_evolves env _ rn _ reaches)).trans
      (bgpProcess_evolves _ rn reaches)

theorem buildUp_evolves (covers : scope.Covers env) (s : State) (afi : Afi) (safi : Safi)
    (p : Prefix) (aggregate : Aggregate) (count : Int) (del : Option (Node × Nat)) :
    Evolves (scope.exempting (Among (below s afi safi p))) s
      (buildUp s afi safi p aggregate count del) := by
  apply (setCount_evolves s afi safi p aggregate _).trans
  apply visit_evolves
  · intro rn member
    exact covers.main rn ((mem_below s afi safi p rn).mp member).2.1
  · intro rn member ri _
    exact (suppressOne_touched aggregate _ ri).kin (Or.inl (Or.inl (Or.inr member)))

theorem bgpAggregateDelete_evolves (covers : scope.Covers env) (s : State) (afi : Afi) (safi : Safi)
    (p : Prefix) :
    Evolves (scope.exempting (Among (below s afi safi p))) s
    (bgpAggregateDelete env s afi safi p) := by
  unfold bgpAggregateDelete
  split
  · exact Evolves.refl s
  · split
    · exact Evolves.refl s
    · exact (takeDown_evolves env covers s afi safi p _).trans
        (withdrawAggregate_evolves env _ _ fun _ => covers.main _ rfl)

/-! ## What the steps do to the nodes below -/

section Exact

variable (s : State) (afi : Afi) (safi : Safi) (p : Prefix)

/-- The withdrawal of an aggregate's route leaves every other node alone. -/
theorem withdrawAggregate_infos (rn other : Node) (apart : other ≠ rn) :
    (withdrawAggregate env s rn).infos other = s.infos other := by
  unfold withdrawAggregate
  dsimp only
  split
  · rw [bgpNodeGet_infos]
  · rw [bgpProcess_infos, bgpInfoDelete_apart env _ _ _ other apart, bgpNodeGet_infos]

@[simp] theorem withdrawAggregate_nodes (rn : Node) :
    (withdrawAggregate env s rn).nodes = (bgpNodeGet s rn).nodes := by
  unfold withdrawAggregate bgpInfoDelete bgpInfoSetFlag
  dsimp only
  split <;> simp

@[simp] theorem withdrawAggregate_aggregates (rn : Node) :
    (withdrawAggregate env s rn).aggregates = s.aggregates := by
  unfold withdrawAggregate bgpInfoDelete bgpInfoSetFlag
  dsimp only
  split <;> simp

theorem bgpAggregateDelete_below :
    below (bgpAggregateDelete env s afi safi p) afi safi p = below s afi safi p := by
  unfold bgpAggregateDelete
  split
  · rfl
  · split
    · rfl
    · rw [below_congr (withdrawAggregate_nodes env _ _), below_ownNode]
      rfl

theorem bgpAggregateDelete_found {aggregate : Aggregate}
    (found : s.aggregates afi safi p = some aggregate) :
    ∃ count, (bgpAggregateDelete env s afi safi p).aggregates afi safi p =
      some { aggregate with count } := by
  unfold bgpAggregateDelete
  rw [found]
  dsimp only
  split
  · exact ⟨aggregate.count, found⟩
  · rw [withdrawAggregate_aggregates]
    exact ⟨_, setCount_aggregates s afi safi p aggregate _⟩

/-- Taking an aggregate down lets the routes below it go. -/
theorem bgpAggregateDelete_infos {aggregate : Aggregate}
    (found : s.aggregates afi safi p = some aggregate) (rn : Node)
    (member : rn ∈ below s afi safi p) :
    (bgpAggregateDelete env s afi safi p).infos rn = (s.infos rn).map (release aggregate) := by
  have apart : rn ≠ ownNode safi p := by
    rintro rfl
    exact ownNode_not_below s afi safi p member
  unfold bgpAggregateDelete
  rw [found]
  dsimp only
  split
  · rename_i address
    exact absurd member (below_address s afi safi p address rn)
  · rw [withdrawAggregate_infos env _ _ _ apart]
    exact (visit_infos _ _ _ _ rn).trans (if_pos member)

/-- Elsewhere only the node of the aggregate changes. -/
theorem bgpAggregateDelete_apart (rn : Node) (outside : rn ∉ below s afi safi p)
    (apart : rn ≠ ownNode safi p) :
    (bgpAggregateDelete env s afi safi p).infos rn = s.infos rn := by
  unfold bgpAggregateDelete
  split
  · rfl
  · split
    · rfl
    · rw [withdrawAggregate_infos env _ _ _ apart]
      exact (visit_infos _ _ _ _ rn).trans (if_neg outside)

end Exact

/-- The routes of a name count for no aggregate. -/
def Idle (s : State) (rn : Node) (id : Nat) : Prop :=
  ∀ ri ∈ s.infos rn, ri.id = id → BgpInfo.countable ri = false

section Again

variable (s : State) (afi : Afi) (safi : Safi) (p : Prefix) {aggregate : Aggregate}
  (count count' : Int) (del : Option (Node × Nat))

/-- An aggregate that was taken down is built up again, up to its own route and the
route it is built up for. -/
def again (aggregate : Aggregate) : State :=
  buildUp (bgpAggregateDelete env s afi safi p) afi safi p { aggregate with count } count' del

/-- The routes below are rebuilt. -/
theorem again_infos (found : s.aggregates afi safi p = some aggregate) (rn : Node)
    (member : rn ∈ below s afi safi p) :
    (again env s afi safi p count count' del aggregate).infos rn =
      (s.infos rn).map (rebuilt aggregate del rn) := by
  unfold again buildUp
  rw [visit_infos, bgpAggregateDelete_below, if_pos member, setCount_infos,
    bgpAggregateDelete_infos env s afi safi p found rn member, List.map_map]
  rfl

/-- Elsewhere only the node of the aggregate changes. -/
theorem again_apart (rn : Node) (outside : rn ∉ below s afi safi p) (apart : rn ≠ ownNode safi p) :
    (again env s afi safi p count count' del aggregate).infos rn = s.infos rn := by
  unfold again buildUp
  rw [visit_infos, bgpAggregateDelete_below, if_neg outside, setCount_infos,
    bgpAggregateDelete_apart env s afi safi p rn outside apart]

/-- A node with a route that counts for a summary-only aggregate is queued. -/
theorem again_queued (found : s.aggregates afi safi p = some aggregate) (rn : Node) (ri : BgpInfo)
    (member : rn ∈ below s afi safi p) (held : ri ∈ s.infos rn)
    (counts : countsBut del rn ri = true) (summary : aggregate.summaryOnly = true) :
    rn ∈ (again env s afi safi p count count' del aggregate).mainQueue := by
  have sameBelow := bgpAggregateDelete_below env s afi safi p
  apply visit_queued _ _ _ _ rn (release aggregate ri) (by rw [sameBelow]; exact member)
  · rw [setCount_infos, bgpAggregateDelete_infos env s afi safi p found rn member]
    exact List.mem_map_of_mem held
  · simp [countsBut_release, counts, summary]

theorem again_evolves (covers : scope.Covers env) (found : s.aggregates afi safi p = some aggregate)
    (without : ∀ rn id, del = some (rn, id) → scope.Spares rn id ∨ Idle s rn id) :
    Evolves scope s (again env s afi safi p count count' del aggregate) := by
  have second := buildUp_evolves env covers (bgpAggregateDelete env s afi safi p) afi safi p
    { aggregate with count } count' del
  rw [bgpAggregateDelete_below] at second
  apply Evolves.settle ((bgpAggregateDelete_evolves env covers s afi safi p).trans second)
  intro rn
  by_cases member : rn ∈ below s afi safi p
  case neg => exact Or.inl fun ri _ among => absurd among member
  refine Or.inr ⟨rebuilt aggregate del rn,
    again_infos env s afi safi p count count' del found rn member, fun ri held => ?_⟩
  refine rebuilt_kin aggregate del _ rn ri (fun countable left => ?_)
    (again_queued env s afi safi p count count' del found rn ri member held)
  rcases without rn ri.id left with inScope | idle
  · exact inScope
  · exact absurd countable (by simp [idle ri held rfl])

end Again

variable (aggregate : Aggregate) (s : State) (rinew : Option Subject)

/-! ## The whole step -/

/-- Taking an aggregate down and building it up again. -/
def rebuild (s : State) (afi : Afi) (safi : Safi) (p : Prefix) (rinew : Option Subject)
    (del : Option (Node × Nat)) : State × Option Subject :=
  bgpAggregateRoute env (bgpAggregateDelete env s afi safi p) afi safi p rinew del

/-- A route that an aggregate is built up for keeps all but its extra block. -/
def Alike : Subject → Subject → Prop
  | .listed rn id, .listed rn' id' => rn' = rn ∧ id' = id
  | .fresh ri, .fresh ri' => ri' = { ri with extra := ri'.extra }
  | _, _ => False

theorem Alike.refl (subject : Subject) : Alike subject subject := by
  cases subject with
  | listed rn id => exact ⟨rfl, rfl⟩
  | fresh ri => rfl

theorem Alike.trans {first second third : Subject} (left : Alike first second)
    (right : Alike second third) : Alike first third := by
  cases first <;> cases second <;> cases third <;> simp only [Alike] at *
  · exact ⟨right.1.trans left.1, right.2.trans left.2⟩
  · rw [right, left]

theorem suppressSubject_alike (subject : Subject) :
    ∃ subject', (suppressSubject aggregate s (some subject)).2 = some subject' ∧
      Alike subject subject' := by
  cases subject with
  | listed rn id => exact ⟨_, rfl, rfl, rfl⟩
  | fresh ri =>
    refine ⟨_, rfl, ?_⟩
    simp only [Alike]
    split <;> rfl

theorem rebuild_alike (afi : Afi) (safi : Safi) (p : Prefix) (subject : Subject)
    (del : Option (Node × Nat)) :
    ∃ subject', (rebuild env s afi safi p (some subject) del).2 = some subject' ∧
      Alike subject subject' := by
  unfold rebuild bgpAggregateRoute
  split
  · exact ⟨subject, rfl, .refl subject⟩
  · exact suppressSubject_alike _ _ subject

/-- The subject's count may rise where it is in the scope, or marked in a queued
node. -/
theorem suppressSubject_evolves
    (allowed : ∀ rn id, rinew = some (.listed rn id) → aggregate.summaryOnly = true →
      ∀ ri ∈ s.infos rn, ri.id = id → scope.Spares rn id ∨ Loud s.mainQueue rn ri) :
    Evolves scope s (suppressSubject aggregate s rinew).1 := by
  match rinew with
  | none => exact Evolves.refl s
  | some (.fresh ri) => exact Evolves.refl s
  | some (.listed rn id) =>
    unfold suppressSubject
    dsimp only
    split
    · rename_i summary
      apply modify_evolves
      rintro ri member rfl
      refine Touched.kin (withSuppress_touched ri (· + 1)) ?_
      exact (allowed rn ri.id rfl summary ri member rfl).imp_right Or.inr
    · exact Evolves.refl s

theorem addAggregate_evolves (covers : scope.Covers env) (s : State) (safi : Safi) (p : Prefix)
    (aggregate : Aggregate) (merged : Merged) :
    Evolves scope s (addAggregate env s safi p aggregate merged) := by
  unfold addAggregate bgpInfoNew
  refine Evolves.trans (bgpInfoAdd_evolves _ _
    ((issue_evolves s).trans (bgpNodeGet_evolves _ _))
    ?_ rfl (fun changed => absurd changed Bool.false_ne_true) ?_ ?_ ?_ ?_)
      (bgpProcess_evolves _ _ fun _ => covers.main _ rfl)
  · exact (mem_bgpNodeGet _ _ _).mpr (Or.inl rfl)
  · exact covers.aggregates _ _ _ _
  · exact le_refl _
  · rw [bgpNodeGet_nextId]
    exact Nat.lt_succ_self _
  · intro bounded other member
    rw [bgpNodeGet_infos] at member
    exact (bounded _ other member).ne

/-- The route an aggregate is built up for is suppressed once more. -/
def bumped (aggregate : Aggregate) (rinew : Option Subject) (rn : Node) (ri : BgpInfo) : BgpInfo :=
  match rinew with
  | some (.listed rn' id) =>
    if rn = rn' ∧ ri.id = id ∧ aggregate.summaryOnly then
      ri.withExtra fun extra => { extra with suppress := extra.suppress + 1 }
    else ri
  | _ => ri

theorem bumped_touched (rn : Node) (ri : BgpInfo) : Touched ri (bumped aggregate rinew rn ri) := by
  unfold bumped
  split
  · split
    · exact withSuppress_touched ri (· + 1)
    · exact .refl ri
  · exact .refl ri

theorem suppressSubject_infos (rn : Node) : (suppressSubject aggregate s rinew).1.infos rn =
      (s.infos rn).map (bumped aggregate rinew rn) := by
  match rinew with
  | none => exact (List.map_id' _).symm
  | some (.fresh ri) => exact (List.map_id' _).symm
  | some (.listed rn' id) =>
    unfold suppressSubject bumped
    by_cases summary : aggregate.summaryOnly = true
    · by_cases here : rn = rn'
      · subst here
        simp [summary, State.modify, replace_same]
      · simp only [summary, if_true, here, false_and, if_false, List.map_id']
        exact modify_apart s rn' id _ rn here
    · simp [summary]

theorem addAggregate_apart (safi : Safi) (p : Prefix) (aggregate : Aggregate) (merged : Merged)
    (rn : Node) (apart : rn ≠ ownNode safi p) :
    (addAggregate env s safi p aggregate merged).infos rn = s.infos rn := by
  unfold addAggregate bgpInfoNew
  rw [bgpProcess_infos]
  refine (replace_ne _ _ _ _ apart).trans ?_
  rw [bgpNodeGet_infos]

section Whole

variable (s : State) (afi : Afi) (safi : Safi) (p : Prefix) {aggregate : Aggregate}
  (rinew : Option Subject) (del : Option (Node × Nat))

/-- The parts of the whole step. -/
theorem rebuild_eq (found : s.aggregates afi safi p = some aggregate) :
    ∃ count count' : Int, ∃ merged,
      let built := suppressSubject { aggregate with count }
        (again env s afi safi p count count' del aggregate) rinew
      rebuild env s afi safi p rinew del =
        (if count' ≠ 0 then addAggregate env built.1 safi p { aggregate with count } merged
          else built.1,
          built.2) := by
  obtain ⟨count, found'⟩ := bgpAggregateDelete_found env s afi safi p found
  unfold rebuild bgpAggregateRoute
  rw [found']
  exact ⟨count, _, _, rfl⟩

/-- An aggregate that is not configured is not built. -/
theorem rebuild_none (absent : s.aggregates afi safi p = none) :
    rebuild env s afi safi p rinew del = (s, rinew) := by
  have same : bgpAggregateDelete env s afi safi p = s := by
    unfold bgpAggregateDelete
    rw [absent]
  unfold rebuild bgpAggregateRoute
  rw [same, absent]

/-- What the whole step does to the routes of every node but the aggregate's own. -/
theorem rebuild_infos (found : s.aggregates afi safi p = some aggregate) (rn : Node)
    (apart : rn ≠ ownNode safi p) :
    (rebuild env s afi safi p rinew del).1.infos rn =
      (s.infos rn).map fun ri => bumped aggregate rinew rn
        (if rn ∈ below s afi safi p then rebuilt aggregate del rn ri else ri) := by
  obtain ⟨count, count', merged, whole⟩ := rebuild_eq env s afi safi p rinew del found
  have built : (rebuild env s afi safi p rinew del).1.infos rn =
      (suppressSubject { aggregate with count }
        (again env s afi safi p count count' del aggregate) rinew).1.infos rn := by
    rw [whole]
    split
    · exact addAggregate_apart env _ safi p _ merged rn apart
    · rfl
  rw [built, suppressSubject_infos]
  by_cases member : rn ∈ below s afi safi p
  · simp only [again_infos env s afi safi p count count' del found rn member, if_pos member,
      List.map_map]
    rfl
  · simp only [again_apart env s afi safi p count count' del rn member apart, if_neg member]
    rfl

/-- Apart from the aggregate's own node the routes are only touched. -/
theorem rebuild_touches (rn : Node) (apart : rn ≠ ownNode safi p) :
    ∃ change, (rebuild env s afi safi p rinew del).1.infos rn = (s.infos rn).map change ∧
      ∀ ri, Touched ri (change ri) := by
  cases configured : s.aggregates afi safi p with
  | none =>
    rw [rebuild_none env s afi safi p rinew del configured]
    exact ⟨fun ri => ri, (List.map_id' _).symm, .refl⟩
  | some aggregate =>
    refine ⟨_, rebuild_infos env s afi safi p rinew del configured rn apart, fun ri => ?_⟩
    split
    · exact (rebuilt_touched aggregate del rn ri).trans (bumped_touched aggregate rinew rn _)
    · exact bumped_touched aggregate rinew rn ri

/-- A route that is below the aggregate and counts for it. -/
def Settled (s : State) (afi : Afi) (safi : Safi) (p : Prefix) (rn : Node) (id : Nat) : Prop :=
  rn ∈ below s afi safi p ∧ ∀ ri ∈ s.infos rn, ri.id = id → BgpInfo.countable ri = true

theorem rebuild_evolves (covers : scope.Covers env)
    (without : ∀ rn id, del = some (rn, id) → scope.Spares rn id ∨ Idle s rn id)
    (allowed : ∀ rn id, rinew = some (.listed rn id) →
      scope.Spares rn id ∨ Settled s afi safi p rn id ∧ del = none) :
    Evolves scope s (rebuild env s afi safi p rinew del).1 := by
  cases configured : s.aggregates afi safi p with
  | none =>
    rw [rebuild_none env s afi safi p rinew del configured]
    exact Evolves.refl s
  | some aggregate =>
    obtain ⟨count, count', merged, whole⟩ := rebuild_eq env s afi safi p rinew del configured
    have built : Evolves scope s (suppressSubject { aggregate with count }
        (again env s afi safi p count count' del aggregate) rinew).1 := by
      apply (again_evolves env s afi safi p count count' del covers configured without).trans
      apply suppressSubject_evolves
      intro rn id listed summary ri' member named
      rcases allowed rn id listed with inScope | ⟨⟨inBelow, countable⟩, nobody⟩
      · exact Or.inl inScope
      · rw [again_infos env s afi safi p count count' del configured rn inBelow] at member
        obtain ⟨ri, held, rfl⟩ := List.mem_map.mp member
        rw [(rebuilt_touched aggregate del rn ri).id] at named
        have counts : countsBut del rn ri = true := by
          simp [countsBut, countable ri held named, nobody]
        exact Or.inr ⟨Or.inl (rebuilt_marked aggregate del rn ri counts summary),
          again_queued env s afi safi p count count' del configured rn ri inBelow held
            counts summary⟩
    rw [whole]
    split
    · exact built.trans (addAggregate_evolves env covers _ safi p _ merged)
    · exact built

end Whole

end Bgpd.Rebuild
