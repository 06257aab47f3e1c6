import Bgpd.Outcome
import Bgpd.Sources
import Bgpd.Actions

/-!
# Which routes stand in a node

Most of what happens to the tables leaves the routes of a kind alone: their marks,
their suppress counts and their metrics change, but neither their attributes nor
whether they can be used, and none comes or goes but one that was removed already.
Where a node has at most one route of a kind, what it shows of the kind is a route
or nothing, and only the calls for that kind change what it shows.
-/

namespace Bgpd.Standing

open Prefixes Attributes Rib Damping Aggregation Updates Processing Selection Evolution Primitives
  Rebuild Increments Steps Choice Outcome Actions

variable (env : Env)

/-- A kind of routes: the neighbour, the protocol and the source they come from. -/
abbrev Kind := Nat → RouteType → SubType → Prop

/-- The route is of the kind. -/
def Kind.Of (kind : Kind) (ri : BgpInfo) : Prop := kind ri.peer ri.type ri.subType

/-- The part of a route that marks, counts and metrics have no part in. -/
def core (ri : BgpInfo) : BgpInfo :=
  { ri with
    extra := none
    flags :=
      { ri.flags with
        igpChanged := false, selected := false, attrChanged := false, dmedCheck := false
        dmedSelected := false, counted := false } }

section Core

variable {ri ri' : BgpInfo}

/-- What the core has, equal cores have alike. -/
theorem core_congr {β : Type} (part : BgpInfo → β) (same : core ri' = core ri) :
    part (core ri') = part (core ri) := congrArg part same

theorem core_id (same : core ri' = core ri) : ri'.id = ri.id := core_congr BgpInfo.id same

theorem core_type (same : core ri' = core ri) : ri'.type = ri.type := core_congr BgpInfo.type same

theorem core_peer (same : core ri' = core ri) : ri'.peer = ri.peer := core_congr BgpInfo.peer same

theorem core_subType (same : core ri' = core ri) : ri'.subType = ri.subType :=
  core_congr BgpInfo.subType same

theorem core_removed (same : core ri' = core ri) : ri'.flags.removed = ri.flags.removed :=
  core_congr (fun ri => ri.flags.removed) same

theorem core_of (kind : Kind) (same : core ri' = core ri) : kind.Of ri' ↔ kind.Of ri := by
  unfold Kind.Of
  rw [core_peer same, core_type same, core_subType same]

theorem core_withExtra (change : InfoExtra → InfoExtra) :
    core (ri.withExtra change) = core ri := rfl

theorem Reflagged.core (reflagged : Reflagged ri ri') : Standing.core ri' = Standing.core ri := by
  obtain ⟨_, _, _, _, rfl⟩ := reflagged
  rfl

theorem Touched.core (touched : Touched ri ri') : Standing.core ri' = Standing.core ri := by
  have flags := touched.flags
  obtain ⟨id, peer, type, subType, attr, extra, flags'⟩ := ri'
  obtain ⟨sameId, samePeer, sameType, sameSubType, sameAttr, -, -⟩ := touched
  subst sameId samePeer sameType sameSubType sameAttr
  rcases flags with rfl | rfl <;> rfl

end Core

/-! ## Nodes whose routes of a kind stand -/

/-- The routes of the kind in the node stand from one state to another: those that
are not removed stay, and none comes. -/
structure Stands (kind : Kind) (rn : Node) (s s' : State) : Prop where
  kept : ∀ ri ∈ s.infos rn, kind.Of ri → ri.flags.removed = false →
    ∃ ri' ∈ s'.infos rn, core ri' = core ri
  origin : ∀ ri' ∈ s'.infos rn, kind.Of ri' → ∃ ri ∈ s.infos rn, core ri' = core ri

namespace Stands

variable {kind : Kind} {rn : Node} {s s' s'' : State}

theorem of_infos (same : s'.infos rn = s.infos rn) : Stands kind rn s s' where
  kept := fun ri held _ _ => ⟨ri, same ▸ held, rfl⟩
  origin := fun ri' held _ => ⟨ri', same ▸ held, rfl⟩

theorem refl (s : State) : Stands kind rn s s := of_infos rfl

theorem trans (left : Stands kind rn s s') (right : Stands kind rn s' s'') :
    Stands kind rn s s'' where
  kept := by
    intro ri held mine present
    obtain ⟨ri', held', same⟩ := left.kept ri held mine present
    obtain ⟨ri'', held'', same'⟩ := right.kept ri' held' ((core_of kind same).mpr mine)
      ((core_removed same).trans present)
    exact ⟨ri'', held'', same'.trans same⟩
  origin := by
    intro ri'' held'' mine
    obtain ⟨ri', held', same'⟩ := right.origin ri'' held'' mine
    obtain ⟨ri, held, same⟩ := left.origin ri' held' ((core_of kind same').mp mine)
    exact ⟨ri, held, same'.trans same⟩

/-- A change of the routes in their places that touches the core of none of the
kind. -/
theorem of_map (change : BgpInfo → BgpInfo) (infos : s'.infos rn = (s.infos rn).map change)
    (each : ∀ ri ∈ s.infos rn, core (change ri) = core ri ∨
      ¬ kind.Of ri ∧ ¬ kind.Of (change ri)) : Stands kind rn s s' where
  kept := by
    intro ri held mine _
    refine ⟨change ri, infos ▸ List.mem_map_of_mem held, ?_⟩
    exact (each ri held).resolve_right fun other => other.1 mine
  origin := by
    intro ri' held mine
    rw [infos] at held
    obtain ⟨ri, before, rfl⟩ := List.mem_map.mp held
    exact ⟨ri, before, (each ri before).resolve_right fun other => other.2 mine⟩

end Stands

section Primitives

variable {kind : Kind} {rn : Node}
variable (s : State) (at' : Node) (id : Nat)

theorem bgpProcess_stands (other : Node) : Stands kind rn s (bgpProcess s other) :=
  .of_infos (by rw [bgpProcess_infos])

theorem bgpNodeGet_stands (other : Node) : Stands kind rn s (bgpNodeGet s other) :=
  .of_infos (by rw [bgpNodeGet_infos])

/-- A change of one route that is not of the kind, or whose core stays. -/
theorem modify_stands (change : BgpInfo → BgpInfo)
    (each : ∀ ri ∈ s.infos at', ri.id = id → core (change ri) = core ri ∨ ¬ kind.Of ri ∧
      ¬ kind.Of (change ri)) :
    Stands kind rn s (s.modify at' id change) := by
  by_cases here : rn = at'
  · subst here
    refine .of_map (fun ri => if ri.id = id then change ri else ri) (replace_same _ _ _) ?_
    intro ri held
    split_ifs with named
    · exact each ri held named
    · exact Or.inl rfl
  · exact .of_infos (modify_apart s at' id change rn here)

/-- A flag that is not part of the core, or a route that is not of the kind. -/
theorem putFlag_stands (flag : InfoFlag) (on : Bool)
    (each : (∀ ri : BgpInfo, core (ri.put flag on) = core ri) ∨ ∀ ri ∈ s.infos at', ri.id = id →
      ¬ kind.Of ri) :
    Stands kind rn s (bgpInfoPutFlag env s at' id flag on) := by
  by_cases here : rn = at'
  · subst here
    refine .of_map (fun ri => if ri.id = id then (bgpInfoPut env s rn ri flag on).2 else ri) ?_ ?_
    · rw [bgpInfoPutFlag_infos, replace_same]
      rfl
    · intro ri held
      obtain ⟨counted, same⟩ := bgpInfoPut_route env s rn ri flag on
      split_ifs with named
      · rcases each with free | other
        · rw [same]
          exact Or.inl (free ri)
        · refine Or.inr ⟨other ri held named, ?_⟩
          rw [same]
          exact other ri held named
      · exact Or.inl rfl
  · exact .of_infos (bgpInfoPutFlag_apart env s at' id flag on rn here)

/-- Routes of another kind come, go, and change in every way. -/
theorem bgpInfoDelete_stands (other : ∀ ri ∈ s.infos at', ri.id = id → ¬ kind.Of ri) :
    Stands kind rn s (bgpInfoDelete env s at' id) := by
  refine (putFlag_stands env s at' id .removed true (Or.inr other)).trans ?_
  refine modify_stands _ at' id _ fun ri held named => Or.inr ?_
  obtain ⟨before, held', named', counted, rfl⟩ :=
    bgpInfoPutFlag_routes env s at' id .removed true held named
  exact ⟨other before held' named', other before held' named'⟩

theorem bgpInfoAdd_stands (ri : BgpInfo) (other : ¬ kind.Of ri) :
    Stands kind rn s (bgpInfoAdd s at' ri) := by
  by_cases here : rn = at'
  · subst here
    have infos : (bgpInfoAdd s rn ri).infos rn = ri :: s.infos rn := replace_same _ _ _
    refine ⟨fun old held _ _ => ⟨old, infos ▸ List.mem_cons_of_mem _ held, rfl⟩,
      fun old held mine => ?_⟩
    rw [infos] at held
    rcases List.mem_cons.mp held with rfl | earlier
    · exact absurd mine other
    · exact ⟨old, earlier, rfl⟩
  · exact .of_infos (replace_ne _ _ _ _ here)

end Primitives

/-! ## Aggregates -/

/-- The routes of aggregates are of another kind, where the node can have any. -/
def Kind.Apart (kind : Kind) (rn : Node) : Prop :=
  rn.owner = .main → ∀ ri : BgpInfo, ri.peer = env.self → ri.type = .bgp → ri.subType = .aggregate →
    ¬ kind.Of ri

section Aggregates

variable {kind : Kind} {rn : Node}
variable (s : State) (afi : Afi) (safi : Safi)

/-- Taking an aggregate down or building it up touches no core. -/
theorem visit_stands (nodes : List Node) (change : Node → BgpInfo → BgpInfo)
    (matched : Node → BgpInfo → Bool) (touched : ∀ rn ri, Touched ri (change rn ri)) :
    Stands kind rn s (visit s nodes change matched) := by
  by_cases visited : rn ∈ nodes
  · refine .of_map (change rn) ?_ fun ri _ => Or.inl (Touched.core (touched rn ri))
    rw [visit_infos, if_pos visited]
  · exact .of_infos (by rw [visit_infos, if_neg visited])

theorem takeDown_stands (p : Prefix) (aggregate : Aggregate) :
    Stands kind rn s (takeDown s afi safi p aggregate) := by
  unfold takeDown
  have counted : ∀ count, Stands kind rn s (setCount s afi safi p aggregate count) :=
    fun _ => .of_infos rfl
  exact (counted _).trans (visit_stands _ _ _ _ fun _ ri => release_touched aggregate ri)

theorem buildUp_stands (p : Prefix) (aggregate : Aggregate) (count : Int)
    (del : Option (Node × Nat)) : Stands kind rn s (buildUp s afi safi p aggregate count del) := by
  unfold buildUp
  have counted : Stands kind rn s (setCount s afi safi p aggregate count) := .of_infos rfl
  exact counted.trans (visit_stands _ _ _ _ fun _ ri => suppressOne_touched aggregate _ ri)

theorem suppressSubject_stands (aggregate : Aggregate) (subject : Option Subject) :
    Stands kind rn s (suppressSubject aggregate s subject).1 := by
  match subject with
  | none => exact .refl s
  | some (.fresh ri) => exact .refl s
  | some (.listed rn' id) =>
    unfold suppressSubject
    split_ifs
    · exact modify_stands s rn' id _ fun ri _ _ => Or.inl (core_withExtra _)
    · exact .refl s

/-- The newest route of an aggregate is removed, which is of another kind. -/
theorem withdrawAggregate_stands (apart : kind.Apart env rn) (s : State) (sound : Sound s)
    (safi : Safi) (p : Prefix) : Stands kind rn s (withdrawAggregate env s (ownNode safi p)) := by
  unfold withdrawAggregate
  dsimp only
  split
  · exact bgpNodeGet_stands s _
  · rename_i ri found
    by_cases here : rn = ownNode safi p
    · refine ((bgpNodeGet_stands s _).trans (bgpInfoDelete_stands env _ _ _ ?_)).trans
        (bgpProcess_stands _ _)
      have known := List.find?_some found
      have held := List.mem_of_find?_eq_some found
      simp only [decide_eq_true_eq] at known
      rw [bgpNodeGet_infos] at held ⊢
      intro other member named
      obtain rfl := sound.unique held member named
      exact apart (here ▸ rfl) other known.1 known.2.1 known.2.2
    · refine .of_infos ?_
      rw [bgpProcess_infos, bgpInfoDelete_apart env _ _ _ rn here, bgpNodeGet_infos]

theorem addAggregate_stands (apart : kind.Apart env rn) (s : State) (safi : Safi) (p : Prefix)
    (aggregate : Aggregate) (merged : Merged) :
    Stands kind rn s (addAggregate env s safi p aggregate merged) := by
  by_cases here : rn = ownNode safi p
  · unfold addAggregate bgpInfoNew
    have issued : Stands kind rn s { s with nextId := s.nextId + 1 } := .of_infos rfl
    refine ((issued.trans (bgpNodeGet_stands _ _)).trans (bgpInfoAdd_stands _ _ _ ?_)).trans
      (bgpProcess_stands _ _)
    exact apart (here ▸ rfl) _ rfl rfl rfl
  · exact .of_infos (addAggregate_apart env s safi p aggregate merged rn here)

theorem bgpAggregateDelete_stands (apart : kind.Apart env rn) (s : State) (sound : Sound s)
    (afi : Afi)
    (safi : Safi) (p : Prefix) : Stands kind rn s (bgpAggregateDelete env s afi safi p) := by
  unfold bgpAggregateDelete
  split
  · exact .refl s
  · rename_i aggregate configured
    split
    · exact .refl s
    · have down := takeDown_evolves env (lax_covers env) s afi safi p aggregate
      exact (takeDown_stands s afi safi p aggregate).trans
        (withdrawAggregate_stands env apart _ (down.sound sound) safi p)

theorem bgpAggregateRoute_stands (apart : kind.Apart env rn) (s : State) (afi : Afi) (safi : Safi)
    (p : Prefix) (rinew : Option Subject) (del : Option (Node × Nat)) :
    Stands kind rn s (bgpAggregateRoute env s afi safi p rinew del).1 := by
  unfold bgpAggregateRoute
  split
  · exact .refl s
  · rename_i aggregate configured
    dsimp only
    have built : ∀ count, Stands kind rn s
        (suppressSubject aggregate (buildUp s afi safi p aggregate count del) rinew).1 :=
            fun count =>
      (buildUp_stands s afi safi p aggregate count del).trans (suppressSubject_stands _ _ rinew)
    generalize aggregate.count + (tally s (below s afi safi p) (countsBut del) : Int)
      + (if rinew.isSome = true then 1 else 0) = count
    split
    · exact (built _).trans (addAggregate_stands env apart _ safi p _ _)
    · exact built _

theorem rebuild_stands (apart : kind.Apart env rn) (s : State) (sound : Sound s) (afi : Afi)
    (safi : Safi) (p : Prefix) (rinew : Option Subject) (del : Option (Node × Nat)) :
    Stands kind rn s (rebuild env s afi safi p rinew del).1 :=
  (bgpAggregateDelete_stands env apart s sound afi safi p).trans
    (bgpAggregateRoute_stands env apart _ afi safi p rinew del)

/-- Every scope in which nothing is asked covers a rebuild. -/
theorem rebuild_lax (p : Prefix) (rinew : Option Subject) (del : Option (Node × Nat)) :
    Evolves lax s (rebuild env s afi safi p rinew del).1 :=
  rebuild_evolves env s afi safi p rinew del (lax_covers env)
    (fun _ _ _ => Or.inl (Or.inl trivial)) fun _ _ _ => Or.inl (Or.inl trivial)

theorem bgpAggregateIncrement_stands (apart : kind.Apart env rn) (s : State) (sound : Sound s)
    (afi : Afi) (safi : Safi) (p : Prefix) (subject : Subject) :
    Stands kind rn s (bgpAggregateIncrement env s afi safi p subject).1 := by
  suffices both : Sound (bgpAggregateIncrement env s afi safi p subject).1 ∧
      Stands kind rn s (bgpAggregateIncrement env s afi safi p subject).1 from both.2
  apply bgpAggregateIncrement_induct env (P := fun s' => Sound s' ∧ Stands kind rn s s')
  · rintro s' outer - rinew ⟨sound, stands⟩
    exact ⟨(rebuild_lax env s' afi safi outer rinew none).sound sound,
      stands.trans (rebuild_stands env apart s' sound afi safi outer rinew none)⟩
  · exact ⟨sound, .refl s⟩

theorem aggregateIncrement_stands (apart : kind.Apart env rn) (s : State) (sound : Sound s)
    (at' : Node) (id : Nat) : Stands kind rn s (aggregateIncrement env s at' id) :=
  bgpAggregateIncrement_stands env apart s sound at'.afi at'.safi at'.p (.listed at' id)

theorem bgpAggregateDecrement_stands (apart : kind.Apart env rn) (s : State) (sound : Sound s)
    (at' : Node) (id : Nat) : Stands kind rn s (bgpAggregateDecrement env s at' id) := by
  suffices both : Sound (bgpAggregateDecrement env s at' id) ∧
      Stands kind rn s (bgpAggregateDecrement env s at' id) from both.2
  apply bgpAggregateDecrement_induct env (P := fun s' => Sound s' ∧ Stands kind rn s s')
  · rintro s' outer - ⟨sound, stands⟩
    exact ⟨(rebuild_lax env s' _ _ outer none _).sound sound,
      stands.trans (rebuild_stands env apart s' sound _ _ outer none _)⟩
  · exact ⟨sound, .refl s⟩

end Aggregates

/-! ## Processing -/

variable {ri : BgpInfo}

/-- The selection keeps every route that is not removed. -/
theorem selectLoop_keeps (infos : List BgpInfo) (old : Option Nat) (new : Option BgpInfo)
    (held : ri ∈ infos) (present : ri.flags.removed = false) :
    ∃ ri' ∈ (selectLoop env infos old new).infos, Remarked ri ri' := by
  induction infos generalizing old new with
  | nil => exact absurd held List.not_mem_nil
  | cons first later ih =>
    generalize sofar : (if first.flags.selected then some first.id else old) = old'
    rw [selectLoop_cons env first later old old' new sofar]
    rcases List.mem_cons.mp held with rfl | inLater
    · split
      · rw [if_neg (by simp [present])]
        exact ⟨ri, List.mem_cons_self, .refl ri⟩
      · split
        · exact ⟨_, List.mem_cons_self, .check ri false⟩
        · exact ⟨_, List.mem_cons_self, (Remarked.check ri false).trans (.group _ false)⟩
    · split
      · split
        · exact ih _ _ inLater
        · obtain ⟨ri', held', same⟩ := ih _ _ inLater
          exact ⟨ri', List.mem_cons_of_mem _ held', same⟩
      · split
        · obtain ⟨ri', held', same⟩ := ih _ _ inLater
          exact ⟨ri', List.mem_cons_of_mem _ held', same⟩
        · obtain ⟨ri', held', same⟩ := ih _ _ inLater
          exact ⟨ri', List.mem_cons_of_mem _ held', same⟩

theorem bgpBestSelection_keeps (infos : List BgpInfo) (held : ri ∈ infos)
    (present : ri.flags.removed = false) :
    ∃ ri' ∈ (bgpBestSelection env infos).infos, Remarked ri ri' := by
  unfold bgpBestSelection
  split
  · obtain ⟨change, passed, remarked⟩ := dmedPass_remarked env (infos.map BgpInfo.id) infos
    rw [passed]
    obtain ⟨check, group, same⟩ := remarked ri
    obtain ⟨ri', held', later⟩ := selectLoop_keeps env (infos.map change) none none
      (List.mem_map_of_mem held) (by rw [same]; exact present)
    exact ⟨ri', held', (remarked ri).trans later⟩
  · exact selectLoop_keeps env infos none none held present

/-- Routes that are not removed outlive a step of the processing. -/
def Outlives (rn : Node) (s s' : State) : Prop :=
  ∀ ri ∈ s.infos rn, ri.flags.removed = false → ∃ ri' ∈ s'.infos rn, Reflagged ri ri'

namespace Outlives

variable {rn : Node} {s s' s'' : State}

theorem of_infos (same : s'.infos rn = s.infos rn) : Outlives rn s s' :=
  fun ri held _ => ⟨ri, same ▸ held, .refl ri⟩

theorem trans (left : Outlives rn s s') (right : Outlives rn s' s'') : Outlives rn s s'' := by
  intro ri held present
  obtain ⟨ri', held', same⟩ := left ri held present
  obtain ⟨ri'', held'', same'⟩ := right ri' held'
    ((core_removed (Reflagged.core same)).trans present)
  exact ⟨ri'', held'', same.trans same'⟩

end Outlives

variable (s : State) {kind : Kind}

theorem selection_outlives (rn : Node) :
    Outlives rn s
      { s with infos := replace s.infos rn (bgpBestSelection env (s.infos rn)).infos } := by
  intro ri held present
  obtain ⟨ri', held', remarked⟩ := bgpBestSelection_keeps env (s.infos rn) held present
  refine ⟨ri', ?_, Remarked.reflagged remarked⟩
  dsimp only
  rwa [replace_same]

theorem markSelected_outlives (rn : Node) (old new : Option Nat) :
    Outlives rn s (markSelected env s rn old new) := by
  intro ri held _
  refine ⟨marked old new ri, ?_, marked_reflagged old new ri⟩
  rw [markSelected_eq]
  dsimp only
  rw [replace_same]
  exact List.mem_map_of_mem held

theorem reapRemoved_outlives (sound : Sound s) (rn : Node) (old : Option Nat) :
    Outlives rn s (reapRemoved s rn old) := by
  intro ri held present
  refine ⟨ri, (mem_reapRemoved sound rn old ri).mpr ⟨held, fun gone => ?_⟩, .refl ri⟩
  rw [present] at gone
  exact absurd gone.2 Bool.false_ne_true

theorem announce_outlives (peer : Nat) (new : Option BgpInfo) (rn : Node) :
    Outlives rn s (bgpProcessAnnounceSelected env s peer new rn) :=
  .of_infos (by rw [announce_eq])

/-- How far a node has come in its processing. -/
def Passed (rn : Node) (s s' : State) : Prop := Processed rn s s' ∧ Outlives rn s s'

theorem Passed.step {s s' s'' : State} {rn : Node} (passed : Passed rn s s')
    (processed : Processed rn s' s'') (outlives : Outlives rn s' s'') : Passed rn s s'' :=
  ⟨passed.1.trans processed, passed.2.trans outlives⟩

theorem Passed.reaped {s s' : State} {rn : Node} (passed : Passed rn s s') (sound : Sound s)
    (old : Option Nat) : Passed rn s (reapRemoved s' rn old) :=
  passed.step (reapRemoved_processed s' rn old)
    (reapRemoved_outlives s' (passed.1.sound sound) rn old)

theorem bgpProcessMain_outlives (sound : Sound s) (rn : Node) :
    Outlives rn s (bgpProcessMain env s rn) := by
  suffices passed : Passed rn s (bgpProcessMain env s rn) from passed.2
  apply bgpProcessMain_induct env ⟨selection_processed env s rn, selection_outlives env s rn⟩
  · exact fun s' old new passed => passed.step (markSelected_processed env s' rn old new)
      (markSelected_outlives env s' rn old new)
  · exact fun s' peer new passed => passed.step (announce_processed env s' peer new rn)
      (announce_outlives env s' peer new rn)
  · exact fun s' ri passed => passed.step (bgpZebraAnnounce_processed env s' rn ri)
      (.of_infos (by rw [bgpZebraAnnounce_eq]))
  · exact fun s' old new passed => passed.step (fibUpdate_processed env s' rn old new)
      (.of_infos (by rw [fibUpdate_eq]))
  · exact fun s' old passed => passed.reaped sound old

theorem bgpProcessRsclient_outlives (sound : Sound s) (rn : Node) :
    Outlives rn s (bgpProcessRsclient env s rn) := by
  apply bgpProcessRsclient_induct env (P := Passed rn s) rfl
    ⟨selection_processed env s rn, selection_outlives env s rn⟩
  · intro s' peer _ _ _ passed
    exact (passed.step (markSelected_processed env s' rn _ _)
      (markSelected_outlives env s' rn _ _)).step (announce_processed env _ peer _ rn)
        (announce_outlives env _ peer _ rn)
  · exact fun s' passed => (passed.reaped sound _).2

variable {rn : Node}

/-- A step of the processing leaves every node's routes standing. -/
theorem Stands.of_processed {at' : Node} {s s' : State} (processed : Processed at' s s')
    (outlives : Outlives at' s s') : Stands kind rn s s' := by
  by_cases here : rn = at'
  · subst here
    refine ⟨fun ri held _ present => ?_, fun ri' held _ => ?_⟩
    · obtain ⟨ri', held', same⟩ := outlives ri held present
      exact ⟨ri', held', Reflagged.core same⟩
    · obtain ⟨ri, held', same⟩ := processed.origin ri' held
      exact ⟨ri, held', Reflagged.core same⟩
  · exact .of_infos (processed.apart rn here)

theorem runMainQueue_sound {s : State} (sound : Sound s) : Sound (runMainQueue env s) := by
  unfold runMainQueue
  split
  · exact sound
  · exact (bgpProcessMain_processed env _ _).sound ⟨sound.bounded, sound.distinct, sound.listed⟩

theorem runRsclientQueue_sound {s : State} (sound : Sound s) : Sound (runRsclientQueue env s) := by
  unfold runRsclientQueue
  split
  · exact sound
  · exact (bgpProcessRsclient_processed env _ _).sound ⟨sound.bounded, sound.distinct, sound.listed⟩

theorem runMainQueue_stands {s : State} (sound : Sound s) :
    Stands kind rn s (runMainQueue env s) := by
  unfold runMainQueue
  split
  · exact .refl s
  · rename_i at' later queued
    have taken : Sound { s with mainQueue := later } := sound.queues later s.rsclientQueue
    have processed := bgpProcessMain_processed env { s with mainQueue := later } at'
    have outlives := bgpProcessMain_outlives env _ taken at'
    have popped : Stands kind rn s { s with mainQueue := later } := .of_infos rfl
    exact popped.trans (.of_processed processed outlives)

theorem runRsclientQueue_stands {s : State} (sound : Sound s) :
    Stands kind rn s (runRsclientQueue env s) := by
  unfold runRsclientQueue
  split
  · exact .refl s
  · rename_i at' later queued
    have taken : Sound { s with rsclientQueue := later } := sound.queues s.mainQueue later
    have processed := bgpProcessRsclient_processed env { s with rsclientQueue := later } at'
    have outlives := bgpProcessRsclient_outlives env _ taken at'
    have popped : Stands kind rn s { s with rsclientQueue := later } := .of_infos rfl
    exact popped.trans (.of_processed processed outlives)

/-! ## What a node shows -/

/-- The node has at most one route of the kind, and what is shown is its core. -/
structure Shows (kind : Kind) (s : State) (rn : Node) (shown : Option BgpInfo) : Prop where
  only : ∀ ri ∈ s.infos rn, kind.Of ri → shown = some (core ri)
  held : ∀ c, shown = some c → ∃ ri ∈ s.infos rn, kind.Of ri ∧ core ri = c

namespace Shows

variable {kind : Kind} {s s' : State} {rn : Node} {shown : Option BgpInfo}

/-- Where the routes stand, what is shown stays, but a removed route may go. -/
theorem stands (shows : Shows kind s rn shown) (stands : Stands kind rn s s') :
    Shows kind s' rn shown ∨
      Shows kind s' rn none ∧ ∃ c, shown = some c ∧ c.flags.removed = true := by
  by_cases any : ∃ ri' ∈ s'.infos rn, kind.Of ri'
  · refine Or.inl ⟨?_, ?_⟩
    · intro ri' held mine
      obtain ⟨ri, before, same⟩ := stands.origin ri' held mine
      rw [same]
      exact shows.only ri before ((core_of kind same).mp mine)
    · rintro c rfl
      obtain ⟨ri', held, mine⟩ := any
      obtain ⟨ri, before, same⟩ := stands.origin ri' held mine
      have shown := shows.only ri before ((core_of kind same).mp mine)
      exact ⟨ri', held, mine, same.trans (Option.some.inj shown).symm⟩
  · have gone : Shows kind s' rn none := by
      refine ⟨fun ri' held mine => absurd ⟨ri', held, mine⟩ any, fun c none => ?_⟩
      exact absurd none (by simp)
    cases shown with
    | none => exact Or.inl gone
    | some c =>
      refine Or.inr ⟨gone, c, rfl, ?_⟩
      obtain ⟨ri, before, mine, rfl⟩ := shows.held c rfl
      by_contra present
      obtain ⟨ri', held, same⟩ := stands.kept ri before mine (eq_false_of_ne_true present)
      exact any ⟨ri', held, (core_of kind same).mpr mine⟩

theorem of_infos (shows : Shows kind s rn shown) (same : s'.infos rn = s.infos rn) :
    Shows kind s' rn shown :=
  ⟨fun ri held => shows.only ri (same ▸ held), fun c found => same.symm ▸ shows.held c found⟩

/-- A node shows one thing. -/
theorem unique {other : Option BgpInfo} (shows : Shows kind s rn shown)
    (shows' : Shows kind s rn other) : shown = other := by
  cases shown with
  | none =>
    cases other with
    | none => rfl
    | some c =>
      obtain ⟨ri, held, mine, -⟩ := shows'.held c rfl
      cases shows.only ri held mine
  | some c =>
    obtain ⟨ri, held, mine, rfl⟩ := shows.held c rfl
    exact (shows'.only ri held mine).symm

/-- So does what is removed, where nothing is taken out. -/
theorem evolves (shows : Shows kind s rn shown) (stands : Stands kind rn s s') {scope : Scope}
    (evolves : Evolves scope s s') : Shows kind s' rn shown := by
  rcases shows.stands stands with same | ⟨gone, c, rfl, -⟩
  · exact same
  · obtain ⟨ri, before, mine, -⟩ := shows.held c rfl
    obtain ⟨ri', held, kin⟩ := evolves.after before
    have mine' : kind.Of ri' := by
      unfold Kind.Of
      rw [kin.peer, kin.type, kin.subType]
      exact mine
    exact absurd (gone.only ri' held mine') (by simp)

variable {change : BgpInfo → BgpInfo} {c c' : BgpInfo}

/-- A shown route is changed. -/
theorem of_changed (shows : Shows kind s rn (some c)) (sound : Sound s)
    (infos : s'.infos rn = changed (s.infos rn) c.id change)
    (each : ∀ ri, core ri = c → kind.Of (change ri) ∧ core (change ri) = c') :
    Shows kind s' rn (some c') := by
  obtain ⟨shown, before, mine, same⟩ := shows.held c rfl
  have name : shown.id = c.id := by rw [← same]; rfl
  refine ⟨?_, ?_⟩
  · intro ri' held mine'
    rw [infos] at held
    obtain ⟨ri, held', rfl⟩ := List.mem_map.mp held
    by_cases named : ri.id = c.id
    · obtain rfl := sound.unique before held' (named.trans name.symm)
      rw [if_pos named, (each ri same).2]
    · rw [if_neg named] at mine' ⊢
      have found := Option.some.inj (shows.only ri held' mine')
      exact absurd (by rw [found]; rfl) named
  · rintro _ ⟨⟩
    refine ⟨change shown, ?_, each shown same⟩
    rw [infos]
    exact List.mem_map.mpr ⟨shown, before, if_pos name⟩

/-- A flag of the shown route is put. -/
theorem putFlag (shows : Shows kind s rn (some c)) (sound : Sound s) (flag : InfoFlag) (on : Bool) :
    Shows kind (bgpInfoPutFlag env s rn c.id flag on) rn (some (core (c.put flag on))) := by
  refine shows.of_changed sound (by rw [bgpInfoPutFlag_infos, replace_same]) fun ri same => ?_
  obtain ⟨counted, put⟩ := bgpInfoPut_route env s rn ri flag on
  obtain ⟨shown, -, mine, same'⟩ := shows.held c rfl
  rw [put]
  refine ⟨(core_of kind (same.trans same'.symm)).mpr mine, ?_⟩
  rw [← same]
  cases flag <;> rfl

/-- The shown route is changed in its place. -/
theorem modify (shows : Shows kind s rn (some c)) (sound : Sound s)
    (each : ∀ ri, core ri = c → kind.Of (change ri) ∧ core (change ri) = c') :
    Shows kind (s.modify rn c.id change) rn (some c') :=
  shows.of_changed sound (replace_same _ _ _) each

/-- A route of the kind is added where there is none. -/
theorem of_added {ri : BgpInfo} (shows : Shows kind s rn none)
    (infos : s'.infos rn = ri :: s.infos rn) (mine : kind.Of ri) :
    Shows kind s' rn (some (core ri)) := by
  refine ⟨fun other held mine' => ?_, ?_⟩
  · rw [infos] at held
    rcases List.mem_cons.mp held with rfl | earlier
    · rfl
    · exact absurd (shows.only other earlier mine') (by simp)
  · rintro _ ⟨⟩
    exact ⟨ri, infos ▸ List.mem_cons_self, mine, rfl⟩

end Shows

/-! ## Local routes -/

section Local

variable {kind : Kind}

/-- The kind has no routes of aggregates. -/
def Kind.Plain (kind : Kind) : Prop :=
  ∀ ri : BgpInfo, ri.type = .bgp → ri.subType = .aggregate → ¬ kind.Of ri

theorem Kind.Plain.apart (plain : kind.Plain) (rn : Node) : kind.Apart env rn :=
  fun _ ri _ => plain ri

/-- Two routes come from the same source, under the same name. -/
structure SameSource (ri ri' : BgpInfo) : Prop where
  id : ri'.id = ri.id
  peer : ri'.peer = ri.peer
  type : ri'.type = ri.type
  subType : ri'.subType = ri.subType

variable {rn : Node} {c : BgpInfo}

/-- A route is marked removed. -/
theorem bgpInfoDelete_shows {s : State} (sound : Sound s) (shows : Shows kind s rn (some c)) :
    ∃ c', Shows kind (bgpInfoDelete env s rn c.id) rn (some c') ∧ c'.flags.removed = true ∧
      SameSource c c' := by
  have marked := shows.putFlag env sound .removed true
  have marks : Evolves lax s (bgpInfoSetFlag env s rn c.id .removed) :=
    setMark_evolves env s rn c.id .removed (fun _ => trivial) (Or.inr rfl)
  refine ⟨core ((core (c.put .removed true)).put .valid false), ?_, rfl, rfl, rfl, rfl, rfl⟩
  refine marked.modify (marks.sound sound) fun ri same => ⟨?_, ?_⟩
  · obtain ⟨before, -, mine, same'⟩ := marked.held _ rfl
    exact (core_of kind (same.trans same'.symm)).mpr mine
  · rw [← same]
    rfl

/-- A removed route is restored. -/
theorem bgpInfoRestore_shows {s : State} (sound : Sound s) (shows : Shows kind s rn (some c)) :
    ∃ c', Shows kind (bgpInfoRestore env s rn c.id) rn (some c') ∧ c'.flags.removed = false ∧
      SameSource c c' := by
  have cleared := shows.putFlag env sound .removed false
  have clears : Evolves lax s (bgpInfoUnsetFlag env s rn c.id .removed) :=
    putFlag_evolves env s rn c.id .removed false (fun _ => trivial) fun other _ _ =>
      kin_bgpInfoPut env s _ rn other .removed false
        (kin_exempt _ rn other .removed false (Or.inr rfl) trivial)
  refine ⟨core ((core (c.put .removed false)).put .valid true), ?_, rfl, rfl, rfl, rfl, rfl⟩
  refine cleared.modify (clears.sound sound) fun ri same => ⟨?_, ?_⟩
  · obtain ⟨before, -, mine, same'⟩ := cleared.held _ rfl
    exact (core_of kind (same.trans same'.symm)).mpr mine
  · rw [← same]
    rfl

/-- The attributes of the shown route are replaced. -/
theorem replaceAttr_shows {s : State} (sound : Sound s) {id : Nat} (name : c.id = id) (attr : Attr)
    (shows : Shows kind s rn (some c)) :
    Shows kind (s.modify rn id fun ri => { ri with attr }) rn (some (core { c with attr })) := by
  subst name
  refine shows.modify sound fun ri same => ⟨?_, ?_⟩
  · obtain ⟨before, -, mine, same'⟩ := shows.held _ rfl
    exact (core_of kind (same.trans same'.symm)).mpr mine
  · rw [← same]
    rfl

variable {ri : BgpInfo}

/-- A local route that goes is shown as removed. -/
theorem removeLocal_shows (plain : kind.Plain) {s : State} (sound : Sound s)
    (shows : Shows kind s rn (some (core ri))) :
    ∃ c, Shows kind (removeLocal env s rn (some ri)) rn (some c) ∧ c.flags.removed = true ∧
      SameSource ri c := by
  have counted := bgpAggregateDecrement_evolves env (lax_covers env) s rn ri.id
    (Or.inl (Or.inl trivial))
  have shows' := shows.evolves
    (bgpAggregateDecrement_stands env (plain.apart env rn) s sound rn ri.id) counted
  obtain ⟨c, deleted, removed, source⟩ := bgpInfoDelete_shows env (counted.sound sound) shows'
  refine ⟨c, deleted.of_infos ?_, removed, source.id, source.peer, source.type, source.subType⟩
  rw [removeLocal, bgpProcess_infos]
  rfl

/-- A route that is taken up again, from being removed or from being counted, is
there afterwards. -/
theorem takenUp_shows (plain : kind.Plain) {s : State} (sound : Sound s)
    (shows : Shows kind s rn (some c)) :
    let s' := if c.flags.removed then bgpInfoRestore env s rn c.id
      else bgpAggregateDecrement env s rn c.id
    Sound s' ∧ ∃ c', Shows kind s' rn (some c') ∧ c'.flags.removed = false ∧ SameSource c c' := by
  split
  · have restores : Evolves lax s (bgpInfoRestore env s rn c.id) :=
      bgpInfoRestore_evolves env s rn c.id (fun _ => trivial) trivial
    exact ⟨restores.sound sound, bgpInfoRestore_shows env sound shows⟩
  · rename_i present
    have counts := bgpAggregateDecrement_evolves env (lax_covers env) s rn c.id
      (Or.inl (Or.inl trivial))
    have stands := bgpAggregateDecrement_stands env (plain.apart env rn) s sound rn c.id
    exact ⟨counts.sound sound, c, shows.evolves stands counts, eq_false_of_ne_true present,
      rfl, rfl, rfl, rfl⟩

/-- A local route that is installed where one is shown is there afterwards, with
attributes that compare equal. -/
theorem installLocal_shows (plain : kind.Plain) {s : State} (sound : Sound s) (type : RouteType)
    (subType : SubType) (attr : Attr) (shows : Shows kind s rn (some (core ri))) :
    ∃ c, Shows kind (installLocal env s rn (some ri) type subType attr) rn (some c) ∧
      c.flags.removed = false ∧ attrhashCmp c.attr attr = true ∧ SameSource ri c := by
  unfold installLocal
  dsimp only
  split
  · rename_i same
    have present : ri.flags.removed = false := by simpa using same.2
    exact ⟨core ri, shows, present, same.1, rfl, rfl, rfl, rfl⟩
  · have marks : Evolves lax s (bgpInfoSetFlag env s rn ri.id .attrChanged) :=
      setMark_evolves env s rn ri.id .attrChanged (fun _ => trivial) (Or.inl rfl)
    have marked : Shows kind (bgpInfoSetFlag env s rn ri.id .attrChanged) rn (some (core ri)) :=
      shows.putFlag env sound .attrChanged true
    obtain ⟨sound', c, shown, present, source⟩ := takenUp_shows env plain (marks.sound sound) marked
    change Sound (if ri.flags.removed = true then bgpInfoRestore env _ rn ri.id
      else bgpAggregateDecrement env _ rn ri.id) at sound'
    change Shows kind (if ri.flags.removed = true then bgpInfoRestore env _ rn ri.id
      else bgpAggregateDecrement env _ rn ri.id) rn (some c) at shown
    generalize (if ri.flags.removed = true then bgpInfoRestore env _ rn ri.id
      else bgpAggregateDecrement env _ rn ri.id) = s' at *
    have replaced := replaceAttr_shows sound' source.id attr shown
    have replaces : Evolves lax s' (s'.modify rn ri.id fun ri => { ri with attr }) :=
      modify_evolves s' rn ri.id _ fun other _ _ =>
        ⟨rfl, rfl, rfl, rfl, rfl, Or.inr trivial, Or.inl, Or.inl trivial⟩
    have counts := aggregateIncrement_evolves env (lax_covers env)
      (s'.modify rn ri.id fun ri => { ri with attr }) rn ri.id (Or.inl trivial)
    have stands :=
      aggregateIncrement_stands env (plain.apart env rn) _ (replaces.sound sound') rn ri.id
    refine ⟨core { c with attr }, ?_, present, attrhashCmp_refl attr,
      source.id, source.peer, source.type, source.subType⟩
    exact (replaced.evolves stands counts).of_infos (by rw [bgpProcess_infos])

/-- A local route that is new is there afterwards. -/
theorem installLocal_new_shows (plain : kind.Plain) {s : State} (sound : Sound s) (type : RouteType)
    (subType : SubType) (attr : Attr) (mine : kind env.self type subType)
    (shows : Shows kind s rn none) :
    ∃ c, Shows kind (installLocal env s rn none type subType attr) rn (some c) ∧
      c.flags.removed = false ∧ c.attr = attr ∧ c.peer = env.self ∧ c.type = type ∧
      c.subType = subType := by
  unfold installLocal bgpInfoNew addCounted
  dsimp only
  generalize new : BgpInfo.put
    { id := s.nextId, peer := env.self, type, subType, attr, extra := none, flags := {} }
    .valid true = ri
  have issues : Evolves lax s { s with nextId := s.nextId + 1 } := issue_evolves s
  obtain ⟨ri', counted, same, evolves⟩ := increment_fresh env (lax_covers env)
    { s with nextId := s.nextId + 1 } rn.afi rn.safi rn.p ri
  have stands :=
    bgpAggregateIncrement_stands env (plain.apart env rn) { s with nextId := s.nextId + 1 }
    (issues.sound sound) rn.afi rn.safi rn.p (.fresh ri)
  have before : Shows kind { s with nextId := s.nextId + 1 } rn none := shows.of_infos rfl
  have walked := before.evolves stands evolves
  rcases walk : bgpAggregateIncrement env { s with nextId := s.nextId + 1 } rn.afi rn.safi rn.p
    (.fresh ri) with ⟨s', subject⟩
  rw [walk] at counted walked
  obtain rfl : subject = .fresh ri' := counted
  have added : Shows kind (bgpInfoAdd s' rn ri') rn (some (core ri')) := by
    refine walked.of_added (replace_same _ _ _) ?_
    rw [same, ← new]
    exact mine
  refine ⟨core ri', added.of_infos (by rw [bgpProcess_infos]), ?_⟩
  rw [same, ← new]
  exact ⟨rfl, rfl, rfl, rfl, rfl⟩

variable {at' : Node}

/-- A local route that goes concerns no other node. -/
theorem removeLocal_stands (plain : kind.Plain) {s : State} (sound : Sound s) (apart : rn ≠ at')
    (ri : Option BgpInfo) : Stands kind rn s (removeLocal env s at' ri) := by
  unfold removeLocal
  split
  · rename_i ri
    refine ((bgpAggregateDecrement_stands env (plain.apart env rn) s sound at' ri.id).trans
      ?_).trans
      (bgpProcess_stands _ _)
    exact .of_infos (bgpInfoDelete_apart env _ at' ri.id rn apart)
  · exact .refl s

/-- Nor does one that is installed. -/
theorem installLocal_stands (plain : kind.Plain) {s : State} (sound : Sound s) (apart : rn ≠ at')
    (ri : Option BgpInfo) (type : RouteType) (subType : SubType) (attr : Attr) :
    Stands kind rn s (installLocal env s at' ri type subType attr) := by
  unfold installLocal
  split
  · rename_i ri
    split
    · exact .refl s
    · have marks : Evolves lax s (bgpInfoSetFlag env s at' ri.id .attrChanged) :=
        setMark_evolves env s at' ri.id .attrChanged (fun _ => trivial) (Or.inl rfl)
      have marked : Stands kind rn s (bgpInfoSetFlag env s at' ri.id .attrChanged) :=
        .of_infos (bgpInfoPutFlag_apart env s at' ri.id _ _ rn apart)
      generalize bgpInfoSetFlag env s at' ri.id .attrChanged = s₁ at *
      have sound₁ := marks.sound sound
      have replaces : ∀ s₂ :
          State, Evolves lax s₂ (s₂.modify at' ri.id fun ri => { ri with attr }) :=
        fun s₂ => modify_evolves s₂ at' ri.id _ fun other _ _ =>
          ⟨rfl, rfl, rfl, rfl, rfl, Or.inr trivial, Or.inl, Or.inl trivial⟩
      have counted : ∀ s₂, Sound s₂ → Stands kind rn s s₂ → Stands kind rn s (bgpProcess
          (aggregateIncrement env (s₂.modify at' ri.id fun ri => { ri with attr }) at' ri.id)
              at') := by
        intro s₂ sound₂ before
        have replaced : Stands kind rn s₂ (s₂.modify at' ri.id fun ri => { ri with attr }) :=
          .of_infos (modify_apart s₂ at' ri.id _ rn apart)
        exact ((before.trans replaced).trans (aggregateIncrement_stands env (plain.apart env rn) _
          ((replaces s₂).sound sound₂) at' ri.id)).trans (bgpProcess_stands _ _)
      split
      · have restores : Evolves lax s₁ (bgpInfoRestore env s₁ at' ri.id) :=
          bgpInfoRestore_evolves env s₁ at' ri.id (fun _ => trivial) trivial
        have restored : Stands kind rn s₁ (bgpInfoRestore env s₁ at' ri.id) :=
          .of_infos ((modify_apart _ at' ri.id _ rn apart).trans
            (bgpInfoPutFlag_apart env s₁ at' ri.id _ _ rn apart))
        exact counted _ (restores.sound sound₁) (marked.trans restored)
      · have counts := bgpAggregateDecrement_evolves env (lax_covers env) s₁ at' ri.id
          (Or.inl (Or.inl trivial))
        exact counted _ (counts.sound sound₁) (marked.trans
          (bgpAggregateDecrement_stands env (plain.apart env rn) s₁ sound₁ at' ri.id))
  · unfold bgpInfoNew addCounted
    dsimp only
    generalize BgpInfo.put _ .valid true = ri
    have issues : Evolves lax s { s with nextId := s.nextId + 1 } := issue_evolves s
    have issued : Stands kind rn s { s with nextId := s.nextId + 1 } := .of_infos rfl
    have stands :=
      bgpAggregateIncrement_stands env (plain.apart env rn) { s with nextId := s.nextId + 1 }
      (issues.sound sound) at'.afi at'.safi at'.p (.fresh ri)
    rcases counted : bgpAggregateIncrement env { s with nextId := s.nextId + 1 } at'.afi at'.safi
      at'.p (.fresh ri) with ⟨s', subject⟩
    rw [counted] at stands
    cases subject with
    | fresh ri' =>
      have added : Stands kind rn s' (bgpInfoAdd s' at' ri') := .of_infos (replace_ne _ _ _ _ apart)
      exact ((issued.trans stands).trans added).trans (bgpProcess_stands _ _)
    | listed rn' id => exact (issued.trans stands).trans (bgpProcess_stands _ _)

end Local

end Bgpd.Standing
