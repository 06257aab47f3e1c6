import Bgpd.Reaping

/-!
# One selected route

A removed route stays with its node until the node is processed, and may be
restored before that. Whatever the calls and the runs of the queues come to, and in
whatever order, a node has one selected route at most. Processing a node of a main
table leaves no route that was removed and no mark of the comparison, and the
selected route is the one the selection picked.
-/

namespace Bgpd.SingleSelection

open Octets Prefixes Attributes Rib Selection Processing Damping Aggregation Updates Evolution
  Primitives Rebuild Increments Steps Calls Sources Choice Outcome Actions Propagation Reaping Runs

variable (env : Env) (w : World)

/-! ## Calls -/

/-- Every scope is within the one where anything of a route may change. -/
theorem evolves_lax {scope : Scope} {s s' : State} (evolves : Evolves scope s s') :
    Evolves lax s s' :=
  evolves.widen ⟨fun _ _ _ => trivial, False.elim, fun _ _ => trivial, fun _ _ => trivial,
    fun _ _ => trivial⟩

section Lax

variable (s : State) (rn : Node) (id : Nat)

theorem reaches_lax : Scope.Reaches lax rn := fun _ => trivial

theorem delete_lax : Evolves lax s (bgpInfoDelete env s rn id) :=
  bgpInfoDelete_evolves env s rn id (reaches_lax rn)

theorem process_lax : Evolves lax s (bgpProcess s rn) := bgpProcess_evolves s rn (reaches_lax rn)

theorem replaceAttr_lax (attr : Attr) : Evolves lax s (s.modify rn id fun ri => { ri with attr }) :=
  modify_evolves s rn id _ fun _ _ _ =>
    ⟨rfl, rfl, rfl, rfl, rfl, Or.inr trivial, Or.inl, Or.inl trivial⟩

theorem ribRemove_lax : Evolves lax s (bgpRibRemove env s rn id) :=
  bgpRibRemove_exempt env (lax_covers env) s rn id (reaches_lax rn) trivial

/-! ### Aggregates -/

variable (afi : Afi) (safi : Safi) (p : Prefix)

theorem bgpAggregateRoute_lax (rinew : Option Subject) (del : Option (Node × Nat)) :
    Evolves lax s (bgpAggregateRoute env s afi safi p rinew del).1 := by
  unfold bgpAggregateRoute
  split
  · exact Evolves.refl s
  · rename_i aggregate _
    dsimp only
    have built (count : Int) : Evolves lax s (buildUp s afi safi p aggregate count del) :=
      evolves_lax (buildUp_evolves env (lax_covers env) s afi safi p aggregate count del)
    have suppressed (s : State) : Evolves lax s (suppressSubject aggregate s rinew).1 :=
      suppressSubject_evolves aggregate s rinew fun _ _ _ _ _ _ _ => Or.inl (Or.inl trivial)
    generalize aggregate.count + _ + _ = count
    refine (built count).trans ((suppressed _).trans ?_)
    split
    · exact addAggregate_evolves env (lax_covers env) _ safi p aggregate _
    · exact Evolves.refl _

/-- A configured aggregate is forgotten. -/
theorem forget_lax (aggregates : Afi → Safi → Prefix → Option Aggregate) :
    Evolves lax s { s with aggregates } where
  infos := fun rn => ⟨[], fun ri => ri, by simp, fun ri _ => Kin.refl ri, by simp, by simp⟩
  nextId := le_refl _
  nodes := fun _ member => member
  listed := fun _ => Or.inl
  mainQueue := ⟨[], by simp, by simp⟩
  rsclientQueue := ⟨[], by simp, by simp⟩
  defaultOriginate := rfl
  log := ⟨[], rfl, by simp⟩

theorem bgpAggregateUnset_lax : Evolves lax s (bgpAggregateUnset env s afi safi p) :=
  (evolves_lax (bgpAggregateDelete_evolves env (lax_covers env) s afi safi p)).trans
    (forget_lax _ _)

theorem bgpAggregateAdd_lax : Evolves lax s (bgpAggregateAdd env s afi safi p) := by
  unfold bgpAggregateAdd
  split
  · exact Evolves.refl s
  · exact bgpAggregateRoute_lax env s afi safi p none none

theorem bgpAggregateSet_lax (summaryOnly asSet : Bool) :
    Evolves lax s (bgpAggregateSet env s afi safi p summaryOnly asSet) := by
  unfold bgpAggregateSet
  refine Evolves.trans ?_ ((setCount_evolves _ afi safi p ⟨summaryOnly, asSet, 0⟩ 0).trans
    (bgpAggregateAdd_lax env _ afi safi p))
  split
  · exact bgpAggregateUnset_lax env s afi safi p
  · exact Evolves.refl s

/-! ### Local routes -/

theorem installLocal_lax (main : rn.owner = .main) (present : rn ∈ s.nodes) (ri : Option BgpInfo)
    (type : RouteType) (subType : SubType) (attr : Attr) :
    Evolves lax s (installLocal env s rn ri type subType attr) :=
  installLocal_evolves env (lax_covers env) s rn ri type subType attr main present
    (fun _ => trivial) trivial

theorem removeLocal_lax (main : rn.owner = .main) (ri : Option BgpInfo) :
    Evolves lax s (removeLocal env s rn ri) :=
  removeLocal_evolves env (lax_covers env) s rn ri main fun _ => trivial

theorem get_present : rn ∈ (bgpNodeGet s rn).nodes := (mem_bgpNodeGet s rn rn).mpr (Or.inl rfl)

theorem bgpStaticWithdraw_lax (prd : Option (BitVec 64)) :
    Evolves lax s (bgpStaticWithdraw env s p safi prd) :=
  (bgpNodeGet_evolves s _).trans (removeLocal_lax env _ _ rfl _)

theorem bgpStaticUpdateMain_lax (bgpStatic : BgpStatic) :
    Evolves lax s (bgpStaticUpdateMain env w s bgpStatic p safi) := by
  unfold bgpStaticUpdateMain
  refine (bgpNodeGet_evolves s (nodeOf .main safi p none)).trans ?_
  split
  · exact bgpStaticWithdraw_lax env _ safi p none
  · exact installLocal_lax env _ _ rfl (get_present s _) _ _ _ _

theorem bgpStaticWithdrawRsclient_lax (rsclient : Nat) :
    Evolves lax s (bgpStaticWithdrawRsclient env s rsclient p safi) := by
  unfold bgpStaticWithdrawRsclient
  dsimp only
  refine (bgpNodeGet_evolves s (nodeOf (.rsclient rsclient) safi p none)).trans ?_
  split
  · exact (delete_lax env _ _ _).trans (process_lax _ _)
  · exact Evolves.refl _

/-- A new route is added to a node that is there. -/
theorem add_lax (present : rn ∈ s.nodes) (peer : Nat) (type : RouteType) (subType : SubType)
    (attr : Attr) :
    Evolves lax s (bgpInfoAdd (bgpInfoNew s peer type subType attr).1 rn
      ((bgpInfoNew s peer type subType attr).2.put .valid true)) := by
  refine bgpInfoAdd_evolves rn _ (issue_evolves s) present rfl
    (fun changed => absurd changed Bool.false_ne_true) trivial (le_refl _) (Nat.lt_succ_self _) ?_
  intro bounded other member
  exact (bounded rn other member).ne

theorem bgpStaticUpdateRsclient_lax (rsclient : Nat) (bgpStatic : BgpStatic) :
    Evolves lax s (bgpStaticUpdateRsclient env w s rsclient bgpStatic p safi) := by
  unfold bgpStaticUpdateRsclient
  dsimp only
  refine (bgpNodeGet_evolves s (nodeOf (.rsclient rsclient) safi p none)).trans ?_
  split
  · exact bgpStaticWithdrawRsclient_lax env _ safi p rsclient
  · split
    · rename_i ri _
      split
      · exact Evolves.refl _
      · refine Evolves.trans ?_ (process_lax _ _)
        refine Evolves.trans ?_ (replaceAttr_lax _ _ _ _)
        have marks (s : State) (rn : Node) :
            Evolves lax s (bgpInfoSetFlag env s rn ri.id .attrChanged) :=
          setMark_evolves env s rn ri.id .attrChanged (reaches_lax rn) (Or.inl rfl)
        split
        · exact (marks _ _).trans
            (bgpInfoRestore_evolves env _ _ ri.id (reaches_lax _) trivial)
        · exact marks _ _
    · exact (add_lax _ _ (get_present s _) env.self .bgp .static _).trans (process_lax _ _)

theorem bgpStaticUpdate_lax (bgpStatic : BgpStatic) :
    Evolves lax s (bgpStaticUpdate env w s bgpStatic p safi) :=
  (bgpStaticUpdateMain_lax env w s safi p bgpStatic).trans
    (Evolves.foldl _ _ (fun s rsclient _ =>
      bgpStaticUpdateRsclient_lax env w s safi p rsclient bgpStatic) _)

theorem bgpStaticUpdateVpnv4_lax (prd : BitVec 64) (tag : List U8) :
    Evolves lax s (bgpStaticUpdateVpnv4 env w s p prd tag) := by
  unfold bgpStaticUpdateVpnv4
  refine (bgpNodeGet_evolves s (nodeOf .main .mplsVpn p (some prd))).trans ?_
  refine Evolves.trans ?_ (process_lax _ _)
  apply addCounted_evolves env (lax_covers env) _ _ (issue_evolves _) (get_present s _)
  · rfl
  · exact fun changed => absurd changed Bool.false_ne_true
  · trivial
  · exact le_refl _
  · exact Nat.lt_succ_self _
  · intro bounded other member
    exact (bounded _ other member).ne

theorem bgpRedistributeDelete_lax (code : U8) :
    Evolves lax s (bgpRedistributeDelete env s p code) :=
  (bgpNodeGet_evolves s _).trans (removeLocal_lax env _ _ rfl _)

theorem bgpRedistributeAdd_lax (redist : Redistribution) :
    Evolves lax s (bgpRedistributeAdd env w s p redist) := by
  unfold bgpRedistributeAdd
  split
  · exact bgpRedistributeDelete_lax env s p redist.code
  · exact (bgpNodeGet_evolves s _).trans
      (installLocal_lax env _ _ rfl (get_present s _) _ _ _ _)

/-! ### The reuse timer -/

theorem bgpReuse_lax (now : Nat) : Evolves lax s (bgpReuse env s rn id now) := by
  have cleared (s : State) (flag : InfoFlag) (quiet : InfoFlag.quiet flag = true) :
      Evolves lax s (bgpInfoUnsetFlag env s rn id flag) :=
    putQuiet_evolves env s rn id flag false (reaches_lax rn) quiet
  unfold bgpReuse
  split
  · exact Evolves.refl s
  · split
    · exact Evolves.refl s
    · split
      · exact Evolves.refl s
      · have started (bdi : DampInfo) : Evolves lax s
            (if bdi.lastrecord = .update then
              bgpProcess (aggregateIncrement env (bgpInfoUnsetFlag env
                (bgpInfoUnsetFlag env (s.modify rn id (BgpInfo.setDampInfo · (some bdi))) rn
                  id .damped)
                rn id .history) rn id) rn
            else
              bgpInfoUnsetFlag env (s.modify rn id (BgpInfo.setDampInfo · (some bdi))) rn id
                .damped) := by
          have undamped := (setDampInfo_evolves s rn id (some bdi)).trans (cleared _ .damped rfl)
          split
          · exact ((undamped.trans (cleared _ .history rfl)).trans (aggregateIncrement_evolves env
              (lax_covers env) _ rn id (Or.inl trivial))).trans (process_lax _ rn)
          · exact undamped
        rename_i bdi _ _
        dsimp only
        generalize bgpDampDecay env (now - bdi.tUpdated) bdi.penalty = penalty
        split
        · have reused := started ⟨penalty, now, 0, bdi.lastrecord⟩
          split
          · exact reused.trans (bgpDampInfoFree_evolves env _ rn id _ true (reaches_lax rn))
          · exact reused
        · exact setDampInfo_evolves s rn id _

end Lax

variable {s : State} (infos : List BgpInfo)

/-! ## Runs -/

/-- What happens to the tables: a call, a turn of a queue, or the removal of a route
because its session is cleared. -/
inductive Deed
  | act (action : Action)
  | ribRemove (rn : Node) (id : Nat)

/-- One deed, under the configuration and the sessions of its time. -/
def step (s : State) : Env × Deed → State
  | (env, .act action) => Actions.step env s action
  | (env, .ribRemove rn id) => bgpRibRemove env s rn id

/-- The tables are sound, and no two routes of a node are selected. -/
structure Selective (s : State) : Prop where
  sound : Sound s
  single : ∀ rn, Single s rn

theorem Selective.evolves {s s' : State} (before : Selective s) (evolves : Evolves lax s s') :
    Selective s' :=
  ⟨evolves.sound before.sound, fun rn => evolves_single evolves (before.single rn)⟩

/-- Processing a node leaves the others alone. -/
theorem Selective.processed {s s' : State} {rn : Node} (before : Selective s)
    (processed : Processed rn s s') (reaped : Reaped s' rn) : Selective s' where
  sound := processed.sound before.sound
  single := fun other => by
    by_cases here : other = rn
    · subst here
      exact reaped.single
    · exact Processed.single processed here (before.single other)

/-- The tables without some entries of the queues. -/
theorem Selective.queues (before : Selective s) (mainQueue rsclientQueue : List Node) :
    Selective { s with mainQueue, rsclientQueue } :=
  ⟨⟨before.sound.bounded, before.sound.distinct, before.sound.listed⟩, before.single⟩

theorem Selective.act (before : Selective s) (action : Action) :
    Selective (Actions.step env s action) := by
  have clients (call : UpdateCall) : Clients env lax call := fun _ _ _ =>
    ⟨reaches_lax _, fun _ => trivial⟩
  cases action with
  | update w call =>
    exact before.evolves (bgpUpdate_evolves env w (lax_covers env) s call.toUpdateCall before.sound
      (by rw [call.normal]; decide) (clients _) ⟨fun _ _ => trivial, fun _ _ _ => trivial⟩
      fun _ _ _ _ => Or.inl trivial)
  | withdraw w call =>
    exact before.evolves (bgpWithdraw_evolves env w (lax_covers env) s call.toUpdateCall
      before.sound
      (clients _))
  | networkSet w bgpStatic p safi =>
      exact before.evolves (bgpStaticUpdate_lax env w s safi p bgpStatic)
  | networkUnset p safi => exact before.evolves (bgpStaticWithdraw_lax env s safi p none)
  | vpnSet w p prd tag => exact before.evolves (bgpStaticUpdateVpnv4_lax env w s p prd tag)
  | vpnUnset p prd => exact before.evolves (bgpStaticWithdraw_lax env s .mplsVpn p (some prd))
  | redistributeAdd w p redist => exact before.evolves (bgpRedistributeAdd_lax env w s p redist)
  | redistributeDelete p code => exact before.evolves (bgpRedistributeDelete_lax env s p code)
  | aggregateSet p safi summaryOnly asSet =>
    exact before.evolves (bgpAggregateSet_lax env s p.family safi p summaryOnly asSet)
  | aggregateUnset p safi => exact before.evolves (bgpAggregateUnset_lax env s p.family safi p)
  | reuse rn id now => exact before.evolves (bgpReuse_lax env s rn id now)
  | scan w afi =>
    exact before.evolves (bgpScan_evolves env w (lax_covers env) s afi before.sound not_false
      fun _ _ _ _ _ _ => trivial)
  | runMain =>
    change Selective (runMainQueue env s)
    unfold runMainQueue
    split
    · exact before
    · rename_i rn later _
      have queued := before.queues later s.rsclientQueue
      exact queued.processed (bgpProcessMain_processed env _ rn)
        (bgpProcessMain_reaped env _ rn queued.sound (queued.single rn))
  | runRsclient =>
    change Selective (runRsclientQueue env s)
    unfold runRsclientQueue
    split
    · exact before
    · rename_i rn later _
      have queued := before.queues s.mainQueue later
      exact queued.processed (bgpProcessRsclient_processed env _ rn)
        (bgpProcessRsclient_reaped env _ rn queued.sound (queued.single rn))

theorem Selective.step (before : Selective s) (deed : Env × Deed) : Selective (step s deed) := by
  rcases deed with ⟨env, action | ⟨rn, id⟩⟩
  · exact before.act env action
  · exact before.evolves (ribRemove_lax env s rn id)

theorem initial_selective (initial : Initial s) : Selective s where
  sound := (Initial.faithful (plainEnv []) initial).sound
  single := fun rn ri held => by
    rw [initial.infos rn] at held
    exact absurd held List.not_mem_nil

theorem run_selective (start : State) (deeds : List (Env × Deed)) (initial : Initial start) :
    Selective (run step start deeds) :=
  invariant step Selective (fun _ deed before => before.step deed) start deeds
    (initial_selective initial)

/-! ## What processing a node leaves -/

/-- Neither mark of the comparison is on the route. -/
def Unmarked (ri : BgpInfo) : Prop := ri.flags.dmedCheck = false ∧ ri.flags.dmedSelected = false

/-- The loop takes the marks off every route that can be used. -/
theorem selectLoop_unmarked (old : Option Nat) (new : Option BgpInfo) :
    ∀ ri ∈ (selectLoop env infos old new).infos, ri.holddown = false → Unmarked ri := by
  induction infos generalizing old new with
  | nil => exact fun _ held => absurd held List.not_mem_nil
  | cons first later ih =>
    intro ri held usable
    rw [selectLoop_cons env first later old _ new rfl] at held
    generalize (if first.flags.selected then some first.id else old) = old' at held
    split at held
    · rename_i unusable
      split at held
      · exact ih _ _ ri held usable
      · rcases List.mem_cons.mp held with rfl | member
        · exact absurd (unusable.symm.trans usable) (by simp)
        · exact ih _ _ ri member usable
    · split at held
      · rename_i passed
        rcases List.mem_cons.mp held with rfl | member
        · exact ⟨rfl, by simpa [BgpInfo.put, InfoFlags.put] using passed.2⟩
        · exact ih _ _ ri member usable
      · rcases List.mem_cons.mp held with rfl | member
        · exact ⟨rfl, rfl⟩
        · exact ih _ _ ri member usable

theorem bgpBestSelection_unmarked :
    ∀ ri ∈ (bgpBestSelection env infos).infos, ri.holddown = false → Unmarked ri :=
  selectLoop_unmarked env _ none none

/-- The marks of the selection leave those of the comparison alone. -/
theorem marked_unmarked (old new : Option Nat) (ri : BgpInfo) :
    (Unmarked (marked old new ri) ↔ Unmarked ri) ∧ (marked old new ri).holddown = ri.holddown := by
  unfold marked
  split
  · exact ⟨Iff.rfl, rfl⟩
  · split
    · exact ⟨Iff.rfl, rfl⟩
    · exact ⟨Iff.rfl, rfl⟩

theorem mem_of_reapRemoved {rn : Node} {old : Option Nat} {ri : BgpInfo}
    (held : ri ∈ (reapRemoved s rn old).infos rn) : ri ∈ s.infos rn := by
  unfold reapRemoved at held
  split at held
  · split at held
    · simp only [bgpInfoReap, replace_same, List.mem_filter] at held
      exact held.1
    · exact held
  · exact held

theorem bgpProcessMain_unmarked (s : State) (rn : Node) (sound : Sound s) (single : Single s rn) :
    ∀ ri ∈ (bgpProcessMain env s rn).infos rn, ri.holddown = false → Unmarked ri := by
  have elected := bgpBestSelection_elected env s rn sound single
  have unmarked := bgpBestSelection_unmarked env (s.infos rn)
  unfold bgpProcessMain
  dsimp only
  generalize bgpBestSelection env (s.infos rn) = selected at *
  generalize { s with infos := replace s.infos rn selected.infos } = s₁ at *
  rw [← elected.infos] at unmarked
  split
  · split
    · split
      · rw [bgpZebraAnnounce_eq]
        exact unmarked
      · exact unmarked
    · exact unmarked
  · intro ri held usable
    rw [announceAll_eq, fibUpdate_eq] at held
    have kept := mem_of_reapRemoved held
    rw [markSelected_eq] at kept
    dsimp only at kept
    rw [replace_same] at kept
    obtain ⟨before, member, rfl⟩ := List.mem_map.mp kept
    obtain ⟨marks, down⟩ := marked_unmarked selected.old selected.new before
    exact marks.mpr (unmarked before member (down.symm.trans usable))

/-- The selection takes out no route it hands on. -/
def Held (selected : Selected) : Prop :=
  ∀ id, selected.old = some id ∨ selected.new = some id → ∃ ri ∈ selected.infos, ri.id = id

theorem bgpBestSelection_held : Held (bgpBestSelection env infos) := by
  have selects := bgpBestSelection_selects env infos
  rintro id (old | new)
  · rcases selects.old with ⟨ri, member, marked, same⟩ | ⟨-, none⟩
    · obtain ⟨ri', held, remarked⟩ := selects.kept ri member marked
      exact ⟨ri', held, remarked.id.trans (Option.some.inj (same.symm.trans old))⟩
    · exact absurd (none.symm.trans old) (by simp)
  · obtain ⟨ri, held, same, -⟩ := bgpBestSelection_new env infos id new
    exact ⟨ri, held, same⟩

/-- What holds of a node's routes right after it was processed, given the routes it had
before. -/
structure Settled (before : List BgpInfo) (after : List BgpInfo) : Prop where
  /-- The selected route is the one the selection picked. -/
  selected : ∀ ri ∈ after, ri.flags.selected = true ↔
    (bgpBestSelection env before).new = some ri.id
  /-- It is there. -/
  picked : ∀ id, (bgpBestSelection env before).new = some id → ∃ ri ∈ after, ri.id = id
  /-- Where no route can be used there is none. -/
  none : (∀ ri ∈ before, ri.holddown = true) → (bgpBestSelection env before).new = none
  unmarked : ∀ ri ∈ after, ri.holddown = false → Unmarked ri
  present : ∀ ri ∈ after, ri.flags.removed = false

theorem bgpProcessMain_settled (s : State) (rn : Node) (sound : Sound s) (single : Single s rn) :
    Settled env (s.infos rn) ((bgpProcessMain env s rn).infos rn) := by
  have elected := bgpBestSelection_elected env s rn sound single
  have sound' := (bgpProcessMain_processed env s rn).sound sound
  obtain ⟨-, single', picks⟩ := bgpProcessMain_settles env s rn sound single
  refine ⟨?_, ?_, ?_, bgpProcessMain_unmarked env s rn sound single,
    (bgpProcessMain_reaped env s rn sound single).present⟩
  · intro ri held
    constructor
    · intro marked
      rw [← picks.named, chosen_eq sound' single' held marked, Option.map_some]
    · intro picked
      obtain ⟨c, found, same⟩ := Option.map_eq_some_iff.mp (picks.named.trans picked)
      obtain ⟨member, marked⟩ := chosen_mem found
      obtain rfl := sound'.unique held member same
      exact marked
  · intro id picked
    obtain ⟨c, found, same⟩ := Option.map_eq_some_iff.mp (picks.named.trans picked)
    exact ⟨c, (chosen_mem found).1, same⟩
  · intro unusable
    cases picked : (bgpBestSelection env (s.infos rn)).new with
    | none => rfl
    | some id =>
      obtain ⟨ri', member, -, usable⟩ := elected.new id picked
      obtain ⟨ri, before, check, group, rfl⟩ := elected.origin ri' member
      exact absurd ((unusable ri before).symm.trans usable) (by simp)

theorem Selective.filter (selective : Selective s) (rn : Node) :
    ((s.infos rn).filter (·.flags.selected)).length ≤ 1 := by
  have distinct : ((s.infos rn).filter (·.flags.selected)).Nodup :=
    (List.Nodup.of_map BgpInfo.id (selective.sound.distinct rn)).filter _
  match found : (s.infos rn).filter (·.flags.selected) with
  | [] =>
    rw [found]
    exact Nat.zero_le 1
  | [_] =>
    rw [found]
    exact le_refl 1
  | first :: second :: later =>
    -- Two of them would be one and the same route.
    have held (ri : BgpInfo) (member : ri ∈ first :: second :: later) :
        ri ∈ s.infos rn ∧ ri.flags.selected = true := List.mem_filter.mp (found ▸ member)
    obtain ⟨member, marked⟩ := held first List.mem_cons_self
    obtain ⟨member', marked'⟩ := held second (List.mem_cons_of_mem _ List.mem_cons_self)
    have same := selective.single rn second member' first member marked' marked
    obtain rfl := selective.sound.unique member' member same
    rw [found] at distinct
    exact absurd List.mem_cons_self (List.nodup_cons.mp distinct).1

/-- In every run of calls, removals and turns of the queues, whatever the configuration
and the sessions are at each of them: a node has one selected route at most, and a turn of
the main queue takes out no route the selection hands on and leaves the node's routes as
they are to be. -/
theorem selection_exact (start : State) (deeds : List (Env × Deed)) (initial : Initial start) :
    let s := run step start deeds
    (∀ rn, ((s.infos rn).filter (·.flags.selected)).length ≤ 1) ∧
      ∀ env rn later, s.mainQueue = rn :: later →
        Held (bgpBestSelection env (s.infos rn)) ∧
          Settled env (s.infos rn) ((runMainQueue env s).infos rn) := by
  intro s
  have selective : Selective s := run_selective start deeds initial
  refine ⟨selective.filter, fun env rn later queue => ⟨bgpBestSelection_held env _, ?_⟩⟩
  have queued := selective.queues later s.rsclientQueue
  have settled := bgpProcessMain_settled env _ rn queued.sound (queued.single rn)
  unfold runMainQueue
  rw [queue]
  exact settled

theorem selection_exact_once :
    Settled (plainEnv [1, 2]) ((Actions.step (plainEnv [1, 2]) .empty (offer 0 10)).infos tenNode)
      ((runMainQueue (plainEnv [1, 2]) (Actions.step (plainEnv [1, 2]) .empty (offer 0 10))).infos
        tenNode) :=
  ((selection_exact .empty [(plainEnv [1, 2], .act (offer 0 10))] initial_empty).2 (plainEnv [1, 2])
    tenNode [] (by decide)).2

end Bgpd.SingleSelection
