import Bgpd.Increments
import Bgpd.Processing

/-!
# Steps that raise no count

The count of one neighbour and family, and the mark that it went past its limit. Routes of
the speaker's own come and go, nodes are queued and processed, and routes are removed: none
of this counts a route of a neighbour, though a removal may take one out of the count.
-/

namespace Bgpd.QuietSteps

open Prefixes Rib Damping Aggregation Updates Selection Processing Primitives Rebuild Increments

/-- A neighbour, and one of its families. -/
structure Watched where
  peer : Nat
  afi : Afi
  safi : Safi
  deriving DecidableEq, Repr

/-- The count of its routes. -/
def Watched.count (t : Watched) (s : State) : Nat := s.pcount t.peer t.afi t.safi

/-- It went past its limit. -/
def Watched.exceeded (t : Watched) (s : State) : Bool := s.prefixLimit t.peer t.afi t.safi

/-- A step counts no route, and leaves the mark as it is. -/
structure Quiet (t : Watched) (s s' : State) : Prop where
  count : t.count s' ≤ t.count s
  exceeded : t.exceeded s' = t.exceeded s

variable {t : Watched}

theorem Quiet.refl (s : State) : Quiet t s s := ⟨le_refl _, rfl⟩

theorem Quiet.trans {s s' s'' : State} (first : Quiet t s s') (second : Quiet t s' s'') :
    Quiet t s s'' := ⟨second.count.trans first.count, second.exceeded.trans first.exceeded⟩

theorem Quiet.foldl {α : Type} (f : State → α → State) (items : List α)
    (each : ∀ s, ∀ item ∈ items, Quiet t s (f s item)) (s : State) :
    Quiet t s (items.foldl f s) :=
  items.foldlRecOn f (.refl s) fun _ before item member => before.trans (each _ item member)

/-- Neither the counts nor the marks change. -/
theorem Quiet.of_eq {s s' : State} (pcount : s'.pcount = s.pcount)
    (prefixLimit : s'.prefixLimit = s.prefixLimit) : Quiet t s s' := by
  constructor
  · exact le_of_eq (congrArg (fun count => count t.peer t.afi t.safi) pcount)
  · exact congrArg (fun limit => limit t.peer t.afi t.safi) prefixLimit

theorem modify_quiet (s : State) (rn : Node) (id : Nat) (change : BgpInfo → BgpInfo) :
    Quiet t s (s.modify rn id change) := .of_eq rfl rfl

/-! ## Flags -/

variable (env : Env)
variable (w : World) (s : State) (rn : Node)

/-- Adjusting a route in hold-down takes it out of a count at most. -/
theorem bgpPcountAdjust_quiet (ri : BgpInfo) (down : ri.holddown = true) :
    Quiet t s (bgpPcountAdjust env s rn ri).1 := by
  unfold bgpPcountAdjust
  dsimp only
  split
  · exact .refl s
  · split
    · split
      · constructor
        · simp only [Watched.count, replaceAf]
          split
          · rename_i same
            rw [same.1, same.2.1, same.2.2]
            exact Nat.sub_le _ _
          · exact le_refl _
        · rfl
      · exact .of_eq rfl rfl
    · rw [if_neg (by simp [down])]
      exact .refl s

/-- A flag that usability does not depend on. -/
theorem putFlag_quiet (id : Nat) (flag : InfoFlag) (on : Bool) (idle : flag.usability = false) :
    Quiet t s (bgpInfoPutFlag env s rn id flag on) := by
  unfold bgpInfoPutFlag
  split
  · exact .refl s
  · apply Quiet.of_eq
    · simp [bgpInfoPut, idle, State.modify]
    · simp [bgpInfoPut, idle, State.modify]

/-- A flag that puts a route in hold-down. -/
theorem putDown_quiet (id : Nat) (flag : InfoFlag) (on : Bool) (usability : flag.usability = true)
    (down : ∀ ri : BgpInfo, (ri.put flag on).holddown = true) :
    Quiet t s (bgpInfoPutFlag env s rn id flag on) := by
  unfold bgpInfoPutFlag
  split
  · exact .refl s
  · rename_i ri found
    have put : bgpInfoPut env s rn ri flag on = bgpPcountAdjust env s rn (ri.put flag on) :=
      if_pos usability
    have adjusts : Quiet t s (bgpInfoPut env s rn ri flag on).1 := by
      rw [put]
      exact bgpPcountAdjust_quiet env s rn (ri.put flag on) (down ri)
    exact adjusts.trans (.of_eq rfl rfl)

theorem bgpInfoDelete_quiet (id : Nat) : Quiet t s (bgpInfoDelete env s rn id) := by
  have removed : Quiet t s (bgpInfoSetFlag env s rn id .removed) :=
    putDown_quiet env s rn id .removed true rfl fun ri => by
      simp [BgpInfo.holddown, BgpInfo.put, InfoFlags.put]
  exact removed.trans (modify_quiet _ rn id _)

theorem bgpDampWithdraw_quiet (id now : Nat) (attrChange : Bool) :
    Quiet t s (bgpDampWithdraw env s rn id now attrChange).1 := by
  unfold bgpDampWithdraw
  split
  · exact .refl s
  · have noted : ∀ bdi, Quiet t s (bgpInfoSetFlag env
        (s.modify rn id (BgpInfo.setDampInfo · (some bdi))) rn id .history) := by
      intro bdi
      apply (modify_quiet s rn id _).trans (putDown_quiet env _ rn id .history true rfl fun ri =>
        ?_)
      simp [BgpInfo.holddown, BgpInfo.put, InfoFlags.put]
    dsimp only
    split
    · exact noted _
    · split
      · apply Quiet.trans _ (modify_quiet _ rn id _)
        apply (noted _).trans (putDown_quiet env _ rn id .damped true rfl fun ri => ?_)
        simp [BgpInfo.holddown, BgpInfo.put, InfoFlags.put]
      · exact noted _

/-! ## Nodes and queues -/

theorem bgpNodeGet_quiet : Quiet t s (bgpNodeGet s rn) := by
  unfold bgpNodeGet
  split
  · exact .refl s
  · exact .of_eq rfl rfl

theorem bgpProcess_quiet : Quiet t s (bgpProcess s rn) := by
  unfold bgpProcess
  split
  · exact .of_eq rfl rfl
  · exact .of_eq rfl rfl

/-! ## Aggregates -/

theorem addAggregate_quiet (safi : Safi) (p : Prefix) (aggregate : Aggregate) (merged : Merged) :
    Quiet t s (addAggregate env s safi p aggregate merged) := by
  unfold addAggregate bgpInfoNew
  have issued : Quiet t s { s with nextId := s.nextId + 1 } := .of_eq rfl rfl
  have got := issued.trans (bgpNodeGet_quiet _ (ownNode safi p))
  apply Quiet.trans _ (bgpProcess_quiet _ _)
  exact got.trans (.of_eq rfl rfl)

theorem withdrawAggregate_quiet : Quiet t s (withdrawAggregate env s rn) := by
  unfold withdrawAggregate
  dsimp only
  split
  · exact bgpNodeGet_quiet s rn
  · exact ((bgpNodeGet_quiet s rn).trans (bgpInfoDelete_quiet env _ rn _)).trans
      (bgpProcess_quiet _ rn)

theorem bgpAggregateDelete_quiet (afi : Afi) (safi : Safi) (p : Prefix) :
    Quiet t s (bgpAggregateDelete env s afi safi p) := by
  unfold bgpAggregateDelete
  split
  · exact .refl s
  · split
    · exact .refl s
    · rename_i aggregate _ _
      have taken : Quiet t s (takeDown s afi safi p aggregate) := .of_eq rfl rfl
      exact taken.trans (withdrawAggregate_quiet env _ _)

theorem suppressSubject_quiet (aggregate : Aggregate) (s : State) (subject : Option Subject) :
    Quiet t s (suppressSubject aggregate s subject).1 := by
  unfold suppressSubject
  split
  · exact .refl s
  · dsimp only
    split
    · exact .of_eq rfl rfl
    · exact .refl s
  · exact .refl s

theorem bgpAggregateRoute_quiet (afi : Afi) (safi : Safi) (p : Prefix) (rinew : Option Subject)
    (del : Option (Node × Nat)) : Quiet t s (bgpAggregateRoute env s afi safi p rinew del).1 := by
  unfold bgpAggregateRoute
  split
  · exact .refl s
  · rename_i aggregate found
    dsimp only
    generalize aggregate.count + (tally s (below s afi safi p) (countsBut del) : Int)
      + (if rinew.isSome then 1 else 0) = count
    have built : Quiet t s (buildUp s afi safi p aggregate count del) := .of_eq rfl rfl
    have suppressed := built.trans (suppressSubject_quiet aggregate _ rinew)
    split
    · exact suppressed.trans (addAggregate_quiet env _ safi p aggregate _)
    · exact suppressed

theorem rebuild_quiet (afi : Afi) (safi : Safi) (p : Prefix) (rinew : Option Subject)
    (del : Option (Node × Nat)) : Quiet t s (rebuild env s afi safi p rinew del).1 :=
  (bgpAggregateDelete_quiet env s afi safi p).trans
    (bgpAggregateRoute_quiet env _ afi safi p rinew del)

theorem bgpAggregateIncrement_quiet (afi : Afi) (safi : Safi) (p : Prefix) (subject : Subject) :
    Quiet t s (bgpAggregateIncrement env s afi safi p subject).1 :=
  bgpAggregateIncrement_induct env (P := Quiet t s)
    (fun s' outer _ rinew quiet => quiet.trans (rebuild_quiet env s' afi safi outer rinew none))
    (.refl s) subject

theorem bgpAggregateDecrement_quiet (id : Nat) : Quiet t s (bgpAggregateDecrement env s rn id) := by
  apply bgpAggregateDecrement_induct env (P := Quiet t s) _ (.refl s)
  exact fun s' outer _ quiet => quiet.trans (rebuild_quiet env s' rn.afi rn.safi outer none _)

/-- The routes of the node itself are only touched on the way in. -/
theorem increment_touches (id : Nat) :
    ∃ change, (aggregateIncrement env s rn id).infos rn = (s.infos rn).map change ∧
      ∀ ri, Touched ri (change ri) := by
  apply bgpAggregateIncrement_induct env (P := fun s' => ∃ change,
    s'.infos rn = (s.infos rn).map change ∧ ∀ ri, Touched ri (change ri))
  · rintro s' outer member rinew ⟨change, same, touched⟩
    obtain ⟨last, same', touched'⟩ := rebuild_touches env s' rn.afi rn.safi outer rinew none rn
      (ownNode_above rn outer member)
    refine ⟨last ∘ change, by rw [same', same, List.map_map], fun ri => ?_⟩
    exact (touched ri).trans (touched' (change ri))
  · exact ⟨fun ri => ri, (List.map_id' _).symm, .refl⟩

/-! ## Withdrawals -/

theorem bgpRibRemove_quiet (id : Nat) : Quiet t s (bgpRibRemove env s rn id) := by
  unfold bgpRibRemove
  apply Quiet.trans _ (bgpProcess_quiet _ rn)
  split
  · exact bgpAggregateDecrement_quiet env s rn id
  · exact (bgpAggregateDecrement_quiet env s rn id).trans (bgpInfoDelete_quiet env _ rn id)

theorem bgpRibWithdraw_quiet (id peer : Nat) : Quiet t s (bgpRibWithdraw env w s rn id peer) := by
  unfold bgpRibWithdraw
  split
  · have noted : Quiet t s _ := bgpDampWithdraw_quiet env s rn id w.now false
    generalize bgpDampWithdraw env s rn id w.now false = withdrawn at noted
    obtain ⟨s', status⟩ := withdrawn
    cases status with
    | suppressed => exact noted.trans (bgpAggregateDecrement_quiet env s' rn id)
    | used => exact noted.trans (bgpRibRemove_quiet env s' rn id)
  · exact bgpRibRemove_quiet env s rn id

theorem withdrawFrom_quiet (owner : Owner) (call : UpdateCall) :
    Quiet t s (withdrawFrom env w s owner call) := by
  unfold withdrawFrom
  dsimp only
  apply (bgpNodeGet_quiet s (call.node owner)).trans
  split
  · exact .refl _
  · split
    · exact .refl _
    · exact bgpRibWithdraw_quiet env w _ _ _ _

/-- A withdrawal raises no count. -/
theorem bgpWithdraw_quiet (call : UpdateCall) : Quiet t s (bgpWithdraw env w s call) := by
  unfold bgpWithdraw
  apply Quiet.trans _ (withdrawFrom_quiet env w _ .main call)
  apply Quiet.foldl
  intro s rsclient _
  unfold bgpWithdrawRsclient
  split
  · exact .refl s
  · exact withdrawFrom_quiet env w s (.rsclient rsclient) call

/-! ## Tables of clients -/

/-- Routes of a table that is not of the main type are not counted. -/
theorem client_put_quiet {rn : Node} (client : rn.table.type ≠ .main) (s : State) (ri : BgpInfo)
    (flag : InfoFlag) (on : Bool) : Quiet t s (bgpInfoPut env s rn ri flag on).1 := by
  unfold bgpInfoPut bgpPcountAdjust
  split
  · rw [if_pos (Or.inl client)]
    exact .refl s
  · exact .refl s

theorem client_putFlag_quiet {rn : Node} (client : rn.table.type ≠ .main) (s : State) (id : Nat)
    (flag : InfoFlag) (on : Bool) : Quiet t s (bgpInfoPutFlag env s rn id flag on) := by
  unfold bgpInfoPutFlag
  split
  · exact .refl s
  · rename_i ri _
    exact (client_put_quiet env client s ri flag on).trans (modify_quiet _ rn id _)

theorem bgpUpdateRsclient_quiet (rsclient : Nat) (call : UpdateCall)
    (client : (call.node (.rsclient rsclient)).table.type ≠ .main) :
    Quiet t s (bgpUpdateRsclient env w s rsclient call) := by
  unfold bgpUpdateRsclient
  split
  · exact .refl s
  · dsimp only
    apply (bgpNodeGet_quiet s (call.node (.rsclient rsclient))).trans
    generalize bgpNodeGet s (call.node (.rsclient rsclient)) = s₁
    split
    · exact .refl s₁
    · exact bgpRibRemove_quiet env s₁ _ _
    · have issued : Quiet t s₁ { s₁ with nextId := s₁.nextId + 1 } := .of_eq rfl rfl
      unfold bgpInfoNew
      have put := fun ri => issued.trans (client_put_quiet env client _ ri .valid true)
      apply Quiet.trans _ (bgpProcess_quiet _ _)
      apply Quiet.trans (put _)
      exact .of_eq rfl rfl
    · split
      · exact client_putFlag_quiet env client s₁ _ .attrChanged false
      · unfold changeRsclient
        apply Quiet.trans _ (bgpProcess_quiet _ _)
        apply Quiet.trans _ (client_putFlag_quiet env client _ _ .valid true)
        apply Quiet.trans _ (modify_quiet _ _ _ _)
        apply Quiet.trans _ (client_putFlag_quiet env client _ _ .attrChanged true)
        split
        · exact (client_putFlag_quiet env client s₁ _ .removed false).trans (modify_quiet _ _ _ _)
        · exact .refl s₁

/-! ## Processing -/

theorem markSelected_quiet (old new : Option Nat) : Quiet t s (markSelected env s rn old new) := by
  have unmarked : ∀ id, Quiet t s (bgpInfoUnsetFlag env s rn id .selected) := fun id =>
    putFlag_quiet env s rn id .selected false rfl
  have marked : ∀ s id, Quiet t s
      (bgpInfoUnsetFlag env (bgpInfoSetFlag env s rn id .selected) rn id .attrChanged) :=
          fun s id =>
    (putFlag_quiet env s rn id .selected true rfl).trans
      (putFlag_quiet env _ rn id .attrChanged false rfl)
  unfold markSelected
  cases old with
  | none =>
    cases new with
    | none => exact .refl s
    | some id => exact marked s id
  | some before =>
    cases new with
    | none => exact unmarked before
    | some id => exact (unmarked before).trans (marked _ id)

theorem announce_quiet (peer : Nat) (selected : Option BgpInfo) (rn : Node) :
    Quiet t s (bgpProcessAnnounceSelected env s peer selected rn) := by
  unfold bgpProcessAnnounceSelected
  split_ifs
  · split <;> exact .of_eq rfl rfl
  · exact .refl s

theorem bgpZebraAnnounce_quiet (ri : BgpInfo) : Quiet t s (bgpZebraAnnounce env s rn ri) := by
  unfold bgpZebraAnnounce
  split
  · exact .refl s
  · split
    · exact .refl s
    · exact .of_eq rfl rfl

theorem bgpZebraWithdraw_quiet (ri : BgpInfo) : Quiet t s (bgpZebraWithdraw env s rn ri) := by
  unfold bgpZebraWithdraw
  split
  · exact .refl s
  · split
    · exact .refl s
    · exact .of_eq rfl rfl

theorem fibUpdate_quiet (old new : Option BgpInfo) : Quiet t s (fibUpdate env s rn old new) := by
  unfold fibUpdate
  split
  · split
    · exact bgpZebraAnnounce_quiet env s rn _
    · split
      · exact bgpZebraWithdraw_quiet env s rn _
      · exact .refl s
  · exact .refl s

theorem reapRemoved_quiet (old : Option Nat) : Quiet t s (reapRemoved s rn old) := by
  unfold reapRemoved
  split
  · split
    · exact .of_eq rfl rfl
    · exact .refl s
  · exact .refl s

theorem bgpProcessMain_quiet : Quiet t s (bgpProcessMain env s rn) := by
  apply bgpProcessMain_induct env (P := Quiet t s) (.of_eq rfl rfl)
  · exact fun s' old new quiet => quiet.trans (markSelected_quiet env s' rn old new)
  · exact fun s' peer new quiet => quiet.trans (announce_quiet env s' peer new rn)
  · exact fun s' ri quiet => quiet.trans (bgpZebraAnnounce_quiet env s' rn ri)
  · exact fun s' old new quiet => quiet.trans (fibUpdate_quiet env s' rn old new)
  · exact fun s' old quiet => quiet.trans (reapRemoved_quiet s' rn old)

theorem bgpProcessRsclient_quiet :
    Quiet t s (bgpProcessRsclient env s rn) := by
  apply bgpProcessRsclient_induct env (P := Quiet t s) rfl (.of_eq rfl rfl)
  · intro s' peer _ _ _ quiet
    exact (quiet.trans (markSelected_quiet env s' rn _ _)).trans (announce_quiet env _ peer _ rn)
  · exact fun s' quiet => quiet.trans (reapRemoved_quiet s' rn _)

theorem runMainQueue_quiet : Quiet t s (runMainQueue env s) := by
  unfold runMainQueue
  split
  · exact .refl s
  · rename_i rn later _
    have taken : Quiet t s { s with mainQueue := later } := .of_eq rfl rfl
    exact taken.trans (bgpProcessMain_quiet env _ rn)

theorem runRsclientQueue_quiet : Quiet t s (runRsclientQueue env s) := by
  unfold runRsclientQueue
  split
  · exact .refl s
  · rename_i rn later _
    have taken : Quiet t s { s with rsclientQueue := later } := .of_eq rfl rfl
    exact taken.trans (bgpProcessRsclient_quiet env _ rn)

end Bgpd.QuietSteps
