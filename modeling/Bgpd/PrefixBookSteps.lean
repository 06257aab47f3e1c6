import Bgpd.PrefixBooks

/-!
# Every function keeps the books

Aggregates, damping, updates, withdrawals, local routes, the scans and the processing of
a node: each function leaves the counts as right as it finds them. A route that changes
after it was removed is loose from its restoration until its next hop is checked, or
until damping puts its flags.
-/

namespace Bgpd.PrefixBookSteps

open Octets Prefixes Attributes RsclientPolicy Rib Damping Aggregation Updates Selection Processing
  Evolution Primitives Rebuild Increments Steps PrefixCounts PrefixBooks

variable {own : Nat} {env : Env}

/-! ## Aggregates -/

/-- What an aggregate does to a route below it is level. -/
theorem level_touched {ri ri' : BgpInfo} (touched : Touched ri ri') : Level ri ri' := by
  refine ⟨touched.id, touched.peer, ?_, ?_⟩
  · rcases touched.flags with same | marked
    · rw [same]
    · rw [marked]
      rfl
  · unfold BgpInfo.holddown
    rcases touched.flags with same | marked
    · rw [same]
    · rw [marked]
      rfl

theorem visit_keeps (s : State) (nodes : List Node) (change : Node → BgpInfo → BgpInfo)
    (matched : Node → BgpInfo → Bool) (touched : ∀ rn ri, Touched ri (change rn ri)) :
    Keeps own s (visit s nodes change matched) := by
  refine keeps_level (fun rn => ?_) rfl rfl rfl fun _ _ warned => warned
  rw [visit_infos]
  split
  · exact ⟨change rn, rfl, fun ri _ => level_touched (touched rn ri)⟩
  · exact ⟨fun ri => ri, by rw [List.map_id'], fun ri _ => .refl ri⟩

theorem setCount_keeps (s : State) (afi : Afi) (safi : Safi) (p : Prefix) (aggregate : Aggregate)
    (count : Int) : Keeps own s (setCount s afi safi p aggregate count) :=
  keeps_infos rfl rfl rfl rfl fun _ _ warned => warned

/-- A new local route comes in, that nobody counts. -/
theorem addOwn_keeps (s : State) (rn : Node) (ri : BgpInfo) (present : rn ∈ s.nodes)
    (mine : ri.peer = own) (name : ri.id = s.nextId) :
    Keeps own s (bgpInfoAdd { s with nextId := s.nextId + 1 } rn ri) := by
  intro hand loose books
  have share : ∀ peer, peer ≠ own → ∀ afi safi, share rn ri peer afi safi = 0 := by
    intro peer other afi safi
    rw [share_eq, mine]
    simp [Ne.symm other]
  refine (issue_keeps s hand loose books).add rn ri present ?_ ?_ ?_ ?_ ?_ fun _ _ => mine
  · rw [name]
    exact Nat.lt_succ_self _
  · rw [name]
    exact fun other held => (books.sound.bounded rn other held).ne
  · refine fun route held => ⟨held, ?_⟩
    rw [name]
    exact (books.reserved route held).1.ne
  · intro peer other afi safi
    rw [share peer other, Nat.zero_add]
  · exact fun _ other => absurd mine other

section Self

variable (self : env.self = own)

include self

theorem addAggregate_keeps (s : State) (safi : Safi) (p : Prefix) (aggregate : Aggregate)
    (merged : Merged) : Keeps own s (addAggregate env s safi p aggregate merged) := by
  have got : ∀ rn, bgpNodeGet { s with nextId := s.nextId + 1 } rn =
      { bgpNodeGet s rn with nextId := (bgpNodeGet s rn).nextId + 1 } := by
    intro rn
    unfold bgpNodeGet
    split <;> rfl
  unfold addAggregate bgpInfoNew
  dsimp only
  rw [got]
  refine ((bgpNodeGet_keeps s _).trans (addOwn_keeps _ (ownNode safi p) _ ?_ self ?_)).trans
    (bgpProcess_keeps _ _)
  · exact (mem_bgpNodeGet s _ _).mpr (Or.inl rfl)
  · exact (bgpNodeGet_nextId s _).symm

omit self in
theorem takeDown_keeps (s : State) (afi : Afi) (safi : Safi) (p : Prefix) (aggregate : Aggregate) :
    Keeps own s (takeDown s afi safi p aggregate) :=
  (setCount_keeps s afi safi p aggregate _).trans
    (visit_keeps _ _ _ _ fun _ ri => release_touched aggregate ri)

theorem withdrawAggregate_keeps (s : State) (rn : Node) :
    Keeps own s (withdrawAggregate env s rn) := by
  unfold withdrawAggregate
  dsimp only
  split
  · exact bgpNodeGet_keeps s rn
  · exact ((bgpNodeGet_keeps s rn).trans (bgpInfoDelete_keeps self _ rn _)).trans
      (bgpProcess_keeps _ rn)

theorem bgpAggregateDelete_keeps (s : State) (afi : Afi) (safi : Safi) (p : Prefix) :
    Keeps own s (bgpAggregateDelete env s afi safi p) := by
  unfold bgpAggregateDelete
  split
  · exact .refl s
  · split
    · exact .refl s
    · exact (takeDown_keeps s afi safi p _).trans (withdrawAggregate_keeps self _ _)

omit self in
theorem buildUp_keeps (s : State) (afi : Afi) (safi : Safi) (p : Prefix) (aggregate : Aggregate)
    (count : Int) (del : Option (Node × Nat)) :
    Keeps own s (buildUp s afi safi p aggregate count del) :=
  (setCount_keeps s afi safi p aggregate count).trans
    (visit_keeps _ _ _ _ fun _ ri => suppressOne_touched aggregate _ ri)

variable (s : State) (afi : Afi) (safi : Safi)

omit self in
theorem suppressSubject_keeps (aggregate : Aggregate) (s : State) (subject : Option Subject) :
    Keeps own s (suppressSubject aggregate s subject).1 := by
  match subject with
  | none => exact .refl s
  | some (.fresh ri) => exact .refl s
  | some (.listed rn id) =>
    unfold suppressSubject
    dsimp only
    split
    · exact modify_keeps s rn id _ fun ri _ _ => level_withExtra ri _
    · exact .refl s

theorem bgpAggregateRoute_keeps (p : Prefix) (rinew : Option Subject) (del : Option (Node × Nat)) :
    Keeps own s (bgpAggregateRoute env s afi safi p rinew del).1 := by
  unfold bgpAggregateRoute
  split
  · exact .refl s
  · rename_i aggregate found
    dsimp only
    generalize aggregate.count + (tally s (below s afi safi p) (countsBut del) : Int)
      + (if rinew.isSome then 1 else 0) = count
    have built := (@buildUp_keeps own s afi safi p aggregate count del).trans
      (suppressSubject_keeps aggregate _ rinew)
    split
    · exact built.trans (addAggregate_keeps self _ safi p aggregate _)
    · exact built

theorem rebuild_keeps (p : Prefix) (rinew : Option Subject) (del : Option (Node × Nat)) :
    Keeps own s (rebuild env s afi safi p rinew del).1 :=
  (bgpAggregateDelete_keeps self s afi safi p).trans
    (bgpAggregateRoute_keeps self _ afi safi p rinew del)

theorem bgpAggregateIncrement_keeps (p : Prefix) (subject : Subject) :
    Keeps own s (bgpAggregateIncrement env s afi safi p subject).1 :=
  bgpAggregateIncrement_induct env (P := Keeps own s)
    (fun s' outer _ rinew keeps => keeps.trans (rebuild_keeps self s' afi safi outer rinew none))
    (.refl s) subject

theorem aggregateIncrement_keeps (rn : Node) (id : Nat) :
    Keeps own s (aggregateIncrement env s rn id) :=
  bgpAggregateIncrement_keeps self s rn.afi rn.safi rn.p (.listed rn id)

theorem bgpAggregateDecrement_keeps (rn : Node) (id : Nat) :
    Keeps own s (bgpAggregateDecrement env s rn id) := by
  apply bgpAggregateDecrement_induct env (P := Keeps own s) _ (.refl s)
  exact fun s' outer _ keeps => keeps.trans (rebuild_keeps self s' rn.afi rn.safi outer none _)

theorem bgpAggregateAdd_keeps (p : Prefix) : Keeps own s (bgpAggregateAdd env s afi safi p) := by
  unfold bgpAggregateAdd
  split
  · exact .refl s
  · exact bgpAggregateRoute_keeps self s afi safi p none none

theorem bgpAggregateUnset_keeps (p : Prefix) : Keeps own s (bgpAggregateUnset env s afi safi p) :=
  (bgpAggregateDelete_keeps self s afi safi p).trans
    (keeps_infos rfl rfl rfl rfl fun _ _ warned => warned)

theorem bgpAggregateSet_keeps (p : Prefix) (summaryOnly asSet : Bool) :
    Keeps own s (bgpAggregateSet env s afi safi p summaryOnly asSet) := by
  have added : ∀ s, Keeps own s
      (bgpAggregateAdd env (setCount s afi safi p ⟨summaryOnly, asSet, 0⟩ 0) afi safi p) := fun s =>
    (setCount_keeps s afi safi p _ 0).trans (bgpAggregateAdd_keeps self _ afi safi p)
  unfold bgpAggregateSet
  split
  · exact (bgpAggregateUnset_keeps self s afi safi p).trans (added _)
  · exact added s

/-! ## Damping -/

variable (s : State) (rn : Node) (id now : Nat)

omit self in
theorem setDampInfo_keeps (id : Nat) (bdi : Option DampInfo) :
    Keeps own s (s.modify rn id (BgpInfo.setDampInfo · bdi)) :=
  modify_keeps s rn id _ fun ri _ _ => level_withExtra ri _

theorem bgpDampInfoFree_keeps (id : Nat) (bdi : DampInfo) (withdraw : Bool) :
    Keeps own s (bgpDampInfoFree env s rn id bdi withdraw) := by
  have cleared := ((@setDampInfo_keeps own s rn id none).trans
    (putFlag_keeps self _ rn id .history false nofun)).trans
    (putFlag_keeps self _ rn id .damped false nofun)
  unfold bgpDampInfoFree
  split
  · exact cleared.trans (bgpInfoDelete_keeps self _ rn id)
  · exact cleared

theorem bgpDampWithdraw_keeps (attrChange : Bool) :
    Keeps own s (bgpDampWithdraw env s rn id now attrChange).1 := by
  unfold bgpDampWithdraw
  split
  · exact .refl s
  · have noted := fun bdi => (@setDampInfo_keeps own s rn id (some bdi)).trans
      (putFlag_keeps self _ rn id .history true nofun)
    dsimp only
    split
    · exact noted _
    · split
      · exact ((noted _).trans (putFlag_keeps self _ rn id .damped true nofun)).trans
          (setDampInfo_keeps _ rn id _)
      · exact noted _

/-- What damping does for a route once its history is cleared. -/
theorem bgpDampUpdate_eq :
    ((bgpDampUpdate env s rn id now).1 = s ∧ (bgpDampUpdate env s rn id now).2 = .used) ∨
      Keeps own (bgpInfoUnsetFlag env s rn id .history) (bgpDampUpdate env s rn id now).1 := by
  unfold bgpDampUpdate
  split
  · exact Or.inl ⟨rfl, rfl⟩
  · split
    · exact Or.inl ⟨rfl, rfl⟩
    · refine Or.inr ?_
      dsimp only
      have reuse : ∀ (reused : Prop) [Decidable reused],
          Keeps own (bgpInfoUnsetFlag env s rn id .history)
            (if reused then bgpInfoUnsetFlag env (bgpInfoUnsetFlag env s rn id .history) rn
              id .damped
              else bgpInfoUnsetFlag env s rn id .history) := by
        intro reused _
        split
        · exact putFlag_keeps self _ rn id .damped false nofun
        · exact .refl _
      split
      · exact (reuse _).trans (setDampInfo_keeps _ rn id _)
      · dsimp only
        refine Keeps.trans ?_ (bgpDampInfoFree_keeps self _ rn id _ false)
        exact (reuse _).trans (setDampInfo_keeps _ rn id _)

theorem bgpDampUpdate_keeps :
    Keeps own s (bgpDampUpdate env s rn id now).1 := by
  rcases bgpDampUpdate_eq self s rn id now with ⟨same, -⟩ | kept
  · rw [same]
    exact .refl s
  · exact (putFlag_keeps self s rn id .history false nofun).trans kept

theorem bgpDampScan_keeps :
    Keeps own s (bgpDampScan env s rn id now).1 := by
  unfold bgpDampScan
  split
  · exact .refl s
  · split
    · exact .refl s
    · dsimp only
      split
      · split
        · exact (putFlag_keeps self s rn id .damped false nofun).trans (setDampInfo_keeps _ rn id _)
        · exact .refl s
      · split
        · exact bgpDampInfoFree_keeps self s rn id _ true
        · exact setDampInfo_keeps s rn id _

/-! ## Next hops and tags -/

omit self in
theorem bgpNexthopLookup_level (w : World) (afi : Afi) (ri : BgpInfo) :
    Level ri (bgpNexthopLookup w afi ri).2 := by
  unfold bgpNexthopLookup
  dsimp only
  split_ifs <;> exact ⟨rfl, rfl, rfl, rfl⟩

omit self in
theorem withTag_level (safi : Safi) (tag : List U8) (ri : BgpInfo) :
    Level ri (withTag safi tag ri) := by
  unfold withTag
  split_ifs <;> exact ⟨rfl, rfl, rfl, rfl⟩

variable (w : World)
variable {loose : Node → Nat → Prop}
variable {hand : Option InHand}

/-- The check of a next hop puts a flag, so that a route is in order after it. -/
theorem refreshValid_settles {loose' : Node → Nat → Prop} {s : State}
    (books : Books own hand loose s) (rn : Node) (id peer : Nat)
    (others : ∀ rn' id', loose rn' id' → ¬ Only rn id rn' id' → loose' rn' id') :
    Books own hand loose' (refreshValid env w s rn id peer) := by
  unfold refreshValid
  split
  · have looked := @modify_keeps own s rn id (fun ri => (bgpNexthopLookup w rn.afi ri).2)
      (fun ri _ _ => bgpNexthopLookup_level w rn.afi ri) hand loose books
    exact putFlag_settles self looked rn id .valid _ rfl others
  · exact putFlag_settles self books rn id .valid true rfl others

variable {ri : BgpInfo}

/-- The same for a route in hand. -/
theorem freshValid_books {s : State} {rn : Node} (books : Books own (handOf rn ri) loose s) :
    Books own (handOf rn (freshValid env w s rn ri).2) loose (freshValid env w s rn ri).1 ∧
      (freshValid env w s rn ri).2.peer = ri.peer ∧
      (rn.table.type = .main → ri.peer ≠ own →
        (freshValid env w s rn ri).2.flags.counted = !(freshValid env w s rn ri).2.holddown) := by
  unfold freshValid
  split
  · have level := bgpNexthopLookup_level w rn.afi ri
    rw [← level.handOf rn] at books
    obtain ⟨kept, peer, -, marked⟩ := bgpInfoPut_books self books .valid
      (bgpNexthopLookup w rn.afi ri).1.valid rfl
    exact ⟨kept, peer.trans level.peer, fun main other => marked main (level.peer ▸ other)⟩
  · obtain ⟨kept, peer, -, marked⟩ := bgpInfoPut_books self books .valid true rfl
    exact ⟨kept, peer, marked⟩

variable (s : State) (rn : Node) {hand : Option InHand}

omit self in
theorem bgpMaximumPrefixOverflow_keeps (peer : Nat) (afi : Afi) (safi : Safi) (always : Bool) :
    Keeps own s (bgpMaximumPrefixOverflow env s peer afi safi always).1 := by
  unfold bgpMaximumPrefixOverflow
  dsimp only
  split_ifs <;>
    exact keeps_infos rfl rfl rfl rfl fun _ _ warned => by simpa using warned

/-! ## Routes of neighbours -/

/-- A route in hand is counted by the aggregates and comes into its node. -/
theorem addCounted_books {s : State} {rn : Node} (books : Books own (handOf rn ri) loose s)
    (present : rn ∈ s.nodes)
    (marked : rn.table.type = .main → ri.peer ≠ own → ri.flags.counted = !ri.holddown)
    (home : rn.table.type = .main → rn.owner ≠ .main → ri.peer = own) :
    Books own none loose (addCounted env s rn ri) := by
  obtain ⟨ri', built, same, evolves⟩ :=
    @increment_fresh env lax (lax_covers env) s rn.afi rn.safi rn.p ri
  have level : Level ri ri' := by
    rw [same]
    exact ⟨rfl, rfl, rfl, rfl⟩
  have kept := bgpAggregateIncrement_keeps self s rn.afi rn.safi rn.p (.fresh ri) _ _ books
  rw [addCounted_eq env built]
  rw [← level.handOf rn] at kept
  obtain ⟨issued, unused⟩ := kept.reserved ⟨rn, ri'.id, ri'.peer, ri'.flags.counted⟩ rfl
  refine kept.add rn ri' (evolves.nodes rn present) issued unused nofun ?_ ?_ ?_
  · intro peer _ afi safi
    rw [inHand_handOf]
    rfl
  · rw [level.peer, level.counted, level.holddown]
    exact marked
  · rw [level.peer]
    exact home

theorem updateFresh_books {s : State} (books : Books own none loose s) (rn : Node)
    (call : UpdateCall) (attr : Attr) (present : rn ∈ s.nodes)
    (home : rn.table.type = .main → rn.owner ≠ .main → call.peer = own) :
    Books own none loose (updateFresh env w s rn call attr) := by
  unfold updateFresh bgpInfoNew
  dsimp only
  have issued := issue_books books rn call.peer
  have level := withTag_level rn.safi call.tag
    { id := s.nextId, peer := call.peer, type := call.type, subType := call.subType, attr := attr,
      extra := none, flags := {} }
  generalize withTag rn.safi call.tag
    { id := s.nextId, peer := call.peer, type := call.type, subType := call.subType, attr := attr,
      extra := none, flags := {} } = ri at level ⊢
  have hand : some (⟨rn, s.nextId, call.peer, false⟩ : InHand) = handOf rn ri :=
    (level.handOf rn).symm
  rw [hand] at issued
  obtain ⟨put, peer, marked⟩ := freshValid_books self w issued
  have mine : ri.peer = call.peer := level.peer
  have nodes : (freshValid env w { s with nextId := s.nextId + 1 } rn ri).1.nodes = s.nodes := by
    unfold freshValid
    split
    · obtain ⟨pcount, log, same, -⟩ := bgpInfoPut_eq env { s with nextId := s.nextId + 1 } rn
        (bgpNexthopLookup w rn.afi ri).2 .valid (bgpNexthopLookup w rn.afi ri).1.valid
      rw [same]
    · obtain ⟨pcount, log, same, -⟩ :=
        bgpInfoPut_eq env { s with nextId := s.nextId + 1 } rn ri .valid
        true
      rw [same]
  have added := addCounted_books self put (by rw [nodes]; exact present)
    (fun main other => marked main (by rwa [← peer]))
    (fun main client => (peer.trans mine).trans (home main client))
  have limited := @bgpMaximumPrefixOverflow_keeps own env
    (addCounted env (freshValid env w { s with nextId := s.nextId + 1 } rn ri).1 rn
      (freshValid env w { s with nextId := s.nextId + 1 } rn ri).2)
    call.peer rn.afi rn.safi false none loose added
  split
  · rename_i s' closed
    rw [closed] at limited
    exact limited
  · rename_i s' closed
    rw [closed] at limited
    exact bgpProcess_keeps s' rn none loose limited

theorem bgpRibRemove_keeps (id : Nat) : Keeps own s (bgpRibRemove env s rn id) := by
  have out := bgpAggregateDecrement_keeps self s rn id
  unfold bgpRibRemove
  refine Keeps.trans ?_ (bgpProcess_keeps _ rn)
  split
  · exact out
  · exact out.trans (bgpInfoDelete_keeps self _ rn id)

theorem bgpRibWithdraw_keeps (id peer : Nat) : Keeps own s (bgpRibWithdraw env w s rn id peer) := by
  unfold bgpRibWithdraw
  split
  · have noted := bgpDampWithdraw_keeps self s rn id w.now false
    rcases withdrawn : bgpDampWithdraw env s rn id w.now false with ⟨s', status⟩
    rw [withdrawn] at noted
    cases status with
    | suppressed => exact noted.trans (bgpAggregateDecrement_keeps self s' rn id)
    | used => exact noted.trans (bgpRibRemove_keeps self s' rn id)
  · exact bgpRibRemove_keeps self s rn id

theorem updateDuplicate_keeps (ri : BgpInfo) : Keeps own s (updateDuplicate env w s rn ri) := by
  have unmarked := putFlag_keeps self s rn ri.id .attrChanged false (by decide)
  unfold updateDuplicate
  dsimp only
  split
  · have noted := unmarked.trans (bgpDampUpdate_keeps self _ rn ri.id w.now)
    change Keeps own s (bgpDampUpdate env (bgpInfoUnsetFlag env s rn ri.id .attrChanged) rn
      ri.id w.now).1
      at noted
    generalize bgpDampUpdate env (bgpInfoUnsetFlag env s rn ri.id .attrChanged) rn ri.id w.now =
      result
      at noted ⊢
    obtain ⟨s', status⟩ := result
    cases status with
    | suppressed => exact noted
    | used =>
      exact (noted.trans (aggregateIncrement_keeps self s' rn ri.id)).trans (bgpProcess_keeps _ rn)
  · split
    · exact (unmarked.trans (putFlag_keeps self _ rn ri.id .stale false (by decide))).trans
        (bgpProcess_keeps _ rn)
    · exact unmarked

/-- A route that changes may be loose from its restoration on. -/
theorem beginChange_loosens {s : State} (books : Books own hand Tight s) (rn : Node)
    (ri : BgpInfo) : Books own hand (Only rn ri.id) (beginChange env s rn ri) := by
  have marked : ∀ s, Keeps own s
      (bgpAggregateDecrement env (bgpInfoSetFlag env s rn ri.id .attrChanged) rn ri.id) := fun s =>
    (putFlag_keeps self s rn ri.id .attrChanged true nofun).trans
      (bgpAggregateDecrement_keeps self _ rn ri.id)
  have fresh : ∀ s, Keeps own s
      (if ri.flags.stale then bgpInfoUnsetFlag env s rn ri.id .stale else s) := by
    intro s
    split
    · exact putFlag_keeps self s rn ri.id .stale false nofun
    · exact .refl s
  unfold beginChange
  refine (fresh _).trans (marked _) hand _ ?_
  split
  · exact bgpInfoRestore_loosens self books rn ri.id (fun _ _ loose => loose.elim)
      fun _ _ _ _ _ => ⟨rfl, rfl⟩
  · exact books.loosen fun _ _ loose => loose.elim

theorem applyChange_keeps (ri : BgpInfo) (attr : Attr) (tag : List U8) :
    Keeps own s (applyChange env w s rn ri attr tag) := by
  unfold applyChange
  refine Keeps.trans ?_ (modify_keeps _ rn ri.id _ fun ri _ _ => ?_)
  · split
    · exact bgpDampWithdraw_keeps self s rn ri.id w.now true
    · exact .refl s
  · have level := withTag_level rn.safi tag { ri with attr }
    exact ⟨level.id, level.peer, level.counted, level.holddown⟩

theorem finishChange_settles {s : State} (rn : Node) (ri : BgpInfo)
    (books : Books own hand (Only rn ri.id) s) :
    Books own hand Tight (finishChange env w s rn ri) := by
  refine (aggregateIncrement_keeps self _ rn ri.id).trans (bgpProcess_keeps _ rn) hand _ ?_
  exact refreshValid_settles self w books rn ri.id ri.peer fun _ _ within apart => apart within

theorem updateChanged_books {s : State} (books : Books own hand Tight s) (rn : Node) (ri : BgpInfo)
    (attr : Attr) (tag : List U8) :
    Books own hand Tight (updateChanged env w s rn ri attr tag) := by
  have begun :=
    applyChange_keeps self w _ rn ri attr tag hand _ (beginChange_loosens self books rn ri)
  unfold updateChanged
  dsimp only
  generalize applyChange env w (beginChange env s rn ri) rn ri attr tag = s₁ at begun
  split
  · -- Damping puts a flag of the route, unless it knows nothing of it.
    have noted := bgpDampUpdate_eq self s₁ rn ri.id w.now
    generalize bgpDampUpdate env s₁ rn ri.id w.now = result at noted
    obtain ⟨s₂, status⟩ := result
    rcases noted with ⟨same, used⟩ | kept
    · dsimp only at same used
      subst same used
      exact finishChange_settles self w rn ri begun
    · have settled := kept hand Tight (putFlag_settles self begun rn ri.id .history false rfl
        fun _ _ within apart => apart within)
      cases status with
      | suppressed => exact settled
      | used => exact finishChange_settles self w rn ri (settled.loosen fun _ _ loose => loose.elim)
  · exact finishChange_settles self w rn ri begun

theorem bgpUpdateMain_books {s : State} (books : Books own none Tight s) (call : UpdateCall) :
    Books own none Tight (bgpUpdateMain env w s call) := by
  have got := bgpNodeGet_keeps s (call.node .main) none Tight books
  unfold bgpUpdateMain
  dsimp only
  split
  · exact got
  · exact bgpRibRemove_keeps self _ _ _ none Tight got
  · refine updateFresh_books self w got _ call _ ((mem_bgpNodeGet s _ _).mpr (Or.inl rfl)) ?_
    exact fun _ client => absurd rfl client
  · split
    · exact updateDuplicate_keeps self w _ _ _ none Tight got
    · exact updateChanged_books self w got _ _ _ _

/-! ## Tables of clients -/

omit self in
/-- A table of a client that holds no nested tables is not of the main type. -/
theorem node_rsclient (rsclient : Nat) (safi : Safi) (p : Prefix) (prd : Option (BitVec 64))
    (plain : safi ≠ .mplsVpn) :
    (nodeOf (.rsclient rsclient) safi p prd).table.type = .rsclient := by
  unfold Node.table nodeOf
  simp [plain]

theorem changeRsclient_keeps (s : State) (rn : Node) (ri : BgpInfo) (attr : Attr) (tag : List U8)
    (client : rn.table.type = .rsclient) : Keeps own s (changeRsclient env s rn ri attr tag) := by
  intro hand loose books
  have restored : Books own hand loose
      (if ri.flags.removed then bgpInfoRestore env s rn ri.id else s) := by
    split
    · exact bgpInfoRestore_loosens self books rn ri.id (fun _ _ within => within)
        fun main => absurd (client.symm.trans main) (by decide)
    · exact books
  unfold changeRsclient
  generalize (if ri.flags.removed then bgpInfoRestore env s rn ri.id else s) = s₁ at restored
  have marked := putFlag_keeps self s₁ rn ri.id .attrChanged true nofun
  have written := marked.trans
    (modify_keeps _ rn ri.id (fun ri => withTag rn.safi tag { ri with attr }) fun ri _ _ => by
      have level := withTag_level rn.safi tag { ri with attr }
      exact ⟨level.id, level.peer, level.counted, level.holddown⟩)
  exact ((written.trans (putFlag_keeps self _ rn ri.id .valid true
    nofun)).trans (bgpProcess_keeps _ rn))
    hand loose restored

/-- A new route of a client's table comes in, which counts nowhere. -/
theorem addClient_books {s : State} (books : Books own none Tight s) (rn : Node) (peer : Nat)
    {fresh : BgpInfo} (ri : BgpInfo) (level : Level fresh ri) (apart : rn.table.type ≠ .main)
    (present : rn ∈ s.nodes)
    (named : handOf rn fresh = some ⟨rn, s.nextId, peer, false⟩ := by rfl) :
    let put := bgpInfoPut env { s with nextId := s.nextId + 1 } rn ri .valid true
    Books own none Tight (bgpProcess (bgpInfoAdd put.1 rn put.2) rn) := by
  have issued := issue_books books rn peer
  rw [← named, ← level.handOf rn] at issued
  obtain ⟨put, -, -, -⟩ := bgpInfoPut_books self issued .valid true rfl
  obtain ⟨below, unused⟩ := put.reserved _ rfl
  have nodes :
      (bgpInfoPut env { s with nextId := s.nextId + 1 } rn ri .valid true).1.nodes = s.nodes := by
    obtain ⟨pcount, log, same, -⟩ :=
      bgpInfoPut_eq env { s with nextId := s.nextId + 1 } rn ri .valid true
    rw [same]
  refine bgpProcess_keeps _ rn none Tight (put.add rn _ (by rw [nodes]; exact present) below unused
    nofun ?_ (fun main => absurd main apart) fun main => absurd main apart)
  intro peer _ afi safi
  rw [inHand_handOf]
  rfl

theorem bgpUpdateRsclient_books {s : State} (books : Books own none Tight s) (rsclient : Nat)
    (call : UpdateCall)
    (unshared : call.safi = .mplsVpn → rsclient ≠ call.peer →
      admitRsclient (env.config rsclient) (env.config call.peer) call.p call.attr .mplsVpn = none) :
    Books own none Tight (bgpUpdateRsclient env w s rsclient call) := by
  unfold bgpUpdateRsclient
  split
  · exact books
  · rename_i other
    dsimp only
    have got := bgpNodeGet_keeps s (call.node (.rsclient rsclient)) none Tight books
    by_cases vpn : call.safi = .mplsVpn
    · have refused := unshared vpn (Ne.symm other)
      rw [← vpn] at refused
      rw [refused]
      split
      · exact got
      · exact bgpRibRemove_keeps self _ _ _ none Tight got
      · rename_i admitted _
        cases admitted
      · rename_i admitted _
        cases admitted
    · have client := node_rsclient rsclient call.safi call.p call.prd vpn
      have apart : (call.node (.rsclient rsclient)).table.type ≠ .main := by
        change (nodeOf (.rsclient rsclient) call.safi call.p call.prd).table.type ≠ .main
        rw [client]
        decide
      split
      · exact got
      · exact bgpRibRemove_keeps self _ _ _ none Tight got
      · rename_i changed _ _
        have present := (mem_bgpNodeGet s (call.node (.rsclient rsclient)) _).mpr (Or.inl rfl)
        generalize bgpNodeGet s (call.node (.rsclient rsclient)) = s₁ at got present
        generalize call.node (.rsclient rsclient) = rn at apart present
        exact addClient_books self got rn call.peer _ (withTag_level rn.safi call.tag _)
          apart present
      · split
        · exact putFlag_keeps self _ _ _ .attrChanged false nofun none Tight got
        · exact changeRsclient_keeps self _ _ _ _ _ client none Tight got

theorem bgpUpdate_books {s : State} (books : Books own none Tight s) (call : UpdateCall)
    (unshared : Unshared env call) : Books own none Tight (bgpUpdate env w s call) := by
  have main := bgpUpdateMain_books self w books call
  unfold bgpUpdate
  have each : ∀ rsclient ∈ clientsOf env call.p.family call.safi, call.safi = .mplsVpn →
      rsclient ≠ call.peer →
        admitRsclient (env.config rsclient) (env.config call.peer) call.p call.attr .mplsVpn =
            none :=
    fun rsclient member vpn => unshared vpn rsclient (vpn ▸ member)
  generalize bgpUpdateMain env w s call = s₁ at main
  generalize clientsOf env call.p.family call.safi = clients at each
  induction clients generalizing s₁ with
  | nil => exact main
  | cons rsclient later ih =>
    exact ih _ (bgpUpdateRsclient_books self w main rsclient call
      (each rsclient List.mem_cons_self))
      fun rsclient member => each rsclient (List.mem_cons_of_mem _ member)

theorem withdrawFrom_keeps (s : State) (owner : Owner) (call : UpdateCall) :
    Keeps own s (withdrawFrom env w s owner call) := by
  have got := @bgpNodeGet_keeps own s (call.node owner)
  unfold withdrawFrom
  dsimp only
  split
  · exact got
  · split
    · exact got
    · exact got.trans (bgpRibWithdraw_keeps self w _ _ _ _)

theorem bgpWithdraw_keeps (s : State) (call : UpdateCall) :
    Keeps own s (bgpWithdraw env w s call) := by
  unfold bgpWithdraw
  refine Keeps.trans (Keeps.foldl _ _ (fun s rsclient _ => ?_) s)
    (withdrawFrom_keeps self w _ .main call)
  unfold bgpWithdrawRsclient
  split
  · exact .refl s
  · exact withdrawFrom_keeps self w s _ call

/-! ## Local routes -/

/-- A route of our own that comes back is no neighbour's, so that nothing is loose. -/
theorem restoreOwn_books {s : State} (books : Books own hand loose s) (rn : Node) (id : Nat)
    (mine : ∀ ri ∈ s.infos rn, ri.id = id → ri.peer = own) :
    Books own hand loose (bgpInfoRestore env s rn id) :=
  bgpInfoRestore_loosens self books rn id (fun _ _ within => within)
    fun _ ri held named other => absurd (mine ri held named) other

omit self in
/-- A route of our own is still one after a flag is put. -/
theorem mine_putFlag {s : State} (sound : Sound s) {rn : Node} (held : ri ∈ s.infos rn)
    (mine : ri.peer = own) (flag : InfoFlag) (on : Bool) :
    ∀ ri' ∈ (bgpInfoPutFlag env s rn ri.id flag on).infos rn, ri'.id = ri.id → ri'.peer = own := by
  intro ri' member named
  obtain ⟨before, inside, same, counted, rfl⟩ :=
    bgpInfoPutFlag_routes env s rn ri.id flag on member named
  rw [sound.unique held inside same]
  exact mine

theorem installLocal_books {s : State} (books : Books own none Tight s) (rn : Node)
    (ri : Option BgpInfo) (type : RouteType) (subType : SubType) (attr : Attr)
    (present : rn ∈ s.nodes)
    (mine : ∀ route, ri = some route → route ∈ s.infos rn ∧ route.peer = own) :
    Books own none Tight (installLocal env s rn ri type subType attr) := by
  unfold installLocal
  split
  · rename_i route
    obtain ⟨held, own'⟩ := mine route rfl
    have marked := putFlag_keeps self s rn route.id .attrChanged true nofun none Tight books
    have still := @mine_putFlag own env _ _ books.sound _ held own' .attrChanged true
    split
    · exact books
    · change Books own none Tight (bgpProcess (aggregateIncrement env _ rn route.id) rn)
      refine ((modify_keeps _ rn route.id (fun ri => { ri with attr }) fun _ _ _ =>
        ⟨rfl, rfl, rfl, rfl⟩).trans
        (aggregateIncrement_keeps self _ rn route.id)).trans (bgpProcess_keeps _ rn) none Tight ?_
      split
      · exact restoreOwn_books self marked rn route.id still
      · exact bgpAggregateDecrement_keeps self _ rn route.id none Tight marked
  · unfold bgpInfoNew
    refine bgpProcess_keeps _ rn none Tight (addCounted_books self ?_ present ?_ fun _ _ => self)
    · have issued := issue_books books rn env.self
      exact issued
    · exact fun _ other => absurd self other

theorem removeLocal_keeps (s : State) (rn : Node) (ri : Option BgpInfo) :
    Keeps own s (removeLocal env s rn ri) := by
  unfold removeLocal
  split
  · exact ((bgpAggregateDecrement_keeps self s rn _).trans (bgpInfoDelete_keeps self _ rn _)).trans
      (bgpProcess_keeps _ rn)
  · exact .refl s

omit self in
theorem findStatic_mine {s : State} {rn : Node} (found : findStatic env s rn = some ri) :
    ri ∈ s.infos rn ∧ ri.peer = env.self :=
  ⟨(Calls.findInfo_some found).1, (Calls.findInfo_some found).2.1⟩

theorem bgpStaticWithdraw_keeps (s : State) (p : Prefix) (safi : Safi) (prd : Option (BitVec 64)) :
    Keeps own s (bgpStaticWithdraw env s p safi prd) :=
  (bgpNodeGet_keeps s _).trans (removeLocal_keeps self _ _ _)

theorem bgpStaticUpdateMain_books {s : State} (books : Books own none Tight s)
    (bgpStatic : BgpStatic) (p : Prefix) (safi : Safi) :
    Books own none Tight (bgpStaticUpdateMain env w s bgpStatic p safi) := by
  have got := bgpNodeGet_keeps s (nodeOf .main safi p none) none Tight books
  unfold bgpStaticUpdateMain
  split
  · exact bgpStaticWithdraw_keeps self _ p safi none none Tight got
  · refine installLocal_books self got _ _ _ _ _ ((mem_bgpNodeGet s _ _).mpr (Or.inl rfl)) ?_
    intro route found
    obtain ⟨held, mine⟩ := findStatic_mine found
    exact ⟨held, mine.trans self⟩

theorem bgpStaticWithdrawRsclient_keeps (s : State) (rsclient : Nat) (p : Prefix) (safi : Safi) :
    Keeps own s (bgpStaticWithdrawRsclient env s rsclient p safi) := by
  have got := @bgpNodeGet_keeps own s (nodeOf (.rsclient rsclient) safi p none)
  unfold bgpStaticWithdrawRsclient
  dsimp only
  split
  · exact (got.trans (bgpInfoDelete_keeps self _ _ _)).trans (bgpProcess_keeps _ _)
  · exact got

theorem bgpStaticUpdateRsclient_books {s : State} (books : Books own none Tight s) (rsclient : Nat)
    (bgpStatic : BgpStatic) (p : Prefix) (safi : Safi) :
    Books own none Tight (bgpStaticUpdateRsclient env w s rsclient bgpStatic p safi) := by
  have got := bgpNodeGet_keeps s (nodeOf (.rsclient rsclient) safi p none) none Tight books
  have present := (mem_bgpNodeGet s (nodeOf (.rsclient rsclient) safi p none) _).mpr (Or.inl rfl)
  unfold bgpStaticUpdateRsclient
  dsimp only
  split
  · exact bgpStaticWithdrawRsclient_keeps self _ rsclient p safi none Tight got
  · rename_i attr _
    generalize bgpNodeGet s (nodeOf (.rsclient rsclient) safi p none) = s₁ at got present
    split
    · rename_i route found
      obtain ⟨held, mine⟩ := findStatic_mine found
      split
      · exact got
      · generalize nodeOf (.rsclient rsclient) safi p none = rn at held present
        have marked := putFlag_keeps self s₁ rn route.id .attrChanged true nofun none Tight got
        have still := @mine_putFlag own env _ _ got.sound _ held (mine.trans self) .attrChanged true
        refine (modify_keeps _ rn route.id (fun ri =>
            { ri with attr := w.intern attr }) fun _ _ _ =>
          ⟨rfl, rfl, rfl, rfl⟩).trans (bgpProcess_keeps _ rn) none Tight ?_
        split
        · exact restoreOwn_books self marked rn route.id still
        · exact marked
    · exact (addOwn_keeps s₁ _ _ present self rfl).trans (bgpProcess_keeps _ _) none Tight got

theorem bgpStaticUpdate_books {s : State} (books : Books own none Tight s) (bgpStatic : BgpStatic)
    (p : Prefix) (safi : Safi) :
    Books own none Tight (bgpStaticUpdate env w s bgpStatic p safi) := by
  have main := bgpStaticUpdateMain_books self w books bgpStatic p safi
  unfold bgpStaticUpdate
  generalize bgpStaticUpdateMain env w s bgpStatic p safi = s₁ at main
  induction clientsOf env p.family safi generalizing s₁ with
  | nil => exact main
  | cons rsclient later ih =>
    exact ih _ (bgpStaticUpdateRsclient_books self w main rsclient bgpStatic p safi)

theorem bgpStaticUpdateVpnv4_books {s : State} (books : Books own none Tight s) (p : Prefix)
    (prd : BitVec 64) (tag : List U8) :
    Books own none Tight (bgpStaticUpdateVpnv4 env w s p prd tag) := by
  have got := bgpNodeGet_keeps s (nodeOf .main .mplsVpn p (some prd)) none Tight books
  unfold bgpStaticUpdateVpnv4 bgpInfoNew
  have present := (mem_bgpNodeGet s (nodeOf .main .mplsVpn p (some prd)) _).mpr (Or.inl rfl)
  have issued := issue_books got (nodeOf .main .mplsVpn p (some prd)) env.self
  exact bgpProcess_keeps _ _ none Tight
    (addCounted_books self issued present (fun _ other => absurd self other) fun _ _ => self)

theorem bgpRedistributeDelete_keeps (s : State) (p : Prefix) (code : U8) :
    Keeps own s (bgpRedistributeDelete env s p code) :=
  (bgpNodeGet_keeps s _).trans (removeLocal_keeps self _ _ _)

theorem bgpRedistributeAdd_books {s : State} (books : Books own none Tight s) (p : Prefix)
    (redist : Redistribution) : Books own none Tight (bgpRedistributeAdd env w s p redist) := by
  unfold bgpRedistributeAdd
  split
  · exact bgpRedistributeDelete_keeps self s p redist.code none Tight books
  · have got := bgpNodeGet_keeps s (nodeOf .main .unicast p none) none Tight books
    refine installLocal_books self got _ _ _ _ _ ((mem_bgpNodeGet s _ _).mpr (Or.inl rfl)) ?_
    intro route found
    have kind := List.find?_some found
    simp only [decide_eq_true_eq] at kind
    exact ⟨List.mem_of_find?_eq_some found, kind.1.trans self⟩

/-! ## Timers -/

theorem bgpReuse_keeps (s : State) (rn : Node) (id now : Nat) :
    Keeps own s (bgpReuse env s rn id now) := by
  unfold bgpReuse
  split
  · exact .refl s
  · split
    · exact .refl s
    · dsimp only
      split
      · exact .refl s
      · split
        · have free := fun bdi => (@setDampInfo_keeps own s rn id bdi).trans
            (putFlag_keeps self _ rn id .damped false nofun)
          have used : ∀ (update : Prop) [Decidable update] (s : State), Keeps own s
              (if update then
                  bgpProcess (aggregateIncrement env (bgpInfoUnsetFlag env s rn id .history) rn id)
                    rn
                else s) := by
            intro update _ s
            split
            · exact ((putFlag_keeps self s rn id .history false nofun).trans
                (aggregateIncrement_keeps self _ rn id)).trans (bgpProcess_keeps _ rn)
            · exact .refl s
          split
          · exact Keeps.trans ((free _).trans (used _ _))
              (bgpDampInfoFree_keeps self _ rn id _ true)
          · exact (free _).trans (used _ _)
        · exact setDampInfo_keeps s rn id _

theorem scanInfo_keeps (s : State) (rn : Node) (id : Nat) :
    Keeps own s (scanInfo env w s rn id) := by
  unfold scanInfo
  split
  · exact .refl s
  · rename_i ri found
    split
    · dsimp only
      generalize (if env.external ri.peer = true ∧ (env.config ri.peer).ttl = 1 then
        ((⟨(w.connected rn.afi).nexthopCheckEbgp ri.attr, 0, false⟩, ri) : NexthopAnswer × BgpInfo)
        else bgpNexthopLookup w rn.afi ri) = answer
      have noted : Keeps own s (s.modify rn id fun ri' =>
          (if env.external ri.peer = true ∧ (env.config ri.peer).ttl = 1 then ri'
            else (bgpNexthopLookup w rn.afi ri').2).put .igpChanged answer.1.changed) := by
        refine modify_keeps s rn id _ fun ri' _ _ =>
          Level.trans ?_ (level_put _ .igpChanged _ rfl nofun)
        split
        · exact .refl ri'
        · exact bgpNexthopLookup_level w rn.afi ri'
      generalize (s.modify rn id fun ri' =>
          (if env.external ri.peer = true ∧ (env.config ri.peer).ttl = 1 then ri'
            else (bgpNexthopLookup w rn.afi ri').2).put .igpChanged answer.1.changed) =
              s₁ at noted ⊢
      have checked : Keeps own s₁
          (if answer.1.valid = ri.flags.valid then s₁
            else if ri.flags.valid = true then
              bgpInfoUnsetFlag env (bgpAggregateDecrement env s₁ rn id) rn id .valid
            else aggregateIncrement env (bgpInfoSetFlag env s₁ rn id .valid) rn id) := by
        split
        · exact .refl s₁
        · split
          · exact (bgpAggregateDecrement_keeps self s₁ rn id).trans
              (putFlag_keeps self _ rn id .valid false nofun)
          · exact (putFlag_keeps self s₁ rn id .valid true nofun).trans
              (aggregateIncrement_keeps self _ rn id)
      have so := noted.trans checked
      generalize (if answer.1.valid = ri.flags.valid then s₁
            else if ri.flags.valid = true then
              bgpInfoUnsetFlag env (bgpAggregateDecrement env s₁ rn id) rn id .valid
            else aggregateIncrement env (bgpInfoSetFlag env s₁ rn id .valid) rn id) = s₂ at so ⊢
      split
      · have scanned := so.trans (bgpDampScan_keeps self s₂ rn id w.now)
        rcases result : bgpDampScan env s₂ rn id w.now with ⟨s₃, reused⟩
        rw [result] at scanned
        cases reused with
        | true => exact scanned.trans (aggregateIncrement_keeps self s₃ rn id)
        | false => exact scanned
      · exact so
    · exact .refl s

theorem scanNode_keeps (s : State) (rn : Node) : Keeps own s (scanNode env w s rn) :=
  (Keeps.foldl _ _ (fun s id _ => scanInfo_keeps self w s rn id) s).trans (bgpProcess_keeps _ rn)

omit self in
theorem scanLimits_keeps (s : State) (afi : Afi) : Keeps own s (scanLimits env s afi) := by
  refine Keeps.foldl _ _ (fun s peer _ => ?_) s
  split
  · refine Keeps.foldl _ _ (fun s safi _ => ?_) s
    split
    · exact bgpMaximumPrefixOverflow_keeps s peer afi safi true
    · exact .refl s
  · exact .refl s

theorem bgpScan_keeps (s : State) (afi : Afi) : Keeps own s (bgpScan env w s afi) := by
  unfold bgpScan
  split
  · exact (scanLimits_keeps s afi).trans (Keeps.foldl _ _ (fun s rn _ =>
      scanNode_keeps self w s rn) _)
  · exact .refl s

/-! ## Processing -/

omit self in
theorem level_remarked {ri' : BgpInfo} (remarked : Choice.Remarked ri ri') : Level ri ri' := by
  obtain ⟨check, group, rfl⟩ := remarked
  exact ⟨rfl, rfl, rfl, rfl⟩

omit self in
/-- The selection takes out routes that are removed, which are not counted. -/
theorem selectLoop_marks (peer : Nat) (infos : List BgpInfo) (old : Option Nat)
    (new : Option BgpInfo)
    (uncounted : ∀ ri ∈ infos, ri.peer = peer → ri.flags.removed = true →
      ri.flags.counted = false) :
    marks peer (selectLoop env infos old new).infos = marks peer infos := by
  induction infos generalizing old new with
  | nil => rfl
  | cons ri later ih =>
    have rest :=
      fun old new => ih old new fun ri member => uncounted ri (List.mem_cons_of_mem _ member)
    rw [Choice.selectLoop_cons env ri later old _ new rfl]
    generalize (if ri.flags.selected then some ri.id else old) = old'
    unfold marks at rest ⊢
    split_ifs with down gone idle
    · rw [rest, List.countP_cons_of_neg]
      simpa using fun mine => uncounted ri List.mem_cons_self mine gone.1
    · rw [List.countP_cons, List.countP_cons, rest]
    · rw [List.countP_cons, List.countP_cons, rest]
      rfl
    · rw [List.countP_cons, List.countP_cons, rest]
      rfl

omit self in
theorem bgpBestSelection_books {s : State} (books : Books own none Tight s) (rn : Node) :
    Books own none Tight
      { s with infos := replace s.infos rn (bgpBestSelection env (s.infos rn)).infos } := by
  have selects := Choice.bgpBestSelection_selects env (s.infos rn)
  refine books.thin rn _ selects.names ?_ ?_
  · intro ri' member
    obtain ⟨ri, held, same⟩ := selects.origin ri' member
    exact ⟨ri, held, level_remarked same⟩
  · intro main peer other
    have uncounted : ∀ ri ∈ s.infos rn, ri.peer = peer → ri.flags.removed = true →
        ri.flags.counted = false := by
      intro ri held mine removed
      rw [books.marked rn main ri held (mine ▸ other) fun loose => loose]
      simp [BgpInfo.holddown, removed]
    unfold bgpBestSelection
    split
    · obtain ⟨change, passed, remarked⟩ :=
        Choice.dmedPass_remarked env ((s.infos rn).map BgpInfo.id)
        (s.infos rn)
      rw [passed]
      refine (selectLoop_marks peer _ none none ?_).trans
        (marks_map peer _ change fun ri _ => level_remarked (remarked ri))
      intro ri' member mine removed
      obtain ⟨ri, held, rfl⟩ := List.mem_map.mp member
      have level := level_remarked (remarked ri)
      obtain ⟨check, group, same⟩ := remarked ri
      rw [level.counted]
      refine uncounted ri held (level.peer.symm.trans mine) ?_
      rw [same] at removed
      exact removed
    · exact selectLoop_marks peer _ none none uncounted

theorem markSelected_keeps (s : State) (rn : Node) (old new : Option Nat) :
    Keeps own s (markSelected env s rn old new) := by
  have unmarked : ∀ id, Keeps own s (bgpInfoUnsetFlag env s rn id .selected) := fun id =>
    putFlag_keeps self s rn id .selected false (by decide)
  have marked : ∀ s id, Keeps own s
      (bgpInfoUnsetFlag env (bgpInfoSetFlag env s rn id .selected) rn id .attrChanged) :=
          fun s id =>
    (putFlag_keeps self s rn id .selected true (by decide)).trans
      (putFlag_keeps self _ rn id .attrChanged false (by decide))
  unfold markSelected
  cases old with
  | none =>
    cases new with
    | none => exact .refl s
    | some id => exact marked s id
  | some before =>
    cases new with
    | none => exact unmarked before
    | some id => exact (unmarked before).trans (marked _ id)

omit self in
theorem announce_keeps (s : State) (peer : Nat) (selected : Option BgpInfo) (rn : Node) :
    Keeps own s (bgpProcessAnnounceSelected env s peer selected rn) := by
  unfold bgpProcessAnnounceSelected
  split
  · split <;> exact keeps_infos rfl rfl rfl rfl fun _ _ warned => by simpa using warned
  · exact .refl s

omit self in
theorem bgpZebraAnnounce_keeps (s : State) (rn : Node) (ri : BgpInfo) :
    Keeps own s (bgpZebraAnnounce env s rn ri) := by
  unfold bgpZebraAnnounce
  split
  · exact .refl s
  · split
    · exact .refl s
    · exact keeps_infos rfl rfl rfl rfl fun _ _ warned => by simpa using warned

omit self in
theorem fibUpdate_keeps (s : State) (rn : Node) (old new : Option BgpInfo) :
    Keeps own s (fibUpdate env s rn old new) := by
  unfold fibUpdate
  split
  · split
    · exact bgpZebraAnnounce_keeps s rn _
    · split
      · unfold bgpZebraWithdraw
        split
        · exact .refl s
        · split
          · exact .refl s
          · exact keeps_infos rfl rfl rfl rfl fun _ _ warned => by simpa using warned
      · exact .refl s
  · exact .refl s

omit self in
theorem reapRemoved_books {s : State} (books : Books own none Tight s) (rn : Node)
    (old : Option Nat) : Books own none Tight (reapRemoved s rn old) := by
  unfold reapRemoved
  split
  · rename_i ri found
    split
    · rename_i removed
      obtain ⟨id, -, named⟩ := Option.bind_eq_some_iff.mp found
      obtain ⟨held, -⟩ := info?_mem named
      refine bgpInfoReap_books books rn ri.id fun ri' member same => ?_
      rw [books.sound.unique held member same]
      exact removed
    · exact books
  · exact books

theorem bgpProcessMain_books {s : State} (books : Books own none Tight s) (rn : Node) :
    Books own none Tight (bgpProcessMain env s rn) := by
  apply bgpProcessMain_induct env (bgpBestSelection_books books rn)
  · exact fun s old new => markSelected_keeps self s rn old new none Tight
  · exact fun s peer new => announce_keeps s peer new rn none Tight
  · exact fun s ri => bgpZebraAnnounce_keeps s rn ri none Tight
  · exact fun s old new => fibUpdate_keeps s rn old new none Tight
  · exact fun s old books => reapRemoved_books books rn old

theorem bgpProcessRsclient_books {s : State} (books : Books own none Tight s) (rn : Node) :
    Books own none Tight (bgpProcessRsclient env s rn) := by
  apply bgpProcessRsclient_induct env rfl (bgpBestSelection_books books rn)
  · intro s peer _ _ _
    exact ((markSelected_keeps self s rn _ _).trans (announce_keeps _ peer _ rn)) none Tight
  · exact fun s books => reapRemoved_books books rn _

omit self in
theorem queues_keep (s : State) (mainQueue rsclientQueue : List Node) :
    Keeps own s { s with mainQueue, rsclientQueue } :=
  keeps_infos rfl rfl rfl rfl fun _ _ warned => warned

theorem runMainQueue_books {s : State} (books : Books own none Tight s) :
    Books own none Tight (runMainQueue env s) := by
  unfold runMainQueue
  split
  · exact books
  · exact bgpProcessMain_books self (queues_keep s _ s.rsclientQueue none Tight books) _

theorem runRsclientQueue_books {s : State} (books : Books own none Tight s) :
    Books own none Tight (runRsclientQueue env s) := by
  unfold runRsclientQueue
  split
  · exact books
  · exact bgpProcessRsclient_books self (queues_keep s s.mainQueue _ none Tight books) _

/-! ## Clearing -/

theorem bgpClearRouteNode_keeps (peer : Nat) (session : Fsm.PeerState) (s : State) (rn : Node) :
    Keeps own s (Clearing.bgpClearRouteNode env peer session s rn) := by
  unfold Clearing.bgpClearRouteNode
  split
  · exact .refl s
  · split
    · exact putFlag_keeps self s rn _ .stale true nofun
    · exact bgpRibRemove_keeps self s rn _

theorem bgpClearStaleRoute_keeps (s : State) (peer : Nat) (afi : Afi) (safi : Safi) :
    Keeps own s (bgpClearStaleRoute env s peer afi safi) := by
  refine Keeps.foldl _ _ (fun s rn _ => ?_) s
  split
  · split
    · exact bgpRibRemove_keeps self s rn _
    · exact .refl s
  · exact .refl s

end Self

end Bgpd.PrefixBookSteps
