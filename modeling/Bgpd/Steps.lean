import Bgpd.Increments

/-!
# The calls evolve

Damping, the checks of a next hop, and routes of the main tables that come, go or
change: each function evolves in the scope its caller gives it. A step that counts
a route out or replaces its attributes asks for the route to be exempt; once the
route is marked in a queued node the exemption goes.
-/

namespace Bgpd.Steps

open Octets Prefixes Attributes Rib Damping Aggregation Updates Evolution Primitives Increments

variable (env : Env) (w : World) {scope : Scope}
variable (s : State) (rn : Node) (id now : Nat)

/-! ## Damping -/

theorem setDampInfo_evolves (id : Nat) (bdi : Option DampInfo) :
    Evolves scope s (s.modify rn id (BgpInfo.setDampInfo · bdi)) :=
  modify_evolves s rn id _ fun ri _ _ => kin_withExtra _ rn ri _ fun _ => rfl

theorem bgpDampInfoFree_evolves (id : Nat) (bdi : DampInfo) (withdraw : Bool)
    (reaches : Scope.Reaches scope rn) :
    Evolves scope s (bgpDampInfoFree env s rn id bdi withdraw) := by
  have cleared := ((setDampInfo_evolves s rn id none).trans
    (putQuiet_evolves env _ rn id .history false reaches rfl)).trans
    (putQuiet_evolves env _ rn id .damped false reaches rfl)
  unfold bgpDampInfoFree
  split
  · exact cleared.trans (bgpInfoDelete_evolves env _ rn id reaches)
  · exact cleared

theorem bgpDampWithdraw_evolves (attrChange : Bool) (reaches : Scope.Reaches scope rn) :
    Evolves scope s (bgpDampWithdraw env s rn id now attrChange).1 := by
  unfold bgpDampWithdraw
  split
  · exact Evolves.refl s
  · have noted := fun bdi => (setDampInfo_evolves s rn id (some bdi)).trans
      (putQuiet_evolves env _ rn id .history true reaches rfl)
    dsimp only
    split
    · exact noted _
    · split
      · exact ((noted _).trans (putQuiet_evolves env _ rn id .damped true reaches rfl)).trans
          (setDampInfo_evolves _ rn id _)
      · exact noted _

theorem bgpDampUpdate_evolves (reaches : Scope.Reaches scope rn) :
    Evolves scope s (bgpDampUpdate env s rn id now).1 := by
  unfold bgpDampUpdate
  split
  · exact Evolves.refl s
  · split
    · exact Evolves.refl s
    · have first := putQuiet_evolves env s rn id .history false reaches rfl
      dsimp only
      have second : ∀ (reused : Prop) [Decidable reused], Evolves scope s
          (if reused then bgpInfoUnsetFlag env (bgpInfoUnsetFlag env s rn id .history) rn id .damped
            else bgpInfoUnsetFlag env s rn id .history) := by
        intro reused _
        split
        · exact first.trans (putQuiet_evolves env _ rn id .damped false reaches rfl)
        · exact first
      split
      · exact (second _).trans (setDampInfo_evolves _ rn id _)
      · dsimp only
        refine Evolves.trans ?_ (bgpDampInfoFree_evolves env _ rn id _ false reaches)
        exact (second _).trans (setDampInfo_evolves _ rn id _)

theorem bgpDampScan_evolves (reaches : Scope.Reaches scope rn) :
    Evolves scope s (bgpDampScan env s rn id now).1 := by
  unfold bgpDampScan
  split
  · exact Evolves.refl s
  · split
    · exact Evolves.refl s
    · dsimp only
      split
      · split
        · exact (putQuiet_evolves env s rn id .damped false reaches rfl).trans
            (setDampInfo_evolves _ rn id _)
        · exact Evolves.refl s
      · split
        · exact bgpDampInfoFree_evolves env s rn id _ true reaches
        · exact setDampInfo_evolves s rn id _

/-! ## Next hops and tags -/

theorem bgpNexthopLookup_kin (queue : List Node) (rn : Node) (afi : Afi) (ri : BgpInfo) :
    Kin scope queue rn ri (bgpNexthopLookup w afi ri).2 := by
  have forgotten : Kin scope queue rn ri
      { ri with extra := ri.extra.map fun extra => { extra with igpmetric := 0 } } := by
    refine Silent.kin ⟨rfl, fun _ => ?_, id, id⟩ rfl rfl rfl rfl rfl rfl
    unfold BgpInfo.suppressed BgpInfo.suppress
    cases ri.extra <;> rfl
  unfold bgpNexthopLookup
  dsimp only
  split
  · exact forgotten
  · split
    · exact Kin.refl ri
    · split
      · exact kin_withExtra queue rn ri
          (fun extra => { extra with igpmetric := (w.lookup afi ri.attr).metric }) fun _ => rfl
      · exact forgotten

theorem refreshValid_evolves (id peer : Nat) (reaches : Scope.Reaches scope rn) :
    Evolves scope s (refreshValid env w s rn id peer) := by
  unfold refreshValid
  split
  · exact (modify_evolves s rn id _ fun ri _ _ => bgpNexthopLookup_kin w _ rn rn.afi ri).trans
      (putQuiet_evolves env _ rn id .valid _ reaches rfl)
  · exact putQuiet_evolves env s rn id .valid true reaches rfl

theorem withTag_kin (queue : List Node) (rn : Node) (safi : Safi) (tag : List U8) (ri : BgpInfo) :
    Kin scope queue rn ri (withTag safi tag ri) := by
  unfold withTag
  split
  · exact kin_withExtra queue rn ri _ fun _ => rfl
  · exact Kin.refl ri

/-- A flag of a route in hand. -/
theorem bgpInfoPut_evolves (ri : BgpInfo) (flag : InfoFlag) (on : Bool)
    (reaches : Scope.Reaches scope rn) : Evolves scope s (bgpInfoPut env s rn ri flag on).1 := by
  obtain ⟨pcount, log, same, grown⟩ := bgpInfoPut_eq env s rn ri flag on
  rw [same]
  refine ⟨fun _ => ⟨[], fun ri => ri, by simp, fun ri _ => Kin.refl ri, by simp, by simp⟩,
    le_refl _,
    fun _ member => member, fun _ => Or.inl, ⟨[], by simp, by simp⟩, ⟨[], by simp, by simp⟩, rfl,
    grown.inward reaches⟩

theorem freshValid_evolves (ri : BgpInfo) (reaches : Scope.Reaches scope rn) :
    Evolves scope s (freshValid env w s rn ri).1 ∧
      ∀ queue, Kin scope queue rn ri (freshValid env w s rn ri).2 := by
  unfold freshValid
  split
  · refine ⟨bgpInfoPut_evolves env s rn _ .valid _ reaches, fun queue => ?_⟩
    exact (bgpNexthopLookup_kin w queue rn rn.afi ri).trans
      (kin_bgpInfoPut env s queue rn _ .valid _ (kin_put queue rn _ .valid _ rfl))
  · exact ⟨bgpInfoPut_evolves env s rn ri .valid true reaches, fun queue =>
      kin_bgpInfoPut env s queue rn ri .valid true (kin_put queue rn ri .valid true rfl)⟩

/-! ## New routes -/

/-- The aggregates change a new route before it comes into its node. -/
theorem addCounted_eq {s : State} {rn : Node} {ri ri' : BgpInfo}
    (built : (bgpAggregateIncrement env s rn.afi rn.safi rn.p (.fresh ri)).2 = .fresh ri') :
    addCounted env s rn ri =
      bgpInfoAdd (bgpAggregateIncrement env s rn.afi rn.safi rn.p (.fresh ri)).1 rn ri' := by
  unfold addCounted
  rcases counted : bgpAggregateIncrement env s rn.afi rn.safi rn.p (.fresh ri) with ⟨s', subject⟩
  rw [counted] at built
  obtain rfl : subject = .fresh ri' := built
  rfl

/-- A route in hand is counted and added. Its name was taken since an earlier
state. -/
theorem addCounted_evolves (covers : scope.Covers env) {start s : State} (rn : Node) (ri : BgpInfo)
    (before : Evolves scope start s) (present : rn ∈ s.nodes)
    (unselected : ri.flags.selected = false) (scanned : Scanned scope rn ri)
    (admitted : scope.admits ri.attr) (fresh : start.nextId ≤ ri.id) (issued : ri.id < s.nextId)
    (unused : Bounded start → ∀ other ∈ s.infos rn, other.id ≠ ri.id) :
    Evolves scope start (addCounted env s rn ri) := by
  obtain ⟨ri', built, same, evolves⟩ := increment_fresh env covers s rn.afi rn.safi rn.p ri
  have sameId : ri'.id = ri.id := by rw [same]
  rw [addCounted_eq env built]
  apply bgpInfoAdd_evolves rn ri' (before.trans evolves) (evolves.nodes rn present)
  · rw [same]
    exact unselected
  · rw [same]
    exact scanned
  · rw [same]
    exact admitted
  · rw [sameId]
    exact fresh
  · rw [sameId]
    exact lt_of_lt_of_le issued evolves.nextId
  · intro bounded other member
    rw [sameId]
    intro taken
    obtain ⟨old, held, kin⟩ := evolves.before member (by rw [taken]; exact issued)
    exact unused bounded old held (kin.id.symm.trans taken)

theorem bgpMaximumPrefixOverflow_evolves (peer : Nat) (afi : Afi) (safi : Safi) (always : Bool) :
    Evolves scope s (bgpMaximumPrefixOverflow env s peer afi safi always).1 := by
  have limit : ∀ (prefixLimit : Nat → Afi → Safi → Bool) (log : List Effect),
      log = s.log ∨ log = .cease peer :: s.log →
        Evolves scope s { s with prefixLimit, log } := by
    intro prefixLimit log grown
    refine ⟨fun _ => ⟨[], fun ri => ri, by simp, fun ri _ => Kin.refl ri, by simp, by simp⟩,
      le_refl _, fun _ member => member, fun _ => Or.inl, ⟨[], by simp, by simp⟩,
      ⟨[], by simp, by simp⟩, rfl, ?_⟩
    rcases grown with rfl | rfl
    · exact ⟨[], rfl, by simp⟩
    · exact ⟨[.cease peer], rfl, by simp [Inward]⟩
  unfold bgpMaximumPrefixOverflow
  dsimp only
  split
  · exact Evolves.refl s
  · split
    · split
      · exact Evolves.refl s
      · split
        · exact limit _ _ (Or.inl rfl)
        · exact limit _ _ (Or.inr rfl)
    · exact limit _ _ (Or.inl rfl)

/-- After the prefix limit is checked the node is queued, or the session closed. -/
theorem limited_evolves {start s : State} (peer : Nat) (rn : Node)
    (reaches : Scope.Reaches scope rn) (before : Evolves scope start s) :
    Evolves scope start
      (match bgpMaximumPrefixOverflow env s peer rn.afi rn.safi false with
        | (s, true) => s
        | (s, false) => bgpProcess s rn) := by
  have limited := before.trans (bgpMaximumPrefixOverflow_evolves env s peer rn.afi rn.safi false)
  rcases closed : bgpMaximumPrefixOverflow env s peer rn.afi rn.safi false with ⟨s', answer⟩
  rw [closed] at limited
  cases answer with
  | true => exact limited
  | false => exact limited.trans (bgpProcess_evolves s' rn reaches)

theorem updateFresh_evolves (covers : scope.Covers env) (s : State) (rn : Node) (call : UpdateCall)
    (attr : Attr) (main : rn.owner = .main) (present : rn ∈ s.nodes)
    (admitted : scope.admits attr) :
    Evolves scope s (updateFresh env w s rn call attr) := by
  have reaches : Scope.Reaches scope rn := fun _ => covers.main rn main
  unfold updateFresh bgpInfoNew
  dsimp only
  generalize new : withTag rn.safi call.tag
    { id := s.nextId, peer := call.peer, type := call.type, subType := call.subType, attr := attr,
      extra := none, flags := {} } = ri
  obtain ⟨evolves, kin⟩ := freshValid_evolves env w { s with nextId := s.nextId + 1 } rn ri reaches
  have tagged : Kin scope [] rn _ ri := new ▸ withTag_kin [] rn rn.safi call.tag _
  have whole := tagged.trans (kin [])
  have issued := (issue_evolves s).trans evolves
  have id : (freshValid env w { s with nextId := s.nextId + 1 } rn ri).2.id = s.nextId := whole.id
  have added := addCounted_evolves env covers rn _ issued (issued.nodes rn present) whole.selected
    (whole.scanned fun changed => absurd changed Bool.false_ne_true)
    (by
      rcases whole.admitted with same | inScope
      · rw [same]
        exact admitted
      · exact inScope)
    id.ge
    (by
      rw [id]
      exact evolves.nextId)
    (by
      intro bounded other member taken
      rw [id] at taken
      obtain ⟨old, held, kin'⟩ := evolves.before member (by rw [taken]; exact Nat.lt_succ_self _)
      exact (bounded rn old held).ne (kin'.id.symm.trans taken))
  apply limited_evolves env call.peer rn reaches added

/-! ## Routes go -/

/-- The nodes of the main tables hang in tables of the main type. -/
theorem table_main (main : rn.owner = .main) : rn.table.type = .main := by
  unfold Node.table
  rw [main]
  cases rn.prd <;> rfl

/-- Every route under the name has the flag as it was put. -/
theorem bgpInfoPutFlag_routes (id : Nat) (flag : InfoFlag) (on : Bool) {ri' : BgpInfo}
    (member : ri' ∈ (bgpInfoPutFlag env s rn id flag on).infos rn) (named : ri'.id = id) :
    ∃ ri ∈ s.infos rn, ri.id = id ∧ ∃ counted, ri' = (ri.put flag on).put .counted counted := by
  rw [bgpInfoPutFlag_infos, replace_same] at member
  obtain ⟨ri, held, rfl⟩ := List.mem_map.mp member
  obtain ⟨counted, same⟩ := bgpInfoPut_route env s rn ri flag on
  by_cases here : ri.id = id
  · refine ⟨ri, held, here, counted, ?_⟩
    rw [if_pos here]
    exact same
  · rw [if_neg here] at named
    exact absurd named here

/-- Changing the routes under a name. -/
theorem modify_routes (id : Nat) (change : BgpInfo → BgpInfo) {ri' : BgpInfo}
    (member : ri' ∈ (s.modify rn id change).infos rn) (named : ri'.id = id) :
    ∃ ri ∈ s.infos rn, ri.id = id ∧ ri' = change ri := by
  simp only [State.modify, replace_same] at member
  obtain ⟨ri, held, rfl⟩ := List.mem_map.mp member
  by_cases here : ri.id = id
  · exact ⟨ri, held, here, by rw [if_pos here]⟩
  · rw [if_neg here] at named
    exact absurd named here

theorem bgpInfoDelete_removed (id : Nat) {ri' : BgpInfo}
    (member : ri' ∈ (bgpInfoDelete env s rn id).infos rn) (named : ri'.id = id) :
    ri'.flags.removed = true := by
  obtain ⟨ri, held, here, rfl⟩ := modify_routes _ rn id _ member named
  obtain ⟨before, -, -, counted, rfl⟩ := bgpInfoPutFlag_routes env s rn id .removed true held here
  rfl

/-- Exactly the routes of one name in one node. -/
def Only (rn : Node) (id : Nat) : Node → Nat → Prop := fun rn' id' => rn' = rn ∧ id' = id

/-- A step on one route may leave it marked in its queued node. -/
theorem settle_only {s s' : State} {rn : Node} {id : Nat}
    (evolves : Evolves (scope.exempting (Only rn id)) s s')
    (loud : ∀ ri ∈ s'.infos rn, ri.id = id → Loud s'.mainQueue rn ri) : Evolves scope s s' := by
  apply evolves.settle
  intro rn'
  refine Or.inl fun ri member only => ?_
  obtain ⟨rfl, named⟩ := only
  exact loud ri member named

/-- A route that is removed is removed in a queued node, unless it stays as
history. -/
theorem bgpRibRemove_evolves (covers : scope.Covers env) (s : State) (rn : Node) (id : Nat)
    (main : rn.owner = .main) (sound : Sound s) : Evolves scope s (bgpRibRemove env s rn id) := by
  have reaches : Scope.Reaches scope rn := fun _ => covers.main rn main
  have queued : ∀ s : State, rn ∈ (bgpProcess s rn).mainQueue := fun s =>
    bgpProcess_queued s rn (table_main rn main)
  unfold bgpRibRemove
  dsimp only
  split
  · rename_i history
    refine Evolves.trans ?_ (bgpProcess_evolves _ rn reaches)
    apply bgpAggregateDecrement_evolves env covers s rn id
    refine Or.inr fun ri held named => ?_
    obtain ⟨change, same, touched⟩ := decrement_touches env s rn id
    obtain ⟨ri', found, kept⟩ := (Option.any_eq_true _ _).mp history
    obtain ⟨member, named'⟩ := info?_mem found
    rw [same] at member
    obtain ⟨old, held', rfl⟩ := List.mem_map.mp member
    obtain rfl : ri = old :=
      sound.unique held' held (named.trans (named'.symm.trans (touched old).id))
    rw [← (touched ri).countable]
    simp [BgpInfo.countable, BgpInfo.holddown, kept]
  · apply settle_only
    · have exempt : (scope.exempting (Only rn id)).exempt rn id := Or.inr ⟨rfl, rfl⟩
      exact ((bgpAggregateDecrement_evolves env (Scope.exempting_covers covers _) s rn id
        (Or.inl (Or.inl exempt))).trans (bgpInfoDelete_evolves env _ rn id reaches)).trans
        (bgpProcess_evolves _ rn reaches)
    · intro ri member named
      rw [bgpProcess_infos] at member
      exact ⟨Or.inr (bgpInfoDelete_removed env _ rn id member named), queued _⟩

/-- A route that damping withdraws is history. -/
theorem bgpDampWithdraw_history (attrChange : Bool) (ri' : BgpInfo)
    (member : ri' ∈ (bgpDampWithdraw env s rn id now attrChange).1.infos rn) (named : ri'.id = id) :
    ri'.flags.history = true := by
  have noted : ∀ (s : State), ∀ ri' ∈ (bgpInfoSetFlag env s rn id .history).infos rn,
      ri'.id = id → ri'.flags.history = true := by
    intro s ri' member named
    obtain ⟨ri, held, here, counted, rfl⟩ := bgpInfoPutFlag_routes env s rn id _ _ member named
    rfl
  unfold bgpDampWithdraw at member
  split at member
  · rename_i absent
    have other := List.find?_eq_none.mp absent ri' member
    simp [named] at other
  · dsimp only at member
    split at member
    · exact noted _ ri' member named
    · split at member
      · obtain ⟨ri, held, here, rfl⟩ := modify_routes _ rn id _ member named
        obtain ⟨old, before, here', counted, rfl⟩ :=
          bgpInfoPutFlag_routes env _ rn id .damped true held here
        exact noted _ old before here'
      · exact noted _ ri' member named

theorem bgpRibWithdraw_evolves (covers : scope.Covers env) (s : State) (rn : Node) (id peer : Nat)
    (main : rn.owner = .main) (sound : Sound s) :
    Evolves scope s (bgpRibWithdraw env w s rn id peer) := by
  have reaches : Scope.Reaches scope rn := fun _ => covers.main rn main
  have damped : Evolves scope s _ := bgpDampWithdraw_evolves env s rn id w.now false reaches
  have history := bgpDampWithdraw_history env s rn id w.now false
  unfold bgpRibWithdraw
  split
  · rcases answer : bgpDampWithdraw env s rn id w.now false with ⟨s', status⟩
    rw [answer] at damped history
    cases status with
    | suppressed =>
      apply damped.trans
      apply bgpAggregateDecrement_evolves env covers s' rn id
      refine Or.inr fun ri held named => ?_
      simp [BgpInfo.countable, BgpInfo.holddown, history ri held named]
    | used =>
        exact damped.trans (bgpRibRemove_evolves env covers s' rn id main (damped.sound sound))
  · exact bgpRibRemove_evolves env covers s rn id main sound

/-! ## Routes change -/

/-- The route of a call is counted in, in whatever state the call has come to. -/
theorem increment_evolves (covers : scope.Covers env) {outer : Scope} {s s' : State}
    (evolves : Evolves outer s s') (sound : Sound s) (rn : Node) (ri : BgpInfo)
    (main : rn.owner = .main) (held : ri ∈ s.infos rn) (normal : ri.subType ≠ .aggregate) :
    Evolves scope s' (aggregateIncrement env s' rn ri.id) := by
  apply aggregateIncrement_settled env covers s' rn ri.id _ main
  · intro ri' member named
    obtain ⟨old, before, kin⟩ := evolves.before member
      (by rw [named]; exact sound.bounded rn ri held)
    obtain rfl := sound.unique held before (kin.id.symm.trans named)
    exact ⟨named ▸ (evolves.sound sound).named member, by rw [kin.subType]; exact normal⟩
  · exact evolves.nodes rn (sound.listed rn (List.ne_nil_of_mem held))

/-- A route that comes in again unchanged. Its mark goes, so it must not have one
where it matters. -/
theorem updateDuplicate_evolves (covers : scope.Covers env) (s : State) (rn : Node) (ri : BgpInfo)
    (main : rn.owner = .main) (sound : Sound s)
    (held : ri ∈ s.infos rn) (normal : ri.subType ≠ .aggregate)
    (unmarked : ri.flags.attrChanged = false ∨ scope.exempt rn ri.id) :
    Evolves scope s (updateDuplicate env w s rn ri) := by
  have reaches : Scope.Reaches scope rn := fun _ => covers.main rn main
  have cleared : Evolves scope s (bgpInfoUnsetFlag env s rn ri.id .attrChanged) := by
    apply putFlag_evolves env s rn ri.id .attrChanged false reaches
    intro other member named
    obtain rfl := sound.unique held member named
    apply kin_bgpInfoPut
    rcases unmarked with unmarked | exempt
    · exact kin_clear _ rn other unmarked
    · exact kin_exempt _ rn other .attrChanged false (Or.inl rfl) exempt
  have processed : ∀ {s' : State}, Evolves scope s s' → Evolves scope s (bgpProcess s' rn) :=
    fun evolves => evolves.trans (bgpProcess_evolves _ rn reaches)
  unfold updateDuplicate
  dsimp only
  split
  · have updated := cleared.trans (bgpDampUpdate_evolves env _ rn ri.id w.now reaches)
    rcases answer : bgpDampUpdate env (bgpInfoUnsetFlag env s rn ri.id .attrChanged) rn ri.id w.now
      with ⟨s', status⟩
    rw [answer] at updated
    cases status with
    | suppressed => exact updated
    | used =>
      apply processed
      exact updated.trans
        (increment_evolves env covers updated sound rn ri main held normal)
  · split
    · exact processed (cleared.trans (putQuiet_evolves env _ rn ri.id .stale false reaches rfl))
    · exact cleared

/-- The routes of a name are marked or removed. -/
def Flagged (s : State) (rn : Node) (id : Nat) : Prop :=
  ∀ ri ∈ s.infos rn, ri.id = id → ri.flags.attrChanged = true ∨ ri.flags.removed = true

/-- The scope without exemptions. -/
def strict : Scope := ⟨fun _ _ => False, True, fun _ => True, fun _ => True, fun _ => True⟩

theorem strict_covers : strict.Covers env := ⟨fun _ _ => trivial, fun _ _ _ _ => trivial⟩

/-- Without exemptions marks stay. -/
theorem Flagged.evolves {s s' : State} {rn : Node} {id : Nat} (flagged : Flagged s rn id)
    (evolves : Evolves strict s s') (old : id < s.nextId) : Flagged s' rn id := by
  intro ri' member named
  obtain ⟨ri, held, kin⟩ := evolves.before member (named ▸ old)
  exact kin.flagged not_false (flagged ri held (kin.id.symm.trans named))

/-- The route that changes is marked when it is counted out. -/
theorem beginChange_flagged (ri : BgpInfo) : Flagged (beginChange env s rn ri) rn ri.id := by
  intro ri' member named
  unfold beginChange at member
  obtain ⟨change, same, touched⟩ := decrement_touches env
    (bgpInfoSetFlag env _ rn ri.id .attrChanged) rn ri.id
  rw [same] at member
  obtain ⟨before, held, rfl⟩ := List.mem_map.mp member
  rw [(touched before).id] at named
  obtain ⟨old, -, -, counted, rfl⟩ := bgpInfoPutFlag_routes env _ rn ri.id _ _ held named
  rcases (touched ((old.put .attrChanged true).put .counted counted)).flags with same | marked
  · rw [same]
    exact Or.inl rfl
  · rw [marked]
    exact Or.inl rfl

/-- It is counted out as far as its scope lets it. -/
theorem beginChange_evolves (covers : scope.Covers env) (s : State) (rn : Node) (ri : BgpInfo)
    (main : rn.owner = .main) (exempt : scope.exempt rn ri.id) :
    Evolves scope s (beginChange env s rn ri) := by
  have reaches : Scope.Reaches scope rn := fun _ => covers.main rn main
  unfold beginChange
  have restored : Evolves scope s
      (if ri.flags.removed then bgpInfoRestore env s rn ri.id else s) := by
    split
    · exact bgpInfoRestore_evolves env s rn ri.id reaches exempt
    · exact Evolves.refl s
  generalize (if ri.flags.removed then bgpInfoRestore env s rn ri.id else s) = s₁ at restored ⊢
  have fresh : Evolves scope s
      (if ri.flags.stale then bgpInfoUnsetFlag env s₁ rn ri.id .stale else s₁) := by
    split
    · exact restored.trans (putQuiet_evolves env s₁ rn ri.id .stale false reaches rfl)
    · exact restored
  exact (fresh.trans (setMark_evolves env _ rn ri.id .attrChanged reaches (Or.inl rfl))).trans
    (bgpAggregateDecrement_evolves env covers _ rn ri.id (Or.inl (Or.inl exempt)))

/-- The attributes of a route and its tag are replaced. -/
theorem replaceAttr_evolves (id : Nat) (attr : Attr) (safi : Safi) (tag : List U8)
    (exempt : scope.exempt rn id) (admitted : scope.admits attr) :
    Evolves scope s (s.modify rn id fun ri => withTag safi tag { ri with attr }) := by
  apply modify_evolves
  rintro ri - rfl
  have replaced : Kin scope s.mainQueue rn ri { ri with attr } :=
    ⟨rfl, rfl, rfl, rfl, rfl, Or.inr admitted, Or.inl, Or.inl exempt⟩
  exact replaced.trans (withTag_kin _ rn safi tag _)

theorem applyChange_evolves (ri : BgpInfo) (attr : Attr) (tag : List U8)
    (reaches : Scope.Reaches scope rn) (exempt : scope.exempt rn ri.id)
    (admitted : scope.admits attr) : Evolves scope s (applyChange env w s rn ri attr tag) := by
  unfold applyChange
  refine Evolves.trans ?_ (replaceAttr_evolves _ rn ri.id attr rn.safi tag exempt admitted)
  split
  · exact bgpDampWithdraw_evolves env s rn ri.id w.now true reaches
  · exact Evolves.refl s

theorem applyChange_flagged (ri : BgpInfo) (attr : Attr) (tag : List U8)
    (flagged : Flagged s rn ri.id) (old : ri.id < s.nextId) :
    Flagged (applyChange env w s rn ri attr tag) rn ri.id := by
  have flapped : ∀ (flaps : Prop) [Decidable flaps], Flagged
      (if flaps then (bgpDampWithdraw env s rn ri.id w.now true).1 else s) rn ri.id := by
    intro flaps _
    split
    · exact flagged.evolves (bgpDampWithdraw_evolves env s rn ri.id w.now true fun _ => trivial) old
    · exact flagged
  intro ri' member named
  obtain ⟨before, held, here, rfl⟩ := modify_routes _ rn ri.id _ member named
  have tagged : (withTag rn.safi tag { before with attr }).flags = before.flags := by
    unfold withTag
    split <;> rfl
  rw [tagged]
  exact flapped _ before held here

/-- What is left to do is done without an exemption. -/
theorem finishChange_evolves (covers : scope.Covers env) {outer : Scope} {s s' : State}
    (evolves : Evolves outer s s') (sound : Sound s) (rn : Node) (ri : BgpInfo)
    (main : rn.owner = .main) (held : ri ∈ s.infos rn) (normal : ri.subType ≠ .aggregate)
    (outerCovers : Scope.Reaches outer rn) : Evolves scope s' (finishChange env w s' rn ri) := by
  have reaches : Scope.Reaches scope rn := fun _ => covers.main rn main
  unfold finishChange
  have refreshed := evolves.trans (refreshValid_evolves env w s' rn ri.id ri.peer outerCovers)
  exact ((refreshValid_evolves env w s' rn ri.id ri.peer reaches).trans
    (increment_evolves env covers refreshed sound rn ri main held normal)).trans
    (bgpProcess_evolves _ rn reaches)

/-! ## What damping answers to a change -/

/-- Two routes have the same stability history. -/
structure SameDamping (ri ri' : BgpInfo) : Prop where
  dampInfo : BgpInfo.dampInfo ri' = BgpInfo.dampInfo ri
  damped : ri'.flags.damped = ri.flags.damped

/-- What damping will answer when a route changes: an implicit withdrawal is a flap,
after which the penalty is looked at. -/
def changeAnswer (now : Nat) (ri : BgpInfo) : DampStatus :=
  if ri.flags.history then
    match BgpInfo.dampInfo ri with
    | none => .used
    | some bdi =>
      updateStatus env ri.flags.damped (bgpDampDecay env (now - bdi.tUpdated) bdi.penalty)
  else
    let penalty := flapPenalty env now true (BgpInfo.dampInfo ri)
    updateStatus env (ri.flags.damped || env.damp.suppressValue ≤ penalty) penalty

theorem beginChange_damping (ri : BgpInfo) (sound : Sound s) (held : ri ∈ s.infos rn) :
    ∀ ri' ∈ (beginChange env s rn ri).infos rn, ri'.id = ri.id → SameDamping ri ri' := by
  have restored : ∀ ri' ∈
      (if ri.flags.removed then bgpInfoRestore env s rn ri.id else s).infos rn,
      ri'.id = ri.id → SameDamping ri ri' := by
    intro ri' member named
    split at member
    · obtain ⟨mid, inMid, here, rfl⟩ := modify_routes _ rn ri.id _ member named
      obtain ⟨old, inOld, here', counted, rfl⟩ :=
        bgpInfoPutFlag_routes env s rn ri.id .removed false inMid here
      obtain rfl := sound.unique held inOld here'
      exact ⟨rfl, rfl⟩
    · obtain rfl := sound.unique held member named
      exact ⟨rfl, rfl⟩
  intro ri' member named
  unfold beginChange at member
  generalize (if ri.flags.removed then bgpInfoRestore env s rn ri.id else s) = s₁ at restored member
  obtain ⟨change, same, touched⟩ := decrement_touches env
    (bgpInfoSetFlag env (if ri.flags.stale then bgpInfoUnsetFlag env s₁ rn ri.id .stale else s₁) rn
      ri.id .attrChanged) rn ri.id
  rw [same] at member
  obtain ⟨marked, inMarked, rfl⟩ := List.mem_map.mp member
  rw [(touched marked).id] at named
  obtain ⟨mid, inMid, here, counted, rfl⟩ := bgpInfoPutFlag_routes env _ rn ri.id _ _ inMarked named
  have fresh : SameDamping ri mid := by
    split at inMid
    · obtain ⟨old, inOld, here', counted, rfl⟩ :=
        bgpInfoPutFlag_routes env s₁ rn ri.id .stale false inMid here
      have before := restored old inOld here'
      exact ⟨before.dampInfo, before.damped⟩
    · exact restored mid inMid here
  refine ⟨(touched _).dampInfo.trans fresh.dampInfo, ?_⟩
  rcases (touched ((mid.put .attrChanged true).put .counted counted)).flags with same | marked
  · rw [same]
    exact fresh.damped
  · rw [marked]
    exact fresh.damped

/-- What a flap leaves of the stability history. -/
theorem bgpDampWithdraw_route (now : Nat) (attrChange : Bool) (ri : BgpInfo) (sound : Sound s)
    (held : ri ∈ s.infos rn) :
    ∀ ri' ∈ (bgpDampWithdraw env s rn ri.id now attrChange).1.infos rn, ri'.id = ri.id →
      (∃ bdi, BgpInfo.dampInfo ri' = some bdi ∧ bdi.tUpdated = now ∧
        bdi.penalty = flapPenalty env now attrChange (BgpInfo.dampInfo ri)) ∧
      ri'.flags.damped = (ri.flags.damped ||
        env.damp.suppressValue ≤ flapPenalty env now attrChange (BgpInfo.dampInfo ri)) := by
  have noted : ∀ bdi, ∀ ri' ∈ (bgpInfoSetFlag env
      (s.modify rn ri.id (BgpInfo.setDampInfo · (some bdi))) rn ri.id .history).infos rn,
      ri'.id = ri.id → BgpInfo.dampInfo ri' = some bdi ∧ ri'.flags.damped = ri.flags.damped := by
    intro bdi ri' member named
    obtain ⟨mid, inMid, here, counted, rfl⟩ := bgpInfoPutFlag_routes env _ rn ri.id _ _ member named
    obtain ⟨old, inOld, here', rfl⟩ := modify_routes _ rn ri.id _ inMid here
    obtain rfl := sound.unique held inOld here'
    exact ⟨rfl, rfl⟩
  intro ri' member named
  unfold bgpDampWithdraw at member
  rw [sound.named held] at member
  dsimp only at member
  split at member
  · rename_i damped
    obtain ⟨info, same⟩ := noted _ ri' member named
    exact ⟨⟨_, info, rfl, rfl⟩, by simp [same, damped]⟩
  · rename_i undamped
    split at member
    · rename_i above
      obtain ⟨mid, inMid, here, rfl⟩ := modify_routes _ rn ri.id _ member named
      obtain ⟨old, inOld, here', counted, rfl⟩ :=
        bgpInfoPutFlag_routes env _ rn ri.id .damped true inMid here
      refine ⟨⟨_, rfl, rfl, rfl⟩, ?_⟩
      simp only [above, decide_true, Bool.or_true]
      rfl
    · rename_i below
      obtain ⟨info, same⟩ := noted _ ri' member named
      exact ⟨⟨_, info, rfl, rfl⟩, by simp [same, below]⟩

/-- The scope in which every route is exempt. -/
def lax : Scope := ⟨fun _ _ => True, False, fun _ => True, fun _ => True, fun _ => True⟩

theorem lax_covers : lax.Covers env := ⟨fun _ _ => trivial, fun _ _ _ _ => trivial⟩

theorem bgpDampUpdate_answer (ri : BgpInfo) (found : s.info? rn id = some ri) :
    (bgpDampUpdate env s rn id now).2 =
      match BgpInfo.dampInfo ri with
      | none => .used
      | some bdi =>
        updateStatus env ri.flags.damped (bgpDampDecay env (now - bdi.tUpdated) bdi.penalty) := by
  unfold bgpDampUpdate
  rw [found]
  dsimp only
  cases info : BgpInfo.dampInfo ri with
  | none => rfl
  | some bdi =>
    dsimp only
    split <;> rfl

theorem replacedAttr_damping (safi : Safi) (tag : List U8) (attr : Attr) (ri : BgpInfo) :
    SameDamping ri (withTag safi tag { ri with attr }) := by
  unfold withTag
  split
  · refine ⟨?_, rfl⟩
    unfold BgpInfo.dampInfo BgpInfo.withExtra
    cases ri.extra <;> rfl
  · exact ⟨rfl, rfl⟩

/-- The answer is known before the route changes. -/
theorem change_answer (ri : BgpInfo) (attr : Attr) (tag : List U8) (main : rn.owner = .main)
    (sound : Sound s) (held : ri ∈ s.infos rn) (damps : env.damps ri.peer rn.afi rn.safi = true) :
    (bgpDampUpdate env (applyChange env w (beginChange env s rn ri) rn ri attr tag) rn ri.id
      w.now).2 = changeAnswer env w.now ri := by
  have begun := beginChange_evolves env (lax_covers env) s rn ri main trivial
  have changed : Evolves lax _ _ := applyChange_evolves env w (beginChange env s rn ri) rn ri attr
    tag (fun _ => trivial) trivial trivial
  obtain ⟨r₁, inBegun, kin₁⟩ := begun.after held
  obtain ⟨r₂, inChanged, kin₂⟩ := changed.after inBegun
  have sound₁ := begun.sound sound
  have same₁ := beginChange_damping env s rn ri sound held r₁ inBegun kin₁.id
  have named : r₂.id = ri.id := kin₂.id.trans kin₁.id
  have found := (changed.sound sound₁).named inChanged
  rw [named] at found
  rw [bgpDampUpdate_answer env _ rn ri.id w.now r₂ found]
  obtain ⟨mid, inMid, here, rfl⟩ := modify_routes _ rn ri.id _ inChanged named
  have replaced := replacedAttr_damping rn.safi tag attr mid
  rw [replaced.dampInfo, replaced.damped]
  unfold changeAnswer
  by_cases history : ri.flags.history = true
  · simp only [history, Bool.not_true, Bool.false_eq_true, and_false, if_false, if_true] at inMid ⊢
    obtain rfl := sound₁.unique inBegun inMid (here.trans kin₁.id.symm)
    rw [same₁.dampInfo, same₁.damped]
  · simp only [history, damps, Bool.not_false, and_self, if_true, if_false, Bool.false_eq_true]
      at inMid ⊢
    rw [← kin₁.id] at inMid here
    obtain ⟨⟨bdi, info, updated, penalty⟩, damped⟩ :=
      bgpDampWithdraw_route env _ rn w.now true r₁ sound₁ inBegun mid inMid here
    rw [info, damped]
    dsimp only
    rw [updated, penalty, same₁.dampInfo, same₁.damped, Nat.sub_self]
    simp [bgpDampDecay]

/-- A route that changes is marked in its queued node, unless damping sets it aside:
then the node has to be in the queue already. -/
theorem updateChanged_evolves (covers : scope.Covers env) (s : State) (rn : Node) (ri : BgpInfo)
    (attr : Attr) (tag : List U8) (main : rn.owner = .main)
    (sound : Sound s) (held : ri ∈ s.infos rn)
    (normal : ri.subType ≠ .aggregate) (admitted : scope.admits attr)
    (processed : env.damps ri.peer rn.afi rn.safi = true →
      changeAnswer env w.now ri = .suppressed → scope.exempt rn ri.id ∨ rn ∈ s.mainQueue) :
    Evolves scope s (updateChanged env w s rn ri attr tag) := by
  have reaches : Scope.Reaches scope rn := fun _ => covers.main rn main
  have answered := change_answer env w s rn ri attr tag main sound held
  have open' : (scope.exempting (Only rn ri.id)).exempt rn ri.id := Or.inr ⟨rfl, rfl⟩
  have covers' := Scope.exempting_covers covers (Only rn ri.id)
  have begun := beginChange_evolves env covers' s rn ri main open'
  have changed := begun.trans (applyChange_evolves env w _ rn ri attr tag reaches open' admitted)
  have old : ri.id < s.nextId := sound.bounded rn ri held
  have flagged := applyChange_flagged env w _ rn ri attr tag (beginChange_flagged env s rn ri)
    (lt_of_lt_of_le old begun.nextId)
  unfold updateChanged
  dsimp only
  generalize applyChange env w (beginChange env s rn ri) rn ri attr tag = s₁ at *
  have old₁ : ri.id < s₁.nextId := lt_of_lt_of_le old changed.nextId
  have finished : ∀ {s₂ : State}, Evolves (scope.exempting (Only rn ri.id)) s s₂ →
      Flagged s₂ rn ri.id → Evolves scope s (finishChange env w s₂ rn ri) := by
    intro s₂ evolves flagged₂
    have finish := finishChange_evolves env w covers' evolves sound rn ri main held normal reaches
    have strictly := finishChange_evolves env w (strict_covers env) evolves sound rn ri main
      held normal reaches
    apply settle_only (evolves.trans finish)
    intro ri' member named
    have kept := flagged₂.evolves strictly (lt_of_lt_of_le old evolves.nextId)
    refine ⟨kept ri' member named, ?_⟩
    exact bgpProcess_queued _ rn (table_main rn main)
  split
  · rename_i damps
    have updated := changed.trans (bgpDampUpdate_evolves env s₁ rn ri.id w.now reaches)
    have strictly : Evolves strict s₁ _ :=
      bgpDampUpdate_evolves env s₁ rn ri.id w.now fun _ => trivial
    have answer := answered damps
    rcases whole : bgpDampUpdate env s₁ rn ri.id w.now with ⟨s₂, status⟩
    rw [whole] at updated strictly answer
    have flagged₂ := flagged.evolves strictly old₁
    cases status with
    | used => exact finished updated flagged₂
    | suppressed =>
      rcases processed damps answer.symm with exempt | queued
      · have within : (scope.exempting (Only rn ri.id)).Within scope := by
          refine ⟨?_, fun counts => counts, fun _ admits => admits, fun _ nodes => nodes,
            fun _ scans => scans⟩
          rintro rn' id' (inScope | ⟨rfl, rfl⟩)
          · exact inScope
          · exact exempt
        exact updated.widen within
      · exact settle_only updated fun ri' member named =>
          ⟨flagged₂ ri' member named, updated.queued rn queued⟩
  · exact finished changed flagged

end Bgpd.Steps
