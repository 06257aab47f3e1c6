import Bgpd.Calls

/-!
# Scans, timers and local routes evolve

Where suppress counts do not matter, the next-hop scan evolves without exemptions.
What the configuration, other protocols and the timers do evolves where nothing is
asked of the routes but their attributes.
-/

namespace Bgpd.Sources

open Prefixes Attributes Rib Damping Aggregation Updates Evolution Primitives Rebuild Increments
  Steps

variable (env : Env) (w : World) {scope : Scope}

/-! ## The next-hop scan -/

/-- A learned route of a node, which is scanned if a lookup finds a change. -/
theorem scanInfo_evolves (covers : scope.Covers env) (s : State) (rn : Node) (id : Nat)
    (main : rn.owner = .main) (sound : Sound s) (uncounted : ¬ scope.counted)
    (scans : ∀ ri, (bgpNexthopLookup w rn.afi ri).1.changed = true → scope.scans rn) :
    Evolves scope s (scanInfo env w s rn id) := by
  have reaches : Scope.Reaches scope rn := fun _ => covers.main rn main
  have spared : scope.Spares rn id := Or.inr uncounted
  unfold scanInfo
  split
  · exact Evolves.refl s
  · rename_i ri found
    obtain ⟨held, rfl⟩ := info?_mem found
    split
    · rename_i learned
      dsimp only
      have noted : ∀ (direct : Prop) [Decidable direct] (valid : Bool),
          Evolves scope s (s.modify rn ri.id fun other =>
            (if direct then other else (bgpNexthopLookup w rn.afi other).2).put .igpChanged
              (if direct then (⟨valid, 0, false⟩, ri)
                else bgpNexthopLookup w rn.afi ri).1.changed) := by
        intro direct _ valid
        apply modify_evolves
        intro other member named
        obtain rfl := sound.unique held member named
        split
        · exact kin_igpChanged _ rn other _ nofun learned
        · have looked : Kin scope s.mainQueue rn other _ :=
            bgpNexthopLookup_kin w s.mainQueue rn rn.afi
            other
          refine looked.trans (kin_igpChanged _ rn _ _ (scans other) ?_)
          rw [looked.type, looked.subType]
          exact learned
      have checked : ∀ (s' : State) (valid : Bool), Evolves scope s s' → Evolves scope s
          (if valid = ri.flags.valid then s'
            else if ri.flags.valid then
              bgpInfoUnsetFlag env (bgpAggregateDecrement env s' rn ri.id) rn ri.id .valid
            else aggregateIncrement env (bgpInfoSetFlag env s' rn ri.id .valid) rn ri.id) := by
        intro s' valid before
        split
        · exact before
        · split
          · exact (before.trans (bgpAggregateDecrement_evolves env covers s' rn ri.id
              (Or.inl spared))).trans (putQuiet_evolves env _ rn ri.id .valid false reaches rfl)
          · exact (before.trans (putQuiet_evolves env s' rn ri.id .valid true reaches rfl)).trans
              (aggregateIncrement_evolves env covers _ rn ri.id spared)
      have damped : ∀ s' answer, bgpDampScan env s' rn ri.id w.now = answer → Evolves scope s s' →
          Evolves scope s answer.1 := by
        rintro s' _ rfl before
        exact before.trans (bgpDampScan_evolves env s' rn ri.id w.now reaches)
      split
      · split
        · rename_i again
          exact (damped _ _ again (checked _ _ (noted _ _))).trans
            (aggregateIncrement_evolves env covers _ rn ri.id spared)
        · rename_i again
          exact damped _ _ again (checked _ _ (noted _ _))
      · exact checked _ _ (noted _ _)
    · exact Evolves.refl s

theorem scanNode_evolves (covers : scope.Covers env) (s : State) (rn : Node)
    (main : rn.owner = .main) (sound : Sound s) (uncounted : ¬ scope.counted)
    (scans : ∀ ri, (bgpNexthopLookup w rn.afi ri).1.changed = true → scope.scans rn) :
    Evolves scope s (scanNode env w s rn) := by
  unfold scanNode
  refine Evolves.trans ?_ (bgpProcess_evolves _ rn fun _ => covers.main rn main)
  exact Evolves.foldl_sound _ _ (fun s id _ sound =>
    scanInfo_evolves env w covers s rn id main sound uncounted scans) s sound

theorem scanLimits_evolves (s : State) (afi : Afi) : Evolves scope s (scanLimits env s afi) := by
  unfold scanLimits
  apply Evolves.foldl
  intro s peer _
  split
  · apply Evolves.foldl
    intro s safi _
    split
    · exact bgpMaximumPrefixOverflow_evolves env s peer afi safi true
    · exact Evolves.refl s
  · exact Evolves.refl s

theorem bgpScan_evolves (covers : scope.Covers env) (s : State) (afi : Afi) (sound : Sound s)
    (uncounted : ¬ scope.counted)
    (scans : env.isDefault = true → ∀ rn : Node, rn.owner = .main → rn.safi = .unicast →
      ∀ ri, (bgpNexthopLookup w afi ri).1.changed = true → scope.scans rn) :
    Evolves scope s (bgpScan env w s afi) := by
  unfold bgpScan
  split
  · rename_i default
    have limited := (scanLimits_evolves env s afi : Evolves scope s _)
    apply limited.trans
    refine Evolves.foldl_sound _ _ (fun s rn member sound => ?_) _ (limited.sound sound)
    obtain ⟨-, kind⟩ := List.mem_filter.mp member
    obtain ⟨main, rfl, unicast⟩ : rn.owner = .main ∧ rn.afi = afi ∧ rn.safi = .unicast := by
      simpa using kind
    exact scanNode_evolves env w covers s rn main sound uncounted (scans default rn main unicast)
  · exact Evolves.refl s

/-! ## Local routes -/

/-- A local route of the node is changed or added, where anything of the node's routes
may change. -/
theorem installLocal_evolves (covers : scope.Covers env) (s : State) (rn : Node)
    (ri : Option BgpInfo) (type : RouteType) (subType : SubType) (attr : Attr)
    (main : rn.owner = .main) (present : rn ∈ s.nodes) (exempt : ∀ id, scope.exempt rn id)
    (admitted : scope.admits attr) :
    Evolves scope s (installLocal env s rn ri type subType attr) := by
  have reaches : Scope.Reaches scope rn := fun _ => covers.main rn main
  unfold installLocal
  split
  · rename_i ri
    have spared : scope.Spares rn ri.id := Or.inl (exempt ri.id)
    split
    · exact Evolves.refl s
    · refine Evolves.trans ?_ (bgpProcess_evolves _ rn reaches)
      refine Evolves.trans ?_ (aggregateIncrement_evolves env covers _ rn ri.id spared)
      have marked : Evolves scope s (bgpInfoSetFlag env s rn ri.id .attrChanged) :=
        setMark_evolves env s rn ri.id .attrChanged reaches (Or.inl rfl)
      have replaced : ∀ s', Evolves scope s' (s'.modify rn ri.id fun ri => { ri with attr }) := by
        intro s'
        apply modify_evolves
        rintro other - -
        exact ⟨rfl, rfl, rfl, rfl, rfl, Or.inr admitted, Or.inl, Or.inl (exempt _)⟩
      split
      · exact (marked.trans (bgpInfoRestore_evolves env _ rn ri.id reaches (exempt ri.id))).trans
          (replaced _)
      · exact (marked.trans (bgpAggregateDecrement_evolves env covers _ rn ri.id
          (Or.inl spared))).trans
          (replaced _)
  · refine Evolves.trans ?_ (bgpProcess_evolves _ rn reaches)
    apply addCounted_evolves env covers rn _ (issue_evolves s) present rfl
      (fun changed => absurd changed Bool.false_ne_true) admitted (le_refl _) (Nat.lt_succ_self _)
    intro bounded other member
    exact (bounded rn other member).ne

theorem removeLocal_evolves (covers : scope.Covers env) (s : State) (rn : Node)
    (ri : Option BgpInfo) (main : rn.owner = .main) (exempt : ∀ id, scope.exempt rn id) :
    Evolves scope s (removeLocal env s rn ri) := by
  have reaches : Scope.Reaches scope rn := fun _ => covers.main rn main
  unfold removeLocal
  split
  · rename_i ri
    exact ((bgpAggregateDecrement_evolves env covers s rn ri.id
      (Or.inl (Or.inl (exempt ri.id)))).trans
      (bgpInfoDelete_evolves env _ rn ri.id reaches)).trans (bgpProcess_evolves _ rn reaches)
  · exact Evolves.refl s

end Bgpd.Sources
