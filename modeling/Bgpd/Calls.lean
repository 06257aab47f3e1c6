import Bgpd.Steps

/-!
# Updates and withdrawals evolve

A call goes to the main table and to the tables of the route-server clients. The
routes of the latter are nobody's concern but the clients', so that they are
exempt; in the main table an update evolves where the route it takes the place of
is heard of.
-/

namespace Bgpd.Calls

open Octets Attributes Admission RsclientPolicy Rib Damping Aggregation Updates Evolution Primitives
  Increments Steps

variable (env : Env) (w : World) {scope : Scope}

/-! ## Tables of route-server clients -/

/-- An exempt route is removed in any table. -/
theorem bgpRibRemove_exempt (covers : scope.Covers env) (s : State) (rn : Node) (id : Nat)
    (reaches : Scope.Reaches scope rn) (exempt : scope.exempt rn id) :
    Evolves scope s (bgpRibRemove env s rn id) := by
  have counted := bgpAggregateDecrement_evolves env covers s rn id (Or.inl (Or.inl exempt))
  unfold bgpRibRemove
  dsimp only
  split
  · exact counted.trans (bgpProcess_evolves _ rn reaches)
  · exact (counted.trans (bgpInfoDelete_evolves env _ rn id reaches)).trans
      (bgpProcess_evolves _ rn reaches)

theorem bgpRibWithdraw_exempt (covers : scope.Covers env) (s : State) (rn : Node) (id peer : Nat)
    (reaches : Scope.Reaches scope rn) (exempt : scope.exempt rn id) :
    Evolves scope s (bgpRibWithdraw env w s rn id peer) := by
  have damped : Evolves scope s _ := bgpDampWithdraw_evolves env s rn id w.now false reaches
  unfold bgpRibWithdraw
  split
  · rcases answer : bgpDampWithdraw env s rn id w.now false with ⟨s', status⟩
    rw [answer] at damped
    cases status with
    | suppressed =>
      exact damped.trans (bgpAggregateDecrement_evolves env covers s' rn id
        (Or.inl (Or.inl exempt)))
    | used => exact damped.trans (bgpRibRemove_exempt env covers s' rn id reaches exempt)
  · exact bgpRibRemove_exempt env covers s rn id reaches exempt

theorem changeRsclient_evolves (s : State) (rn : Node) (ri : BgpInfo) (attr : Attr) (tag : List U8)
    (reaches : Scope.Reaches scope rn) (exempt : scope.exempt rn ri.id)
    (admitted : scope.admits attr) : Evolves scope s (changeRsclient env s rn ri attr tag) := by
  unfold changeRsclient
  refine Evolves.trans ?_ (bgpProcess_evolves _ rn reaches)
  refine Evolves.trans ?_ (putQuiet_evolves env _ rn ri.id .valid true reaches rfl)
  refine Evolves.trans ?_ (replaceAttr_evolves _ rn ri.id attr rn.safi tag exempt admitted)
  refine Evolves.trans ?_ (setMark_evolves env _ rn ri.id .attrChanged reaches (Or.inl rfl))
  split
  · exact bgpInfoRestore_evolves env s rn ri.id reaches exempt
  · exact Evolves.refl s

/-- A route in hand is added to the node, under the name that was just taken. -/
theorem addFresh_evolves (s : State) (rn : Node) (ri : BgpInfo) (reaches : Scope.Reaches scope rn)
    (present : rn ∈ s.nodes) (name : ri.id = s.nextId) (unselected : ri.flags.selected = false)
    (scanned : Scanned scope rn ri) (admitted : scope.admits ri.attr) :
    let put := bgpInfoPut env { s with nextId := s.nextId + 1 } rn ri .valid true
    Evolves scope s (bgpInfoAdd put.1 rn put.2) := by
  have issued := (issue_evolves s).trans
    (bgpInfoPut_evolves env { s with nextId := s.nextId + 1 } rn ri .valid true reaches)
  have kin : Kin scope [] rn ri _ := kin_bgpInfoPut env { s with nextId := s.nextId + 1 } [] rn ri
    .valid true (kin_put [] rn ri .valid true rfl)
  obtain ⟨pcount, log, same, -⟩ := bgpInfoPut_eq env { s with nextId := s.nextId + 1 } rn ri .valid
    true
  have id := kin.id.trans name
  apply bgpInfoAdd_evolves rn _ issued (issued.nodes rn present) (kin.selected.trans unselected)
    (kin.scanned scanned)
  · rcases kin.admitted with same | inScope
    · rw [same]
      exact admitted
    · exact inScope
  · exact id.ge
  · rw [id, same]
    exact Nat.lt_succ_self _
  · intro bounded other member
    rw [same] at member
    rw [id]
    exact (bounded rn other member).ne

theorem bgpUpdateRsclient_evolves (covers : scope.Covers env) (s : State) (rsclient : Nat)
    (call : UpdateCall) (reaches : Scope.Reaches scope (call.node (.rsclient rsclient)))
    (exempt : ∀ id, scope.exempt (call.node (.rsclient rsclient)) id)
    (admitted : ∀ changed,
      admitRsclient (env.config rsclient) (env.config call.peer) call.p call.attr
      call.safi = some changed → scope.admits (w.intern changed)) :
    Evolves scope s (bgpUpdateRsclient env w s rsclient call) := by
  unfold bgpUpdateRsclient
  split
  · exact Evolves.refl s
  · dsimp only
    have present : call.node (.rsclient rsclient) ∈
        (bgpNodeGet s (call.node (.rsclient rsclient))).nodes :=
          (mem_bgpNodeGet _ _ _).mpr (Or.inl rfl)
    apply (bgpNodeGet_evolves s (call.node (.rsclient rsclient))).trans
    generalize bgpNodeGet s (call.node (.rsclient rsclient)) = s at present ⊢
    generalize call.node (.rsclient rsclient) = rn at *
    cases admits : admitRsclient (env.config rsclient) (env.config call.peer) call.p call.attr
      call.safi with
    | none =>
      cases findInfo s rn call.peer call.type call.subType with
      | none => exact Evolves.refl s
      | some ri => exact bgpRibRemove_exempt env covers s rn ri.id reaches (exempt ri.id)
    | some changed =>
      have inScope := admitted changed admits
      cases findInfo s rn call.peer call.type call.subType with
      | none =>
        have tagged : Kin scope [] rn _ (withTag rn.safi call.tag _) := withTag_kin [] rn rn.safi
          call.tag (bgpInfoNew s call.peer call.type call.subType (w.intern changed)).2
        refine (addFresh_evolves env s rn _ reaches present tagged.id tagged.selected
          (tagged.scanned fun changed => absurd changed Bool.false_ne_true) ?_).trans
          (bgpProcess_evolves _ rn reaches)
        rcases tagged.admitted with same | admits
        · rw [same]
          exact inScope
        · exact admits
      | some ri =>
        dsimp only
        split
        · exact putFlag_evolves env s rn ri.id .attrChanged false reaches fun other _ named =>
            kin_bgpInfoPut env s _ rn other .attrChanged false
              (kin_exempt _ rn other .attrChanged false (Or.inl rfl) (named ▸ exempt _))
        · exact changeRsclient_evolves env s rn ri (w.intern changed) call.tag reaches
            (exempt ri.id)
            inScope

/-- A withdrawal from any table but the main one. -/
theorem withdrawFrom_exempt (covers : scope.Covers env) (s : State) (owner : Owner)
    (call : UpdateCall) (reaches : Scope.Reaches scope (call.node owner))
    (exempt : ∀ id, scope.exempt (call.node owner) id) :
    Evolves scope s (withdrawFrom env w s owner call) := by
  unfold withdrawFrom
  dsimp only
  apply (bgpNodeGet_evolves s (call.node owner)).trans
  split
  · exact Evolves.refl _
  · split
    · exact Evolves.refl _
    · exact bgpRibWithdraw_exempt env w covers _ _ _ _ reaches (exempt _)

/-! ## Whole calls -/

variable {rn : Node}

/-- A search sees the routes of its node alone. -/
theorem findInfo_congr {s s' : State} (same : s'.infos rn = s.infos rn) (peer : Nat)
    (type : RouteType) (subType : SubType) :
    findInfo s' rn peer type subType = findInfo s rn peer type subType := by
  unfold findInfo
  rw [same]

/-- Getting the node beforehand does not matter. -/
theorem findInfo_got (s : State) (rn : Node) (peer : Nat) (type : RouteType) (subType : SubType) :
    findInfo (bgpNodeGet s rn) rn peer type subType = findInfo s rn peer type subType :=
  findInfo_congr (congrFun (bgpNodeGet_infos s rn) rn) ..

/-- A route that is found is one of the node, from the neighbour and of the kind
that is asked for. -/
theorem findInfo_some {s : State} {peer : Nat} {type : RouteType} {subType : SubType} {ri : BgpInfo}
    (found : findInfo s rn peer type subType = some ri) :
    ri ∈ s.infos rn ∧ ri.peer = peer ∧ ri.type = type ∧ ri.subType = subType :=
  ⟨List.mem_of_find?_eq_some found, by simpa using List.find?_some found⟩

/-- An accepted route does what it should to the one it takes the place of: a mark
does not get lost, and a change that damping sets aside comes to a queued node. -/
def Heard (s : State) (call : UpdateCall) (ri : BgpInfo) (attr : Attr) : Prop :=
  if !ri.flags.removed ∧ attrhashCmp ri.attr attr then ri.flags.attrChanged = false
  else env.damps ri.peer call.p.family call.safi = true → changeAnswer env w.now ri = .suppressed →
    call.node .main ∈ s.mainQueue

theorem bgpUpdateMain_evolves (covers : scope.Covers env) (s : State) (call : UpdateCall)
    (sound : Sound s) (normal : call.subType ≠ .aggregate)
    (admitted : ∀ changed,
      admitMain env.bgp (w.connected call.p.family) (env.config call.peer) call.p
      call.attr call.safi = some changed → scope.admits (w.intern changed))
    (heard : ∀ ri changed, findInfo s (call.node .main) call.peer call.type call.subType = some ri →
      admitMain env.bgp (w.connected call.p.family) (env.config call.peer) call.p call.attr
        call.safi = some changed →
      scope.exempt (call.node .main) ri.id ∨ Heard env w s call ri (w.intern changed)) :
    Evolves scope s (bgpUpdateMain env w s call) := by
  unfold bgpUpdateMain
  dsimp only
  have got : Evolves scope s _ := bgpNodeGet_evolves s (call.node .main)
  have sound' := got.sound sound
  have queue := bgpNodeGet_mainQueue s (call.node .main)
  have present : call.node .main ∈ (bgpNodeGet s (call.node .main)).nodes :=
    (mem_bgpNodeGet _ _ _).mpr (Or.inl rfl)
  apply got.trans
  unfold Heard at heard
  rw [← queue, ← findInfo_got s] at heard
  generalize bgpNodeGet s (call.node .main) = s at *
  cases admits :
    admitMain env.bgp (w.connected call.p.family) (env.config call.peer) call.p call.attr
    call.safi with
  | none =>
    cases found : findInfo s (call.node .main) call.peer call.type call.subType with
    | none => exact Evolves.refl s
    | some ri => exact bgpRibRemove_evolves env covers s _ ri.id rfl sound'
  | some changed =>
    have inScope := admitted changed admits
    cases found : findInfo s (call.node .main) call.peer call.type call.subType with
    | none => exact updateFresh_evolves env w covers s _ call _ rfl present inScope
    | some ri =>
      obtain ⟨held, -, -, kind⟩ := findInfo_some found
      have normal' : ri.subType ≠ .aggregate := kind ▸ normal
      have heard' := heard ri changed found admits
      dsimp only
      split
      · rename_i same
        rw [if_pos same] at heard'
        exact updateDuplicate_evolves env w covers s _ ri rfl sound' held normal' heard'.symm
      · rename_i other
        rw [if_neg other] at heard'
        apply updateChanged_evolves env w covers s _ ri _ _ rfl sound' held normal' inScope
        intro damps suppressed
        exact heard'.imp_right fun processed => processed damps suppressed

/-- The tables of the clients that hear of a call are in the scope, and their
routes exempt. -/
def Clients (scope : Scope) (call : UpdateCall) : Prop :=
  ∀ rsclient ∈ clientsOf env call.p.family call.safi, rsclient ≠ call.peer →
    Scope.Reaches scope (call.node (.rsclient rsclient)) ∧
      ∀ id, scope.exempt (call.node (.rsclient rsclient)) id

/-- The attributes a call brings into the tables. -/
def Admits (scope : Scope) (call : UpdateCall) : Prop :=
  (∀ changed, admitMain env.bgp (w.connected call.p.family) (env.config call.peer) call.p call.attr
    call.safi = some changed → scope.admits (w.intern changed)) ∧
  ∀ rsclient changed, admitRsclient (env.config rsclient) (env.config call.peer) call.p call.attr
    call.safi = some changed → scope.admits (w.intern changed)

theorem bgpUpdate_evolves (covers : scope.Covers env) (s : State) (call : UpdateCall)
    (sound : Sound s) (normal : call.subType ≠ .aggregate) (clients : Clients env scope call)
    (admits : Admits env w scope call)
    (heard : ∀ ri changed, findInfo s (call.node .main) call.peer call.type call.subType = some ri →
      admitMain env.bgp (w.connected call.p.family) (env.config call.peer) call.p call.attr
        call.safi = some changed →
      scope.exempt (call.node .main) ri.id ∨ Heard env w s call ri (w.intern changed)) :
    Evolves scope s (bgpUpdate env w s call) := by
  unfold bgpUpdate
  apply (bgpUpdateMain_evolves env w covers s call sound normal admits.1 heard).trans
  apply Evolves.foldl
  intro s' rsclient member
  by_cases own : call.peer = rsclient
  · unfold bgpUpdateRsclient
    rw [if_pos own]
    exact Evolves.refl s'
  · obtain ⟨reaches, exempt⟩ := clients rsclient member (Ne.symm own)
    exact bgpUpdateRsclient_evolves env w covers s' rsclient call reaches exempt (admits.2 rsclient)

theorem bgpWithdraw_evolves (covers : scope.Covers env) (s : State) (call : UpdateCall)
    (sound : Sound s) (clients : Clients env scope call) :
    Evolves scope s (bgpWithdraw env w s call) := by
  unfold bgpWithdraw
  have others : Evolves scope s ((clientsOf env call.p.family call.safi).foldl
      (fun s rsclient => bgpWithdrawRsclient env w s rsclient call) s) := by
    apply Evolves.foldl
    intro s' rsclient member
    unfold bgpWithdrawRsclient
    split
    · exact Evolves.refl s'
    · rename_i other
      obtain ⟨reaches, exempt⟩ := clients rsclient member (Ne.symm other)
      exact withdrawFrom_exempt env w covers s' _ call reaches exempt
  apply others.trans
  unfold withdrawFrom
  dsimp only
  have got : Evolves scope _ _ := bgpNodeGet_evolves
    ((clientsOf env call.p.family call.safi).foldl
      (fun s rsclient => bgpWithdrawRsclient env w s rsclient call) s) (call.node .main)
  apply got.trans
  split
  · exact Evolves.refl _
  · split
    · exact Evolves.refl _
    · exact bgpRibWithdraw_evolves env w covers _ _ _ _ rfl (got.sound (others.sound sound))

end Bgpd.Calls
