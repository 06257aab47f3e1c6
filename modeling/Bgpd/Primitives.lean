import Bgpd.Evolution

/-!
# The primitives evolve

Flags, counts, nodes and queues: each small step on the tables, with what it does
to the fields of the state and the scope in which it evolves. A flag whose change
does not show to the processing needs no scope at all.
-/

namespace Bgpd.Primitives

open Rib Damping Aggregation Evolution

section Replace

variable {α β : Type} [DecidableEq α] (f : α → β) (place other : α) (value : β)

@[simp] theorem replace_same : replace f place value place = value := if_pos rfl

theorem replace_ne (apart : other ≠ place) : replace f place value other = f other := if_neg apart

@[simp] theorem replace_self : replace f place (f place) = f := by
  funext other
  by_cases same : other = place
  · rw [same, replace_same]
  · exact replace_ne f place other _ same

end Replace

section Fields

variable (s : State) (rn : Node) (id : Nat) (change : BgpInfo → BgpInfo) (ri : BgpInfo)
  (flag : InfoFlag) (on : Bool)

@[simp] theorem put_id : (ri.put flag on).id = ri.id := rfl
@[simp] theorem modify_nodes : (s.modify rn id change).nodes = s.nodes := rfl
@[simp] theorem modify_aggregates : (s.modify rn id change).aggregates = s.aggregates := rfl
@[simp] theorem modify_log : (s.modify rn id change).log = s.log := rfl
@[simp] theorem bgpProcess_infos : (bgpProcess s rn).infos = s.infos := by
  unfold bgpProcess
  split <;> rfl
@[simp] theorem bgpProcess_aggregates : (bgpProcess s rn).aggregates = s.aggregates := by
  unfold bgpProcess
  split <;> rfl
@[simp] theorem bgpProcess_nodes : (bgpProcess s rn).nodes = s.nodes := by
  unfold bgpProcess
  split <;> rfl
@[simp] theorem bgpProcess_nextId : (bgpProcess s rn).nextId = s.nextId := by
  unfold bgpProcess
  split <;> rfl
@[simp] theorem bgpNodeGet_infos : (bgpNodeGet s rn).infos = s.infos := by
  unfold bgpNodeGet
  split <;> rfl
@[simp] theorem bgpNodeGet_aggregates : (bgpNodeGet s rn).aggregates = s.aggregates := by
  unfold bgpNodeGet
  split <;> rfl
@[simp] theorem bgpNodeGet_mainQueue : (bgpNodeGet s rn).mainQueue = s.mainQueue := by
  unfold bgpNodeGet
  split <;> rfl
@[simp] theorem bgpNodeGet_nextId : (bgpNodeGet s rn).nextId = s.nextId := by
  unfold bgpNodeGet
  split <;> rfl

end Fields

/-- A node of the main type is in the queue once it is processed. -/
theorem bgpProcess_queued (s : State) (rn : Node) (type : rn.table.type = .main) :
    rn ∈ (bgpProcess s rn).mainQueue := by
  unfold bgpProcess
  rw [type]
  exact List.mem_append_right _ List.mem_cons_self

/-- A place in the walk is found for the node, and nothing is lost. -/
theorem mem_placeNode (rn other : Node) (nodes : List Node) :
    other ∈ placeNode rn nodes ↔ other = rn ∨ other ∈ nodes := by
  induction nodes with
  | nil => simp [placeNode]
  | cons first later ih =>
    unfold placeNode
    split
    · simp
    · simp only [List.mem_cons, ih]
      tauto

theorem mem_bgpNodeGet (s : State) (rn other : Node) :
    other ∈ (bgpNodeGet s rn).nodes ↔ other = rn ∨ other ∈ s.nodes := by
  unfold bgpNodeGet
  split
  · rename_i present
    constructor
    · exact Or.inr
    · rintro (rfl | member)
      · exact present
      · exact member
  · exact mem_placeNode rn other s.nodes

variable (env : Env)
variable (s : State) (rn : Node) (id : Nat)

/-- What counting a route adds to the log: nothing, or one entry about the node, which
hangs in a table of the main type. -/
def Counts (rn : Node) (peer : Nat) (log log' : List Effect) : Prop :=
  log' = log ∨ rn.table.type = .main ∧
    ∃ effect, (effect = .prefixCount rn peer ∨ effect = .zeroCount rn peer) ∧ log' = effect :: log

/-- Counting a route changes the counts and the log, and one flag of the route. -/
theorem bgpPcountAdjust_eq (ri : BgpInfo) :
    ∃ pcount log counted,
      bgpPcountAdjust env s rn ri = ({ s with pcount, log }, ri.put .counted counted) ∧
      Counts rn ri.peer s.log log := by
  unfold bgpPcountAdjust
  dsimp only
  split
  · exact ⟨s.pcount, s.log, ri.flags.counted, rfl, Or.inl rfl⟩
  · rename_i main
    push Not at main
    split
    · split
      · exact ⟨_, _, false, rfl, Or.inr ⟨main.1, _, Or.inl rfl, rfl⟩⟩
      · exact ⟨s.pcount, _, false, rfl, Or.inr ⟨main.1, _, Or.inr rfl, rfl⟩⟩
    · split
      · exact ⟨_, _, true, rfl, Or.inr ⟨main.1, _, Or.inl rfl, rfl⟩⟩
      · exact ⟨s.pcount, s.log, ri.flags.counted, rfl, Or.inl rfl⟩

/-- So does setting or clearing a flag. -/
theorem bgpInfoPut_eq (ri : BgpInfo) (flag : InfoFlag) (on : Bool) :
    ∃ pcount log,
      (bgpInfoPut env s rn ri flag on).1 = { s with pcount, log } ∧
      Counts rn ri.peer s.log log := by
  unfold bgpInfoPut
  split
  · obtain ⟨pcount, log, counted, same, grown⟩ := bgpPcountAdjust_eq env s rn (ri.put flag on)
    exact ⟨pcount, log, by rw [same], grown⟩
  · exact ⟨s.pcount, s.log, rfl, Or.inl rfl⟩

/-- The route has the flag as it was put, and maybe another count. -/
theorem bgpInfoPut_route (ri : BgpInfo) (flag : InfoFlag) (on : Bool) :
    ∃ counted, (bgpInfoPut env s rn ri flag on).2 = (ri.put flag on).put .counted counted := by
  unfold bgpInfoPut
  split
  · obtain ⟨pcount, log, counted, same, -⟩ := bgpPcountAdjust_eq env s rn (ri.put flag on)
    exact ⟨counted, by rw [same]⟩
  · exact ⟨(ri.put flag on).flags.counted, rfl⟩

/-- A change of the routes named by a number, in the place of each. -/
def changed (infos : List BgpInfo) (id : Nat) (change : BgpInfo → BgpInfo) : List BgpInfo :=
  infos.map fun ri => if ri.id = id then change ri else ri

/-- A name that no route has changes nothing. -/
theorem changed_absent (infos : List BgpInfo) (id : Nat) (change : BgpInfo → BgpInfo)
    (absent : infos.find? (fun ri => ri.id = id) = none) : changed infos id change = infos := by
  have other : ∀ ri ∈ infos, ri.id ≠ id := by
    intro ri member
    simpa using List.find?_eq_none.mp absent ri member
  unfold changed
  conv_rhs => rw [← List.map_id infos]
  exact List.map_congr_left fun ri member => if_neg (other ri member)

/-- What setting or clearing a flag does to the routes. -/
theorem bgpInfoPutFlag_infos (flag : InfoFlag) (on : Bool) :
    (bgpInfoPutFlag env s rn id flag on).infos =
      replace s.infos rn
        (changed (s.infos rn) id fun ri => (bgpInfoPut env s rn ri flag on).2) := by
  unfold bgpInfoPutFlag State.info?
  split
  · rename_i absent
    rw [changed_absent _ _ _ absent, replace_self]
  · rename_i ri found
    obtain ⟨pcount, log, same, -⟩ := bgpInfoPut_eq env s rn ri flag on
    rw [same]
    rfl

theorem modify_apart (change : BgpInfo → BgpInfo) (other : Node) (apart : other ≠ rn) :
    (s.modify rn id change).infos other = s.infos other :=
  replace_ne _ _ _ _ apart

theorem bgpInfoPutFlag_apart (flag : InfoFlag) (on : Bool) (other : Node) (apart : other ≠ rn) :
    (bgpInfoPutFlag env s rn id flag on).infos other = s.infos other := by
  rw [bgpInfoPutFlag_infos, replace_ne _ _ _ _ apart]

theorem bgpInfoDelete_apart (other : Node) (apart : other ≠ rn) :
    (bgpInfoDelete env s rn id).infos other = s.infos other :=
  (modify_apart _ _ _ _ other apart).trans (bgpInfoPutFlag_apart env s rn id _ _ other apart)

/-- A change of the routes in their places shows under each name. -/
theorem info?_map {s s' : State} {rn : Node} {change : BgpInfo → BgpInfo}
    (infos : s'.infos rn = (s.infos rn).map change) (named : ∀ ri, (change ri).id = ri.id)
    (id : Nat) : s'.info? rn id = (s.info? rn id).map change := by
  unfold State.info?
  rw [infos, List.find?_map]
  congr 2
  funext ri
  simp [named]

theorem info?_modify {change : BgpInfo → BgpInfo} (named : ∀ ri, (change ri).id = ri.id) :
    (s.modify rn id change).info? rn id = (s.info? rn id).map change := by
  have listed : (s.modify rn id change).infos rn =
      (s.infos rn).map fun ri => if ri.id = id then change ri else ri := replace_same _ _ _
  rw [info?_map listed (fun ri => by split <;> simp only [named]) id]
  cases found : s.info? rn id with
  | none => rfl
  | some ri =>
    have same : ri.id = id := by simpa using List.find?_some found
    rw [Option.map_some, Option.map_some, if_pos same]

/-- The other fields, apart from the counts and the log. -/
theorem bgpInfoPutFlag_fields (s : State) (rn : Node) (id : Nat) (flag : InfoFlag) (on : Bool) :
    let s' := bgpInfoPutFlag env s rn id flag on
    s'.nodes = s.nodes ∧ s'.aggregates = s.aggregates ∧ s'.mainQueue = s.mainQueue ∧
      s'.rsclientQueue = s.rsclientQueue ∧ s'.nextId = s.nextId ∧
      s'.defaultOriginate = s.defaultOriginate ∧
      ∃ peer, Counts rn peer s.log s'.log := by
  unfold bgpInfoPutFlag
  split
  · exact ⟨rfl, rfl, rfl, rfl, rfl, rfl, 0, Or.inl rfl⟩
  · rename_i ri found
    obtain ⟨pcount, log, same, grown⟩ := bgpInfoPut_eq env s rn ri flag on
    rw [same]
    exact ⟨rfl, rfl, rfl, rfl, rfl, rfl, ri.peer, grown⟩

@[simp] theorem bgpInfoPutFlag_nodes (flag : InfoFlag) (on : Bool) :
    (bgpInfoPutFlag env s rn id flag on).nodes = s.nodes :=
  (bgpInfoPutFlag_fields env s rn id flag on).1

@[simp] theorem bgpInfoPutFlag_aggregates (flag : InfoFlag) (on : Bool) :
    (bgpInfoPutFlag env s rn id flag on).aggregates = s.aggregates :=
  (bgpInfoPutFlag_fields env s rn id flag on).2.1

variable {scope : Scope}
variable (s : State) (queue : List Node) (rn : Node)

/-- A change of the routes of one node in their places evolves where each route
stays kin, and nothing but the counts and the log changes beside. -/
theorem evolves_of_changed {s s' : State} {rn : Node} {id : Nat} {change : BgpInfo → BgpInfo}
    (infos : s'.infos = replace s.infos rn (changed (s.infos rn) id change))
    (nodes : s'.nodes = s.nodes) (mainQueue : s'.mainQueue = s.mainQueue)
    (rsclientQueue : s'.rsclientQueue = s.rsclientQueue) (nextId : s'.nextId = s.nextId)
    (defaultOriginate : s'.defaultOriginate = s.defaultOriginate)
    (log : ∃ extra, s'.log = extra ++ s.log ∧ ∀ effect ∈ extra, Inward scope effect)
    (kin : ∀ ri ∈ s.infos rn, ri.id = id → Kin scope s.mainQueue rn ri (change ri)) :
    Evolves scope s s' where
  infos := fun other => by
    by_cases same : other = rn
    · subst same
      refine ⟨[], fun ri => if ri.id = id then change ri else ri, ?_, ?_, by simp, by simp⟩
      · rw [infos, replace_same]
        rfl
      · intro ri member
        rw [mainQueue]
        dsimp only
        split
        · rename_i named
          exact kin ri member named
        · exact Kin.refl ri
    · refine ⟨[], fun ri => ri, ?_, fun ri _ => Kin.refl ri, by simp, by simp⟩
      rw [infos, replace_ne _ _ _ _ same]
      simp
  nextId := nextId.ge
  nodes := by
    rw [nodes]
    exact fun _ => fun member => member
  listed := by
    intro other held
    by_cases same : other = rn
    · subst same
      rw [infos, replace_same] at held
      exact Or.inl fun none => held (by rw [none]; rfl)
    · rw [infos, replace_ne _ _ _ _ same] at held
      exact Or.inl held
  mainQueue := ⟨[], by rw [mainQueue, List.append_nil], by simp⟩
  rsclientQueue := ⟨[], by rw [rsclientQueue, List.append_nil], by simp⟩
  defaultOriginate := defaultOriginate
  log := log

/-- Changing a route evolves where the route stays kin. -/
theorem modify_evolves (id : Nat) (change : BgpInfo → BgpInfo)
    (kin : ∀ ri ∈ s.infos rn, ri.id = id → Kin scope s.mainQueue rn ri (change ri)) :
    Evolves scope s (s.modify rn id change) :=
  evolves_of_changed rfl rfl rfl rfl rfl rfl ⟨[], by simp, by simp⟩ kin

/-- A node may be counted and queued in a scope. -/
def Scope.Reaches (scope : Scope) (rn : Node) : Prop := rn.table.type = .main → scope.nodes rn

/-- Counting stays in such a scope. -/
theorem Counts.inward {rn : Node} {peer : Nat} {log log' : List Effect}
    (counts : Counts rn peer log log') (reaches : Scope.Reaches scope rn) :
    ∃ extra, log' = extra ++ log ∧ ∀ effect ∈ extra, Inward scope effect := by
  rcases counts with same | ⟨main, effect, which, grown⟩
  · exact ⟨[], same, by simp⟩
  · refine ⟨[effect], grown, ?_⟩
    rcases which with rfl | rfl <;> simpa [Inward] using reaches main

/-- Setting or clearing a flag evolves where the route stays kin. -/
theorem putFlag_evolves (id : Nat) (flag : InfoFlag) (on : Bool) (reaches : Scope.Reaches scope rn)
    (kin : ∀ ri ∈ s.infos rn, ri.id = id →
      Kin scope s.mainQueue rn ri (bgpInfoPut env s rn ri flag on).2) :
    Evolves scope s (bgpInfoPutFlag env s rn id flag on) := by
  obtain ⟨nodes, -, mainQueue, rsclientQueue, nextId, defaultOriginate, peer, log⟩ :=
    bgpInfoPutFlag_fields env s rn id flag on
  exact evolves_of_changed (bgpInfoPutFlag_infos env s rn id flag on) nodes mainQueue
    rsclientQueue nextId defaultOriginate (log.inward reaches) kin

/-- Flags that no part of the processing's bookkeeping depends on. -/
def InfoFlag.quiet : InfoFlag → Bool
  | .selected | .attrChanged | .removed | .igpChanged => false
  | _ => true

/-- A route that looks as it did and has its marks is kin. -/
theorem Silent.kin {queue : List Node} {rn : Node} {ri ri' : BgpInfo}
    (silent : Silent scope.counted ri ri') (id : ri'.id = ri.id) (peer : ri'.peer = ri.peer)
    (type : ri'.type = ri.type) (subType : ri'.subType = ri.subType)
    (selected : ri'.flags.selected = ri.flags.selected)
    (igpChanged : ri'.flags.igpChanged = ri.flags.igpChanged) : Kin scope queue rn ri ri' :=
  ⟨id, peer, type, subType, selected, Or.inl silent.attr,
    fun changed => Or.inl (igpChanged ▸ changed),
    Or.inr (Or.inl silent)⟩

/-- A quiet flag leaves a route kin. -/
theorem kin_put (ri : BgpInfo) (flag : InfoFlag) (on : Bool) (quiet : InfoFlag.quiet flag = true) :
    Kin scope queue rn ri (ri.put flag on) := by
  cases flag <;>
    first
    | exact Silent.kin ⟨rfl, fun _ => rfl, id, id⟩ rfl rfl rfl rfl rfl rfl
    | exact absurd quiet Bool.false_ne_true

/-- So does marking it changed or removed. -/
theorem kin_mark (ri : BgpInfo) (flag : InfoFlag) (marks : flag = .attrChanged ∨ flag = .removed) :
    Kin scope queue rn ri (ri.put flag true) := by
  rcases marks with rfl | rfl
  · exact Silent.kin ⟨rfl, fun _ => rfl, fun _ => rfl, id⟩ rfl rfl rfl rfl rfl rfl
  · exact Silent.kin ⟨rfl, fun _ => rfl, id, fun _ => rfl⟩ rfl rfl rfl rfl rfl rfl

/-- A mark that is not there may be cleared. -/
theorem kin_clear (ri : BgpInfo) (unmarked : ri.flags.attrChanged = false) :
    Kin scope queue rn ri (ri.put .attrChanged false) := by
  refine Silent.kin ⟨rfl, fun _ => rfl, fun marked => ?_, id⟩ rfl rfl rfl rfl rfl rfl
  rw [unmarked] at marked
  exact absurd marked Bool.false_ne_true

/-- The marks of an exempt route may be cleared. -/
theorem kin_exempt (ri : BgpInfo) (flag : InfoFlag) (on : Bool)
    (marks : flag = .attrChanged ∨ flag = .removed) (exempt : scope.exempt rn ri.id) :
    Kin scope queue rn ri (ri.put flag on) := by
  rcases marks with rfl | rfl <;>
    exact ⟨rfl, rfl, rfl, rfl, rfl, Or.inl rfl, Or.inl, Or.inl exempt⟩

/-- A learned route of a node that is scanned may be found to have another metric. -/
theorem kin_igpChanged (ri : BgpInfo) (on : Bool) (scanned : on = true → scope.scans rn)
    (learned : ri.type = .bgp ∧ ri.subType = .normal) :
    Kin scope queue rn ri (ri.put .igpChanged on) :=
  ⟨rfl, rfl, rfl, rfl, rfl, Or.inl rfl, fun marked => Or.inr ⟨scanned marked, learned⟩,
    Or.inr (Or.inl ⟨rfl, fun _ => rfl, id, id⟩)⟩

/-- A change of the extra block that keeps the suppress count leaves a route kin. -/
theorem kin_withExtra (ri : BgpInfo) (change : InfoExtra → InfoExtra)
    (keeps : ∀ extra, (change extra).suppress = extra.suppress) :
    Kin scope queue rn ri (ri.withExtra change) := by
  refine Silent.kin ⟨rfl, fun _ => ?_, id, id⟩ rfl rfl rfl rfl rfl rfl
  unfold BgpInfo.suppressed BgpInfo.suppress BgpInfo.withExtra
  rw [Option.map_some, Option.getD_some, keeps]
  cases ri.extra <;> rfl

/-- A flag put with its count leaves a route kin where the flag does. -/
theorem kin_bgpInfoPut (ri : BgpInfo) (flag : InfoFlag) (on : Bool)
    (kin : Kin scope queue rn ri (ri.put flag on)) :
    Kin scope queue rn ri (bgpInfoPut env s rn ri flag on).2 := by
  obtain ⟨counted, same⟩ := bgpInfoPut_route env s rn ri flag on
  rw [same]
  exact kin.trans (kin_put queue rn _ .counted counted rfl)

/-- Quiet flags need no scope. -/
theorem putQuiet_evolves (id : Nat) (flag : InfoFlag) (on : Bool) (reaches : Scope.Reaches scope rn)
    (quiet : InfoFlag.quiet flag = true) : Evolves scope s (bgpInfoPutFlag env s rn id flag on) :=
  putFlag_evolves env s rn id flag on reaches fun ri _ _ =>
    kin_bgpInfoPut env s _ rn ri flag on (kin_put _ rn ri flag on quiet)

/-- Neither do marks. -/
theorem setMark_evolves (id : Nat) (flag : InfoFlag) (reaches : Scope.Reaches scope rn)
    (marks : flag = .attrChanged ∨ flag = .removed) :
    Evolves scope s (bgpInfoSetFlag env s rn id flag) :=
  putFlag_evolves env s rn id flag true reaches fun ri _ _ =>
    kin_bgpInfoPut env s _ rn ri flag true (kin_mark _ rn ri flag marks)

theorem bgpInfoDelete_evolves (id : Nat) (reaches : Scope.Reaches scope rn) :
    Evolves scope s (bgpInfoDelete env s rn id) :=
  (setMark_evolves env s rn id .removed reaches (Or.inr rfl)).trans
    (modify_evolves _ rn id _ fun ri _ _ => kin_put _ rn ri .valid false rfl)

theorem bgpInfoRestore_evolves (id : Nat) (reaches : Scope.Reaches scope rn)
    (exempt : scope.exempt rn id) : Evolves scope s (bgpInfoRestore env s rn id) := by
  refine (putFlag_evolves env s rn id .removed false reaches ?_).trans
    (modify_evolves _ rn id _ fun ri _ _ => kin_put _ rn ri .valid true rfl)
  rintro ri - rfl
  exact kin_bgpInfoPut env s _ rn ri .removed false
    (kin_exempt _ rn ri .removed false (Or.inr rfl) exempt)

theorem bgpProcess_evolves (reaches : Scope.Reaches scope rn) :
    Evolves scope s (bgpProcess s rn) where
  infos := fun other => by
    refine ⟨[], fun ri => ri, by simp, fun ri _ => Kin.refl ri, by simp, by simp⟩
  nextId := by simp
  nodes := by simp
  listed := fun other held => by
    rw [bgpProcess_infos] at held
    exact Or.inl held
  mainQueue := by
    unfold bgpProcess
    split
    · rename_i type
      exact ⟨[rn], rfl, by simpa using reaches type⟩
    · exact ⟨[], by simp, by simp⟩
  rsclientQueue := by
    unfold bgpProcess
    split
    · exact ⟨[], by simp, by simp⟩
    · rename_i type
      exact ⟨[rn], rfl, by simpa using type⟩
  defaultOriginate := by
    unfold bgpProcess
    split <;> rfl
  log := ⟨[], by unfold bgpProcess; split <;> rfl, by simp⟩

theorem bgpNodeGet_evolves : Evolves scope s (bgpNodeGet s rn) where
  infos := fun other => by
    refine ⟨[], fun ri => ri, by simp, fun ri _ => Kin.refl ri, by simp, by simp⟩
  nextId := by simp
  nodes := fun other member => (mem_bgpNodeGet s rn other).mpr (Or.inr member)
  listed := fun other held => by
    rw [bgpNodeGet_infos] at held
    exact Or.inl held
  mainQueue := ⟨[], by simp, by simp⟩
  rsclientQueue := ⟨[], by unfold bgpNodeGet; split <;> simp, by simp⟩
  defaultOriginate := by
    unfold bgpNodeGet
    split <;> rfl
  log := ⟨[], by unfold bgpNodeGet; split <;> rfl, by simp⟩

/-- A new route is added to a node that is there. The address it has was taken
since an earlier state. -/
theorem bgpInfoAdd_evolves {start s : State} (rn : Node) (ri : BgpInfo)
    (before : Evolves scope start s) (present : rn ∈ s.nodes)
    (unselected : ri.flags.selected = false) (scanned : Scanned scope rn ri)
    (admitted : scope.admits ri.attr) (fresh : start.nextId ≤ ri.id) (issued : ri.id < s.nextId)
    (unused : Bounded start → ∀ other ∈ s.infos rn, other.id ≠ ri.id) :
    Evolves scope start (bgpInfoAdd s rn ri) where
  infos := fun other => by
    obtain ⟨added, change, same, kin, new, distinct⟩ := before.infos other
    by_cases here : other = rn
    · subst here
      refine ⟨ri :: added, change, ?_, kin, ?_, ?_⟩
      · simp [bgpInfoAdd, replace_same, same]
      · intro old member
        rcases List.mem_cons.mp member with rfl | earlier
        · exact ⟨unselected, scanned, admitted, fresh, issued⟩
        · exact { new old earlier with }
      · intro bounded
        rw [List.map_cons, List.nodup_cons]
        refine ⟨?_, distinct bounded⟩
        intro member
        obtain ⟨old, inAdded, sameId⟩ := List.mem_map.mp member
        exact unused bounded old (by rw [same]; exact List.mem_append_left _ inAdded) sameId
    · refine ⟨added, change, ?_, kin, fun old member => { new old member with }, distinct⟩
      simp only [bgpInfoAdd, replace_ne _ _ _ _ here, same]
  nextId := before.nextId
  nodes := before.nodes
  listed := fun other held => by
    by_cases here : other = rn
    · exact Or.inr (here ▸ present)
    · simp only [bgpInfoAdd, replace_ne _ _ _ _ here] at held
      exact before.listed other held
  mainQueue := before.mainQueue
  rsclientQueue := before.rsclientQueue
  defaultOriginate := before.defaultOriginate
  log := before.log

/-- A new address is taken. -/
theorem issue_evolves : Evolves scope s { s with nextId := s.nextId + 1 } where
  infos := fun other => ⟨[], fun ri => ri, by simp, fun ri _ => Kin.refl ri, by simp, by simp⟩
  nextId := Nat.le_succ _
  nodes := fun _ member => member
  listed := fun _ => Or.inl
  mainQueue := ⟨[], by simp, by simp⟩
  rsclientQueue := ⟨[], by simp, by simp⟩
  defaultOriginate := rfl
  log := ⟨[], rfl, by simp⟩

end Bgpd.Primitives
