import Bgpd.Updates

/-!
# How the tables evolve between two runs of the queue

Everything but the queued processing leaves the routes of a node in their place:
routes are changed where they are and new ones come in front, none is taken out
and none is selected or deselected. What is announced of a route changes only
together with a mark on the route and its node in the queue; a route that is left
without them looks as it did.

This is one relation between two states, closed under composition. A scope says
which routes are not asked for it, which is how the steps inside a call are put
together, and what may come in.
-/

namespace Bgpd.Evolution

open Attributes Rib Damping Aggregation

/-- What a call is held to. -/
structure Scope where
  /-- Routes of which anything may change. -/
  exempt : Node → Nat → Prop
  /-- Suppress counts matter. -/
  counted : Prop
  /-- Attributes that may come in. -/
  admits : Attr → Prop
  /-- Nodes of the main type that may be queued or counted. -/
  nodes : Node → Prop
  /-- Nodes whose learned routes may be found to have another IGP metric. -/
  scans : Node → Prop

/-- A route whose suppress count need not be kept. -/
def Scope.Spares (scope : Scope) (rn : Node) (id : Nat) : Prop :=
  scope.exempt rn id ∨ ¬ scope.counted

/-- A scope covers the main tables and the aggregates made in them. -/
structure Scope.Covers (scope : Scope) (env : Env) : Prop where
  main : ∀ rn : Node, rn.owner = .main → scope.nodes rn
  aggregates : ∀ origin aspath community asSet, scope.admits
    (bgpAttrAggregateIntern (aggregatorAs env) env.bgp.routerId origin aspath community asSet)

/-- One scope is within another. -/
structure Scope.Within (inner outer : Scope) : Prop where
  exempt : ∀ rn id, inner.exempt rn id → outer.exempt rn id
  counted : outer.counted → inner.counted
  admits : ∀ attr, inner.admits attr → outer.admits attr
  nodes : ∀ rn, inner.nodes rn → outer.nodes rn
  scans : ∀ rn, inner.scans rn → outer.scans rn

theorem Scope.Within.refl (scope : Scope) : scope.Within scope :=
  ⟨fun _ _ => id, id, fun _ => id, fun _ => id, fun _ => id⟩

/-- The route looks as it did, and has the marks it had. -/
structure Silent (counted : Prop) (before after : BgpInfo) : Prop where
  attr : after.attr = before.attr
  suppressed : counted → after.suppressed = before.suppressed
  marked : before.flags.attrChanged = true → after.flags.attrChanged = true
  removed : before.flags.removed = true → after.flags.removed = true

/-- The route is marked in a queued node. -/
def Loud (queue : List Node) (rn : Node) (ri : BgpInfo) : Prop :=
  (ri.flags.attrChanged = true ∨ ri.flags.removed = true) ∧ rn ∈ queue

/-- A route that was found to have another IGP metric is a learned one of a node that
is scanned. -/
def Scanned (scope : Scope) (rn : Node) (ri : BgpInfo) : Prop :=
  ri.flags.igpChanged = true → scope.scans rn ∧ ri.type = .bgp ∧ ri.subType = .normal

/-- What a call leaves of a route, given the main queue it leaves. -/
structure Kin (scope : Scope) (queue : List Node) (rn : Node) (before after : BgpInfo) : Prop where
  id : after.id = before.id
  peer : after.peer = before.peer
  type : after.type = before.type
  subType : after.subType = before.subType
  selected : after.flags.selected = before.flags.selected
  admitted : after.attr = before.attr ∨ scope.admits after.attr
  igpChanged : after.flags.igpChanged = true →
    before.flags.igpChanged = true ∨ scope.scans rn ∧ before.type = .bgp ∧ before.subType = .normal
  course : scope.exempt rn before.id ∨ Silent scope.counted before after ∨ Loud queue rn after

theorem Silent.refl (counted : Prop) (ri : BgpInfo) : Silent counted ri ri :=
  ⟨rfl, fun _ => rfl, id, id⟩

theorem Silent.trans {counted : Prop} {first second third : BgpInfo}
    (left : Silent counted first second) (right : Silent counted second third) :
    Silent counted first third where
  attr := right.attr.trans left.attr
  suppressed := fun matters => (right.suppressed matters).trans (left.suppressed matters)
  marked := fun marked => right.marked (left.marked marked)
  removed := fun removed => right.removed (left.removed removed)

namespace Kin

variable {scope outer : Scope} {queue larger : List Node} {rn : Node} {first second third : BgpInfo}

theorem refl (ri : BgpInfo) : Kin scope queue rn ri ri :=
  ⟨rfl, rfl, rfl, rfl, rfl, Or.inl rfl, Or.inl, Or.inr (Or.inl (.refl _ ri))⟩

theorem widen (within : scope.Within outer) (grown : ∀ rn ∈ queue, rn ∈ larger)
    (kin : Kin scope queue rn first second) : Kin outer larger rn first second where
  id := kin.id
  peer := kin.peer
  type := kin.type
  subType := kin.subType
  selected := kin.selected
  admitted := kin.admitted.imp_right (within.admits _)
  igpChanged := fun changed => (kin.igpChanged changed).imp_right (And.imp_left (within.scans rn))
  course := by
    rcases kin.course with exempt | silent | ⟨marked, queued⟩
    · exact Or.inl (within.exempt _ _ exempt)
    · exact Or.inr (Or.inl { silent with suppressed := silent.suppressed ∘ within.counted })
    · exact Or.inr (Or.inr ⟨marked, grown _ queued⟩)

theorem trans (left : Kin scope queue rn first second) (right : Kin scope queue rn second third) :
    Kin scope queue rn first third where
  id := right.id.trans left.id
  peer := right.peer.trans left.peer
  type := right.type.trans left.type
  subType := right.subType.trans left.subType
  selected := right.selected.trans left.selected
  admitted := by
    rcases right.admitted with same | admitted
    · rw [same]
      exact left.admitted
    · exact Or.inr admitted
  igpChanged := by
    intro changed
    rcases right.igpChanged changed with before | ⟨scanned, learned⟩
    · exact left.igpChanged before
    · rw [left.type, left.subType] at learned
      exact Or.inr ⟨scanned, learned⟩
  course := by
    have sameId := left.id
    rcases right.course with exempt | silent | loud
    · rw [sameId] at exempt
      exact Or.inl exempt
    · rcases left.course with exempt | silent' | ⟨marked, queued⟩
      · exact Or.inl exempt
      · exact Or.inr (Or.inl (silent'.trans silent))
      · exact Or.inr (Or.inr ⟨marked.imp silent.marked silent.removed, queued⟩)
    · exact Or.inr (Or.inr loud)

theorem scanned (kin : Kin scope queue rn first second) (before : Scanned scope rn first) :
    Scanned scope rn second := by
  intro changed
  rw [kin.type, kin.subType]
  exact (kin.igpChanged changed).elim before fun learned => learned

/-- A route that was marked or removed stays so, where it is not exempt. -/
theorem flagged (kin : Kin scope queue rn first second) (held : ¬ scope.exempt rn first.id)
    (before : first.flags.attrChanged = true ∨ first.flags.removed = true) :
    second.flags.attrChanged = true ∨ second.flags.removed = true := by
  rcases kin.course with exempt | silent | loud
  · exact absurd exempt held
  · exact before.imp silent.marked silent.removed
  · exact loud.1

end Kin

/-- Every address in use was given out. -/
def Bounded (s : State) : Prop := ∀ rn, ∀ ri ∈ s.infos rn, ri.id < s.nextId

/-- A route that came in. -/
structure New (scope : Scope) (rn : Node) (s s' : State) (ri : BgpInfo) : Prop where
  unselected : ri.flags.selected = false
  scanned : Scanned scope rn ri
  admitted : scope.admits ri.attr
  fresh : s.nextId ≤ ri.id
  issued : ri.id < s'.nextId

/-- An entry of the log about a prefix count or a session. -/
def Inward (scope : Scope) : Effect → Prop
  | .prefixCount rn _ | .zeroCount rn _ => scope.nodes rn
  | .cease _ => True
  | _ => False

/-- One state evolves into another. -/
structure Evolves (scope : Scope) (s s' : State) : Prop where
  infos : ∀ rn, ∃ added change, s'.infos rn = added ++ (s.infos rn).map change ∧
    (∀ ri ∈ s.infos rn, Kin scope s'.mainQueue rn ri (change ri)) ∧
    (∀ ri ∈ added, New scope rn s s' ri) ∧ (Bounded s → (added.map BgpInfo.id).Nodup)
  nextId : s.nextId ≤ s'.nextId
  nodes : ∀ rn ∈ s.nodes, rn ∈ s'.nodes
  listed : ∀ rn, s'.infos rn ≠ [] → s.infos rn ≠ [] ∨ rn ∈ s'.nodes
  mainQueue : ∃ extra, s'.mainQueue = s.mainQueue ++ extra ∧ ∀ rn ∈ extra, scope.nodes rn
  rsclientQueue : ∃ extra, s'.rsclientQueue = s.rsclientQueue ++ extra ∧
    ∀ rn ∈ extra, rn.table.type = .rsclient
  defaultOriginate : s'.defaultOriginate = s.defaultOriginate
  log : ∃ extra, s'.log = extra ++ s.log ∧ ∀ effect ∈ extra, Inward scope effect

namespace Evolves

variable {scope outer : Scope} {first second third : State}

theorem queued (evolves : Evolves scope first second) : ∀ rn ∈ first.mainQueue,
    rn ∈ second.mainQueue := by
  obtain ⟨extra, grown, -⟩ := evolves.mainQueue
  intro rn member
  rw [grown]
  exact List.mem_append_left extra member

theorem refl (s : State) : Evolves scope s s where
  infos := fun rn =>
    ⟨[], id, by simp, fun ri _ => Kin.refl ri, fun _ member => absurd member List.not_mem_nil,
      fun _ => List.nodup_nil⟩
  nextId := le_refl _
  nodes := fun _ => id
  listed := fun _ => Or.inl
  mainQueue := ⟨[], by simp, fun _ member => absurd member List.not_mem_nil⟩
  rsclientQueue := ⟨[], by simp, fun _ member => absurd member List.not_mem_nil⟩
  defaultOriginate := rfl
  log := ⟨[], by simp, fun _ member => absurd member List.not_mem_nil⟩

theorem widen (within : scope.Within outer) (evolves : Evolves scope first second) :
    Evolves outer first second where
  infos := fun rn => by
    obtain ⟨added, change, same, kin, new, distinct⟩ := evolves.infos rn
    refine ⟨added, change, same, fun ri member => (kin ri member).widen within fun _ => id,
      fun ri member => ?_, distinct⟩
    exact { new ri member with
      admitted := within.admits _ (new ri member).admitted
      scanned := fun changed => ((new ri member).scanned changed).imp_left (within.scans rn) }
  nextId := evolves.nextId
  nodes := evolves.nodes
  listed := evolves.listed
  mainQueue := by
    obtain ⟨extra, grown, inScope⟩ := evolves.mainQueue
    exact ⟨extra, grown, fun rn member => within.nodes rn (inScope rn member)⟩
  rsclientQueue := evolves.rsclientQueue
  defaultOriginate := evolves.defaultOriginate
  log := by
    obtain ⟨extra, grown, inward⟩ := evolves.log
    refine ⟨extra, grown, fun effect member => ?_⟩
    have entry := inward effect member
    cases effect with
    | prefixCount rn peer => exact within.nodes rn entry
    | zeroCount rn peer => exact within.nodes rn entry
    | cease peer => trivial
    | _ => exact entry.elim

/-- Addresses stay in bounds. -/
theorem bounded (evolves : Evolves scope first second) (before : Bounded first) :
    Bounded second := by
  intro rn ri member
  obtain ⟨added, change, same, kin, new, -⟩ := evolves.infos rn
  rw [same] at member
  rcases List.mem_append.mp member with late | early
  · exact (new ri late).issued
  · obtain ⟨old, inFirst, rfl⟩ := List.mem_map.mp early
    rw [(kin old inFirst).id]
    exact lt_of_lt_of_le (before rn old inFirst) evolves.nextId

theorem trans (left : Evolves scope first second) (right : Evolves scope second third) :
    Evolves scope first third where
  infos := fun rn => by
    obtain ⟨added, change, same, kin, new, distinct⟩ := left.infos rn
    obtain ⟨added', change', same', kin', new', distinct'⟩ := right.infos rn
    rw [same] at same' kin'
    have kept : ∀ ri ∈ added, Kin scope third.mainQueue rn ri (change' ri) := fun ri member =>
      kin' ri (List.mem_append_left _ member)
    have ids : (added.map change').map BgpInfo.id = added.map BgpInfo.id := by
      rw [List.map_map]
      exact List.map_congr_left fun ri member => (kept ri member).id
    refine ⟨added' ++ added.map change', change' ∘ change, ?_, ?_, ?_, ?_⟩
    · rw [same', List.map_append, List.map_map, List.append_assoc]
    · intro ri member
      have step : change ri ∈ added ++ (first.infos rn).map change :=
        List.mem_append_right _ (List.mem_map_of_mem member)
      exact ((kin ri member).widen (.refl scope) right.queued).trans (kin' _ step)
    · intro ri member
      rcases List.mem_append.mp member with late | early
      · exact { new' ri late with fresh := left.nextId.trans (new' ri late).fresh }
      · obtain ⟨old, inAdded, rfl⟩ := List.mem_map.mp early
        have birth := new old inAdded
        have later := kept old inAdded
        refine ⟨later.selected.trans birth.unselected, later.scanned birth.scanned, ?_, ?_, ?_⟩
        · rcases later.admitted with same | admitted
          · rw [same]
            exact birth.admitted
          · exact admitted
        · rw [later.id]
          exact birth.fresh
        · rw [later.id]
          exact lt_of_lt_of_le birth.issued right.nextId
    · intro before
      rw [List.map_append, ids, List.nodup_append]
      refine ⟨distinct' (left.bounded before), distinct before, ?_⟩
      intro id late id' early same
      obtain ⟨ri, inLate, rfl⟩ := List.mem_map.mp late
      obtain ⟨ri', inEarly, rfl⟩ := List.mem_map.mp early
      have lower := (new' ri inLate).fresh
      have upper := (new ri' inEarly).issued
      omega
  nextId := left.nextId.trans right.nextId
  nodes := fun rn member => right.nodes rn (left.nodes rn member)
  listed := fun rn held => by
    rcases right.listed rn held with before | now
    · exact (left.listed rn before).imp_right (right.nodes rn)
    · exact Or.inr now
  mainQueue := by
    obtain ⟨extra, grown, inScope⟩ := left.mainQueue
    obtain ⟨extra', grown', inScope'⟩ := right.mainQueue
    refine ⟨extra ++ extra', by rw [grown', grown, List.append_assoc], fun rn member => ?_⟩
    exact (List.mem_append.mp member).elim (inScope rn) (inScope' rn)
  rsclientQueue := by
    obtain ⟨extra, grown, inScope⟩ := left.rsclientQueue
    obtain ⟨extra', grown', inScope'⟩ := right.rsclientQueue
    refine ⟨extra ++ extra', by rw [grown', grown, List.append_assoc], fun rn member => ?_⟩
    exact (List.mem_append.mp member).elim (inScope rn) (inScope' rn)
  defaultOriginate := right.defaultOriginate.trans left.defaultOriginate
  log := by
    obtain ⟨extra, grown, inward⟩ := left.log
    obtain ⟨extra', grown', inward'⟩ := right.log
    refine ⟨extra' ++ extra, by rw [grown', grown, List.append_assoc], fun effect member => ?_⟩
    exact (List.mem_append.mp member).elim (inward' effect) (inward effect)

/-- A fold of evolving steps evolves. -/
theorem foldl {α : Type} (step : State → α → State) (items : List α)
    (each : ∀ s item, item ∈ items → Evolves scope s (step s item)) (s : State) :
    Evolves scope s (items.foldl step s) :=
  items.foldlRecOn step (refl s) fun _ before item member => before.trans (each _ item member)

end Evolves

variable {scope : Scope} {s s' : State}

/-! ## Sound tables -/

/-- Routes have names of their own, and nodes with routes are there. -/
structure Sound (s : State) : Prop where
  bounded : Bounded s
  distinct : ∀ rn, ((s.infos rn).map BgpInfo.id).Nodup
  listed : ∀ rn, s.infos rn ≠ [] → rn ∈ s.nodes

variable {rn : Node} {ri : BgpInfo}

/-- A route that is found is one of the node, under its name. -/
theorem info?_mem {id : Nat} (found : s.info? rn id = some ri) : ri ∈ s.infos rn ∧ ri.id = id :=
  ⟨List.mem_of_find?_eq_some found, by simpa using List.find?_some found⟩

/-- The queues may hold what they will. -/
theorem Sound.queues (sound : Sound s) (mainQueue rsclientQueue : List Node) :
    Sound { s with mainQueue, rsclientQueue } := ⟨sound.bounded, sound.distinct, sound.listed⟩

/-- In sound tables each route is found under its name. -/
theorem Sound.named (sound : Sound s) (member : ri ∈ s.infos rn) : s.info? rn ri.id = some ri := by
  have distinct := sound.distinct rn
  unfold State.info?
  generalize s.infos rn = infos at member distinct ⊢
  induction infos with
  | nil => exact absurd member List.not_mem_nil
  | cons first later ih =>
    rw [List.map_cons, List.nodup_cons] at distinct
    rw [List.find?_cons]
    rcases List.mem_cons.mp member with rfl | inLater
    · simp
    · have other : first.id ≠ ri.id := fun same =>
        distinct.1 (same ▸ List.mem_map_of_mem inLater)
      simp only [other, decide_false]
      exact ih inLater distinct.2

variable {ri' : BgpInfo}

theorem Sound.unique (sound : Sound s) (member : ri ∈ s.infos rn) (member' : ri' ∈ s.infos rn)
    (same : ri'.id = ri.id) : ri' = ri := by
  have found := sound.named member'
  rw [same, sound.named member] at found
  exact (Option.some.inj found).symm

/-- A route whose name was given out before was there before. -/
theorem Evolves.before (evolves : Evolves scope s s') (member : ri' ∈ s'.infos rn)
    (old : ri'.id < s.nextId) : ∃ ri ∈ s.infos rn, Kin scope s'.mainQueue rn ri ri' := by
  obtain ⟨added, change, same, kin, new, -⟩ := evolves.infos rn
  rw [same] at member
  rcases List.mem_append.mp member with late | early
  · exact absurd old (by simpa using (new ri' late).fresh)
  · obtain ⟨ri, held, rfl⟩ := List.mem_map.mp early
    exact ⟨ri, held, kin ri held⟩

/-- A route that was there is still there. -/
theorem Evolves.after (evolves : Evolves scope s s') (member : ri ∈ s.infos rn) :
    ∃ ri' ∈ s'.infos rn, Kin scope s'.mainQueue rn ri ri' := by
  obtain ⟨added, change, same, kin, -, -⟩ := evolves.infos rn
  refine ⟨change ri, ?_, kin ri member⟩
  rw [same]
  exact List.mem_append_right _ (List.mem_map_of_mem member)

theorem Evolves.sound (evolves : Evolves scope s s') (before : Sound s) : Sound s' where
  bounded := evolves.bounded before.bounded
  distinct := by
    intro rn
    obtain ⟨added, change, same, kin, new, distinct⟩ := evolves.infos rn
    have ids : ((s.infos rn).map change).map BgpInfo.id = (s.infos rn).map BgpInfo.id := by
      rw [List.map_map]
      exact List.map_congr_left fun ri member => (kin ri member).id
    rw [same, List.map_append, ids, List.nodup_append]
    refine ⟨distinct before.bounded, before.distinct rn, ?_⟩
    intro id late id' early same
    obtain ⟨ri, inLate, rfl⟩ := List.mem_map.mp late
    obtain ⟨ri', inEarly, rfl⟩ := List.mem_map.mp early
    have lower := (new ri inLate).fresh
    have upper := before.bounded rn ri' inEarly
    omega
  listed := fun rn held => by
    rcases evolves.listed rn held with before' | now
    · exact evolves.nodes rn (before.listed rn before')
    · exact now

/-- A fold of steps that evolve from sound tables. -/
theorem Evolves.foldl_sound {α : Type} (step : State → α → State) (items : List α)
    (each : ∀ s item, item ∈ items → Sound s → Evolves scope s (step s item)) (s : State)
    (sound : Sound s) : Evolves scope s (items.foldl step s) :=
  items.foldlRecOn step (Evolves.refl s) fun _ before item member =>
    before.trans (each _ item member (before.sound sound))

/-! ## Exemptions -/

/-- A scope with more exemptions. -/
def Scope.exempting (scope : Scope) (more : Node → Nat → Prop) : Scope :=
  { scope with exempt := fun rn id => scope.exempt rn id ∨ more rn id }

theorem Scope.exempting_covers {env : Env} (covers : scope.Covers env) (more : Node → Nat → Prop) :
    (scope.exempting more).Covers env :=
  ⟨covers.main, covers.aggregates⟩

/-- An exemption can go where each route it is for is kin after all, or marked in a
queued node. -/
theorem Evolves.settle {more : Node → Nat → Prop} (evolves : Evolves (scope.exempting more) s s')
    (each : ∀ rn, (∀ ri ∈ s'.infos rn, more rn ri.id → Loud s'.mainQueue rn ri) ∨ ∃ change, s'.infos
      rn = (s.infos rn).map change ∧ ∀ ri ∈ s.infos rn, Kin scope s'.mainQueue rn ri (change ri)) :
    Evolves scope s s' where
  infos := fun rn => by
    rcases each rn with loud | ⟨change, same, kin⟩
    · obtain ⟨added, change, same, kin, new, distinct⟩ := evolves.infos rn
      refine ⟨added, change, same, fun ri member => ?_, fun ri member => { new ri member with },
        distinct⟩
      refine { kin ri member with course := ?_ }
      rcases (kin ri member).course with (exempt | open') | silent | marked
      · exact Or.inl exempt
      · have held : change ri ∈ s'.infos rn := by
          rw [same]
          exact List.mem_append_right _ (List.mem_map_of_mem member)
        exact Or.inr (Or.inr (loud _ held (by rwa [(kin ri member).id])))
      · exact Or.inr (Or.inl silent)
      · exact Or.inr (Or.inr marked)
    · exact ⟨[], change, same, kin, by simp, by simp⟩
  nextId := evolves.nextId
  nodes := evolves.nodes
  listed := evolves.listed
  mainQueue := evolves.mainQueue
  rsclientQueue := evolves.rsclientQueue
  defaultOriginate := evolves.defaultOriginate
  log := by
    obtain ⟨extra, grown, inward⟩ := evolves.log
    refine ⟨extra, grown, fun effect member => ?_⟩
    have entry := inward effect member
    cases effect <;> exact entry

end Bgpd.Evolution
