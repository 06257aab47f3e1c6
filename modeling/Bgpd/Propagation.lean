import Bgpd.Actions
import Bgpd.Calls
import Bgpd.Outcome

/-!
# What the neighbours were told last

The adjacency state of a neighbour is written by the queued processing alone. A
change of the chosen route that the neighbours have not heard of shows as a mark
on the route and its node in the queue. Two calls break this: a route that comes
in again unchanged takes the mark of a change that was not processed, and a change
that damping sets aside leaves the node out of the queue. While no call does that
to a chosen route, an empty queue means that every neighbour was told.
-/

namespace Bgpd.Propagation

open Octets Prefixes Attributes Admission Rib Selection Processing Damping Aggregation Updates
  Evolution Primitives Steps Calls Outcome Actions Runs

variable (env : Env)
variable {scope : Scope} {s s' : State}

/-- The attributes an entry of the log sets for a node and a neighbour, if any. -/
def adjOut? (rn : Node) (peer : Nat) : Effect → Option (Option Attr)
  | .adjOutSet rn' peer' attr => if rn' = rn ∧ peer' = peer then some (some attr) else none
  | .adjOutUnset rn' peer' => if rn' = rn ∧ peer' = peer then some none else none
  | _ => none

/-- The last adjacency operation for a node and a neighbour. -/
def lastAdjOut (log : List Effect) (rn : Node) (peer : Nat) : Option (Option Attr) :=
  log.findSome? (adjOut? rn peer)

/-- The last operation set the attributes of the chosen route, where they are
announced, and it set none otherwise. -/
def Agrees (s : State) (rn : Node) (peer : Nat) : Prop :=
  (lastAdjOut s.log rn peer).join = (chosen s rn).bind (announceCheck env s peer rn)

/-- A neighbour is told of a node's routes. -/
def Hears (rn : Node) (peer : Nat) : Prop :=
  peer ∈ env.peers ∧ receives env peer rn.afi rn.safi = true

/-- Each neighbour was told of the chosen route of a main table, or the route is
marked in a queued node. -/
structure Faithful (s : State) : Prop where
  sound : Sound s
  single : ∀ rn, rn.owner = .main → Single s rn
  clients : ∀ rn ∈ s.rsclientQueue, rn.table.type = .rsclient
  told : ∀ rn, rn.owner = .main → ∀ peer, Hears env rn peer →
    Agrees env s rn peer ∨ ∃ c, chosen s rn = some c ∧ Loud s.mainQueue rn c

/-! ## Entries that do not matter -/

theorem lastAdjOut_append (extra log : List Effect) (rn : Node) (peer : Nat)
    (other : ∀ effect ∈ extra, adjOut? rn peer effect = none) :
    lastAdjOut (extra ++ log) rn peer = lastAdjOut log rn peer := by
  unfold lastAdjOut
  rw [List.findSome?_append, List.findSome?_eq_none_iff.mpr other, Option.none_or]

variable {rn : Node} {effect : Effect}
variable {rn' : Node}

theorem adjOut?_apart (peer : Nat) (about : node? effect = some rn') (apart : rn ≠ rn') :
    adjOut? rn peer effect = none := by
  cases effect with
  | adjOutSet here peer' attr =>
    obtain rfl : here = rn' := Option.some.inj about
    exact if_neg fun same => apart same.1.symm
  | adjOutUnset here peer' =>
    obtain rfl : here = rn' := Option.some.inj about
    exact if_neg fun same => apart same.1.symm
  | _ => rfl

theorem adjOut?_inward (rn : Node) (peer : Nat) (inward : Inward scope effect) :
    adjOut? rn peer effect = none := by
  cases effect <;> first | rfl | exact inward.elim

theorem adjOut?_toZebra (rn : Node) (peer : Nat) (message : ToZebra rn' effect) :
    adjOut? rn peer effect = none := by
  cases effect <;> first | rfl | exact message.elim

/-! ## Calls -/

/-- The scope of a call: nothing is asked of a route that is not chosen in a main
table. -/
def ofUnselected (s : State) : Scope where
  exempt := fun rn id => rn.owner ≠ .main ∨
    ∀ ri ∈ s.infos rn, ri.id = id → ri.flags.selected = false
  counted := True
  admits := fun _ => True
  nodes := fun _ => True
  scans := fun _ => True

theorem ofUnselected_covers (s : State) : (ofUnselected s).Covers env :=
  ⟨fun _ _ => trivial, fun _ _ _ _ => trivial⟩

/-- A call that evolves chooses no route and takes no choice away. -/
theorem evolves_single (evolves : Evolves scope s s') (single : Single s rn) : Single s' rn := by
  have origin : ∀ ri' ∈ s'.infos rn, ri'.flags.selected = true →
      ∃ ri ∈ s.infos rn, ri.flags.selected = true ∧ ri'.id = ri.id := by
    intro ri' member marked
    obtain ⟨added, change, same, kin, new, -⟩ := evolves.infos rn
    rw [same] at member
    rcases List.mem_append.mp member with late | early
    · rw [(new ri' late).unselected] at marked
      exact absurd marked Bool.false_ne_true
    · obtain ⟨ri, held, rfl⟩ := List.mem_map.mp early
      exact ⟨ri, held, (kin ri held).selected ▸ marked, (kin ri held).id⟩
  intro ri held ri' held' marked marked'
  obtain ⟨before, inBefore, marked₁, same⟩ := origin ri held marked
  obtain ⟨before', inBefore', marked₂, same'⟩ := origin ri' held' marked'
  rw [same, same']
  exact single before inBefore before' inBefore' marked₁ marked₂

theorem evolves_chosen (evolves : Evolves scope s s') (sound : Sound s) (single : Single s rn) :
    (chosen s rn = none → chosen s' rn = none) ∧
      ∀ c, chosen s rn = some c → ∃ c', chosen s' rn = some c' ∧
        Kin scope s'.mainQueue rn c c' := by
  constructor
  · intro absent
    refine chosen_none.mpr fun ri' member => ?_
    obtain ⟨added, change, same, kin, new, -⟩ := evolves.infos rn
    rw [same] at member
    rcases List.mem_append.mp member with late | early
    · exact (new ri' late).unselected
    · obtain ⟨ri, held, rfl⟩ := List.mem_map.mp early
      rw [(kin ri held).selected]
      exact chosen_none.mp absent ri held
  · intro c found
    obtain ⟨held, marked⟩ := chosen_mem found
    obtain ⟨c', member, kin⟩ := evolves.after held
    exact ⟨c', chosen_eq (evolves.sound sound) (evolves_single evolves single) member
      (kin.selected.trans marked), kin⟩

theorem announceCheck_congr {ri ri' : BgpInfo} (peer : Nat) (rn : Node)
    (originate : s'.defaultOriginate = s.defaultOriginate) (source : ri'.peer = ri.peer)
    (attr : ri'.attr = ri.attr) (suppressed : ri'.suppressed = ri.suppressed) :
    announceCheck env s' peer rn ri' = announceCheck env s peer rn ri := by
  unfold announceCheck view
  rw [originate, source, attr, suppressed]

/-- A call leaves each neighbour told or the change marked. -/
theorem Faithful.evolves (before : Faithful env s) (evolves : Evolves (ofUnselected s) s s') :
    Faithful env s' where
  sound := evolves.sound before.sound
  single := fun rn main => evolves_single evolves (before.single rn main)
  clients := by
    obtain ⟨extra, grown, clients⟩ := evolves.rsclientQueue
    intro rn member
    rw [grown] at member
    exact (List.mem_append.mp member).elim (before.clients rn) (clients rn)
  told := by
    intro rn main peer hears
    obtain ⟨stays, moves⟩ := evolves_chosen evolves before.sound (before.single rn main)
    have last : lastAdjOut s'.log rn peer = lastAdjOut s.log rn peer := by
      obtain ⟨extra, grown, inward⟩ := evolves.log
      rw [grown]
      exact lastAdjOut_append extra s.log rn peer fun effect member =>
        adjOut?_inward rn peer (inward effect member)
    unfold Agrees
    rw [last]
    cases found : chosen s rn with
    | none =>
      rcases before.told rn main peer hears with agrees | ⟨c, some, -⟩
      · unfold Agrees at agrees
        rw [found] at agrees
        rw [stays found]
        exact Or.inl agrees
      · exact absurd (found.symm.trans some) (by simp)
    | some c =>
      obtain ⟨held, marked⟩ := chosen_mem found
      obtain ⟨c', found', kin⟩ := moves c found
      rw [found']
      rcases kin.course with exempt | silent | loud
      · rcases exempt with client | unselected
        · exact absurd main client
        · rw [unselected c held rfl] at marked
          exact absurd marked Bool.false_ne_true
      · rcases before.told rn main peer hears with agrees | ⟨other, same, flagged, queued⟩
        · unfold Agrees at agrees
          rw [found] at agrees
          left
          rw [agrees, Option.bind_some, Option.bind_some]
          exact (announceCheck_congr env peer rn evolves.defaultOriginate kin.peer silent.attr
            (silent.suppressed trivial)).symm
        · obtain rfl : c = other := Option.some.inj (found.symm.trans same)
          exact Or.inr ⟨c', rfl, flagged.imp silent.marked silent.removed,
            evolves.queued rn queued⟩
      · exact Or.inr ⟨c', rfl, loud⟩

/-! ## Processing -/

variable {other : Node}

/-- Processing a node leaves every other one told. -/
theorem Processed.told (processed : Processed rn s s') (apart : other ≠ rn) (peer : Nat)
    (before : Agrees env s other peer ∨ ∃ c, chosen s other = some c ∧ Loud s.mainQueue other c) :
    Agrees env s' other peer ∨ ∃ c, chosen s' other = some c ∧ Loud s'.mainQueue other c := by
  have last : lastAdjOut s'.log other peer = lastAdjOut s.log other peer := by
    obtain ⟨extra, grown, about⟩ := processed.log
    rw [grown]
    exact lastAdjOut_append extra s.log other peer fun effect member =>
      adjOut?_apart peer (about effect member) apart
  have check : announceCheck env s' peer other = announceCheck env s peer other := by
    funext ri
    exact announceCheck_congr env peer other processed.defaultOriginate rfl rfl rfl
  unfold Agrees at *
  rw [last, check, processed.chosen apart, processed.mainQueue]
  exact before

theorem Processed.single (processed : Processed rn s s') (apart : other ≠ rn)
    (before : Single s other) : Single s' other := by
  unfold Single
  rw [processed.apart other apart]
  exact before

/-- What was written last for each neighbour of a node that was told. -/
theorem lastAdjOut_told (s : State) (rn : Node) (new : Option BgpInfo) (peer : Nat)
    (hears : Hears env rn peer) :
    lastAdjOut ((env.peers.filterMap (announcement env s rn new)).reverse ++ s.log) rn peer =
      some (new.bind (announceCheck env s peer rn)) := by
  have each : ∀ peer' effect, announcement env s rn new peer' = some effect →
      adjOut? rn peer effect =
        if peer' = peer then some (new.bind (announceCheck env s peer rn)) else none := by
    intro peer' effect told
    unfold announcement at told
    split at told
    · obtain rfl := Option.some.inj told
      by_cases same : peer' = peer
      · subst same
        cases checked : new.bind (announceCheck env s peer' rn) <;> simp [adjOut?]
      · cases new.bind (announceCheck env s peer' rn) <;> simp [adjOut?, same]
    · exact absurd told (by simp)
  have own : announcement env s rn new peer ≠ none := by
    unfold announcement
    rw [if_pos hears.2]
    simp
  obtain ⟨effect, told⟩ := Option.ne_none_iff_exists'.mp own
  have member : effect ∈ (env.peers.filterMap (announcement env s rn new)).reverse :=
    List.mem_reverse.mpr (List.mem_filterMap.mpr ⟨peer, hears.1, told⟩)
  unfold lastAdjOut
  rw [List.findSome?_append]
  cases found : (env.peers.filterMap (announcement env s rn new)).reverse.findSome?
      (adjOut? rn peer) with
  | none =>
    have silent := List.findSome?_eq_none_iff.mp found effect member
    rw [each peer effect told, if_pos rfl] at silent
    exact absurd silent (by simp)
  | some value =>
    obtain ⟨other, inLog, entry⟩ := List.exists_of_findSome?_eq_some found
    obtain ⟨peer', -, told'⟩ := List.mem_filterMap.mp (List.mem_reverse.mp inLog)
    rw [each peer' other told'] at entry
    split at entry
    · rw [Option.some_or, ← entry]
    · exact absurd entry (by simp)

/-- A node of a main table that is processed is told. -/
theorem settles_told (processed : Processed rn s s') (settles : Settles env s s' rn) (peer : Nat)
    (hears : Hears env rn peer)
    (before : Agrees env s rn peer ∨ ∃ c, chosen s rn = some c ∧
      (c.flags.attrChanged = true ∨ c.flags.removed = true)) :
    Agrees env s' rn peer := by
  have check : announceCheck env s' peer rn = announceCheck env s peer rn := by
    funext ri
    exact announceCheck_congr env peer rn processed.defaultOriginate rfl rfl rfl
  unfold Agrees at *
  rw [check]
  cases settles with
  | kept c c' found after remarked unmarked present log =>
    have quiet : ∀ effect ∈ (if c'.flags.igpChanged then announceMessages env rn c' else []),
        adjOut? rn peer effect = none := by
      intro effect member
      split at member
      · exact adjOut?_toZebra rn peer (announceMessages_toZebra env rn c' effect member)
      · exact absurd member List.not_mem_nil
    rw [log, lastAdjOut_append _ _ rn peer quiet, after]
    rcases before with agrees | ⟨other, same, flagged⟩
    · rw [agrees, found, Option.bind_some, Option.bind_some]
      obtain ⟨check, group, rfl⟩ := remarked
      rfl
    · obtain rfl : c = other := Option.some.inj (found.symm.trans same)
      rw [unmarked, present] at flagged
      exact absurd flagged (by simp)
  | told old same absent log =>
    have quiet : ∀ effect ∈ fibMessages env rn old (chosen s' rn), adjOut? rn peer effect = none :=
      fun effect member => adjOut?_toZebra rn peer (fibMessages_toZebra env rn _ _ effect member)
    rw [log, lastAdjOut_append _ _ rn peer quiet, lastAdjOut_told env s rn _ peer hears]
    rfl

theorem Faithful.runMain (before : Faithful env s) : Faithful env (runMainQueue env s) := by
  unfold runMainQueue
  split
  · exact before
  · rename_i rn later queue
    have processed := bgpProcessMain_processed env { s with mainQueue := later } rn
    have sound : Sound { s with mainQueue := later } := before.sound.queues later s.rsclientQueue
    refine ⟨processed.sound sound, ?_, ?_, ?_⟩
    · intro other main
      by_cases here : other = rn
      · subst here
        exact (bgpProcessMain_settles env _ other sound (before.single other main)).2.1
      · exact Processed.single processed here (before.single other main)
    · rw [processed.rsclientQueue]
      exact before.clients
    · intro other main peer hears
      have told := before.told other main peer hears
      by_cases here : other = rn
      · subst here
        have settles := (bgpProcessMain_settles env _ other sound (before.single other main)).1
        refine Or.inl (settles_told env processed settles peer hears (told.imp_right ?_))
        exact fun ⟨c, found, loud⟩ => ⟨c, found, loud.1⟩
      · refine Processed.told env processed here peer (told.imp_right ?_)
        rintro ⟨c, found, flagged, queued⟩
        rw [queue] at queued
        exact ⟨c, found, flagged, (List.mem_cons.mp queued).resolve_left here⟩

theorem Faithful.runRsclient (before : Faithful env s) : Faithful env (runRsclientQueue env s) := by
  unfold runRsclientQueue
  split
  · exact before
  · rename_i rn later queue
    have processed := bgpProcessRsclient_processed env { s with rsclientQueue := later } rn
    have client := before.clients rn (by rw [queue]; exact List.mem_cons_self)
    have apart : ∀ other : Node, other.owner = .main → other ≠ rn := by
      rintro other main rfl
      rw [table_main other main] at client
      exact absurd client (by decide)
    refine ⟨processed.sound (before.sound.queues s.mainQueue later), ?_, ?_, ?_⟩
    · intro other main
      exact Processed.single processed (apart other main) (before.single other main)
    · rw [processed.rsclientQueue]
      intro other member
      exact before.clients other (by rw [queue]; exact List.mem_cons_of_mem _ member)
    · intro other main peer hears
      exact Processed.told env processed (apart other main) peer (before.told other main peer hears)

/-! ## Runs -/

/-- Updates, withdrawals and runs of the queues. -/
def Routing : Action → Prop
  | .update _ _ | .withdraw _ _ | .runMain | .runRsclient => True
  | _ => False

/-- No update takes the mark of a chosen route that was not processed, or changes
one that damping sets aside while its node is not in the queue. -/
def Mindful (s : State) : Action → Prop
  | .update w call => ∀ ri changed,
    findInfo s (call.node .main) call.peer call.type call.subType = some ri →
    admitMain env.bgp (w.connected call.p.family) (env.config call.peer) call.p call.attr
      call.safi = some changed →
    ri.flags.selected = true → Heard env w s call.toUpdateCall ri (w.intern changed)
  | _ => True

/-- One call leaves each neighbour told or the change marked. -/
theorem Faithful.step (before : Faithful env s) (action : Action) (routing : Routing action)
    (mindful : Mindful env s action) : Faithful env (step env s action) := by
  have clients : ∀ call, Clients env (ofUnselected s) call := fun call rsclient _ _ =>
    ⟨fun _ => trivial, fun id => Or.inl (by simp [UpdateCall.node, nodeOf])⟩
  cases action with
  | update w call =>
    refine Faithful.evolves env before (bgpUpdate_evolves env w (ofUnselected_covers env s) s
      call.toUpdateCall before.sound (by rw [call.normal]; decide) (clients _)
      ⟨fun _ _ => trivial, fun _ _ _ => trivial⟩ ?_)
    intro ri changed found admits
    cases marked : ri.flags.selected with
    | true => exact Or.inr (mindful ri changed found admits marked)
    | false =>
      refine Or.inl (Or.inr fun other held same => ?_)
      rw [before.sound.unique (findInfo_some found).1 held same]
      exact marked
  | withdraw w call =>
    exact Faithful.evolves env before (bgpWithdraw_evolves env w (ofUnselected_covers env s) s
      call.toUpdateCall before.sound (clients _))
  | runMain => exact Faithful.runMain env before
  | runRsclient => exact Faithful.runRsclient env before
  | _ => exact routing.elim

theorem Initial.faithful (initial : Initial s) : Faithful env s where
  sound := by
    refine ⟨?_, ?_, ?_⟩
    · intro rn ri member
      rw [initial.infos rn] at member
      exact absurd member List.not_mem_nil
    · intro rn
      rw [initial.infos rn]
      exact List.nodup_nil
    · intro rn held
      exact absurd (initial.infos rn) held
  single := by
    intro rn _ ri member
    rw [initial.infos rn] at member
    exact absurd member List.not_mem_nil
  clients := by
    rw [initial.rsclientQueue]
    exact fun _ member => absurd member List.not_mem_nil
  told := by
    intro rn _ peer _
    left
    unfold Agrees chosen
    rw [initial.infos rn, initial.log]
    rfl

/-- In every run of updates, withdrawals and the queues whose updates take no mark
that is pending, every neighbour was told of the chosen route of every main table's
node whenever the queue is empty. -/
theorem told_when_mindful (start : State) (actions : List Action) (initial : Initial start)
    (mindful : Guarded (step env) (fun s action => Routing action ∧ Mindful env s action) start
      actions) (drained : (run (step env) start actions).mainQueue = []) (rn : Node)
    (main : rn.owner = .main) (peer : Nat) (hears : Hears env rn peer) :
    Agrees env (run (step env) start actions) rn peer := by
  have faithful := guarded_invariant (step env)
    (fun s action => Routing action ∧ Mindful env s action) (Faithful env)
    (fun s action before guard => Faithful.step env before action guard.1 guard.2) start actions
    (Initial.faithful env initial) mindful
  rcases faithful.told rn main peer hears with agrees | ⟨c, found, flagged, queued⟩
  · exact agrees
  · rw [drained] at queued
    exact absurd queued List.not_mem_nil

/-- A prefix, and its node in the main table. -/
def tenSlashEight : Prefix :=
  ⟨.ip, [false, false, false, false, true, false, true, false], ten_fits⟩

def tenNode : Node := nodeOf .main .unicast tenSlashEight none

/-- A route with the given MED from the first neighbour. -/
def offer (now : Nat) (med : U32) : Action :=
  .update (plainWorld now) (plainRoute 1 tenSlashEight (plainAttr 0x0A000001 med))

/-- The first neighbour changes its route and then withdraws it. -/
def changedAndGone : List Action :=
  [offer 0 10, .runMain, offer 1 20, .runMain,
    .withdraw (plainWorld 2) (plainRoute 1 tenSlashEight (plainAttr 0 0)), .runMain]

theorem told_when_mindful_once :
    Agrees (plainEnv [1, 2]) (run (step (plainEnv [1, 2])) .empty changedAndGone) tenNode 2 := by
  refine told_when_mindful (plainEnv [1, 2]) .empty changedAndGone initial_empty ?_
    (by decide) tenNode rfl 2 ⟨by decide, by decide⟩
  refine ⟨⟨trivial, fun ri changed found => ?_⟩, ⟨trivial, trivial⟩,
    ⟨trivial, fun ri changed found _ _ => ?_⟩, ⟨trivial, trivial⟩, ⟨trivial, trivial⟩,
    ⟨trivial, trivial⟩, trivial⟩
  · exact nomatch (found : (none : Option BgpInfo) = some ri)
  · have unmarked : ∀ ri ∈ findInfo (run (step (plainEnv [1, 2])) .empty [offer 0 10, .runMain])
        tenNode 1 .bgp .normal, ri.flags.attrChanged = false := by decide
    unfold Heard
    split
    · exact unmarked ri found
    · exact fun damps => absurd (damps : false = true) Bool.false_ne_true

/-- A change that comes in twice before it is processed: the second copy takes the
mark of the first, and the neighbours keep what they had. -/
theorem repeated_change_lost :
    let s := run (step (plainEnv [1, 2])) .empty
      [offer 0 10, .runMain, offer 1 20, offer 2 20, .runMain]
    s.mainQueue = [] ∧ Hears (plainEnv [1, 2]) tenNode 2 ∧
      ¬ Agrees (plainEnv [1, 2]) s tenNode 2 := by
  unfold Hears Agrees
  decide

end Bgpd.Propagation
