import Bgpd.Ledger
import Bgpd.Runs

/-!
# The queues of nodes to process

A node whose routes changed is put into one of two work queues, by the type of its
table. The item holds a reference to the instance, one to the node and one to its
table, which the callback of the queue releases once the item was run. A flag of the
node is to say that it waits; it is read and cleared, and set nowhere. The second
queue is made from the first by a copy of as many bytes as a pointer has, so that it
gets the first field of the structure and not the callback.
-/

namespace Bgpd.ProcessQueue

open References Runs

/-- The type of a table. -/
inductive TableType
  | main
  | rsclient
  deriving DecidableEq, Repr

variable {β ν τ : Type}

/-- `struct bgp_process_queue`. The address family of a node is its table's. -/
structure Item (β ν : Type) where
  bgp : β
  rn : ν
  deriving DecidableEq, Repr

/-- What is referred to: an instance, a node or a table. -/
inductive Ref (β ν τ : Type)
  | bgp (bgp : β)
  | node (rn : ν)
  | table (table : τ)
  deriving DecidableEq

/-! ## Work queues -/

/-- `workfunc`: the functions items are run by. -/
inductive WorkFunc
  | bgpProcessMain
  | bgpProcessRsclient
  deriving DecidableEq, Repr

/-- `del_item_data`: the callbacks for an item that is done. -/
inductive DelItemData
  | bgpProcessqDel
  deriving DecidableEq, Repr

/-- `spec` of a work queue. -/
structure Spec where
  workfunc : Option WorkFunc
  delItemData : Option DelItemData
  maxRetries : Nat
  hold : Nat
  deriving DecidableEq, Repr

/-- `struct work_queue`, whose first field is the thread master. An item comes with the
number of times it was run. -/
structure WorkQueue (β ν : Type) where
  master : Nat
  name : String
  spec : Spec
  items : List (Item β ν × Nat)

/-- `work_queue_new`. -/
def workQueueNew (master : Nat) (name : String) : WorkQueue β ν :=
  ⟨master, name, ⟨none, none, 0, 50⟩, []⟩

/-- `work_queue_add`. -/
def workQueueAdd (wq : WorkQueue β ν) (item : Item β ν) : WorkQueue β ν :=
  { wq with items := wq.items ++ [(item, 0)] }

/-- `memcpy` of as many bytes as a pointer has: the thread master alone. -/
def copyPointer (dest src : WorkQueue β ν) : WorkQueue β ν := { dest with master := src.master }

/-- The two queues. -/
structure Queues (β ν : Type) where
  processMainQueue : WorkQueue β ν
  processRsclientQueue : WorkQueue β ν

/-- `bgp_process_queue_init`. -/
def bgpProcessQueueInit (master : Nat) : Queues β ν :=
  let main : WorkQueue β ν := workQueueNew master "process_main_queue"
  let rsclient : WorkQueue β ν := workQueueNew master "process_rsclient_queue"
  let main := { main with spec := ⟨some .bgpProcessMain, some .bgpProcessqDel, 0, 50⟩ }
  let rsclient := copyPointer rsclient main
  ⟨main, { rsclient with spec := { rsclient.spec with workfunc := some .bgpProcessRsclient } }⟩

/-- The daemon, as far as its queues go. The queues are made when the first node is put
into one. -/
structure State (β ν τ : Type) where
  master : Nat
  queues : Option (Queues β ν)
  /-- `BGP_NODE_PROCESS_SCHEDULED`. -/
  scheduled : ν → Bool
  /-- The references taken and not released. -/
  refs : Ledger (Ref β ν τ)

/-- A daemon that starts. -/
def State.fresh (master : Nat) : State β ν τ := ⟨master, none, fun _ => false, 0⟩

variable [DecidableEq β] [DecidableEq ν] [DecidableEq τ]

/-! ## The steps -/

variable (table : ν → τ) (type : τ → TableType)

/-- `bgp_process`. -/
def bgpProcess (s : State β ν τ) (bgp : β) (rn : ν) : State β ν τ :=
  if s.scheduled rn then s
  else
    let queues := s.queues.getD (bgpProcessQueueInit s.master)
    let refs := take (take (take s.refs (.table (table rn))) (.node rn)) (.bgp bgp)
    let item : Item β ν := ⟨bgp, rn⟩
    match type (table rn) with
    | .main =>
      let queue := workQueueAdd queues.processMainQueue item
      { s with refs, queues := some { queues with processMainQueue := queue } }
    | .rsclient =>
      let queue := workQueueAdd queues.processRsclientQueue item
      { s with refs, queues := some { queues with processRsclientQueue := queue } }

/-- What `bgp_process_main` and `bgp_process_rsclient` do to the node on each of their
ways out. -/
def runItem (s : State β ν τ) (workfunc : Option WorkFunc) (item : Item β ν) : State β ν τ :=
  match workfunc with
  | some .bgpProcessMain => { s with scheduled := fun rn => rn ≠ item.rn && s.scheduled rn }
  | some .bgpProcessRsclient => { s with scheduled := fun rn => rn ≠ item.rn && s.scheduled rn }
  | none => s

/-- `bgp_processq_del`. -/
def bgpProcessqDel (s : State β ν τ) (item : Item β ν) : State β ν τ :=
  { s with
    refs := giveBack (giveBack (giveBack s.refs (.bgp item.bgp)) (.node item.rn))
      (.table (table item.rn)) }

/-- `work_queue_item_remove`, apart from the list. -/
def itemRemove (s : State β ν τ) (delItemData : Option DelItemData) (item : Item β ν) :
    State β ν τ :=
  match delItemData with
  | some .bgpProcessqDel => bgpProcessqDel table s item
  | none => s

/-- One cycle of `work_queue_run`. An item that was run too often is not run again; the
others are, and are removed, since both functions return that they succeeded. -/
def cycle (spec : Spec) (s : State β ν τ) (item : Item β ν × Nat) : State β ν τ :=
  if spec.maxRetries < item.2 then itemRemove table s spec.delItemData item.1
  else itemRemove table (runItem s spec.workfunc item.1) spec.delItemData item.1

/-- What a daemon does: put a node into its queue, or run a queue, which yields after a
number of cycles. -/
inductive Deed (β ν : Type)
  | process (bgp : β) (rn : ν)
  | runMain (cycles : Nat)
  | runRsclient (cycles : Nat)

/-- One step. -/
def step (s : State β ν τ) : Deed β ν → State β ν τ
  | .process bgp rn => bgpProcess table type s bgp rn
  | .runMain cycles =>
    match s.queues with
    | none => s
    | some queues =>
      let wq := queues.processMainQueue
      let s := (wq.items.take cycles).foldl (cycle table wq.spec) s
      { s with queues := some { queues with
          processMainQueue := { wq with items := wq.items.drop cycles } } }
  | .runRsclient cycles =>
    match s.queues with
    | none => s
    | some queues =>
      let wq := queues.processRsclientQueue
      let s := (wq.items.take cycles).foldl (cycle table wq.spec) s
      { s with queues := some { queues with
          processRsclientQueue := { wq with items := wq.items.drop cycles } } }

/-! ## What is asked for -/

/-- The items of a queue. -/
def WorkQueue.waiting (wq : WorkQueue β ν) : List (Item β ν) := wq.items.map Prod.fst

/-- The items in the queues. -/
def pending (s : State β ν τ) : List (Item β ν) :=
  match s.queues with
  | none => []
  | some queues => queues.processMainQueue.waiting ++ queues.processRsclientQueue.waiting

/-- The references of an item. -/
def itemRefs (item : Item β ν) : List (Ref β ν τ) :=
  [.table (table item.rn), .node item.rn, .bgp item.bgp]

/-- Each node is in the queues once at most, and the references left are those of the
items there. -/
structure Orderly (s : State β ν τ) : Prop where
  once : ((pending s).map Item.rn).Nodup
  released : s.refs = holding ((pending s).flatMap (itemRefs table))

/-- No node is put into a queue while it is in one, and no item of the clients' queue is
run. -/
def Sparing (s : State β ν τ) : Deed β ν → Prop
  | .process _ rn => rn ∉ (pending s).map Item.rn
  | .runMain _ => True
  | .runRsclient cycles =>
    cycles = 0 ∨ ∀ queues, s.queues = some queues → queues.processRsclientQueue.items = []

/-! ## The queues as they are made -/

/-- The queues have the functions and callbacks they were given when they were made, and no
node is marked as waiting. -/
structure AsMade (s : State β ν τ) : Prop where
  unscheduled : ∀ rn, s.scheduled rn = false
  main : ∀ queues, s.queues = some queues → queues.processMainQueue.spec.delItemData =
    some .bgpProcessqDel
  rsclient : ∀ queues, s.queues = some queues → queues.processRsclientQueue.spec.delItemData = none

omit [DecidableEq β] [DecidableEq ν] [DecidableEq τ] in
theorem fresh_asMade (master : Nat) : AsMade (State.fresh master : State β ν τ) :=
  ⟨fun _ => rfl, fun _ none => (nomatch none), fun _ none => (nomatch none)⟩

theorem fresh_orderly (master : Nat) : Orderly table (State.fresh master : State β ν τ) :=
  ⟨List.nodup_nil, rfl⟩

/-- A cycle marks no node and leaves the queues to the turn it is part of. -/
theorem cycle_keeps (spec : Spec) (s : State β ν τ) (item : Item β ν × Nat)
    (unscheduled : ∀ rn, s.scheduled rn = false) :
    (∀ rn, (cycle table spec s item).scheduled rn = false) ∧
      (cycle table spec s item).queues = s.queues := by
  have removed (s : State β ν τ) : (itemRemove table s spec.delItemData item.1).scheduled =
      s.scheduled ∧ (itemRemove table s spec.delItemData item.1).queues = s.queues := by
    unfold itemRemove
    split <;> exact ⟨rfl, rfl⟩
  have ran : (∀ rn, (runItem s spec.workfunc item.1).scheduled rn = false) ∧
      (runItem s spec.workfunc item.1).queues = s.queues := by
    unfold runItem
    split
    · exact ⟨fun rn => by simp [unscheduled rn], rfl⟩
    · exact ⟨fun rn => by simp [unscheduled rn], rfl⟩
    · exact ⟨unscheduled, rfl⟩
  unfold cycle
  split
  · rw [(removed s).1, (removed s).2]
    exact ⟨unscheduled, rfl⟩
  · rw [(removed _).1, (removed _).2]
    exact ran

theorem cycles_keep (spec : Spec) (items : List (Item β ν × Nat)) (s : State β ν τ)
    (unscheduled : ∀ rn, s.scheduled rn = false) :
    (∀ rn, (items.foldl (cycle table spec) s).scheduled rn = false) ∧
      (items.foldl (cycle table spec) s).queues = s.queues := by
  induction items generalizing s with
  | nil => exact ⟨unscheduled, rfl⟩
  | cons item later ih =>
    obtain ⟨marks, same⟩ := cycle_keeps table spec s item unscheduled
    obtain ⟨marks', same'⟩ := ih _ marks
    exact ⟨marks', same'.trans same⟩

theorem AsMade.step {s : State β ν τ} (before : AsMade s) (deed : Deed β ν) :
    AsMade (step table type s deed) := by
  cases deed with
  | process bgp rn =>
    have made : ∀ queues : Queues β ν, s.queues.getD (bgpProcessQueueInit s.master) = queues →
        queues.processMainQueue.spec.delItemData = some .bgpProcessqDel ∧
          queues.processRsclientQueue.spec.delItemData = none := by
      rintro queues rfl
      cases there : s.queues with
      | none => exact ⟨rfl, rfl⟩
      | some queues => exact ⟨before.main queues there, before.rsclient queues there⟩
    have specs := made _ rfl
    change AsMade (bgpProcess table type s bgp rn)
    unfold bgpProcess
    rw [if_neg (by simp [before.unscheduled rn])]
    cases type (table rn) with
    | main =>
      refine ⟨before.unscheduled, ?_, ?_⟩
      · rintro queues ⟨⟩
        exact specs.1
      · rintro queues ⟨⟩
        exact specs.2
    | rsclient =>
      refine ⟨before.unscheduled, ?_, ?_⟩
      · rintro queues ⟨⟩
        exact specs.1
      · rintro queues ⟨⟩
        exact specs.2
  | runMain cycles =>
    unfold ProcessQueue.step
    cases there : s.queues with
    | none => exact before
    | some queues =>
      have kept := cycles_keep table queues.processMainQueue.spec
        (queues.processMainQueue.items.take cycles) s before.unscheduled
      refine ⟨kept.1, ?_, ?_⟩
      · rintro queues' ⟨⟩
        exact before.main queues there
      · rintro queues' ⟨⟩
        exact before.rsclient queues there
  | runRsclient cycles =>
    unfold ProcessQueue.step
    cases there : s.queues with
    | none => exact before
    | some queues =>
      have kept := cycles_keep table queues.processRsclientQueue.spec
        (queues.processRsclientQueue.items.take cycles) s before.unscheduled
      refine ⟨kept.1, ?_, ?_⟩
      · rintro queues' ⟨⟩
        exact before.main queues there
      · rintro queues' ⟨⟩
        exact before.rsclient queues there

/-! ## References -/

/-- The references of some items. -/
def itemsRefs (items : List (Item β ν)) : Ledger (Ref β ν τ) :=
  holding (items.flatMap (itemRefs table))

@[simp] theorem itemsRefs_cons (item : Item β ν) (later : List (Item β ν)) :
    itemsRefs table (item :: later) = holding (itemRefs table item) + itemsRefs table later := by
  unfold itemsRefs
  rw [List.flatMap_cons, holding_append]

theorem itemsRefs_append (items items' : List (Item β ν)) :
    itemsRefs table (items ++ items') = itemsRefs table items + itemsRefs table items' := by
  unfold itemsRefs
  rw [List.flatMap_append, holding_append]

theorem itemsRefs_ne_zero {items : List (Item β ν)} (any : items ≠ []) :
    itemsRefs table items ≠ 0 := by
  refine holding_ne_zero fun none => any ?_
  cases items with
  | nil => rfl
  | cons item later => exact absurd none (by simp [itemRefs])

theorem take_item (refs : Ledger (Ref β ν τ)) (bgp : β) (rn : ν) :
    take (take (take refs (.table (table rn))) (.node rn)) (.bgp bgp) =
      refs + holding (itemRefs table ⟨bgp, rn⟩) := by
  simp only [take, itemRefs, holding_cons, holding_nil]
  abel

omit [DecidableEq β] [DecidableEq τ] in
theorem runItem_refs (s : State β ν τ) (workfunc : Option WorkFunc) (item : Item β ν) :
    (runItem s workfunc item).refs = s.refs := by
  unfold runItem
  split <;> rfl

/-- Where the callback is installed, the cycles release what their items hold. -/
theorem cycles_release (spec : Spec) (installed : spec.delItemData = some .bgpProcessqDel)
    (items : List (Item β ν × Nat)) (s : State β ν τ) :
    (items.foldl (cycle table spec) s).refs = s.refs - itemsRefs table (items.map Prod.fst) := by
  have one (s : State β ν τ) (item : Item β ν × Nat) :
      (cycle table spec s item).refs = s.refs - holding (itemRefs table item.1) := by
    have released (s : State β ν τ) :
        (itemRemove table s spec.delItemData item.1).refs = s.refs -
            holding (itemRefs table item.1) := by
      rw [installed]
      simp only [itemRemove, bgpProcessqDel, giveBack, itemRefs, holding_cons, holding_nil]
      abel
    unfold cycle
    split
    · exact released s
    · rw [released, runItem_refs]
  induction items generalizing s with
  | nil => simp [itemsRefs]
  | cons item later ih =>
    rw [List.foldl_cons, ih, one, List.map_cons, itemsRefs_cons]
    abel

/-- Where it is not, they release nothing. -/
theorem cycles_leak (spec : Spec) (missing : spec.delItemData = none)
    (items : List (Item β ν × Nat)) (s : State β ν τ) :
    (items.foldl (cycle table spec) s).refs = s.refs := by
  induction items generalizing s with
  | nil => rfl
  | cons item later ih =>
    rw [List.foldl_cons, ih]
    unfold cycle itemRemove
    rw [missing]
    split
    · rfl
    · exact runItem_refs s spec.workfunc item.1

/-! ## One step -/

section Step

variable {s : State β ν τ}

/-- Putting a node into a queue adds an item and takes its references. -/
theorem bgpProcess_adds (made : AsMade s) (bgp : β) (rn : ν) :
    (pending (bgpProcess table type s bgp rn)).Perm (⟨bgp, rn⟩ :: pending s) ∧
      (bgpProcess table type s bgp rn).refs = s.refs + holding (itemRefs table ⟨bgp, rn⟩) := by
  have before :
    pending s = (s.queues.getD (bgpProcessQueueInit s.master)).processMainQueue.waiting ++
      (s.queues.getD (bgpProcessQueueInit s.master)).processRsclientQueue.waiting := by
    unfold pending
    cases s.queues with
    | none => rfl
    | some queues => rfl
  unfold bgpProcess
  rw [if_neg (by simp [made.unscheduled rn]), before]
  generalize s.queues.getD (bgpProcessQueueInit s.master) = queues
  cases type (table rn) with
  | main =>
    refine ⟨?_, take_item table s.refs bgp rn⟩
    simp only [pending, workQueueAdd, WorkQueue.waiting, List.map_append, List.map_cons,
      List.map_nil, List.append_assoc]
    exact List.perm_middle
  | rsclient =>
    refine ⟨?_, take_item table s.refs bgp rn⟩
    simp only [pending, workQueueAdd, WorkQueue.waiting, List.map_append, List.map_cons,
      List.map_nil,
      ← List.append_assoc]
    exact List.perm_append_singleton _ _

theorem process_exact (made : AsMade s) (before : Orderly table s) (bgp : β) (rn : ν) :
    Orderly table (bgpProcess table type s bgp rn) ↔ rn ∉ (pending s).map Item.rn := by
  obtain ⟨perm, refs⟩ := bgpProcess_adds table type made bgp rn
  have nodes := perm.map Item.rn
  rw [List.map_cons] at nodes
  constructor
  · intro orderly
    exact (List.nodup_cons.mp (nodes.nodup_iff.mp orderly.once)).1
  · intro apart
    refine ⟨nodes.nodup_iff.mpr (List.nodup_cons.mpr ⟨apart, before.once⟩), ?_⟩
    rw [refs, before.released, holding_perm (perm.flatMap_right (itemRefs table)),
      List.flatMap_cons, holding_append]
    abel

theorem runMain_orderly (made : AsMade s) (before : Orderly table s) (cycles : Nat) :
    Orderly table (step table type s (.runMain cycles)) := by
  unfold step
  cases there : s.queues with
  | none => exact before
  | some queues =>
    have whole : pending s = (queues.processMainQueue.items.take cycles).map Prod.fst ++
        ((queues.processMainQueue.items.drop cycles).map Prod.fst ++
          queues.processRsclientQueue.waiting) := by
      unfold pending WorkQueue.waiting
      rw [there, ← List.append_assoc, ← List.map_append, List.take_append_drop]
    obtain ⟨once, released⟩ := before
    rw [whole] at once released
    constructor
    · rw [List.map_append] at once
      exact once.of_append_right
    · change ((queues.processMainQueue.items.take cycles).foldl
          (cycle table queues.processMainQueue.spec) s).refs =
        itemsRefs table ((queues.processMainQueue.items.drop cycles).map Prod.fst ++
          queues.processRsclientQueue.waiting)
      rw [cycles_release table _ (made.main queues there), released]
      change itemsRefs table _ - _ = _
      rw [itemsRefs_append]
      abel

theorem runRsclient_exact (made : AsMade s) (before : Orderly table s) (cycles : Nat) :
    Orderly table (step table type s (.runRsclient cycles)) ↔ Sparing s (.runRsclient cycles) := by
  unfold step Sparing
  cases there : s.queues with
  | none => exact iff_of_true before (Or.inr fun _ none => nomatch none)
  | some queues =>
    have whole : pending s = queues.processMainQueue.waiting ++
        ((queues.processRsclientQueue.items.take cycles).map Prod.fst ++
          (queues.processRsclientQueue.items.drop cycles).map Prod.fst) := by
      unfold pending WorkQueue.waiting
      rw [there, ← List.map_append, List.take_append_drop]
    obtain ⟨once, released⟩ := before
    rw [whole] at once released
    constructor
    · intro orderly
      -- What was taken off the queue was not released.
      have left : _ = itemsRefs table (queues.processMainQueue.waiting ++
          (queues.processRsclientQueue.items.drop cycles).map Prod.fst) := orderly.released
      rw [cycles_leak table _ (made.rsclient queues there), released] at left
      change itemsRefs table _ = _ at left
      rw [itemsRefs_append, itemsRefs_append, itemsRefs_append, add_right_inj,
        add_eq_right] at left
      have taken : queues.processRsclientQueue.items.take cycles = [] := by
        by_contra any
        exact itemsRefs_ne_zero table (fun empty => any (List.map_eq_nil_iff.mp empty)) left
      rcases List.take_eq_nil_iff.mp taken with zero | empty
      · exact Or.inl zero
      · refine Or.inr fun queues' same => ?_
        obtain rfl := Option.some.inj same
        exact empty
    · intro sparing
      have taken : queues.processRsclientQueue.items.take cycles = [] :=
        List.take_eq_nil_iff.mpr (sparing.imp_right fun empty => empty queues rfl)
      rw [taken] at once released
      constructor
      · exact once
      · dsimp only
        rw [taken]
        exact released

end Step

/-! ## Runs -/

/-- In a run from the start of the daemon, each node is in the queues once at most, and the
references left are those of the items there, in every state, exactly if no step puts a
node into a queue that is in one and none runs an item of the clients' queue. -/
theorem orderly_exactly (master : Nat) (deeds : List (Deed β ν)) :
    (∀ front later, deeds = front ++ later →
        Orderly table (run (step table type) (State.fresh master) front)) ↔
      Guarded (step table type) Sparing (State.fresh master) deeds := by
  refine everywhere_iff_guarded (step table type) Sparing AsMade (Orderly table)
    (fun s deed made => made.step table type deed) ?_ _ deeds (fresh_asMade master)
    (fresh_orderly table master)
  intro s deed made orderly
  cases deed with
  | process bgp rn => exact process_exact table type made orderly bgp rn
  | runMain cycles => exact iff_of_true (runMain_orderly table type made orderly cycles) trivial
  | runRsclient cycles => exact runRsclient_exact table type made orderly cycles

/-- A node of a main table that is queued twice, and one of a client's table that is
processed: two daemons whose queues are not in order. -/
theorem queued_twice_and_leaked :
    (¬ Orderly id (run (step id fun _ => .main) (State.fresh 0)
      [.process 0 1, .process 0 1] : State Nat Nat Nat)) ∧
    ¬ Orderly id (run (step id fun _ => .rsclient) (State.fresh 0)
      [.process 0 1, .runRsclient 1] : State Nat Nat Nat) := by
  refine ⟨fun orderly => absurd orderly.once (by decide), fun orderly => ?_⟩
  have left := congrFun orderly.released (.node 1)
  exact absurd left (by decide)

end Bgpd.ProcessQueue
