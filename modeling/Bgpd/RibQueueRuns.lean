import Bgpd.RibQueue

/-!
# The meta-queue over a run

A run links routes, marks them for removal, requeues whole tables and processes
the queue, in any order. Beside the manager's state it keeps which prefixes had
their routes changed since they were last processed, and how many locks the
callers hold.

The books are kept as long as no route enters an empty chain whose prefix still
waits in a sub-queue. Such a prefix comes from routes of two kinds that are
removed: when the first sub-queue is processed both are freed, and with them the
record of the second sub-queue.
-/

namespace Bgpd.RibQueue

open Octets FlagWord Prefixes ZebraRib
open Function (update_of_ne update_self)

variable {z : Zebra} {held : Prefix → Nat}

/-! ## Runs -/

/-- What happens to the tables and the queue. -/
inductive Event
  | link (rn : Prefix) (rib : Rib)
  | delnode (rn : Prefix) (place : Nat)
  | update (walk : List Prefix)
  | process (s : Surroundings)
  | hold (rn : Prefix)
  | release (rn : Prefix)

/-- The state beside what is to be known about it. -/
structure World where
  z : Zebra := {}
  changed : Prefix → Bool := fun _ => false
  held : Prefix → Nat := fun _ => 0

/-- One event. Only processing can fail, by the assertion of `rib_process`. -/
def World.step (w : World) : Event → Option World
  | .link rn rib =>
    some { w with
      z := ribLink rn rib w.z
      changed := Function.update w.changed rn true }
  | .delnode rn place =>
    some { w with
      z := ribDelnode rn place w.z
      changed := Function.update w.changed rn true }
  | .update walk => some { w with z := ribUpdate walk w.z }
  | .process s =>
    (metaQueueProcess s w.z).map fun z =>
      { w with
        z
        changed :=
          match nextNode w.z.mq with
          | none => w.changed
          | some (_, rn, _) => Function.update w.changed rn false }
  | .hold rn =>
    some { w with
      z := relock (· + 1) rn w.z
      held := Function.update w.held rn (w.held rn + 1) }
  | .release rn =>
    some { w with
      z := relock (· - 1) rn w.z
      held := Function.update w.held rn (w.held rn - 1) }

/-- What the callers see to: a new route starts with its state clear, a route that is
marked is there, and a lock that is released is held. -/
def Allowed (w : World) : Event → Prop
  | .link _ rib => rib.rnStatus = 0 ∧ rib.status = 0
  | .delnode rn place => place < (w.z.nodes rn).ribs.length
  | .release rn => 0 < w.held rn
  | _ => True

/-- A route enters a chain that is not empty, or whose prefix does not wait. -/
def Linkable (w : World) : Event → Prop
  | .link rn _ => (w.z.nodes rn).ribs ≠ [] ∨ ∀ q, rn ∉ w.z.mq.subq q
  | _ => True

/-- The states of all runs. -/
inductive Occurs : World → Prop
  | start : Occurs {}
  | step {w w' : World} (event : Event) : Occurs w → Allowed w event → w.step event = some w' →
      Occurs w'

/-- The states of the runs in which every route is linkable. -/
inductive Reached : World → Prop
  | start : Reached {}
  | step {w w' : World} (event : Event) : Reached w → Allowed w event → Linkable w event →
      w.step event = some w' → Reached w'

/-! ## The books -/

/-- The places of a prefix in the queue. -/
def entries (mq : MetaQueue) (rn : Prefix) : Nat := ∑ q, (mq.subq q).count rn

/-- What is kept about the queue and the nodes, whatever changed. -/
structure Booked (z : Zebra) (held : Prefix → Nat) : Prop where
  size : z.mq.size = ∑ q, (z.mq.subq q).length
  once : ∀ q, (z.mq.subq q).Nodup
  bits : ∀ rn, (z.nodes rn).ribs ≠ [] → ∀ q,
    check (headStatus (z.nodes rn).ribs) (ribRouteQueued q) = true ↔ rn ∈ z.mq.subq q
  locks : ∀ rn, (z.nodes rn).lock = (z.nodes rn).ribs.length + entries z.mq rn + held rn

/-- The books are right and whatever changed waits. -/
structure Disciplined (w : World) : Prop where
  booked : Booked w.z w.held
  waiting : ∀ rn, w.changed rn = true → ∃ q, rn ∈ w.z.mq.subq q

/-! ## Bits and sums -/

theorem check_queued (q q' : Fin 5) :
    check (ribRouteQueued q) (ribRouteQueued q') = decide (q = q') := by
  revert q q'
  decide

theorem check_unset {w : Nat} (word mask probe : BitVec w) :
    check (unset word mask) probe = check word (probe &&& ~~~mask) := by
  unfold check unset
  rw [BitVec.and_assoc, BitVec.and_comm probe]

/-- Taking the bit of one sub-queue leaves those of the others. -/
theorem check_unset_queued (word : U8) (q q' : Fin 5) :
    check (unset word (ribRouteQueued q)) (ribRouteQueued q') =
      (check word (ribRouteQueued q') && decide (q ≠ q')) := by
  rw [check_unset]
  by_cases same : q = q'
  · have gone : ribRouteQueued q' &&& ~~~ribRouteQueued q = 0 := by
      rw [same, BitVec.and_not_self]
    rw [gone, decide_eq_false (not_not.mpr same), Bool.and_false]
    simp [check]
  · have kept : ribRouteQueued q' &&& ~~~ribRouteQueued q = ribRouteQueued q' := by
      revert q q'
      decide
    rw [kept, decide_eq_true same, Bool.and_true]

/-- A sum after one of the summed values is exchanged. -/
theorem sum_update_add {κ β : Type} [Fintype κ] [DecidableEq κ] (f : β → Nat) (g : κ → β) (k : κ)
    (v : β) : (∑ i, f (Function.update g k v i)) + f (g k) = (∑ i, f (g i)) + f v := by
  have moved :
      (fun i => f (Function.update g k v i)) = Function.update (fun i => f (g i)) k (f v) := by
    funext i
    by_cases same : i = k
    · subst same
      simp
    · simp [same]
  rw [moved, Finset.sum_update_of_mem (Finset.mem_univ k),
    ← Finset.add_sum_erase Finset.univ (fun i => f (g i)) (Finset.mem_univ k),
    Finset.sdiff_singleton_eq_erase]
  omega

variable {ribs : List Rib}

theorem headStatus_markHead (filled : ribs ≠ []) (f : U8 → U8) :
    headStatus (markHead f ribs) = f (headStatus ribs) := by
  rcases ribs with _ | ⟨head, rest⟩
  · exact absurd rfl filled
  · rfl

@[simp] theorem markHead_length (f : U8 → U8) (ribs : List Rib) :
    (markHead f ribs).length = ribs.length := by
  cases ribs <;> rfl

theorem markHead_filled {f : U8 → U8} : markHead f ribs ≠ [] ↔ ribs ≠ [] := by
  cases ribs <;> simp [markHead]

/-! ## Queueing -/

variable {rn : Prefix}

/-- One turn of queueing keeps the books, and the prefix then waits in the
sub-queue. -/
theorem queueOne_booked (booked : Booked z held) (filled : (z.nodes rn).ribs ≠ []) (q : Fin 5) :
    Booked (queueOne rn z q) held ∧ ((queueOne rn z q).nodes rn).ribs ≠ [] ∧
      rn ∈ (queueOne rn z q).mq.subq q ∧
      ∀ q' n, n ∈ z.mq.subq q' → n ∈ (queueOne rn z q).mq.subq q' := by
  unfold queueOne
  by_cases queued : check (headStatus (z.nodes rn).ribs) (ribRouteQueued q) = true
  · rw [if_pos queued]
    exact ⟨booked, filled, (booked.bits rn filled q).mp queued, fun _ _ inside => inside⟩
  · rw [if_neg queued]
    have apart : rn ∉ z.mq.subq q := fun inside => queued ((booked.bits rn filled q).mpr inside)
    have grows : ∀ q' n, n ∈ Function.update z.mq.subq q (z.mq.subq q ++ [rn]) q' ↔
        n ∈ z.mq.subq q' ∨ q' = q ∧ n = rn := by
      intro q' n
      by_cases same : q' = q
      · subst same
        simp
      · simp [same]
    refine ⟨⟨?_, ?_, ?_, ?_⟩, ?_, ?_, fun q' n inside => (grows q' n).mpr (Or.inl inside)⟩
    · have sum := sum_update_add List.length z.mq.subq q (z.mq.subq q ++ [rn])
      rw [List.length_append, List.length_singleton] at sum
      dsimp only
      rw [booked.size]
      omega
    · intro q'
      by_cases same : q' = q
      · subst same
        dsimp only
        rw [update_self]
        exact List.nodup_append.mpr ⟨booked.once q', List.nodup_singleton rn, by
          intro a inside b single equal
          rw [List.mem_singleton.mp single] at equal
          exact apart (equal ▸ inside)⟩
      · dsimp only
        rw [update_of_ne same]
        exact booked.once q'
    · intro n present q'
      dsimp only at present ⊢
      rw [grows]
      by_cases here : n = rn
      · subst here
        rw [update_self, headStatus_markHead filled, check_set, check_queued,
          Bool.or_eq_true, booked.bits n filled q', decide_eq_true_eq]
        simp [eq_comm]
      · rw [update_of_ne here] at present ⊢
        rw [booked.bits n present q']
        simp [here]
    · intro n
      have sum := sum_update_add (List.count n) z.mq.subq q (z.mq.subq q ++ [rn])
      rw [List.count_append] at sum
      have locks := booked.locks n
      unfold entries at locks ⊢
      dsimp only
      by_cases here : n = rn
      · subst here
        rw [update_self]
        simp only [markHead_length]
        simp only [List.count_singleton_self] at sum
        omega
      · rw [update_of_ne here]
        have none : List.count n [rn] = 0 := List.count_eq_zero.mpr (by simpa using here)
        omega
    · simp only [update_self]
      exact markHead_filled.mpr filled
    · exact (grows q rn).mpr (Or.inr ⟨rfl, rfl⟩)

/-- Queueing in some sub-queues one by one. -/
theorem queueAll_booked (qs : List (Fin 5)) (booked : Booked z held)
    (filled : (z.nodes rn).ribs ≠ []) :
    Booked (qs.foldl (queueOne rn) z) held ∧ (∀ q ∈ qs, rn ∈ (qs.foldl (queueOne rn) z).mq.subq q) ∧
      ∀ q n, n ∈ z.mq.subq q → n ∈ (qs.foldl (queueOne rn) z).mq.subq q := by
  induction qs generalizing z with
  | nil => exact ⟨booked, nofun, fun _ _ inside => inside⟩
  | cons q qs ih =>
    obtain ⟨booked', filled', here, grows⟩ := queueOne_booked booked filled q
    obtain ⟨booked'', there, grows'⟩ := ih booked' filled'
    refine ⟨booked'', fun q' member => ?_, fun q' n inside => grows' q' n (grows q' n inside)⟩
    rcases List.mem_cons.mp member with rfl | later
    · exact grows' q' rn here
    · exact there q' later

/-- Queueing a prefix keeps the books, and a prefix with routes then waits. -/
theorem ribQueueAdd_booked (booked : Booked z held) (rn : Prefix) :
    Booked (ribQueueAdd rn z) held ∧
      ((z.nodes rn).ribs ≠ [] → ∃ q, rn ∈ (ribQueueAdd rn z).mq.subq q) ∧
      ∀ q n, n ∈ z.mq.subq q → n ∈ (ribQueueAdd rn z).mq.subq q := by
  have scheduled : Booked { z with ribq := true } held :=
    ⟨booked.size, booked.once, booked.bits, booked.locks⟩
  unfold ribQueueAdd ribMetaQueueAdd
  rcases shape : (z.nodes rn).ribs with _ | ⟨head, rest⟩
  · exact ⟨scheduled, fun filled => absurd rfl filled, fun _ _ inside => inside⟩
  · have filled : (z.nodes rn).ribs ≠ [] := by
      rw [shape]
      exact List.cons_ne_nil _ _
    obtain ⟨booked', there, grows⟩ := queueAll_booked
      ((z.nodes rn).ribs.map fun rib => metaQueueMap rib.type) scheduled filled
    rw [shape] at booked' there grows
    exact ⟨booked', fun _ => ⟨_, there _ List.mem_cons_self⟩, grows⟩

/-! ## Every event keeps the books -/

/-- A chain exchanged for another one of the same prefix, before it is
queued. -/
theorem Booked.exchange (booked : Booked z held) (rn : Prefix) (node : RouteNode)
    (bits : node.ribs ≠ [] → ∀ q, check (headStatus node.ribs) (ribRouteQueued q) = true ↔
      rn ∈ z.mq.subq q)
    (locks : node.lock = node.ribs.length + entries z.mq rn + held rn) :
    Booked { z with nodes := Function.update z.nodes rn node } held where
  size := booked.size
  once := booked.once
  bits n filled := by
    dsimp only at filled ⊢
    by_cases here : n = rn
    · subst here
      rw [update_self] at filled ⊢
      exact bits filled
    · rw [update_of_ne here] at filled ⊢
      exact booked.bits n filled
  locks n := by
    dsimp only
    by_cases here : n = rn
    · subst here
      rw [update_self]
      exact locks
    · rw [update_of_ne here]
      exact booked.locks n

theorem headStatus_pushRib (rib : Rib) (ribs : List Rib) :
    headStatus (pushRib rib ribs) = if ribs = [] then rib.rnStatus else headStatus ribs := by
  cases ribs with
  | nil => rfl
  | cons head rest =>
    rw [if_neg (List.cons_ne_nil _ _)]
    rfl

theorem pushRib_length (rib : Rib) (ribs : List Rib) :
    (pushRib rib ribs).length = ribs.length + 1 := by
  cases ribs <;> rfl

variable {rib : Rib}

/-- Linking keeps the books if the chain is not empty or its prefix does not
wait. -/
theorem ribLink_booked (booked : Booked z held) (clear : rib.rnStatus = 0)
    (linkable : (z.nodes rn).ribs ≠ [] ∨ ∀ q, rn ∉ z.mq.subq q) :
    Booked (ribLink rn rib z) held ∧ (∃ q, rn ∈ (ribLink rn rib z).mq.subq q) ∧
      ∀ q n, n ∈ z.mq.subq q → n ∈ (ribLink rn rib z).mq.subq q := by
  have pushed := booked.exchange rn
    { lock := (z.nodes rn).lock + 1, ribs := pushRib rib (z.nodes rn).ribs }
    (fun _ q => by
      rw [headStatus_pushRib]
      by_cases empty : (z.nodes rn).ribs = []
      · have apart := linkable.resolve_left (not_not.mpr empty) q
        rw [if_pos empty, clear]
        exact iff_of_false (by simp [check]) apart
      · rw [if_neg empty]
        exact booked.bits rn empty q)
    (by
      have locks := booked.locks rn
      simp only [pushRib_length]
      omega)
  obtain ⟨booked', waits, grows⟩ := ribQueueAdd_booked pushed rn
  refine ⟨booked', waits ?_, grows⟩
  simp only [update_self]
  exact List.ne_nil_of_length_pos (by rw [pushRib_length]; omega)

theorem headStatus_modify (ribs : List Rib) (place : Nat) :
    headStatus (ribs.modify place Rib.remove) = headStatus ribs := by
  rcases ribs with _ | ⟨head, rest⟩
  · cases place <;> rfl
  · cases place <;> rfl

/-- Marking a route keeps the books. -/
theorem ribDelnode_booked (booked : Booked z held) {place : Nat}
    (inside : place < (z.nodes rn).ribs.length) :
    Booked (ribDelnode rn place z) held ∧ (∃ q, rn ∈ (ribDelnode rn place z).mq.subq q) ∧
      ∀ q n, n ∈ z.mq.subq q → n ∈ (ribDelnode rn place z).mq.subq q := by
  have filled : (z.nodes rn).ribs ≠ [] := List.ne_nil_of_length_pos (by omega)
  have marked := booked.exchange rn
    { z.nodes rn with ribs := (z.nodes rn).ribs.modify place Rib.remove }
    (fun _ q => by
      rw [headStatus_modify]
      exact booked.bits rn filled q)
    (by
      simp only [List.length_modify]
      exact booked.locks rn)
  obtain ⟨booked', waits, grows⟩ := ribQueueAdd_booked marked rn
  refine ⟨booked', waits ?_, grows⟩
  simp only [update_self]
  exact List.ne_nil_of_length_pos (by rw [List.length_modify]; omega)

/-- Requeueing the tables keeps the books. -/
theorem ribUpdate_booked (walk : List Prefix) (booked : Booked z held) :
    Booked (ribUpdate walk z) held ∧
      ∀ q n, n ∈ z.mq.subq q → n ∈ (ribUpdate walk z).mq.subq q := by
  unfold ribUpdate
  induction walk generalizing z with
  | nil => exact ⟨booked, fun _ _ inside => inside⟩
  | cons rn walk ih =>
    rw [List.foldl_cons]
    by_cases empty : (z.nodes rn).ribs.isEmpty = true
    · rw [if_pos empty]
      exact ih booked
    · rw [if_neg empty]
      obtain ⟨booked', _, grows⟩ := ribQueueAdd_booked booked rn
      obtain ⟨booked'', grows'⟩ := ih booked'
      exact ⟨booked'', fun q n inside => grows' q n (grows q n inside)⟩

variable {q : Fin 5} {rest : List Prefix}

/-- The next node is the first of its sub-queue. -/
theorem nextNode_some {mq : MetaQueue} (next : nextNode mq = some (q, rn, rest)) :
    mq.subq q = rn :: rest := by
  unfold nextNode at next
  obtain ⟨q', _, found⟩ := List.exists_of_findSome?_eq_some next
  cases shape : mq.subq q' with
  | nil =>
    rw [shape] at found
    cases found
  | cons first others =>
    rw [shape] at found
    cases found
    exact shape

variable {z' : Zebra}

/-- Processing keeps the books. -/
theorem processSubq_booked (booked : Booked z held) {s : Surroundings}
    (first : z.mq.subq q = rn :: rest) (done : processSubq s q rn rest z = some z') :
    Booked { z' with mq := { z'.mq with size := z'.mq.size - 1 } } held ∧
      ∀ q' n, n ≠ rn → n ∈ z.mq.subq q' → n ∈ z'.mq.subq q' := by
  obtain ⟨⟨ribs, effects⟩, processed, rfl⟩ := Option.map_eq_some_iff.mp done
  obtain ⟨count, status⟩ := ribProcess_keeps s processed
  have distinct := booked.once q
  rw [first, List.nodup_cons] at distinct
  -- who waits where afterwards
  have waits : ∀ q' n, n ∈ Function.update z.mq.subq q rest q' ↔
      n ∈ z.mq.subq q' ∧ (q' = q → n ≠ rn) := by
    intro q' n
    by_cases same : q' = q
    · subst same
      rw [update_self, first, List.mem_cons]
      constructor
      · exact fun inside => ⟨Or.inr inside, fun _ equal => distinct.1 (equal ▸ inside)⟩
      · rintro ⟨inside, apart⟩
        exact inside.resolve_left (apart rfl)
    · rw [update_of_ne same]
      exact ⟨fun inside => ⟨inside, fun equal => absurd equal same⟩, And.left⟩
  refine ⟨⟨?_, ?_, ?_, ?_⟩, fun q' n apart inside => (waits q' n).mpr ⟨inside, fun _ => apart⟩⟩
  · have sum := sum_update_add List.length z.mq.subq q rest
    rw [first, List.length_cons] at sum
    have size := booked.size
    dsimp only
    omega
  · intro q'
    dsimp only
    by_cases same : q' = q
    · subst same
      rw [update_self]
      exact distinct.2
    · rw [update_of_ne same]
      exact booked.once q'
  · intro n filled q'
    dsimp only at filled ⊢
    rw [waits]
    by_cases here : n = rn
    · subst here
      rw [update_self] at filled ⊢
      dsimp only at filled
      have left : ribs ≠ [] := markHead_filled.mp filled
      have before : (z.nodes n).ribs ≠ [] := by
        intro none
        rw [none, List.length_nil] at count
        exact left (List.eq_nil_of_length_eq_zero (by omega))
      simp only [headStatus_markHead left, check_unset_queued, status left, Bool.and_eq_true,
        booked.bits n before q', decide_eq_true_eq]
      simp [ne_comm]
    · rw [update_of_ne here] at filled ⊢
      rw [booked.bits n filled q']
      exact ⟨fun inside => ⟨inside, fun _ => here⟩, And.left⟩
  · intro n
    have sum := sum_update_add (List.count n) z.mq.subq q rest
    rw [first, List.count_cons] at sum
    have locks := booked.locks n
    unfold entries at locks ⊢
    dsimp only
    by_cases here : n = rn
    · subst here
      rw [update_self]
      simp only [markHead_length, beq_self_eq_true, if_true] at sum ⊢
      omega
    · rw [update_of_ne here]
      have other : (rn == n) = false := by simpa using Ne.symm here
      rw [other, if_neg (by decide)] at sum
      omega

/-- Locking and unlocking by a caller keeps the books. -/
theorem relock_booked (booked : Booked z held) (rn : Prefix) (f : Nat → Nat) (now : Nat)
    (balance : f (z.nodes rn).lock + held rn = (z.nodes rn).lock + now) :
    Booked (relock f rn z) (Function.update held rn now) := by
  refine ⟨booked.size, booked.once, fun n filled => ?_, fun n => ?_⟩
  · unfold relock at filled ⊢
    dsimp only at filled ⊢
    by_cases here : n = rn
    · subst here
      rw [update_self] at filled ⊢
      exact booked.bits n filled
    · rw [update_of_ne here] at filled ⊢
      exact booked.bits n filled
  · have locks := booked.locks n
    unfold relock
    dsimp only
    by_cases here : n = rn
    · subst here
      rw [update_self, update_self]
      dsimp only
      omega
    · rw [update_of_ne here, update_of_ne here]
      exact locks

/-- What is marked as changed waits, if whatever waited before still does. -/
theorem waiting_marked {changed : Prefix → Bool}
    (waiting : ∀ n, changed n = true → ∃ q, n ∈ z.mq.subq q) (here : ∃ q, rn ∈ z'.mq.subq q)
    (grows : ∀ q n, n ∈ z.mq.subq q → n ∈ z'.mq.subq q) :
    ∀ n, Function.update changed rn true n = true → ∃ q, n ∈ z'.mq.subq q := by
  intro n marked
  by_cases same : n = rn
  · exact same ▸ here
  · rw [update_of_ne same] at marked
    obtain ⟨q, inside⟩ := waiting n marked
    exact ⟨q, grows q n inside⟩

variable {w w' : World}

/-- Every event keeps the books, if a linked route is linkable. -/
theorem Disciplined.step {event : Event} (disciplined : Disciplined w) (allowed : Allowed w event)
    (linkable : Linkable w event) (next : w.step event = some w') : Disciplined w' := by
  obtain ⟨booked, waiting⟩ := disciplined
  cases event with
  | link rn rib =>
    obtain rfl := Option.some.inj next
    obtain ⟨booked', here, grows⟩ := ribLink_booked booked allowed.1 linkable
    exact ⟨booked', waiting_marked waiting here grows⟩
  | delnode rn place =>
    obtain rfl := Option.some.inj next
    obtain ⟨booked', here, grows⟩ := ribDelnode_booked booked allowed
    exact ⟨booked', waiting_marked waiting here grows⟩
  | update walk =>
    obtain rfl := Option.some.inj next
    obtain ⟨booked', grows⟩ := ribUpdate_booked walk booked
    refine ⟨booked', fun n marked => ?_⟩
    obtain ⟨q, inside⟩ := waiting n marked
    exact ⟨q, grows q n inside⟩
  | process s =>
    obtain ⟨z', done, rfl⟩ := Option.map_eq_some_iff.mp next
    unfold metaQueueProcess at done
    rcases first : nextNode w.z.mq with _ | ⟨q, rn, rest⟩
    · rw [first] at done
      obtain rfl := Option.some.inj done
      exact ⟨⟨booked.size, booked.once, booked.bits, booked.locks⟩, waiting⟩
    · rw [first] at done
      obtain ⟨z'', processed, rfl⟩ := Option.map_eq_some_iff.mp done
      obtain ⟨booked', stays⟩ := processSubq_booked booked (nextNode_some first) processed
      refine ⟨⟨booked'.size, booked'.once, booked'.bits, booked'.locks⟩, fun n marked => ?_⟩
      by_cases same : n = rn
      · subst same
        simp only [update_self, Bool.false_eq_true] at marked
      · simp only [update_of_ne same] at marked
        obtain ⟨q', inside⟩ := waiting n marked
        exact ⟨q', stays q' n same inside⟩
  | hold rn =>
    obtain rfl := Option.some.inj next
    exact ⟨relock_booked booked rn (· + 1) _ (by omega), waiting⟩
  | release rn =>
    obtain rfl := Option.some.inj next
    have present : 0 < w.held rn := allowed
    have locks := booked.locks rn
    exact ⟨relock_booked booked rn (· - 1) _ (by omega), waiting⟩

/-- In every run in which each route is linkable the books are right in every
state. The marks that a node waits are kept in the first of its routes and go with it, so
a route that comes to an empty node which still waits queues the node twice. -/
theorem queue_disciplined {w : World} (reached : Reached w) : Disciplined w := by
  induction reached with
  | start =>
    refine ⟨⟨rfl, fun _ => List.nodup_nil, nofun, fun rn => ?_⟩, nofun⟩
    simp [entries]
  | step event _ allowed linkable next ih => exact ih.step allowed linkable next

/-- A route linked into an empty chain whose prefix still waits spoils the
books. -/
theorem link_undisciplined (clear : rib.rnStatus = 0) (unlinkable : ¬ Linkable w (.link rn rib))
    (next : w.step (.link rn rib) = some w') : ¬ Disciplined w' := by
  obtain ⟨empty, waits⟩ : (w.z.nodes rn).ribs = [] ∧ ∃ q, rn ∈ w.z.mq.subq q := by
    simpa [Linkable, not_or] using unlinkable
  obtain ⟨q, inside⟩ := waits
  obtain rfl := Option.some.inj next
  intro after
  have first : metaQueueMap rib.type = q ∨ metaQueueMap rib.type ≠ q := Decidable.em _
  have queued : (ribLink rn rib w.z).mq.subq =
        Function.update w.z.mq.subq (metaQueueMap rib.type)
          (w.z.mq.subq (metaQueueMap rib.type) ++ [rn]) ∧
      ((ribLink rn rib w.z).nodes rn).ribs =
        [{ rib with rnStatus := set rib.rnStatus (ribRouteQueued (metaQueueMap rib.type)) }] := by
    have unmarked : check rib.rnStatus (ribRouteQueued (metaQueueMap rib.type)) = false := by
      rw [clear]
      simp [check]
    simp [ribLink, ribQueueAdd, ribMetaQueueAdd, pushRib, empty, queueOne, headStatus, markHead,
      unmarked]
  rcases first with same | other
  · -- it waits twice in the sub-queue of its type
    have twice := after.booked.once q
    rw [queued.1, same, update_self] at twice
    exact (List.nodup_append.mp twice).2.2 rn inside rn (List.mem_singleton_self rn) rfl
  · -- it waits in a sub-queue that its state does not show
    have shown := (after.booked.bits rn (by
      rw [queued.2]
      exact List.cons_ne_nil _ _) q).mpr (by
      rw [queued.1, update_of_ne (Ne.symm other)]
      exact inside)
    rw [queued.2] at shown
    have none : check (set rib.rnStatus (ribRouteQueued (metaQueueMap rib.type)))
        (ribRouteQueued q) = false := by
      rw [check_set, check_queued, clear, decide_eq_false other]
      simp [check]
    exact absurd shown (by
      simp only [headStatus, List.head?_cons, Option.map_some, Option.getD_some, none]
      decide)

/-! ## Runs that keep the books and one that does not -/

/-- Every next hop stays as it is and the kernel takes every route. -/
def calm : Surroundings where
  nexthopActiveCheck _ _ hop := hop
  kernelAdd rib := (true, rib.nexthop)

/-- `10.0.0.0/8`. -/
def tenNet : Prefix := ⟨.ip, [false, false, false, false, true, false, true, false], ten_fits⟩

/-- A static route and a route of BGP at one prefix, and the first processed. -/
theorem queue_disciplined_twice :
    ∃ w w' w'', World.step {} (.link tenNet { type := .bgp }) = some w ∧
      w.step (.link tenNet { type := .static }) = some w' ∧ w'.step (.process calm) = some w'' ∧
      Disciplined w'' := by
  refine ⟨_, _, _, rfl, rfl, rfl, queue_disciplined ?_⟩
  have first : Reached _ :=
    .step (.link tenNet { type := .bgp }) .start ⟨rfl, rfl⟩ (Or.inr nofun) rfl
  have second : Reached _ := .step (.link tenNet { type := .static }) first ⟨rfl, rfl⟩
    (Or.inl (List.cons_ne_nil _ _)) rfl
  exact .step (.process calm) second trivial trivial rfl

/-- Two routes of different kinds are removed, both are freed when the first
sub-queue is processed, and a new route finds the prefix waiting in the second. -/
theorem queue_not_disciplined : ∃ w, Occurs w ∧ ¬ Disciplined w := by
  have first : Occurs _ := .step (.link tenNet { type := .bgp }) .start ⟨rfl, rfl⟩ rfl
  have second : Occurs _ := .step (.link tenNet { type := .static }) first ⟨rfl, rfl⟩ rfl
  have third : Occurs _ := .step (.delnode tenNet 0) second (show 0 < 2 by decide) rfl
  have fourth : Occurs _ := .step (.delnode tenNet 1) third (show 1 < 2 by decide) rfl
  have fifth : Occurs _ := .step (.process calm) fourth trivial rfl
  have sixth : Occurs _ := .step (.link tenNet { type := .bgp }) fifth ⟨rfl, rfl⟩ rfl
  refine ⟨_, sixth, link_undisciplined rfl ?_ rfl⟩
  rintro (filled | apart)
  · exact absurd rfl filled
  · exact apart 3 (by decide)

end Bgpd.RibQueue
