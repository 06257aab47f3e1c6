import Bgpd.ZebraRib
import Bgpd.Prefixes

/-!
# The meta-queue

Prefixes whose routes changed wait in up to five sub-queues, one for each kind of
protocol, and are processed from the first one that is not empty. A prefix is
queued once in the sub-queue of each of its routes; which sub-queues these are is
written in the first route of its chain.

A route node lives as long as it is locked: by each of its routes, by each of its
places in the queue and by whoever works with it.
-/

namespace Bgpd.RibQueue

open Octets FlagWord Prefixes ZebraRib

/-! ## The queue -/

/-- A node of the routing table. -/
structure RouteNode where
  lock : Nat := 0
  ribs : List Rib := []
  deriving Repr

/-- `struct meta_queue`. -/
structure MetaQueue where
  subq : Fin 5 → List Prefix := fun _ => []
  size : Nat := 0

/-- The tables of the manager, its meta-queue and whether the work queue holds
it. -/
structure Zebra where
  nodes : Prefix → RouteNode := fun _ => {}
  mq : MetaQueue := {}
  ribq : Bool := false

/-- `meta_queue_map`. -/
def metaQueueMap : RouteType → Fin 5
  | .system => 4
  | .kernel => 0
  | .connect => 0
  | .static => 1
  | .rip => 2
  | .ripng => 2
  | .ospf => 2
  | .ospf6 => 2
  | .isis => 2
  | .bgp => 3
  | .hsls => 4

/-- `RIB_ROUTE_QUEUED`. -/
def ribRouteQueued (q : Fin 5) : U8 := 1 <<< q.val

/-- The state of a prefix, which its first route keeps. -/
def headStatus (ribs : List Rib) : U8 := (ribs.head?.map Rib.rnStatus).getD 0

/-- Change that state. -/
def markHead (f : U8 → U8) : List Rib → List Rib
  | [] => []
  | head :: next => { head with rnStatus := f head.rnStatus } :: next

/-- One turn of `rib_meta_queue_add`. -/
def queueOne (rn : Prefix) (z : Zebra) (q : Fin 5) : Zebra :=
  let node := z.nodes rn
  if check (headStatus node.ribs) (ribRouteQueued q) then z
  else
    { z with
      nodes := Function.update z.nodes rn
        { lock := node.lock + 1, ribs := markHead (set · (ribRouteQueued q)) node.ribs }
      mq :=
        { subq := Function.update z.mq.subq q (z.mq.subq q ++ [rn])
          size := z.mq.size + 1 } }

/-- `rib_meta_queue_add`. -/
def ribMetaQueueAdd (rn : Prefix) (z : Zebra) : Zebra :=
  ((z.nodes rn).ribs.map fun rib => metaQueueMap rib.type).foldl (queueOne rn) z

/-- `rib_queue_add`. -/
def ribQueueAdd (rn : Prefix) (z : Zebra) : Zebra := ribMetaQueueAdd rn { z with ribq := true }

/-- Lock or unlock a node. -/
def relock (f : Nat → Nat) (rn : Prefix) (z : Zebra) : Zebra :=
  { z with nodes := Function.update z.nodes rn { z.nodes rn with lock := f (z.nodes rn).lock } }

/-! ## Routes come and go -/

/-- A route enters a chain, its first route handing over the state of the
prefix. -/
def pushRib (rib : Rib) (ribs : List Rib) : List Rib :=
  match ribs with
  | [] => [rib]
  | head :: _ => { rib with rnStatus := head.rnStatus } :: ribs

/-- `rib_link`. -/
def ribLink (rn : Prefix) (rib : Rib) (z : Zebra) : Zebra :=
  let node := z.nodes rn
  ribQueueAdd rn
    { z with
      nodes := Function.update z.nodes rn
        { lock := node.lock + 1, ribs := pushRib rib node.ribs } }

/-- The route waits to be freed. -/
def Rib.remove (rib : Rib) : Rib := { rib with status := set rib.status ribEntryRemoved }

/-- `rib_delnode`. -/
def ribDelnode (rn : Prefix) (place : Nat) (z : Zebra) : Zebra :=
  let node := z.nodes rn
  ribQueueAdd rn
    { z with
      nodes := Function.update z.nodes rn
        { node with ribs := node.ribs.modify place Rib.remove } }

/-- `rib_update`, on the nodes in the order of its walk over the tables. -/
def ribUpdate (walk : List Prefix) (z : Zebra) : Zebra :=
  walk.foldl
    (fun z rn => if (z.nodes rn).ribs.isEmpty then z else ribQueueAdd rn z) z

/-! ## Processing -/

/-- The routes that were freed. -/
def unlinked (effects : List Effect) : Nat :=
  effects.countP fun
    | .unlink _ => true
    | _ => false

/-- `process_subq` for the first node of a sub-queue. -/
def processSubq (s : Surroundings) (q : Fin 5) (rn : Prefix) (rest : List Prefix) (z : Zebra) :
    Option Zebra :=
  let node := z.nodes rn
  (ribProcess s node.ribs).map fun (ribs, effects) =>
    { z with
      nodes := Function.update z.nodes rn
        { lock := node.lock - unlinked effects - 1
          ribs := markHead (unset · (ribRouteQueued q)) ribs }
      mq := { z.mq with subq := Function.update z.mq.subq q rest } }

/-- The first sub-queue that is not empty, with its nodes. -/
def nextNode (mq : MetaQueue) : Option (Fin 5 × Prefix × List Prefix) :=
  (List.finRange 5).findSome? fun q =>
    match mq.subq q with
    | [] => none
    | rn :: rest => some (q, rn, rest)

/-- `meta_queue_process`, which stays in the work queue while nodes are left. -/
def metaQueueProcess (s : Surroundings) (z : Zebra) : Option Zebra :=
  match nextNode z.mq with
  | none => some { z with ribq := z.mq.size ≠ 0 }
  | some (q, rn, rest) =>
    (processSubq s q rn rest z).map fun z =>
      { z with mq := { z.mq with size := z.mq.size - 1 }, ribq := z.mq.size - 1 ≠ 0 }

/-! ## What processing does to a chain -/

theorem unlinked_append (first second : List Effect) :
    unlinked (first ++ second) = unlinked first + unlinked second :=
  List.countP_append

@[simp] theorem unlinked_nil : unlinked [] = 0 := rfl

@[simp] theorem unlinked_unlink (rib : Rib) : unlinked [.unlink rib] = 1 := rfl

variable (s : Surroundings)

/-- The state that the head of the chain has once the rest is reached. -/
def frontStatus (status : Option U8) (rest kept : List Rib) : U8 :=
  if kept.isEmpty then status.getD (headStatus rest) else headStatus kept

theorem headStatus_append {kept : List Rib} (filled : kept.isEmpty = false) (more : List Rib) :
    headStatus (kept ++ more) = headStatus kept := by
  cases kept with
  | nil => cases filled
  | cons head rest => rfl

/-- The loop of `rib_process` frees what it does not keep, and whatever it keeps
first has the state of the prefix. -/
theorem ribScan_keeps {status : Option U8} {rest : List Rib} {scan scan' : Scan}
    (done : ribScan s status rest scan = some scan') :
    scan'.kept.length + unlinked scan'.done =
        scan.kept.length + unlinked scan.done + rest.length ∧
      (scan'.kept ≠ [] → headStatus scan'.kept = frontStatus status rest scan.kept) := by
  induction rest generalizing status scan with
  | nil =>
    obtain rfl : scan = scan' := Option.some.inj done
    refine ⟨rfl, fun filled => ?_⟩
    unfold frontStatus
    rw [if_neg (by simpa using filled)]
  | cons first next ih =>
    have appended (rib : Rib) (same : rib.rnStatus = status.getD first.rnStatus) :
        frontStatus none next (scan.kept ++ [rib]) =
            frontStatus status (first :: next) scan.kept := by
      unfold frontStatus
      rw [if_neg (by simp)]
      cases none_ : scan.kept.isEmpty with
      | true =>
        rw [List.isEmpty_iff.mp none_, if_pos rfl]
        exact same
      | false => rw [if_neg (by decide), headStatus_append none_]
    unfold ribScan at done
    dsimp only at done
    split at done
    · cases done
    · split at done
      · split at done
        · -- the removed route in the kernel is kept for now
          obtain ⟨count, status_⟩ := ih done
          refine ⟨?_, fun filled => (status_ filled).trans (appended _ rfl)⟩
          rw [count]
          simp only [List.length_append, List.length_cons, List.length_nil]
          omega
        · -- a removed route is freed
          obtain ⟨count, status_⟩ := ih done
          refine ⟨?_, fun filled => (status_ filled).trans ?_⟩
          · rw [count]
            simp only [unlinked_append, unlinked_unlink, List.length_cons]
            omega
          · unfold frontStatus
            split <;> rfl
      · obtain ⟨count, status_⟩ := ih done
        refine ⟨?_, fun filled => (status_ filled).trans (appended _ rfl)⟩
        rw [count]
        simp only [List.length_append, List.length_cons, List.length_nil]
        omega

/-- An operation on a route that leaves the state of the prefix alone and frees
nothing. -/
structure Gentle (f : Rib → Rib × List Effect) : Prop where
  status : ∀ rib, (f rib).1.rnStatus = rib.rnStatus
  frees : ∀ rib, unlinked (f rib).2 = 0

theorem ribRefresh_gentle : Gentle (ribRefresh s) where
  status rib := by
    unfold ribRefresh
    split
    · dsimp only
      split <;> split <;> rfl
    · split
      · rfl
      · split <;> rfl
  frees rib := by
    unfold ribRefresh
    split
    · dsimp only
      split <;> rfl
    · split
      · rfl
      · split <;> rfl

theorem ribWithdraw_gentle : Gentle (ribWithdraw s) where
  status rib := by
    unfold ribWithdraw
    split <;> rfl
  frees rib := by
    unfold ribWithdraw
    split <;> rfl

theorem ribSelect_gentle : Gentle (ribSelect s) where
  status rib := by
    unfold ribSelect
    dsimp only
    split <;> rfl
  frees rib := by
    unfold ribSelect
    dsimp only
    split <;> rfl

theorem applyAt_keeps {f : Rib → Rib × List Effect} (gentle : Gentle f) (place : Option Nat)
    (ribs : List Rib) :
    (applyAt f place ribs).1.length = ribs.length ∧ unlinked (applyAt f place ribs).2 = 0 ∧
      headStatus (applyAt f place ribs).1 = headStatus ribs := by
  unfold applyAt
  cases place with
  | none => exact ⟨rfl, rfl, rfl⟩
  | some i =>
    dsimp only
    cases found : ribs[i]? with
    | none => exact ⟨rfl, rfl, rfl⟩
    | some rib =>
      refine ⟨List.length_set, gentle.frees rib, ?_⟩
      rcases ribs with _ | ⟨head, rest⟩
      · rfl
      · cases i with
        | zero =>
          obtain rfl : head = rib := Option.some.inj found
          exact gentle.status head
        | succ i => rfl

theorem ribUnlink_keeps (ribs : List Rib) (place : Nat) :
    (ribUnlink ribs place).1.length + unlinked (ribUnlink ribs place).2 = ribs.length ∧
      ((ribUnlink ribs place).1 ≠ [] → headStatus (ribUnlink ribs place).1 = headStatus ribs) := by
  unfold ribUnlink
  cases found : ribs[place]? with
  | none => exact ⟨rfl, fun _ => rfl⟩
  | some rib =>
    obtain ⟨inside, _⟩ := List.getElem?_eq_some_iff.mp found
    rcases ribs with _ | ⟨first, rest⟩
    · cases inside
    · cases place with
      | zero =>
        obtain rfl : first = rib := Option.some.inj found
        rcases rest with _ | ⟨second, rest⟩
        · exact ⟨rfl, fun filled => absurd rfl filled⟩
        · exact ⟨rfl, fun _ => rfl⟩
      | succ place =>
        refine ⟨?_, fun _ => rfl⟩
        have shorter := List.length_eraseIdx_of_lt (show place < rest.length by simpa using inside)
        simp only [List.eraseIdx_cons_succ, List.length_cons, shorter, unlinked_unlink]
        simp only [List.length_cons] at inside
        omega

theorem ribExchange_keeps (scan : Scan) :
    (ribExchange s scan).1.length + unlinked (ribExchange s scan).2 =
        scan.kept.length + unlinked scan.done ∧
      (ribExchange s scan).1.length ≤ scan.kept.length ∧
      ((ribExchange s scan).1 ≠ [] → headStatus (ribExchange s scan).1 = headStatus scan.kept) := by
  unfold ribExchange
  split
  · obtain ⟨length, frees, status⟩ := applyAt_keeps (ribRefresh_gentle s) scan.select scan.kept
    refine ⟨?_, length.le, fun _ => status⟩
    rw [unlinked_append, length, frees]
    omega
  · obtain ⟨length, frees, status⟩ := applyAt_keeps (ribWithdraw_gentle s) scan.fib scan.kept
    obtain ⟨length', frees', status'⟩ := applyAt_keeps (ribSelect_gentle s) scan.select
      (applyAt (ribWithdraw s) scan.fib scan.kept).1
    cases scan.del with
    | none =>
      refine ⟨?_, (length'.trans length).le, fun _ => status'.trans status⟩
      simp only [unlinked_append, length', length, frees, frees']
      omega
    | some del =>
      obtain ⟨count, status''⟩ := ribUnlink_keeps (applyAt (ribSelect s) scan.select
        (applyAt (ribWithdraw s) scan.fib scan.kept).1).1 del
      refine ⟨?_, ?_, fun filled => (status'' filled).trans (status'.trans status)⟩
      · dsimp only
        simp only [unlinked_append, frees, frees']
        omega
      · dsimp only
        omega

/-- `rib_process` frees what is missing from the chain afterwards, and hands the
state of the prefix to whichever route is first. -/
theorem ribProcess_keeps {ribs ribs' : List Rib} {effects : List Effect}
    (done : ribProcess s ribs = some (ribs', effects)) :
    ribs'.length + unlinked effects = ribs.length ∧
      (ribs' ≠ [] → headStatus ribs' = headStatus ribs) := by
  obtain ⟨scan, scanned, exchanged⟩ := Option.map_eq_some_iff.mp done
  obtain ⟨count, status⟩ := ribScan_keeps s scanned
  obtain ⟨count', bound, status'⟩ := ribExchange_keeps s scan
  rw [exchanged] at count' bound status'
  constructor
  · simpa [count] using count'
  · intro filled
    have kept : scan.kept ≠ [] := by
      intro none
      rw [none] at bound
      exact filled (List.eq_nil_of_length_eq_zero (Nat.le_zero.mp bound))
    exact (status' filled).trans (status kept)

end Bgpd.RibQueue
