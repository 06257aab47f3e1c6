import Bgpd.RibQueue

/-!
# What happens to the chain of a prefix

Queueing changes no chain but for the state of its prefix. Processing changes what
the routes know of their surroundings; whatever does not depend on that, it leaves
as it was.
-/

namespace Bgpd.RibQueue

open Octets FlagWord Prefixes ZebraRib

/-! ## The chain of a prefix -/

/-- A route without the state of its prefix. -/
def bare (rib : Rib) : Rib := { rib with rnStatus := 0 }

/-- The chain of a prefix but for where it waits. -/
def chain (z : Zebra) (p : Prefix) : List Rib := (z.nodes p).ribs.map bare

theorem bare_markHead (f : U8 → U8) (ribs : List Rib) :
    (markHead f ribs).map bare = ribs.map bare := by
  cases ribs <;> rfl

theorem queueOne_nodes (rn : Prefix) (z : Zebra) (q : Fin 5) (p : Prefix) :
    chain (queueOne rn z q) p = chain z p ∧
      (p ≠ rn → (queueOne rn z q).nodes p = z.nodes p) := by
  unfold queueOne chain
  dsimp only
  split
  · exact ⟨rfl, fun _ => rfl⟩
  · constructor
    · by_cases here : p = rn
      · subst here
        simp [bare_markHead]
      · simp only [Function.update_of_ne here]
    · intro other
      exact Function.update_of_ne other _ _

/-- Queueing changes no chain, and no other node at all. -/
theorem ribQueueAdd_nodes (rn : Prefix) (z : Zebra) (p : Prefix) :
    chain (ribQueueAdd rn z) p = chain z p ∧
      (p ≠ rn → (ribQueueAdd rn z).nodes p = z.nodes p) := by
  have turns (qs : List (Fin 5)) (z : Zebra) :
      chain (qs.foldl (queueOne rn) z) p = chain z p ∧
        (p ≠ rn → (qs.foldl (queueOne rn) z).nodes p = z.nodes p) := by
    induction qs generalizing z with
    | nil => exact ⟨rfl, fun _ => rfl⟩
    | cons q qs ih =>
      obtain ⟨later, others⟩ := ih (queueOne rn z q)
      obtain ⟨first, others'⟩ := queueOne_nodes rn z q p
      exact ⟨later.trans first, fun other => (others other).trans (others' other)⟩
  exact turns _ _

theorem chain_ribLink (p : Prefix) (rib : Rib) (z : Zebra) :
    chain (ribLink p rib z) p = bare rib :: chain z p := by
  unfold ribLink
  rw [(ribQueueAdd_nodes p _ p).1]
  unfold chain
  simp only [Function.update_self]
  unfold pushRib
  cases (z.nodes p).ribs <;> rfl

/-- A change at a place that a map does not see. -/
theorem map_modify (f g : Rib → Rib) (apart : ∀ rib, g (f rib) = f (g rib)) (ribs : List Rib)
    (place : Nat) : (ribs.modify place f).map g = (ribs.map g).modify place f := by
  refine List.ext_getElem? fun i => ?_
  simp only [List.getElem?_map, List.getElem?_modify]
  split
  · simp only [Option.map_map, Option.map_eq_map]
    exact congrFun (congrArg Option.map (funext apart)) _
  · simp

theorem chain_ribDelnode (p : Prefix) (place : Nat) (z : Zebra) :
    chain (ribDelnode p place z) p = (chain z p).modify place Rib.remove := by
  unfold ribDelnode
  rw [(ribQueueAdd_nodes p _ p).1]
  unfold chain
  simp only [Function.update_self]
  exact map_modify Rib.remove bare (fun _ => rfl) _ _

@[simp] theorem chain_relock (f : Nat → Nat) (rn : Prefix) (z : Zebra) (p : Prefix) :
    chain (relock f rn z) p = chain z p := by
  unfold chain relock
  by_cases here : p = rn
  · subst here
    simp
  · simp only [Function.update_of_ne here]

variable {p other : Prefix}

theorem nodes_relock (f : Nat → Nat) (apart : other ≠ p) (z : Zebra) :
    (relock f p z).nodes other = z.nodes other :=
  Function.update_of_ne apart _ _

theorem nodes_ribLink (apart : other ≠ p) (rib : Rib) (z : Zebra) :
    (ribLink p rib z).nodes other = z.nodes other := by
  unfold ribLink
  rw [(ribQueueAdd_nodes p _ other).2 apart]
  exact Function.update_of_ne apart _ _

theorem nodes_ribDelnode (apart : other ≠ p) (place : Nat) (z : Zebra) :
    (ribDelnode p place z).nodes other = z.nodes other := by
  unfold ribDelnode
  rw [(ribQueueAdd_nodes p _ other).2 apart]
  exact Function.update_of_ne apart _ _

/-! ## What processing leaves alone -/

/-- A view of the routes that sees neither the state of the prefix nor what
processing does to a route, and no route that is marked. -/
structure Blind (s : Surroundings) {α : Type} (view : Rib → Option α) : Prop where
  status : ∀ rib status, view { rib with rnStatus := status } = view rib
  update : ∀ set rib, view (nexthopActiveUpdate s set rib) = view rib
  install : ∀ rib, view (ribInstallKernel s rib) = view rib
  uninstall : ∀ rib, view (ribUninstallKernel rib) = view rib
  select : ∀ rib, view { rib with flags := FlagWord.set rib.flags zebraFlagSelected } = view rib
  deselect : ∀ rib, view { rib with flags := unset rib.flags zebraFlagSelected } = view rib
  removed : ∀ rib : Rib, rib.removed = true → view rib = none

variable {s : Surroundings} {α : Type} {view : Rib → Option α}

theorem Blind.refresh (blind : Blind s view) (rib : Rib) :
    view (ribRefresh s rib).1 = view rib := by
  unfold ribRefresh
  split
  · dsimp only
    split
    · split
      · exact blind.update _ _
      · rw [blind.install, blind.update]
    · split
      · rw [blind.update, blind.uninstall]
      · rw [blind.install, blind.update, blind.uninstall]
  · split
    · rfl
    · split
      · rfl
      · exact blind.install _

theorem Blind.withdraw (blind : Blind s view) (rib : Rib) :
    view (ribWithdraw s rib).1 = view rib := by
  unfold ribWithdraw
  rw [blind.update]
  split
  · exact blind.deselect _
  · exact (blind.deselect _).trans (blind.uninstall _)

theorem Blind.selected (blind : Blind s view) (rib : Rib) :
    view (ribSelect s rib).1 = view rib := by
  unfold ribSelect
  dsimp only
  split
  · exact (blind.select _).trans (blind.update _ _)
  · exact (blind.select _).trans ((blind.install _).trans (blind.update _ _))

theorem map_applyAt {f : Rib → Rib × List Effect} (same : ∀ rib, view (f rib).1 = view rib)
    (place : Option Nat) (ribs : List Rib) : (applyAt f place ribs).1.map view = ribs.map view := by
  unfold applyAt
  cases place with
  | none => rfl
  | some i =>
    dsimp only
    cases found : ribs[i]? with
    | none => rfl
    | some rib =>
      obtain ⟨inside, rfl⟩ := List.getElem?_eq_some_iff.mp found
      rw [List.map_set, same, ← List.map_set, List.set_getElem_self]

variable {ribs ribs' : List Rib}

theorem filterMap_of_map (same : ribs'.map view = ribs.map view) :
    ribs'.filterMap view = ribs.filterMap view := by
  have shown := congrArg (List.filterMap id) same
  simpa only [List.filterMap_map, Function.id_comp] using shown

/-- Nothing is seen of a route that leaves the chain. -/
theorem Blind.unlink (blind : Blind s view) {place : Nat}
    (gone : ∀ rib, ribs[place]? = some rib → view rib = none) :
    (ribUnlink ribs place).1.filterMap view = ribs.filterMap view := by
  unfold ribUnlink
  cases found : ribs[place]? with
  | none => rfl
  | some rib =>
    obtain ⟨inside, same⟩ := List.getElem?_eq_some_iff.mp found
    have unseen := gone rib found
    have erased : (ribs.eraseIdx place).filterMap view = ribs.filterMap view := by
      conv => rhs; rw [← List.take_append_drop place ribs, ← List.getElem_cons_drop inside]
      rw [List.eraseIdx_eq_take_drop_succ, List.filterMap_append, List.filterMap_append,
        List.filterMap_cons, same, unseen]
    dsimp only
    split
    · rename_i head rest shape
      rw [shape] at erased
      rw [← erased]
      simp only [List.filterMap_cons, blind.status]
    · exact erased

/-- What the loop keeps shows what the chain showed, and what it keeps only to free
it later shows nothing. -/
theorem Blind.scan (blind : Blind s view) {status : Option U8} {rest : List Rib} {scan scan' : Scan}
    (done : ribScan s status rest scan = some scan')
    (gone : ∀ place, scan.del = some place → ∃ rib, scan.kept[place]? = some rib ∧
      view rib = none) :
    scan'.kept.filterMap view = scan.kept.filterMap view ++ rest.filterMap view ∧
      ∀ place, scan'.del = some place → ∃ rib, scan'.kept[place]? = some rib ∧ view rib = none := by
  induction rest generalizing status scan with
  | nil =>
    obtain rfl : scan = scan' := Option.some.inj done
    exact ⟨(List.append_nil _).symm, gone⟩
  | cons first next ih =>
    have appended (rib : Rib) (place : Nat) (del : scan.del = some place) :
        ∃ rib', (scan.kept ++ [rib])[place]? = some rib' ∧ view rib' = none := by
      obtain ⟨rib', found, unseen⟩ := gone place del
      obtain ⟨inside, _⟩ := List.getElem?_eq_some_iff.mp found
      exact ⟨rib', by rwa [List.getElem?_append_left inside], unseen⟩
    have handed := blind.status first (status.getD first.rnStatus)
    unfold ribScan at done
    dsimp only at done
    split at done
    · cases done
    · split at done
      · rename_i marked
        have unseen := handed.symm.trans (blind.removed _ marked)
        split at done
        · obtain ⟨shown, later⟩ := ih done (by
            intro place del
            obtain rfl := Option.some.inj del
            exact ⟨_, List.getElem?_concat_length, handed.trans unseen⟩)
          refine ⟨?_, later⟩
          rw [shown, List.filterMap_append, List.filterMap_cons, List.filterMap_cons,
            handed, unseen, List.filterMap_nil, List.append_nil]
        · obtain ⟨shown, later⟩ := ih done gone
          refine ⟨?_, later⟩
          rw [shown, List.filterMap_cons, unseen]
      · obtain ⟨shown, later⟩ := ih done (fun place del => appended _ place del)
        refine ⟨?_, later⟩
        simp only [shown, List.filterMap_append, List.filterMap_cons, List.filterMap_nil,
          blind.update, handed]
        cases view first <;> simp

/-- Processing a prefix leaves the view of its chain as it was. -/
theorem Blind.process (blind : Blind s view) {effects : List Effect}
    (done : ribProcess s ribs = some (ribs', effects)) :
    ribs'.filterMap view = ribs.filterMap view := by
  obtain ⟨scan, scanned, exchanged⟩ := Option.map_eq_some_iff.mp done
  obtain ⟨shown, gone⟩ := blind.scan scanned nofun
  rw [List.filterMap_nil, List.nil_append] at shown
  rw [← shown, show ribs' = (ribExchange s scan).1 by rw [exchanged]]
  unfold ribExchange
  split
  · exact filterMap_of_map (map_applyAt blind.refresh _ _)
  · have shown := (map_applyAt blind.selected scan.select
      (applyAt (ribWithdraw s) scan.fib scan.kept).1).trans
        (map_applyAt blind.withdraw scan.fib scan.kept)
    cases del : scan.del with
    | none => exact filterMap_of_map shown
    | some place =>
      refine Eq.trans (blind.unlink ?_) (filterMap_of_map shown)
      intro rib found
      obtain ⟨rib', found', unseen⟩ := gone place del
      have there := congrArg (·[place]?) shown
      simp only [List.getElem?_map, found, found', Option.map_some, Option.some.injEq] at there
      exact there.trans unseen

end Bgpd.RibQueue
