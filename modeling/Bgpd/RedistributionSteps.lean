import Bgpd.RedistributionChains

/-!
# What the operations on the tables leave of it

Most operations neither select a route nor take one from the kernel: they add a
route to a chain that then waits, mark one, or queue a prefix. What a client knew of
the selected routes it still knows.
-/

namespace Bgpd.Redistribution

open Octets FlagWord Prefixes ZebraRib RibQueue RibRoutes StaticRoutes
open Function (update update_of_ne update_self)

variable (p : Prefix) (z : Zebra) {rib : Rib}

/-! ## The queue -/

/-- The prefix waits in some sub-queue. -/
def Waits (z : Zebra) (p : Prefix) : Prop := ∃ q, p ∈ z.mq.subq q

/-- A prefix that is said to wait in a sub-queue does so. -/
def Marked (z : Zebra) : Prop :=
  ∀ p q, check (headStatus (z.nodes p).ribs) (ribRouteQueued q) = true → p ∈ z.mq.subq q

/-- The chains keep what they had and whatever waited still does. -/
structure Grows (z z' : Zebra) : Prop where
  chains : ∀ p, List.Forall₂ Keeps (z.nodes p).ribs (z'.nodes p).ribs
  waits : ∀ q p, p ∈ z.mq.subq q → p ∈ z'.mq.subq q
  marked : Marked z → Marked z'

theorem keeps_refl (ribs : List Rib) : List.Forall₂ Keeps ribs ribs := by
  induction ribs with
  | nil => exact .nil
  | cons rib rest ih => exact .cons (Keeps.refl rib) ih

theorem keeps_trans {first second third : List Rib} (before : List.Forall₂ Keeps first second)
    (after : List.Forall₂ Keeps second third) : List.Forall₂ Keeps first third := by
  induction before generalizing third with
  | nil => exact after
  | cons head rest ih =>
    cases after with
    | cons head' rest' => exact .cons (head.trans head') (ih rest')

theorem Grows.refl : Grows z z :=
  ⟨fun _ => keeps_refl _, fun _ _ inside => inside, fun marked => marked⟩

theorem Grows.trans {z z' z'' : Zebra} (first : Grows z z') (second : Grows z' z'') :
    Grows z z'' where
  chains p := keeps_trans (first.chains p) (second.chains p)
  waits q p inside := second.waits q p (first.waits q p inside)
  marked held := second.marked (first.marked held)

/-- One node is exchanged for one whose chain keeps what it had. -/
theorem Grows.update {z : Zebra} {p : Prefix} {node : RouteNode}
    (kept : List.Forall₂ Keeps (z.nodes p).ribs node.ribs)
    (status : headStatus node.ribs = headStatus (z.nodes p).ribs) :
    Grows z { z with nodes := update z.nodes p node } where
  chains other := by
    dsimp only
    by_cases here : other = p
    · subst here
      rw [update_self]
      exact kept
    · rw [update_of_ne here]
      exact keeps_refl _
  waits _ _ inside := inside
  marked held other q bit := by
    dsimp only at bit
    by_cases here : other = p
    · subst here
      rw [update_self, status] at bit
      exact held other q bit
    · rw [update_of_ne here] at bit
      exact held other q bit

theorem relock_grows (f : Nat → Nat) (p : Prefix) (z : Zebra) : Grows z (relock f p z) :=
  Grows.update (keeps_refl _) rfl

@[simp] theorem ribs_relock (f : Nat → Nat) (p : Prefix) (z : Zebra) (p' : Prefix) :
    ((relock f p z).nodes p').ribs = (z.nodes p').ribs := by
  unfold relock
  dsimp only
  by_cases same : p' = p
  · subst same
    rw [update_self]
  · rw [update_of_ne same]

theorem keeps_markHead (f : U8 → U8) (ribs : List Rib) :
    List.Forall₂ Keeps ribs (markHead f ribs) := by
  cases ribs with
  | nil => exact .nil
  | cons head rest =>
    exact .cons ⟨⟨fun held => held, rfl, rfl, fun new => new⟩, fun held => held⟩ (keeps_refl rest)

/-- One turn of queueing. A prefix with routes waits in the sub-queue afterwards. -/
theorem queueOne_grows (q : Fin 5) :
    Grows z (queueOne p z q) ∧ (Marked z → p ∈ (queueOne p z q).mq.subq q) := by
  unfold queueOne
  dsimp only
  split
  · rename_i queued
    exact ⟨Grows.refl z, fun marked => marked p q queued⟩
  · have grows : ∀ q' other, other ∈ update z.mq.subq q (z.mq.subq q ++ [p]) q' ↔
        other ∈ z.mq.subq q' ∨ q' = q ∧ other = p := by
      intro q' other
      by_cases same : q' = q
      · subst same
        simp
      · simp [same]
    refine ⟨⟨?_, fun q' other inside => (grows q' other).mpr (Or.inl inside), ?_⟩,
      fun _ => (grows q p).mpr (Or.inr ⟨rfl, rfl⟩)⟩
    · intro other
      by_cases here : other = p
      · subst here
        dsimp only
        rw [update_self]
        exact keeps_markHead (set · (ribRouteQueued q)) _
      · dsimp only
        rw [update_of_ne here]
        exact keeps_refl _
    · intro marked other q' bit
      refine (grows q' other).mpr ?_
      by_cases here : other = p
      · subst here
        dsimp only at bit
        rw [update_self] at bit
        by_cases empty : (z.nodes other).ribs = []
        · rw [empty] at bit
          simp [headStatus, markHead, check] at bit
        · rw [headStatus_markHead empty, check_set, check_queued, Bool.or_eq_true] at bit
          rcases bit with before | now
          · exact Or.inl (marked other q' before)
          · exact Or.inr ⟨(of_decide_eq_true now).symm, rfl⟩
      · dsimp only at bit
        rw [update_of_ne here] at bit
        exact Or.inl (marked other q' bit)

theorem queueAll_grows (qs : List (Fin 5)) (z : Zebra) :
    Grows z (qs.foldl (queueOne p) z) ∧
      (Marked z → ∀ q ∈ qs, p ∈ (qs.foldl (queueOne p) z).mq.subq q) := by
  induction qs generalizing z with
  | nil => exact ⟨Grows.refl z, fun _ _ => nofun⟩
  | cons q qs ih =>
    obtain ⟨first, here⟩ := queueOne_grows p z q
    obtain ⟨later, there⟩ := ih (queueOne p z q)
    refine ⟨first.trans later, ?_⟩
    intro marked q' inside
    rcases List.mem_cons.mp inside with rfl | inside
    · exact later.waits q' p (here marked)
    · exact there (first.marked marked) q' inside

/-- Queueing a prefix. -/
theorem ribQueueAdd_grows :
    Grows z (ribQueueAdd p z) ∧
      (Marked z → (z.nodes p).ribs ≠ [] → Waits (ribQueueAdd p z) p) := by
  obtain ⟨grows, waits⟩ := queueAll_grows p
    ((z.nodes p).ribs.map fun rib => metaQueueMap rib.type) { z with ribq := true }
  refine ⟨⟨grows.chains, grows.waits, grows.marked⟩, ?_⟩
  intro marked filled
  obtain ⟨rib, inside⟩ := List.exists_mem_of_ne_nil _ filled
  exact ⟨_, waits marked _ (List.mem_map_of_mem inside)⟩

theorem ribUpdate_grows (walk : List Prefix) (z : Zebra) : Grows z (ribUpdate walk z) := by
  unfold ribUpdate
  induction walk generalizing z with
  | nil => exact Grows.refl z
  | cons p walk ih =>
    rw [List.foldl_cons]
    split
    · exact ih z
    · exact (ribQueueAdd_grows p z).1.trans (ih _)

/-! ## One route of a chain -/

variable {ribs : List Rib} {f : Rib → Rib} {place : Nat}

theorem forall₂_modify {R : Rib → Rib → Prop} (refl : ∀ rib, R rib rib)
    (here : ∀ rib, ribs[place]? = some rib → R rib (f rib)) :
    List.Forall₂ R ribs (ribs.modify place f) := by
  refine List.forall₂_iff_get.mpr ⟨(List.length_modify f ribs place).symm, ?_⟩
  intro i inside inside'
  simp only [List.get_eq_getElem, List.getElem_modify]
  split
  · rename_i same
    subst same
    exact here _ (List.getElem?_eq_getElem inside)
  · exact refl _

theorem headStatus_modify_of (status : ∀ rib, (f rib).rnStatus = rib.rnStatus) (ribs : List Rib)
    (place : Nat) : headStatus (ribs.modify place f) = headStatus ribs := by
  rcases ribs with _ | ⟨head, rest⟩
  · cases place <;> rfl
  · cases place with
    | zero => exact status head
    | succ place => rfl

theorem modifyRib_grows (status : ∀ rib, (f rib).rnStatus = rib.rnStatus) {p : Prefix} {z : Zebra}
    (here : ∀ rib, (z.nodes p).ribs[place]? = some rib → Keeps rib (f rib)) :
    Grows z (modifyRib p place f z) :=
  Grows.update (forall₂_modify Keeps.refl here) (headStatus_modify_of status _ place)

theorem remove_keeps (rib : Rib) : Keeps rib (Rib.remove rib) :=
  ⟨⟨fun held => held, rfl, rfl, fun new => new⟩, fun held => held⟩

theorem ribDelnode_grows (place : Nat) (z : Zebra) : Grows z (ribDelnode p place z) := by
  have removed : Grows z (modifyRib p place Rib.remove z) :=
    modifyRib_grows (f := Rib.remove) (fun _ => rfl) fun rib _ => remove_keeps rib
  exact removed.trans (ribQueueAdd_grows p _).1

/-! ## What clients know stays right -/

/-- Whoever was informed is informed afterwards. -/
structure Passes (z z' : Zebra) : Prop where
  marked : Marked z → Marked z'
  sane : Marked z → ∀ p, Sane (z.nodes p).ribs (Waits z p) → Sane (z'.nodes p).ribs (Waits z' p)
  informed : Marked z → ∀ p told type, Informed told type (z.nodes p).ribs (Waits z p) →
    Informed told type (z'.nodes p).ribs (Waits z' p)

theorem Passes.trans {z z' z'' : Zebra} (first : Passes z z') (second : Passes z' z'') :
    Passes z z'' where
  marked held := second.marked (first.marked held)
  sane held p sane := second.sane (first.marked held) p (first.sane held p sane)
  informed held p told type informed :=
    second.informed (first.marked held) p told type (first.informed held p told type informed)

theorem Grows.longer {z z' : Zebra} (grows : Grows z z') {p : Prefix} (waits : Waits z p) :
    Waits z' p := by
  obtain ⟨q, inside⟩ := waits
  exact ⟨q, grows.waits q p inside⟩

theorem Grows.passes {z z' : Zebra} (grows : Grows z z') : Passes z z' where
  marked := grows.marked
  sane _ p sane :=
    sane.fades ((grows.chains p).imp fun _ _ kept => kept.toFades) grows.longer
  informed _ p _ _ informed := informed.keeps (grows.chains p) grows.longer

/-- A new route is linked. -/
theorem ribLink_passes (clear : rib.rnStatus = 0) (new : fresh rib = true) (z : Zebra) :
    Passes z (ribLink p rib z) := by
  have pushed : Marked z → Marked { z with
      nodes := update z.nodes p
        { lock := (z.nodes p).lock + 1, ribs := pushRib rib (z.nodes p).ribs } } := by
    intro marked other q bit
    by_cases here : other = p
    · subst here
      dsimp only at bit
      rw [update_self, headStatus_pushRib] at bit
      split at bit
      · rw [clear] at bit
        simp [check] at bit
      · exact marked other q bit
    · dsimp only at bit
      rw [update_of_ne here] at bit
      exact marked other q bit
  obtain ⟨grows, waits⟩ := ribQueueAdd_grows p { z with
    nodes := update z.nodes p
      { lock := (z.nodes p).lock + 1, ribs := pushRib rib (z.nodes p).ribs } }
  have queued (marked : Marked z) : Waits (ribLink p rib z) p := by
    refine waits (pushed marked) ?_
    dsimp only
    rw [update_self]
    exact List.ne_nil_of_length_pos (by rw [pushRib_length]; omega)
  have here :
      List.Forall₂ Keeps (pushRib rib (z.nodes p).ribs) ((ribLink p rib z).nodes p).ribs := by
    have kept := grows.chains p
    dsimp only at kept
    rw [update_self] at kept
    exact kept
  have there (other : Prefix) (apart : other ≠ p) :
      List.Forall₂ Keeps (z.nodes other).ribs ((ribLink p rib z).nodes other).ribs := by
    have kept := grows.chains other
    dsimp only at kept
    rw [update_of_ne apart] at kept
    exact kept
  have still (other : Prefix) (waits : Waits z other) : Waits (ribLink p rib z) other :=
    grows.longer waits
  -- the route in front of the chain, whatever state it takes over
  have front : ∃ first : Rib, fresh first = true ∧
      pushRib rib (z.nodes p).ribs = first :: (z.nodes p).ribs := by
    cases (z.nodes p).ribs with
    | nil => exact ⟨rib, new, rfl⟩
    | cons head rest => exact ⟨{ rib with rnStatus := head.rnStatus }, new, rfl⟩
  obtain ⟨first, new', shape⟩ := front
  rw [shape] at here
  refine ⟨fun marked => grows.marked (pushed marked), ?_, ?_⟩
  · intro marked other sane
    by_cases same : other = p
    · subst same
      exact (sane.cons new').fades (here.imp fun _ _ kept => kept.toFades) fun _ => queued marked
    · exact sane.fades ((there other same).imp fun _ _ kept => kept.toFades) (still other)
  · intro marked other told type informed
    by_cases same : other = p
    · subst same
      exact (informed.cons new').keeps here fun _ => queued marked
    · exact informed.keeps (there other same) (still other)

theorem linkReplacing_passes (clear : rib.rnStatus = 0) (new : fresh rib = true) (same : Option Nat)
    (z : Zebra) : Passes z (linkReplacing p rib same z) := by
  unfold linkReplacing
  cases same with
  | none => exact ribLink_passes p clear new z
  | some place =>
    exact (ribLink_passes p clear new z).trans (ribDelnode_grows p (place + 1) _).passes

/-! ## Additions -/

/-- A new route none of whose next hops carries a flag. -/
def Unmarked (rib : Rib) : Prop := ∀ hop ∈ rib.nexthop, hop.flags = 0

theorem fresh_kernelHops (unmarked : Unmarked rib) : fresh (kernelHops rib) = true := by
  unfold kernelHops fresh
  split
  · rename_i system
    rw [List.all_eq_true]
    intro hop inside
    obtain ⟨hop', there, rfl⟩ := List.mem_map.mp inside
    have kernel : ({ rib with nexthop := rib.nexthop.map fun hop =>
        { hop with flags := set hop.flags nexthopFlagFib } } : Rib).systemRoute = true := system
    rw [kernel]
    dsimp only
    rw [unmarked hop' there]
    decide
  · rw [List.all_eq_true]
    intro hop inside
    rw [unmarked hop inside]
    simp [check]

theorem kernelHops_rnStatus (rib : Rib) : (kernelHops rib).rnStatus = rib.rnStatus := by
  unfold kernelHops
  split <;> rfl

theorem ribAddIpv4Multipath_passes (beyond : U8) (p : Prefix) (clear : rib.rnStatus = 0)
    (unmarked : Unmarked rib) (z : Zebra) : Passes z (ribAddIpv4Multipath beyond p rib z) := by
  unfold ribAddIpv4Multipath
  refine ((relock_grows (· + 1) p z).passes.trans (linkReplacing_passes p ?_ ?_ _ _)).trans
    (relock_grows (· - 1) p _).passes
  · rw [kernelHops_rnStatus]
    split <;> exact clear
  · apply fresh_kernelHops
    split <;> exact unmarked

theorem rib_unmarked (beyond : U8) (route : Ipv4Route) :
    (route.rib beyond).rnStatus = 0 ∧ fresh (route.rib beyond) = true := by
  unfold Ipv4Route.rib
  refine ⟨?_, fresh_kernelHops ?_⟩
  · rw [kernelHops_rnStatus]
    split
    · split <;> rfl
    · rfl
  · intro hop inside
    split at inside
    · split at inside
      · rw [List.mem_singleton.mp inside]
      · rw [List.mem_singleton.mp inside]
    · rw [List.mem_singleton.mp inside]

theorem ribAddIpv4_passes (beyond : U8) (p : Prefix) (route : Ipv4Route) (z : Zebra) :
    Passes z (ribAddIpv4 beyond p route z) := by
  obtain ⟨clear, new⟩ := rib_unmarked beyond route
  have locked := (relock_grows (· + 1) p z).passes
  unfold ribAddIpv4
  dsimp only
  split
  · refine locked.trans (modifyRib_grows (f := fun rib => { rib with refcnt := rib.refcnt + 1 })
      (fun _ => rfl) ?_).passes
    intro rib _
    exact ⟨⟨fun held => held, rfl, rfl, fun new => new⟩, fun held => held⟩
  · exact (locked.trans (linkReplacing_passes p clear new _ _)).trans
      (relock_grows (· - 1) p _).passes
  · exact (locked.trans (linkReplacing_passes p clear new _ _)).trans
      (relock_grows (· - 1) p _).passes

/-! ## Deletions -/

/-- The route that a deletion from the kernel takes for the one that the kernel lost,
because it finds no other. -/
def lost (type : RouteType) (gate : Option U32) (ifindex : U32) (ribs : List Rib) : Option Rib :=
  match findDeleted type gate ifindex 0 none ribs with
  | .missing (some fib) => if type = .kernel then ribs[fib]? else none
  | .missing none => none
  | .same _ => none
  | .dereference _ => none

theorem forgetFib_fades (rib : Rib) :
    Fades rib (forgetFib rib) ∧ (forgetFib rib).selected = false := by
  have off : (forgetFib rib).selected = false := selected_unset rib.flags
  refine ⟨⟨?_, rfl, rfl, ?_⟩, off⟩
  · intro held
    rw [off] at held
    cases held
  · intro new
    refine List.all_eq_true.mpr ?_
    intro hop inside
    obtain ⟨hop', there, rfl⟩ := List.mem_map.mp inside
    have calm := List.all_eq_true.mp new hop' there
    have system : (forgetFib rib).systemRoute = rib.systemRoute := rfl
    rw [system]
    simp only [check_unset, Bool.and_eq_true, Bool.not_eq_true', Bool.or_eq_true] at calm ⊢
    refine ⟨?_, Or.inr ?_⟩
    · rw [show nexthopFlagActive &&& ~~~nexthopFlagFib = nexthopFlagActive by decide]
      exact calm.1
    · rw [show nexthopFlagFib &&& ~~~nexthopFlagFib = 0#8 by decide]
      simp [check]

variable {type : RouteType}
variable {gate : Option U32} {ifindex : U32}

/-- A deletion that does not take a route for the lost one. -/
theorem ribDeleteIpv4_passes {p : Prefix} {z : Zebra}
    (kept : lost type gate ifindex (z.nodes p).ribs = none) :
    Passes z (ribDeleteIpv4 type p gate ifindex z) := by
  have locked := relock_grows (· + 1) p z
  have same : ((relock (· + 1) p z).nodes p).ribs = (z.nodes p).ribs := ribs_relock _ p z p
  unfold ribDeleteIpv4
  split
  · exact (Grows.refl z).passes
  · dsimp only
    rw [same]
    unfold lost at kept
    split
    · refine ((locked.trans (modifyRib_grows (f := fun rib => { rib with refcnt := rib.refcnt - 1 })
        (fun _ => rfl) ?_)).trans (relock_grows (· - 2) p _)).passes
      intro rib _
      exact ⟨⟨fun held => held, rfl, rfl, fun new => new⟩, fun held => held⟩
    · exact ((locked.trans (ribDelnode_grows p _ _)).trans (relock_grows (· - 1) p _)).passes
    · rename_i fib found
      rw [found] at kept
      dsimp only at kept
      split
      · rename_i kernel
        rw [if_pos kernel] at kept
        refine ((locked.trans (modifyRib_grows (f := forgetFib) (fun _ => rfl) ?_)).trans
          (relock_grows (· - 1) p _)).passes
        intro rib there
        rw [same, kept] at there
        cases there
      · exact (locked.trans (relock_grows (· - 1) p _)).passes
    · exact (locked.trans (relock_grows (· - 1) p _)).passes

variable {told : Bool}

/-- A route of another kind than the client was told of is not selected any more. -/
theorem Informed.forget {waits : Prop} (informed : Informed told type ribs waits)
    (there : ribs[place]? = some rib) (untold : rib.type = type → told = false)
    (fades : ∀ rib, Fades rib (f rib)) : Informed told type (ribs.modify place f) waits := by
  cases told with
  | false =>
    exact informed.fades (forall₂_modify Fades.refl fun rib _ => fades rib) fun waits => waits
  | true =>
    refine ⟨fun held => ?_, nofun⟩
    obtain ⟨other, inside, selected, kind, near⟩ := informed.sound held
    obtain ⟨i, found⟩ := List.mem_iff_getElem?.mp inside
    have apart : place ≠ i := by
      rintro rfl
      obtain rfl := Option.some.inj (there.symm.trans found)
      cases untold kind
    refine ⟨other, List.mem_iff_getElem?.mpr ⟨i, ?_⟩, selected, kind, near⟩
    rw [List.getElem?_modify, found]
    simp [apart]

/-- One route of a chain may not be selected any more. -/
theorem modifyRib_fades (status : ∀ rib, (f rib).rnStatus = rib.rnStatus)
    (fades : ∀ rib, Fades rib (f rib)) (p : Prefix) (place : Nat) (z : Zebra) :
    (Marked z → Marked (modifyRib p place f z)) ∧
      ∀ p', Sane (z.nodes p').ribs (Waits z p') →
        Sane ((modifyRib p place f z).nodes p').ribs (Waits (modifyRib p place f z) p') := by
  constructor
  · intro marked p' q bit
    unfold modifyRib at bit
    dsimp only at bit
    by_cases same : p' = p
    · subst same
      rw [update_self, headStatus_modify_of status] at bit
      exact marked p' q bit
    · rw [update_of_ne same] at bit
      exact marked p' q bit
  · intro p' sane
    unfold modifyRib
    dsimp only
    by_cases same : p' = p
    · subst same
      rw [update_self]
      exact sane.fades (forall₂_modify Fades.refl fun rib _ => fades rib) fun waits => waits
    · rw [update_of_ne same]
      exact sane

theorem ribs_modifyRib (f : Rib → Rib) (p : Prefix) (place : Nat) (z : Zebra) (p' : Prefix) :
    ((modifyRib p place f z).nodes p').ribs =
      if p' = p then (z.nodes p').ribs.modify place f else (z.nodes p').ribs := by
  unfold modifyRib
  dsimp only
  by_cases same : p' = p
  · subst same
    rw [update_self, if_pos rfl]
  · rw [update_of_ne same, if_neg same]

/-- The kernel deletion in which a route is taken for the lost one. -/
theorem ribDeleteIpv4_lost {p : Prefix} {z : Zebra} {fib : Rib}
    (taken : lost type gate ifindex (z.nodes p).ribs = some fib) :
    ∃ place, (z.nodes p).ribs[place]? = some fib ∧
      ribDeleteIpv4 type p gate ifindex z =
        relock (· - 1) p (modifyRib p place forgetFib (relock (· + 1) p z)) := by
  unfold lost at taken
  split at taken
  · rename_i place found
    split at taken
    · rename_i kernel
      have filled : ¬ (z.nodes p).ribs.isEmpty = true := by
        intro none
        rw [List.isEmpty_iff.mp none] at taken
        cases taken
      refine ⟨place, taken, ?_⟩
      unfold ribDeleteIpv4
      rw [if_neg filled]
      dsimp only
      rw [ribs_relock, found]
      dsimp only
      rw [if_pos kernel]
    · cases taken
  · cases taken
  · cases taken
  · cases taken

/-! ## Static routes -/

theorem addIpv4Way_keeps (rib : Rib) (way : Ipv4Way) :
    Keeps rib (addIpv4Way rib way) ∧ (addIpv4Way rib way).rnStatus = rib.rnStatus := by
  have longer (system : Bool) (hop : Nexthop) (clear : hop.flags = 0) (hops : List Nexthop)
      (calm : (hops.all fun hop => !check hop.flags nexthopFlagActive &&
        (system || !check hop.flags nexthopFlagFib)) = true) :
      ((hops ++ [hop]).all fun hop => !check hop.flags nexthopFlagActive &&
        (system || !check hop.flags nexthopFlagFib)) = true := by
    rw [List.all_append, calm]
    simp [clear, check]
  cases way with
  | gateway gate =>
    exact ⟨⟨⟨fun held => held, rfl, rfl, longer _ _ rfl _⟩, fun held => held⟩, rfl⟩
  | ifname ifname =>
    exact ⟨⟨⟨fun held => held, rfl, rfl, longer _ _ rfl _⟩, fun held => held⟩, rfl⟩
  | blackhole =>
    have same : (addIpv4Way rib .blackhole).selected = rib.selected := by
      show check (set rib.flags zebraFlagBlackhole) zebraFlagSelected = _
      rw [check_set, show check zebraFlagBlackhole zebraFlagSelected = false by decide,
        Bool.or_false]
      rfl
    exact ⟨⟨⟨fun held => same ▸ held, rfl, rfl, longer _ _ rfl _⟩, fun held => same ▸ held⟩, rfl⟩

theorem staticInstallIpv4_passes (si : StaticRoute Ipv4Way) (z : Zebra) :
    Passes z (staticInstallIpv4 p si z) := by
  have locked := relock_grows (· + 1) p z
  unfold staticInstallIpv4 staticInstall
  dsimp only
  split
  · refine ((locked.trans (relock_grows (· - 1) p _)).trans
      ((modifyRib_grows (f := (addIpv4Way · si.way)) ?_ ?_).trans (ribQueueAdd_grows p _).1)).passes
    · exact fun rib => (addIpv4Way_keeps rib si.way).2
    · exact fun rib _ => (addIpv4Way_keeps rib si.way).1
  · refine locked.passes.trans (ribLink_passes p ?_ ?_ _)
    · exact (addIpv4Way_keeps _ si.way).2
    · unfold newStatic addIpv4Way fresh
      cases si.way <;> simp [nexthopIpv4Add, nexthopIfnameAdd, nexthopBlackholeAdd,
        nexthopAdd, check]

theorem nexthopDelete_keeps (rib : Rib) (hop : Nat) : Keeps rib (nexthopDelete rib hop) := by
  refine ⟨⟨fun held => held, rfl, rfl, fun new => List.all_eq_true.mpr ?_⟩, fun held => held⟩
  intro hop' inside
  exact List.all_eq_true.mp new hop' (List.mem_of_mem_eraseIdx inside)

variable {hop : Nat}

/-- A hop goes that the kernel has not taken, or one of a route that is not selected. -/
theorem dropHop_keeps
    (kept : ((rib.nexthop[hop]?).any (check ·.flags nexthopFlagFib) && rib.selected) = false) :
    Keeps rib (dropHop hop rib) := by
  unfold dropHop
  split
  · rename_i taken
    rw [taken, Bool.true_and] at kept
    unfold ribUninstall
    rw [kept]
    exact nexthopDelete_keeps rib hop
  · exact nexthopDelete_keeps rib hop

theorem dropHop_fades (hop : Nat) (rib : Rib) :
    Fades rib (dropHop hop rib) ∧ (dropHop hop rib).rnStatus = rib.rnStatus := by
  have uninstalled : Fades rib (ribUninstall rib) ∧ (ribUninstall rib).rnStatus = rib.rnStatus := by
    unfold ribUninstall
    split
    · dsimp only
      split
      · rename_i selected _
        exact ⟨⟨fun _ => selected, rfl, rfl, fun new => new⟩, rfl⟩
      · rename_i selected _
        exact ⟨⟨fun _ => selected, rfl, rfl, (forgetFib_fades rib).1.fresh⟩, rfl⟩
    · exact ⟨Fades.refl rib, rfl⟩
  unfold dropHop
  split
  · obtain ⟨fades, status⟩ := uninstalled
    have kept := nexthopDelete_keeps (ribUninstall rib) hop
    exact ⟨⟨fun held => fades.selected (kept.selected held), kept.type.trans fades.type,
      kept.distance.trans fades.distance, fun new => kept.fresh (fades.fresh new)⟩, status⟩
  · exact ⟨(nexthopDelete_keeps rib hop).toFades, rfl⟩

/-- A route loses a hop that the kernel has taken. -/
theorem dropHop_off (taken : (rib.nexthop[hop]?).any (check ·.flags nexthopFlagFib) = true)
    (selected : rib.selected = true) : (dropHop hop rib).selected = false := by
  unfold dropHop
  rw [if_pos taken]
  unfold ribUninstall
  rw [if_pos selected]
  exact selected_unset _

/-- A static route with a hop that the kernel has taken is not a new one. -/
theorem steady_of_taken (taken : (rib.nexthop[hop]?).any (check ·.flags nexthopFlagFib) = true)
    (static : rib.type = .static) : fresh rib = false := by
  cases found : rib.nexthop[hop]? with
  | none =>
    rw [found] at taken
    cases taken
  | some hop' =>
    rw [found, Option.any_some] at taken
    apply Bool.eq_false_of_not_eq_true
    intro new
    have calm := List.all_eq_true.mp new hop' (List.mem_of_getElem? found)
    have system : rib.systemRoute = false := by simp [Rib.systemRoute, static]
    rw [taken, system] at calm
    simp at calm

variable {si : StaticRoute Ipv4Way}

theorem findHop_static (found : findHop staticIpv4NexthopSame si ribs = some (place, hop))
    (there : ribs[place]? = some rib) : rib.type = .static := by
  unfold findHop at found
  obtain ⟨place', here, found⟩ := Option.bind_eq_some_iff.mp found
  obtain ⟨rib', _, found⟩ := Option.bind_eq_some_iff.mp found
  obtain ⟨hop', _, same⟩ := Option.bind_eq_some_iff.mp found
  obtain ⟨rfl, _⟩ := Prod.mk.inj (Option.some.inj same)
  obtain ⟨inside, static, _⟩ := List.findIdx?_eq_some_iff_getElem.mp here
  rw [List.getElem?_eq_getElem inside] at there
  rw [Option.some.inj there] at static
  unfold staticOf at static
  simp only [Bool.and_eq_true, decide_eq_true_eq] at static
  exact static.1.2

/-- A static route that loses no hop to the kernel. -/
theorem staticUninstallIpv4_passes {p : Prefix} {z : Zebra}
    (kept : uninstalled si (z.nodes p).ribs = none) : Passes z (staticUninstallIpv4 p si z) := by
  have locked := relock_grows (· + 1) p z
  unfold staticUninstallIpv4 staticUninstall
  split
  · exact (Grows.refl z).passes
  · dsimp only
    rw [ribs_relock]
    unfold uninstalled at kept
    refine Passes.trans ?_ (relock_grows (· - 1) p _).passes
    split
    · exact locked.passes
    · rename_i place hop found
      rw [found] at kept
      dsimp only at kept
      split
      · exact (locked.trans (ribDelnode_grows p place _)).passes
      · rename_i more
        rw [if_neg more, Option.filter_eq_none_iff] at kept
        refine (locked.trans ((modifyRib_grows (f := dropHop hop) ?_ ?_).trans
          (ribQueueAdd_grows p _).1)).passes
        · exact fun rib => (dropHop_fades hop rib).2
        · intro rib there
          rw [ribs_relock] at there
          exact dropHop_keeps (Bool.eq_false_of_not_eq_true (kept rib there))

/-- A static route that does. -/
theorem staticUninstallIpv4_taken {p : Prefix} {z : Zebra}
    (taken : uninstalled si (z.nodes p).ribs = some rib) :
    ∃ place hop, (z.nodes p).ribs[place]? = some rib ∧ Steady rib ∧
      (dropHop hop rib).selected = false ∧
      staticUninstallIpv4 p si z =
        relock (· - 1) p (ribQueueAdd p (modifyRib p place (dropHop hop)
          (relock (· + 1) p z))) := by
  unfold uninstalled at taken
  split at taken
  · cases taken
  · rename_i place hop found
    split at taken
    · cases taken
    · rename_i more
      obtain ⟨there, kernel⟩ := Option.filter_eq_some_iff.mp taken
      rw [Bool.and_eq_true] at kernel
      have filled : ¬ (z.nodes p).ribs.isEmpty = true := by
        intro none
        rw [List.isEmpty_iff.mp none] at there
        cases there
      refine ⟨place, hop, there, ⟨kernel.2, steady_of_taken kernel.1 (findHop_static found there)⟩,
        dropHop_off kernel.1 kernel.2, ?_⟩
      unfold staticUninstallIpv4 staticUninstall
      rw [if_neg filled]
      dsimp only
      rw [ribs_relock, found]
      dsimp only
      rw [if_neg more]

/-- The only route that is not a new one is withdrawn, and told of. -/
theorem Informed.withdraw {waits : Prop} (informed : Informed told type ribs waits)
    (sane : Sane ribs waits) (there : ribs[place]? = some rib) (steady : Steady rib)
    (fades : ∀ rib, Fades rib (f rib)) (off : (f rib).selected = false) :
    Informed (tellAll type told [.redistributeDelete rib]) type (ribs.modify place f) waits := by
  obtain ⟨selected, old⟩ := steady
  have near : rib.distance ≠ distanceInfinity := by
    intro far
    rw [(sane.far rib (List.mem_of_getElem? there) selected far).1] at old
    cases old
  show Informed (if rib.distance ≠ distanceInfinity ∧ rib.type = type then false else told) _ _ _
  by_cases kind : rib.type = type
  · rw [if_pos ⟨near, kind⟩]
    refine ⟨nofun, fun _ other inside selected' kind' => ?_⟩
    obtain ⟨i, found⟩ := List.mem_iff_getElem?.mp inside
    rw [List.getElem?_modify] at found
    obtain ⟨before, there', same⟩ := Option.map_eq_some_iff.mp found
    have apart : place ≠ i := by
      rintro rfl
      obtain rfl := Option.some.inj (there.symm.trans there')
      rw [if_pos rfl] at same
      rw [← same, off] at selected'
      cases selected'
    rw [if_neg apart] at same
    subst same
    constructor
    · cases new : fresh before with
      | true => rfl
      | false =>
        exact absurd (sane.one place i rib before there there' ⟨selected, old⟩ ⟨selected', new⟩)
          apart
    · by_contra still
      exact apart (sane.crowd still place i rib before there there' selected selected')
  · rw [if_neg fun held => kind held.2]
    exact informed.forget there (fun same => absurd same kind) fades

end Bgpd.Redistribution
