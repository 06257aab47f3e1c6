import Bgpd.Ledger
import Bgpd.Reaping

/-!
# The references of routes

A call that changes a node's routes locks the node and interns attributes or parts of
them. What it does not give back it hands to a route, which has a lock of its node and its
attributes until it is reaped. The ledger is kept for each node on its own, so that a
node's routes of a kind account for what is left there of the references taken for them.

A waiting item of a queue has a lock too, which is not counted here: it goes with an item of
the main queue, and stays behind one of the queue of the clients' tables.
-/

namespace Bgpd.References

open Attributes Rib Processing Evolution Outcome Standing Reaping

variable {β : Type} [DecidableEq β]

/-- What is referred to: a node, or something interned for a route of the node. -/
inductive Ref (β : Type)
  | node (rn : Node)
  | interned (rn : Node) (value : β)
  deriving DecidableEq

/-- The node a reference is for. -/
def Ref.about : Ref β → Node
  | .node rn => rn
  | .interned rn _ => rn

variable (part : Attr → β)

/-- The references of a route. -/
def routeRefs (rn : Node) (ri : BgpInfo) : List (Ref β) := [.node rn, .interned rn (part ri.attr)]

/-- The references of what a node shows. -/
def held (rn : Node) : Option BgpInfo → Ledger (Ref β)
  | none => 0
  | some ri => holding (routeRefs part rn ri)

/-- The routes of a kind that went from a node. -/
def reaped (mine : BgpInfo → Bool) (before after : List BgpInfo) : List BgpInfo :=
  before.filter fun ri => mine ri && after.all fun ri' => ri'.id ≠ ri.id

/-- `bgp_info_reap` of routes: their references are released. -/
def releaseRoutes (ledger : Ledger (Ref β)) (rn : Node) (routes : List BgpInfo) : Ledger (Ref β) :=
  routes.foldl (fun ledger ri => (routeRefs part rn ri).foldl giveBack ledger) ledger

/-- The ledger has for a node what the shown route holds. -/
def Accounts (ledger : Ledger (Ref β)) (rn : Node) (shown : Option BgpInfo) : Prop :=
  ∀ ref : Ref β, ref.about = rn → ledger ref = held part rn shown ref

section Accounts

variable {part} {ledger : Ledger (Ref β)} {rn : Node} {shown : Option BgpInfo}

/-- What a node's route holds is for that node. -/
theorem held_apart {ref : Ref β} (apart : ref.about ≠ rn) : held part rn shown ref = 0 := by
  cases shown with
  | none => rfl
  | some ri =>
    have node : ref ≠ .node rn := fun same => apart (same ▸ rfl)
    have value : ref ≠ .interned rn (part ri.attr) := fun same => apart (same ▸ rfl)
    simp [held, routeRefs, one_apart node, one_apart value]

/-- The node shows something else, and the ledger has the difference. -/
theorem Accounts.moved (accounts : Accounts part ledger rn shown) (shown' : Option BgpInfo) :
    Accounts part (ledger + held part rn shown' - held part rn shown) rn shown' := by
  intro ref about
  have before := accounts ref about
  simp only [Pi.add_apply, Pi.sub_apply, before]
  abel

/-- What happens at another node is not for this one. -/
theorem Accounts.apart (accounts : Accounts part ledger rn shown) {other : Node}
    (apart : rn ≠ other) (before after : Option BgpInfo) :
    Accounts part (ledger + held part other after - held part other before) rn shown := by
  intro ref about
  have outside : ref.about ≠ other := by rwa [about]
  simp [held_apart outside, accounts ref about]

/-- What a route holds depends on its attributes. -/
theorem held_congr {ri ri' : BgpInfo} (same : part ri'.attr = part ri.attr) :
    held part rn (some ri') = held part rn (some ri) := by
  simp [held, routeRefs, same]

end Accounts

section Reaped

variable {kind : Kind} {mine : BgpInfo → Bool} {s s' : State} {rn : Node} {shown : Option BgpInfo}

/-- A list without repetition whose members are all one has that one only. -/
theorem eq_singleton {routes : List BgpInfo} (distinct : routes.Nodup) {ri : BgpInfo}
    (member : ri ∈ routes) (only : ∀ other ∈ routes, other = ri) : routes = [ri] := by
  cases routes with
  | nil => exact absurd member List.not_mem_nil
  | cons first later =>
    obtain rfl := only first List.mem_cons_self
    cases later with
    | nil => rfl
    | cons second rest =>
      obtain rfl := only second (List.mem_cons_of_mem _ List.mem_cons_self)
      exact absurd List.mem_cons_self (List.nodup_cons.mp distinct).1

/-- Where a node shows afterwards what it showed, none of its routes was reaped. -/
theorem reaped_kept (decides : ∀ ri, mine ri = true ↔ kind.Of ri) (before : Shows kind s rn shown)
    (after : Shows kind s' rn shown) : reaped mine (s.infos rn) (s'.infos rn) = [] := by
  refine List.filter_eq_nil_iff.mpr fun ri member gone => ?_
  rw [Bool.and_eq_true] at gone
  obtain ⟨own, gone⟩ := gone
  obtain ⟨ri', member', -, same⟩ := after.held _ (before.only ri member ((decides ri).mp own))
  have apart := List.all_eq_true.mp gone ri' member'
  exact absurd (core_id same) (by simpa using apart)

/-- Where it shows nothing any more, its one route was. -/
theorem reaped_gone (decides : ∀ ri, mine ri = true ↔ kind.Of ri) (sound : Sound s) {c : BgpInfo}
    (before : Shows kind s rn (some c)) (after : Shows kind s' rn none)
    (processed : Processed rn s s') :
    ∃ ri, core ri = c ∧ reaped mine (s.infos rn) (s'.infos rn) = [ri] := by
  obtain ⟨ri, member, own, rfl⟩ := before.held c rfl
  refine ⟨ri, rfl, eq_singleton ?_ ?_ ?_⟩
  · exact (List.Nodup.of_map _ (sound.distinct rn)).filter _
  · refine List.mem_filter.mpr ⟨member, ?_⟩
    rw [(decides ri).mpr own, Bool.true_and, List.all_eq_true]
    intro ri' member'
    obtain ⟨origin, held, same⟩ := processed.origin ri' member'
    have name := core_id (Reflagged.core same)
    by_contra named
    have named' : ri'.id = ri.id := by simpa using named
    obtain rfl := sound.unique held member (named'.symm.trans name)
    cases after.only ri' member' ((core_of kind (Reflagged.core same)).mpr own)
  · intro other inside
    obtain ⟨member', gone⟩ := List.mem_filter.mp inside
    have own' := (decides other).mp (Bool.and_eq_true _ _ ▸ gone).1
    have same := Option.some.inj (before.only other member' own')
    exact sound.unique member member' (core_id same.symm)

end Reaped

/-! ## The queues -/

variable (env : Env) (mine : BgpInfo → Bool)

/-- What processing a node releases. -/
def releaseReaped (s s' : State) (rn : Node) (ledger : Ledger (Ref β)) : Ledger (Ref β) :=
  releaseRoutes part ledger rn (reaped mine (s.infos rn) (s'.infos rn))

/-- What a turn of the main queue releases. -/
def mainQueueRefs (s : State) (ledger : Ledger (Ref β)) : Ledger (Ref β) :=
  match s.mainQueue with
  | [] => ledger
  | rn :: _ => releaseReaped part mine s (runMainQueue env s) rn ledger

/-- What a turn of the queue of the route-server clients releases. -/
def rsclientQueueRefs (s : State) (ledger : Ledger (Ref β)) : Ledger (Ref β) :=
  match s.rsclientQueue with
  | [] => ledger
  | rn :: _ => releaseReaped part mine s (runRsclientQueue env s) rn ledger

/-- What a node showed before it is processed, and what it shows afterwards. -/
def Settled (shown shown' : Option BgpInfo) : Prop :=
  shown' = shown ∨ shown' = none ∧ ∃ c, shown = some c ∧ c.flags.removed = true

section Queues

variable {part mine} {kind : Kind} {s s' : State} {ledger : Ledger (Ref β)}
variable {rn : Node} {shown : Option BgpInfo}

/-- A step of the processing keeps the accounts of every node. -/
theorem processed_accounts (decides : ∀ ri, mine ri = true ↔ kind.Of ri) (sound : Sound s)
    {at' : Node} (processed : Processed at' s s') (outlives : Outlives at' s s')
    (shows : Shows kind s rn shown) (accounts : Accounts part ledger rn shown) :
    ∃ shown', Shows kind s' rn shown' ∧ Settled shown shown' ∧
      Accounts part (releaseReaped part mine s s' at' ledger) rn shown' := by
  by_cases here : rn = at'
  · subst here
    unfold releaseReaped
    rcases shows.stands (Stands.of_processed processed outlives) with same | ⟨gone, c, rfl, removed⟩
    · refine ⟨shown, same, Or.inl rfl, ?_⟩
      rw [reaped_kept decides shows same]
      exact accounts
    · obtain ⟨ri, same, only⟩ := reaped_gone decides sound shows gone processed
      refine ⟨none, gone, Or.inr ⟨rfl, c, rfl, removed⟩, ?_⟩
      have moved := accounts.moved none
      have attr : part c.attr = part ri.attr := by rw [← same]; rfl
      rw [held_congr attr] at moved
      have released : releaseRoutes part ledger rn [ri] =
          ledger + held part rn none - held part rn (some ri) := by
        simp only [releaseRoutes, List.foldl_cons, List.foldl_nil, routeRefs, held, holding_cons,
          holding_nil, giveBack]
        abel
      rw [only, released]
      exact moved
  · refine ⟨shown, shows.of_infos (processed.apart rn here), Or.inl rfl, ?_⟩
    intro ref about
    have apart : ref.about ≠ at' := by rwa [about]
    have kept : ∀ (routes : List BgpInfo) (ledger : Ledger (Ref β)),
        releaseRoutes part ledger at' routes ref = ledger ref := by
      intro routes
      induction routes with
      | nil => exact fun ledger => rfl
      | cons ri later ih =>
        intro ledger
        have none : held part at' (some ri) ref = 0 := held_apart apart
        refine (ih _).trans ?_
        simp only [held, routeRefs, holding_cons, holding_nil, Pi.add_apply, Pi.zero_apply] at none
        simp only [routeRefs, List.foldl_cons, List.foldl_nil, giveBack, Pi.sub_apply]
        omega
    unfold releaseReaped
    rw [kept]
    exact accounts ref about

theorem mainQueue_accounts (decides : ∀ ri, mine ri = true ↔ kind.Of ri) (sound : Sound s)
    (shows : Shows kind s rn shown) (accounts : Accounts part ledger rn shown) :
    ∃ shown', Shows kind (runMainQueue env s) rn shown' ∧ Settled shown shown' ∧
      Accounts part (mainQueueRefs part env mine s ledger) rn shown' := by
  cases queue : s.mainQueue with
  | nil =>
    have same : runMainQueue env s = s := by
      unfold runMainQueue
      rw [queue]
    refine ⟨shown, same.symm ▸ shows, Or.inl rfl, ?_⟩
    unfold mainQueueRefs
    rw [queue]
    exact accounts
  | cons at' later =>
    have run : runMainQueue env s = bgpProcessMain env { s with mainQueue := later } at' := by
      unfold runMainQueue
      rw [queue]
    have taken : Sound { s with mainQueue := later } := sound.queues later s.rsclientQueue
    unfold mainQueueRefs
    rw [queue, run]
    exact processed_accounts (s := { s with mainQueue := later }) decides taken
      (bgpProcessMain_processed env _ at') (bgpProcessMain_outlives env _ taken at')
      (shows.of_infos rfl) accounts

theorem rsclientQueue_accounts (decides : ∀ ri, mine ri = true ↔ kind.Of ri) (sound : Sound s)
    (shows : Shows kind s rn shown) (accounts : Accounts part ledger rn shown) :
    ∃ shown', Shows kind (runRsclientQueue env s) rn shown' ∧ Settled shown shown' ∧
      Accounts part (rsclientQueueRefs part env mine s ledger) rn shown' := by
  cases queue : s.rsclientQueue with
  | nil =>
    have same : runRsclientQueue env s = s := by
      unfold runRsclientQueue
      rw [queue]
    refine ⟨shown, same.symm ▸ shows, Or.inl rfl, ?_⟩
    unfold rsclientQueueRefs
    rw [queue]
    exact accounts
  | cons at' later =>
    have run :
        runRsclientQueue env s = bgpProcessRsclient env { s with rsclientQueue := later } at' := by
      unfold runRsclientQueue
      rw [queue]
    have taken : Sound { s with rsclientQueue := later } := sound.queues s.mainQueue later
    unfold rsclientQueueRefs
    rw [queue, run]
    exact processed_accounts (s := { s with rsclientQueue := later }) decides taken
      (bgpProcessRsclient_processed env _ at') (bgpProcessRsclient_outlives env _ taken at')
      (shows.of_infos rfl) accounts

end Queues

end Bgpd.References
