import Bgpd.RouterId

/-!
# The router-id over a run

A run is any sequence of addresses that come and go and of router-ids that are
configured and removed. Beside the lists it keeps what is really there: the
addresses that are present and the configured router-id. The lists mirror them,
and the router-id is the one to expect, as long as every new address finds its
place and no address leaves that another interface still has.
-/

namespace Bgpd.RouterId

open Octets Linklist

variable {lo : Bool} {l present : List Connected} {w : World}

/-! ## Runs -/

/-- What happens to the router-id. -/
inductive Event
  | add (ifc : Connected)
  | delete (ifc : Connected)
  | configure (addr : U32)
  | unconfigure

/-- The lists beside what they are about. -/
structure World where
  ids : RouterIds
  present : List Connected
  configured : Option U32

def World.start : World := ⟨routerIdInit, [], none⟩

/-- One event. -/
def World.step (w : World) : Event → World
  | .add ifc => { w with ids := (routerIdAddAddress w.ids ifc).1, present := ifc :: w.present }
  | .delete ifc =>
    { w with ids := (routerIdDelAddress w.ids ifc).1, present := w.present.filter (· ≠ ifc) }
  | .configure addr =>
    { w with
      ids := (routerIdCommand w.ids addr).1
      configured := if addr = 0 then w.configured else some addr }
  | .unconfigure => { w with ids := (noRouterId w.ids).1, configured := none }

/-- An interface address that may be a router-id, on the given kind of
interfaces. -/
def Eligible (lo : Bool) (ifc : Connected) : Prop :=
  routerIdBadAddress ifc = false ∧ ifc.isLo = lo

/-- A new address finds its place, or is listed already. -/
def Placed (w : World) (ifc : Connected) : Prop :=
  routerIdBadAddress ifc = false → routerIdFindNode (w.ids.list ifc.isLo) ifc = none →
    Comparable (w.ids.list ifc.isLo) ifc

/-- No other interface of the kind has the address that leaves. -/
def Unshared (w : World) (ifc : Connected) : Prop :=
  ∀ other ∈ w.present, other ≠ ifc → Eligible ifc.isLo other → routerIdBadAddress ifc = false →
    prefixSame ifc.address other.address = false

/-- The events that the lists can follow. -/
def Followed (w : World) : Event → Prop
  | .add ifc => Placed w ifc
  | .delete ifc => Unshared w ifc
  | .configure _ => True
  | .unconfigure => True

/-- The states of the runs whose events the lists can follow. -/
inductive Reached : World → Prop
  | start : Reached World.start
  | step {w : World} (event : Event) : Reached w → Followed w event → Reached (w.step event)

/-! ## What the router-id should be -/

/-- The addresses that one kind of interfaces offers. -/
def candidates (lo : Bool) (present : List Connected) : Set Nat :=
  {number | ∃ ifc ∈ present, Eligible lo ifc ∧ ifc.number = number}

/-- The router-id that the present addresses and the configuration call for. -/
inductive Selected (present : List Connected) : Option U32 → U32 → Prop
  | configured (addr : U32) : Selected present (some addr) addr
  | loopback {addr : U32} : IsGreatest (candidates true present) addr.toNat →
      Selected present none addr
  | other {addr : U32} : candidates true present = ∅ →
      IsGreatest (candidates false present) addr.toNat → Selected present none addr
  | nothing : candidates true present = ∅ → candidates false present = ∅ →
      Selected present none 0

/-- The router-id is the one to expect and the lists hold present addresses
only. -/
structure Right (w : World) : Prop where
  selected : ∃ addr, routerIdGet w.ids = .inet addr 32 ∧ Selected w.present w.configured addr
  held : ∀ lo, ∀ ifc ∈ w.ids.list lo, ifc ∈ w.present

/-! ## The lists mirror what is present -/

/-- A list mirrors the present addresses of one kind of interfaces: it is in
order and has each of them once. -/
structure Mirrors (lo : Bool) (l : List Connected) (present : List Connected) : Prop where
  sorted : Ascending Connected.number l
  held : ∀ ifc ∈ l, ifc ∈ present ∧ Eligible lo ifc
  covered : ∀ ifc ∈ present, Eligible lo ifc → ∃ other ∈ l, other.address = ifc.address
  once : (l.map Connected.address).Nodup

variable {a b : Address}

theorem prefixSame_iff : prefixSame a b = true ↔ a = b := by
  cases a <;> cases b <;> simp [prefixSame, and_comm]

theorem prefixSame_false_iff : prefixSame a b = false ↔ a ≠ b := by
  rw [Ne, ← prefixSame_iff, Bool.not_eq_true]

variable {ifc : Connected}

theorem find_none_iff :
    routerIdFindNode l ifc = none ↔ ∀ other ∈ l, other.address ≠ ifc.address := by
  unfold routerIdFindNode
  rw [List.find?_eq_none]
  exact forall₂_congr fun other _ => by rw [prefixSame_iff, ne_comm]

variable {found : Connected}

theorem find_some (some_ : routerIdFindNode l ifc = some found) :
    found ∈ l ∧ found.address = ifc.address := by
  unfold routerIdFindNode at some_
  have same : prefixSame ifc.address found.address = true := by simpa using List.find?_some some_
  exact ⟨List.mem_of_find?_eq_some some_, (prefixSame_iff.mp same).symm⟩

/-- An address that is no candidate of the kind changes nothing about what is
mirrored. -/
theorem Mirrors.add_other (mirrors : Mirrors lo l present) (other : ¬ Eligible lo ifc) :
    Mirrors lo l (ifc :: present) where
  sorted := mirrors.sorted
  held c member := ⟨.tail _ (mirrors.held c member).1, (mirrors.held c member).2⟩
  covered c member eligible := by
    rcases List.mem_cons.mp member with rfl | before
    · exact absurd eligible other
    · exact mirrors.covered c before eligible
  once := mirrors.once

theorem Mirrors.delete_other (mirrors : Mirrors lo l present) (other : ¬ Eligible lo ifc) :
    Mirrors lo l (present.filter (· ≠ ifc)) where
  sorted := mirrors.sorted
  held c member := by
    obtain ⟨here, eligible⟩ := mirrors.held c member
    have apart : c ≠ ifc := fun same => other (same ▸ eligible)
    exact ⟨List.mem_filter.mpr ⟨here, decide_eq_true apart⟩, eligible⟩
  covered c member := mirrors.covered c (List.mem_filter.mp member).1
  once := mirrors.once

/-- An address that is listed already. -/
theorem Mirrors.add_listed (mirrors : Mirrors lo l present)
    (listed : routerIdFindNode l ifc = some found) :
    Mirrors lo l (ifc :: present) where
  sorted := mirrors.sorted
  held c member := ⟨.tail _ (mirrors.held c member).1, (mirrors.held c member).2⟩
  covered c member eligible := by
    rcases List.mem_cons.mp member with rfl | before
    · exact ⟨found, find_some listed⟩
    · exact mirrors.covered c before eligible
  once := mirrors.once

/-- An address that is new to the list and finds its place in it. -/
theorem Mirrors.add_new (mirrors : Mirrors lo l present) (eligible : Eligible lo ifc)
    (new : routerIdFindNode l ifc = none) (comparable : Comparable l ifc) :
    Mirrors lo (listnodeAddSort routerIdCmp l ifc) (ifc :: present) where
  sorted := (addSort_ascending_iff mirrors.sorted).mpr comparable
  held c member := by
    rcases mem_listnodeAddSort.mp member with rfl | before
    · exact ⟨List.mem_cons_self, eligible⟩
    · exact ⟨.tail _ (mirrors.held c before).1, (mirrors.held c before).2⟩
  covered c member suitable := by
    rcases List.mem_cons.mp member with rfl | before
    · exact ⟨c, mem_listnodeAddSort.mpr (Or.inl rfl), rfl⟩
    · obtain ⟨other, inside, same⟩ := mirrors.covered c before suitable
      exact ⟨other, mem_listnodeAddSort.mpr (Or.inr inside), same⟩
  once := by
    have apart := find_none_iff.mp new
    have order : (listnodeAddSort routerIdCmp l ifc).Perm (ifc :: l) := by
      rw [listnodeAddSort_eq]
      refine List.perm_middle.trans (List.Perm.cons ifc ?_)
      rw [passed_append_kept]
    refine (order.map Connected.address).nodup_iff.mpr (List.nodup_cons.mpr ⟨?_, mirrors.once⟩)
    intro listed
    obtain ⟨other, inside, same⟩ := List.mem_map.mp listed
    exact apart other inside same

/-- What is left of a list when an address leaves. -/
def removed (l : List Connected) (ifc : Connected) : List Connected :=
  match routerIdFindNode l ifc with
  | some c => l.erase c
  | none => l

theorem removed_sublist (l : List Connected) (ifc : Connected) : (removed l ifc).Sublist l := by
  unfold removed
  cases routerIdFindNode l ifc with
  | none => exact List.Sublist.refl l
  | some found => exact List.erase_sublist

/-- What stays is what has another address. -/
theorem mem_removed (once : (l.map Connected.address).Nodup) {c : Connected} :
    c ∈ removed l ifc ↔ c ∈ l ∧ c.address ≠ ifc.address := by
  unfold removed
  cases search : routerIdFindNode l ifc with
  | none => exact ⟨fun member => ⟨member, find_none_iff.mp search c member⟩, And.left⟩
  | some found =>
    obtain ⟨inside, same⟩ := find_some search
    simp only [once.of_map.mem_erase_iff]
    constructor
    · rintro ⟨apart, member⟩
      refine ⟨member, fun equal => apart ?_⟩
      exact List.inj_on_of_nodup_map once member inside (equal.trans same.symm)
    · rintro ⟨member, differ⟩
      exact ⟨fun equal => differ (equal ▸ same), member⟩

/-- An address that leaves, and that no other interface of the kind has. -/
theorem Mirrors.delete (mirrors : Mirrors lo l present)
    (unshared : ∀ other ∈ present, other ≠ ifc → Eligible lo other → other.address ≠ ifc.address) :
    Mirrors lo (removed l ifc) (present.filter (· ≠ ifc)) where
  sorted := mirrors.sorted.sublist (removed_sublist l ifc)
  held c member := by
    obtain ⟨inside, differ⟩ := (mem_removed mirrors.once).mp member
    obtain ⟨here, eligible⟩ := mirrors.held c inside
    have apart : c ≠ ifc := fun same => differ (congrArg _ same)
    exact ⟨List.mem_filter.mpr ⟨here, decide_eq_true apart⟩, eligible⟩
  covered c member eligible := by
    obtain ⟨here, apart⟩ := List.mem_filter.mp member
    obtain ⟨other, inside, same⟩ := mirrors.covered c here eligible
    have differ := unshared c here (of_decide_eq_true apart) eligible
    exact ⟨other, (mem_removed mirrors.once).mpr ⟨inside, same ▸ differ⟩, same⟩
  once := mirrors.once.sublist ((removed_sublist l ifc).map _)

/-! ## Every event keeps the mirrors -/

/-- The lists mirror what is present and the configured router-id is stored. -/
structure Faithful (w : World) : Prop where
  mirrors : ∀ lo, Mirrors lo (w.ids.list lo) w.present
  assigned : w.ids.ridUserAssigned = w.configured.getD 0
  nonzero : w.configured ≠ some 0

theorem faithful_start : Faithful World.start where
  mirrors lo := by
    have empty : World.start.ids.list lo = [] := by cases lo <;> rfl
    rw [empty]
    exact ⟨.nil, nofun, nofun, .nil⟩
  assigned := rfl
  nonzero := nofun

/-- What an addition does to the lists. -/
theorem add_lists (ids : RouterIds) (ifc : Connected) :
    (routerIdAddAddress ids ifc).1 = ids ∧
        (routerIdBadAddress ifc = true ∨ ∃ found,
          routerIdFindNode (ids.list ifc.isLo) ifc = some found)
      ∨ (routerIdAddAddress ids ifc).1 =
          ids.setList ifc.isLo (listnodeAddSort routerIdCmp (ids.list ifc.isLo) ifc) ∧
        routerIdBadAddress ifc = false ∧ routerIdFindNode (ids.list ifc.isLo) ifc = none := by
  cases bad : routerIdBadAddress ifc with
  | true => exact Or.inl ⟨by simp [routerIdAddAddress, bad], Or.inl rfl⟩
  | false =>
    cases search : routerIdFindNode (ids.list ifc.isLo) ifc with
    | some found =>
      exact Or.inl ⟨by simp [routerIdAddAddress, bad, search], Or.inr ⟨found, rfl⟩⟩
    | none => exact Or.inr ⟨by simp [routerIdAddAddress, bad, search], rfl, rfl⟩

/-- What a deletion does to the lists. -/
theorem del_lists (ids : RouterIds) (good : routerIdBadAddress ifc = false) :
    (routerIdDelAddress ids ifc).1 =
      ids.setList ifc.isLo (removed (ids.list ifc.isLo) ifc) := by
  unfold removed
  cases search : routerIdFindNode (ids.list ifc.isLo) ifc with
  | some found => simp [routerIdDelAddress, good, search]
  | none =>
    have same (lo : Bool) : ids.setList lo (ids.list lo) = ids := by cases lo <;> rfl
    simp [routerIdDelAddress, good, search, same]

theorem Faithful.add (faithful : Faithful w) (placed : Placed w ifc) :
    Faithful (w.step (.add ifc)) := by
  rcases add_lists w.ids ifc with ⟨same, kept⟩ | ⟨changed, good, new⟩
  · refine ⟨fun lo => ?_, ?_, faithful.nonzero⟩
    · simp only [World.step, same]
      rcases kept with bad | ⟨found, listed⟩
      · refine (faithful.mirrors lo).add_other fun eligible => ?_
        rw [eligible.1] at bad
        cases bad
      · by_cases kind : ifc.isLo = lo
        · exact (faithful.mirrors lo).add_listed (kind ▸ listed)
        · exact (faithful.mirrors lo).add_other fun eligible => kind eligible.2
    · simp only [World.step, same]
      exact faithful.assigned
  · refine ⟨fun lo => ?_, ?_, faithful.nonzero⟩
    · simp only [World.step, changed]
      by_cases kind : ifc.isLo = lo
      · subst kind
        rw [list_setList]
        exact (faithful.mirrors _).add_new ⟨good, rfl⟩ new (placed good new)
      · rw [list_setList_ne _ (Ne.symm kind)]
        exact (faithful.mirrors lo).add_other fun eligible => kind eligible.2
    · simp only [World.step, changed, setList_user]
      exact faithful.assigned

theorem Faithful.delete (faithful : Faithful w) (unshared : Unshared w ifc) :
    Faithful (w.step (.delete ifc)) := by
  cases bad : routerIdBadAddress ifc with
  | true =>
    have same : (routerIdDelAddress w.ids ifc).1 = w.ids := by
      unfold routerIdDelAddress
      rw [bad]
      rfl
    refine ⟨fun lo => ?_, ?_, faithful.nonzero⟩
    · simp only [World.step, same]
      refine (faithful.mirrors lo).delete_other fun eligible => ?_
      rw [eligible.1] at bad
      cases bad
    · simp only [World.step, same]
      exact faithful.assigned
  | false =>
    refine ⟨fun lo => ?_, ?_, faithful.nonzero⟩
    · simp only [World.step, del_lists w.ids bad]
      by_cases kind : ifc.isLo = lo
      · subst kind
        rw [list_setList]
        refine (faithful.mirrors _).delete fun other here apart eligible => ?_
        exact (prefixSame_false_iff.mp (unshared other here apart eligible bad)).symm
      · rw [list_setList_ne _ (Ne.symm kind)]
        exact (faithful.mirrors lo).delete_other fun eligible => kind eligible.2
    · simp only [World.step, del_lists w.ids bad, setList_user]
      exact faithful.assigned

/-- Setting the router-id leaves the lists as they are. -/
theorem list_assigned (ids : RouterIds) (addr : U32) (lo : Bool) :
    ({ ids with ridUserAssigned := addr } : RouterIds).list lo = ids.list lo := by
  cases lo <;> rfl

theorem Faithful.configure (faithful : Faithful w) (addr : U32) :
    Faithful (w.step (.configure addr)) := by
  simp only [World.step, routerIdCommand]
  by_cases zero : addr = 0
  · rw [if_pos zero, if_pos zero]
    exact faithful
  · rw [if_neg zero, if_neg zero]
    refine ⟨fun lo => ?_, rfl, fun same => zero (Option.some.inj same)⟩
    simp only [routerIdSet, list_assigned]
    exact faithful.mirrors lo

theorem Faithful.unconfigure (faithful : Faithful w) : Faithful (w.step .unconfigure) := by
  refine ⟨fun lo => ?_, rfl, nofun⟩
  simp only [World.step, noRouterId, routerIdSet, list_assigned]
  exact faithful.mirrors lo

/-- In every run whose events the lists can follow they mirror what is
present. -/
theorem reached_faithful (reached : Reached w) : Faithful w := by
  induction reached with
  | start => exact faithful_start
  | step event _ followed ih =>
    cases event with
    | add ifc => exact ih.add followed
    | delete ifc => exact ih.delete followed
    | configure addr => exact ih.configure addr
    | unconfigure => exact ih.unconfigure

/-! ## The router-id of mirroring lists -/

/-- The last address of a mirroring list is the greatest candidate. -/
theorem Mirrors.greatest (mirrors : Mirrors lo l present) {last : Connected}
    (found : l.getLast? = some last) : IsGreatest (candidates lo present) last.number := by
  have inside : last ∈ l := List.mem_of_mem_getLast? found
  obtain ⟨here, eligible⟩ := mirrors.held last inside
  refine ⟨⟨last, here, eligible, rfl⟩, ?_⟩
  rintro _ ⟨ifc, member, suitable, rfl⟩
  obtain ⟨other, listed, same⟩ := mirrors.covered ifc member suitable
  have most := mirrors.sorted.last found other listed
  have number : other.number = ifc.number := by
    unfold Connected.number
    rw [same]
  rwa [number] at most

/-- An empty mirroring list has no candidates. -/
theorem Mirrors.none_present (mirrors : Mirrors lo l present) (empty : l.getLast? = none) :
    candidates lo present = ∅ := by
  obtain rfl : l = [] := List.getLast?_eq_none_iff.mp empty
  refine Set.eq_empty_iff_forall_notMem.mpr ?_
  rintro _ ⟨ifc, member, suitable, _⟩
  obtain ⟨_, listed, _⟩ := mirrors.covered ifc member suitable
  cases listed

theorem Faithful.right (faithful : Faithful w) : Right w := by
  refine ⟨?_, fun lo ifc member => ((faithful.mirrors lo).held ifc member).1⟩
  have loopbacks := faithful.mirrors true
  have others := faithful.mirrors false
  have assigned := faithful.assigned
  have nonzero := faithful.nonzero
  unfold routerIdGet
  cases config : w.configured with
  | none =>
    rw [config] at assigned
    have unset : ¬ w.ids.ridUserAssigned ≠ 0 := fun set => set assigned
    rw [if_neg unset]
    cases lo : w.ids.ridLoSortedList.getLast? with
    | some last => exact ⟨_, rfl, .loopback (loopbacks.greatest lo)⟩
    | none =>
      cases all : w.ids.ridAllSortedList.getLast? with
      | some last => exact ⟨_, rfl, .other (loopbacks.none_present lo) (others.greatest all)⟩
      | none => exact ⟨_, rfl, .nothing (loopbacks.none_present lo) (others.none_present all)⟩
  | some addr =>
    rw [config] at assigned nonzero
    have stored : w.ids.ridUserAssigned = addr := assigned
    have set : w.ids.ridUserAssigned ≠ 0 := fun zero => nonzero (congrArg some (stored ▸ zero))
    rw [if_pos set, stored]
    exact ⟨addr, rfl, .configured addr⟩

/-- In every run whose events the lists can follow the router-id is the one to
expect and the lists hold present addresses only. They are sorted by a difference with a
sign, which puts addresses that are far apart in the wrong order. -/
theorem routerId_right {w : World} (reached : Reached w) : Right w :=
  (reached_faithful reached).right

/-! ## Runs that the lists do not follow -/

/-- The states of all runs: what is added is new and what is deleted is
present. -/
inductive Occurs : World → Prop
  | start : Occurs World.start
  | add {w : World} {ifc : Connected} : Occurs w → ifc ∉ w.present → Occurs (w.step (.add ifc))
  | delete {w : World} {ifc : Connected} : Occurs w → ifc ∈ w.present →
      Occurs (w.step (.delete ifc))
  | configure {w : World} (addr : U32) : Occurs w → Occurs (w.step (.configure addr))
  | unconfigure {w : World} : Occurs w → Occurs (w.step .unconfigure)

/-- An address on an interface that is neither a loopback nor a dummy one. -/
def onEth (object : Nat) (addr : U32) : Connected := ⟨object, ['e', 't', 'h', '0'], .inet addr 24⟩

/-- `10.0.0.1` and `10.0.0.2` are close. -/
theorem routerId_right_near :
    Right ((World.start.step (.add (onEth 0 0x0a000001))).step (.add (onEth 1 0x0a000002))) := by
  apply routerId_right
  refine .step _ (.step _ .start ?_) ?_
  · intro _ _
    exact ⟨nofun, nofun⟩
  · intro _ _
    have listed : ((World.start.step (.add (onEth 0 0x0a000001))).ids.list
        (onEth 1 0x0a000002).isLo) = [onEth 0 0x0a000001] := by decide
    rw [listed]
    constructor
    · intro n member _
      rw [List.mem_singleton.mp member]
      decide
    · intro n member above
      rw [List.mem_singleton.mp member] at above
      exact absurd above (by decide)

/-- Without loopbacks the router-id bounds the other addresses. -/
theorem Selected.bounds {addr : U32} (selected : Selected present none addr)
    (apart : ∀ ifc ∈ present, ifc.isLo = false) (ifc : Connected) (member : ifc ∈ present)
    (good : routerIdBadAddress ifc = false) : ifc.number ≤ addr.toNat := by
  have candidate : ifc.number ∈ candidates false present :=
    ⟨ifc, member, ⟨good, apart ifc member⟩, rfl⟩
  cases selected with
  | loopback greatest =>
    obtain ⟨other, inside, ⟨_, lo⟩, _⟩ := greatest.1
    rw [apart other inside] at lo
    cases lo
  | other _ greatest => exact greatest.2 candidate
  | nothing _ none =>
    rw [none] at candidate
    cases candidate

/-- `10.0.0.1` and then `200.0.0.1`. -/
def farApart : World :=
  (World.start.step (.add (onEth 0 0x0a000001))).step (.add (onEth 1 0xc8000001))

/-- `10.0.0.1` twice, and one of them gone. -/
def sharedAddress : World :=
  ((World.start.step (.add (onEth 0 0x0a000001))).step (.add (onEth 1 0x0a000001))).step
    (.delete (onEth 1 0x0a000001))

/-- The greater address is taken for the lesser one where they lie far apart, and
an address is forgotten that one of two interfaces still has. -/
theorem routerId_not_right :
    (Occurs farApart ∧ ¬ Right farApart) ∧ Occurs sharedAddress ∧ ¬ Right sharedAddress := by
  refine ⟨⟨.add (.add .start nofun) (by decide), ?_⟩,
    .delete (.add (.add .start nofun) (by decide)) (by decide), ?_⟩
  · rintro ⟨⟨addr, is, selected⟩, _⟩
    have value : routerIdGet farApart.ids = .inet 0x0a000001 32 := by decide
    obtain rfl : (0x0a000001 : U32) = addr := (Address.inet.inj (value.symm.trans is)).1
    have bound := selected.bounds (by decide) (onEth 1 0xc8000001) (by decide) (by decide)
    exact absurd bound (by decide)
  · rintro ⟨⟨addr, is, selected⟩, _⟩
    have value : routerIdGet sharedAddress.ids = .inet 0 32 := by decide
    obtain rfl : (0 : U32) = addr := (Address.inet.inj (value.symm.trans is)).1
    have bound := selected.bounds (by decide) (onEth 0 0x0a000001) (by decide) (by decide)
    exact absurd bound (by decide)

end Bgpd.RouterId
