import Bgpd.DampLists

/-!
# Every history on its list

Each operation takes a history out of the list it is on and puts it where it belongs,
or frees it. That it is on the list its flag and its index tell is what makes the
deletions right; that a route has one history at most is what keeps the others where
they are when a flag changes.
-/

namespace Bgpd.DampLists

open Damping Rib IntrusiveLists
open Function (update_apply update_eq_self update_idem update_of_ne update_self)

variable {cfg : Config} {s s' : State} {place : Nat → Option Slot} {lists : Slot → List Nat}
  {bdi : Nat} {info info' : History} {slot : Slot}

/-! ## The invariant -/

/-- The histories are on the lists of their places; each belongs to one route, which
knows it and has no other, and a route that is set aside has one, with the index of a list. -/
structure Kept (cfg : Config) (s : State) (place : Nat → Option Slot) : Prop where
  filed : ∃ lists, Filed s.links s.heads place lists
  allocated : ∀ bdi, (s.links bdi).isSome = (s.infos bdi).isSome
  owned : ∀ route bdi,
    s.dampInfo route = some bdi ↔ ∃ info, s.infos bdi = some info ∧ info.binfo = route
  bounded : ∀ bdi, s.next ≤ bdi → s.infos bdi = none
  inArray : ∀ bdi info, s.infos bdi = some info → s.damped info.binfo = true →
    InArray cfg info.index
  unflagged : ∀ route, s.dampInfo route = none → s.damped route = false

/-- Every history is where it belongs. -/
abbrev Inv (cfg : Config) (s : State) : Prop := Kept cfg s s.place

theorem start_inv (cfg : Config) : Inv cfg start where
  filed := ⟨fun _ => [], fun _ => rfl, fun _ _ => iff_of_false List.not_mem_nil fun nothing =>
    nomatch nothing⟩
  allocated _ := rfl
  owned _ _ := iff_of_false (fun nothing => nomatch nothing)
    fun ⟨_, nothing, _⟩ => nomatch nothing
  bounded _ _ := rfl
  inArray _ _ nothing := nomatch nothing
  unflagged _ _ := rfl

/-- A history is rewritten, and perhaps the flag of its route with it. -/
structure Rewritten (cfg : Config) (s s' : State) (bdi : Nat) (info info' : History) : Prop where
  found : s.infos bdi = some info
  infos : s'.infos = Function.update s.infos bdi (some info')
  owner : info'.binfo = info.binfo
  dampInfo : s'.dampInfo = s.dampInfo
  next : s'.next = s.next
  damped : ∀ route, route ≠ info.binfo → s'.damped route = s.damped route
  inArray : s'.damped info.binfo = true → InArray cfg info'.index

namespace Kept

theorem alive (kept : Kept cfg s place) (found : s.infos bdi = some info) :
    (s.links bdi).isSome := by
  rw [kept.allocated, found]
  rfl

/-- A route has one history at most. -/
theorem single (kept : Kept cfg s place) (found : s.infos bdi = some info) {other : Nat}
    {its : History} (otherFound : s.infos other = some its) (same : its.binfo = info.binfo) :
    other = bdi := by
  have one := (kept.owned info.binfo bdi).mpr ⟨info, found, rfl⟩
  have two := (kept.owned info.binfo other).mpr ⟨its, otherFound, same⟩
  rw [one] at two
  exact (Option.some.inj two).symm

/-- A history that was rewritten is put on a list. -/
theorem rewrite (kept : Kept cfg s place) (rewritten : Rewritten cfg s s' bdi info info')
    {place' : Nat → Option Slot} (filed : ∃ lists, Filed s'.links s'.heads place' lists)
    (elements : SameElements s.links s'.links) : Kept cfg s' place' where
  filed := filed
  allocated other := by
    rw [elements, kept.allocated, rewritten.infos]
    by_cases own : other = bdi
    · subst own
      rw [update_self, rewritten.found]
      rfl
    · rw [update_of_ne own]
  owned route other := by
    rw [rewritten.dampInfo, kept.owned, rewritten.infos]
    by_cases own : other = bdi
    · subst own
      rw [update_self, rewritten.found]
      constructor
      · rintro ⟨its, known, rfl⟩
        cases known
        exact ⟨info', rfl, rewritten.owner⟩
      · rintro ⟨its, known, rfl⟩
        cases known
        exact ⟨info, rfl, rewritten.owner.symm⟩
    · rw [update_of_ne own]
  bounded other above := by
    rw [rewritten.next] at above
    have unknown := kept.bounded other above
    have apart : other ≠ bdi := by
      rintro rfl
      rw [rewritten.found] at unknown
      cases unknown
    rw [rewritten.infos, update_of_ne apart, unknown]
  inArray other its known flagged := by
    rw [rewritten.infos] at known
    by_cases own : other = bdi
    · subst own
      rw [update_self] at known
      cases known
      rw [rewritten.owner] at flagged
      exact rewritten.inArray flagged
    · rw [update_of_ne own] at known
      have foreign : its.binfo ≠ info.binfo := fun same =>
        own (kept.single rewritten.found known same)
      rw [rewritten.damped _ foreign] at flagged
      exact kept.inArray other its known flagged
  unflagged route nothing := by
    rw [rewritten.dampInfo] at nothing
    have foreign : route ≠ info.binfo := by
      rintro rfl
      rw [(kept.owned info.binfo bdi).mpr ⟨info, rewritten.found, rfl⟩] at nothing
      cases nothing
    rw [rewritten.damped _ foreign]
    exact kept.unflagged route nothing

/-- Then the others are where they were. -/
theorem place_rewrite (kept : Kept cfg s place) (found : s.infos bdi = some info)
    {its : Option History} (infos : s'.infos = Function.update s.infos bdi its)
    (damped : ∀ route, route ≠ info.binfo → s'.damped route = s.damped route) :
    s'.place = Function.update s.place bdi (its.map s'.slotOf) := by
  funext other
  rw [State.place, infos]
  by_cases own : other = bdi
  · subst own
    rw [update_self, update_self]
  · rw [update_of_ne own, update_of_ne own, State.place]
    cases known : s.infos other with
    | none => rfl
    | some theirs =>
      have foreign : theirs.binfo ≠ info.binfo := fun same => own (kept.single found known same)
      rw [Option.map_some, Option.map_some, State.slotOf, State.slotOf, damped _ foreign]

theorem place_rewritten (kept : Kept cfg s place) (rewritten : Rewritten cfg s s' bdi info info')
    (belongs : s'.slotOf info' = slot) : s'.place = Function.update s.place bdi (some slot) := by
  rw [kept.place_rewrite rewritten.found rewritten.infos rewritten.damped, Option.map_some, belongs]

end Kept

theorem place_found (found : s.infos bdi = some info) : s.place bdi = some (s.slotOf info) := by
  rw [State.place, found]
  rfl

/-! ## Lists -/

/-- A history that is on no list is put on one. -/
theorem bgpInfoAdd_filed (filed : Filed s.links s.heads place lists) (slot : Slot)
    (unplaced : place bdi = none) (alive : (s.links bdi).isSome) :
    ∃ links heads lists', bgpInfoAdd s slot bdi = some { s with links, heads }
      ∧ Filed links heads (Function.update place bdi (some slot)) lists'
      ∧ SameElements s.links links
      ∧ ∀ other, other ≠ bdi → place other = none → links other = s.links other := by
  obtain ⟨links, pushed, filed', elements, others⟩ := filed.push slot unplaced alive
  refine ⟨links, _, _, ?_, filed', elements, others⟩
  rw [bgpInfoAdd, pushed]
  rfl

/-- A history is taken out of the list it is on. -/
theorem bgpInfoDel_filed (filed : Filed s.links s.heads place lists)
    (placed : place bdi = some slot) :
    ∃ links head, bgpInfoDel s slot bdi
        = some { s with links, heads := Function.update s.heads slot head }
      ∧ Filed links (Function.update s.heads slot head) (Function.update place bdi none)
          (Function.update lists slot ((lists slot).erase bdi))
      ∧ SameElements s.links links
      ∧ (s.heads slot = some bdi → ∀ link, s.links bdi = some link → head = link.next) := by
  obtain ⟨links, head, taken, filed', elements, -, first⟩ := filed.remove placed
  refine ⟨links, head, ?_, filed', elements, first⟩
  rw [bgpInfoDel, taken]
  rfl

/-- The index of a penalty is one of the array. -/
theorem bgpReuseIndex_inArray (s : State) (penalty : Nat) :
    InArray cfg (bgpReuseIndex cfg s penalty) := by
  have size : (0 : Int) < cfg.reuseListSize := Int.natCast_pos.mpr cfg.sized
  exact ⟨Int.emod_nonneg _ (by omega), Int.emod_lt_of_pos _ size⟩

variable (cfg) in
theorem bgpReuseListAdd_filed (filed : Filed s.links s.heads place lists)
    (found : s.infos bdi = some info) (unplaced : place bdi = none) (alive : (s.links bdi).isSome) :
    ∃ index links heads lists', InArray cfg index
      ∧ bgpReuseListAdd cfg s bdi
        = some { s.setInfo bdi { info with index } with links, heads }
      ∧ Filed links heads (Function.update place bdi (some (.reuse index))) lists'
      ∧ SameElements s.links links
      ∧ ∀ other, other ≠ bdi → place other = none → links other = s.links other := by
  let index := bgpReuseIndex cfg s info.penalty
  obtain ⟨links, heads, lists', added, filed', elements, others⟩ :=
    bgpInfoAdd_filed (s := s.setInfo bdi { info with index }) filed (.reuse index) unplaced alive
  refine ⟨index, links, heads, lists', bgpReuseIndex_inArray s info.penalty, ?_, filed', elements,
    others⟩
  rw [bgpReuseListAdd, found]
  exact added

/-- A history is taken out of the list that its flag and its index tell. -/
theorem bgpReuseListDelete_eq (found : s.infos bdi = some info) (inArray : InArray cfg info.index) :
    bgpReuseListDelete cfg s bdi = bgpInfoDel s (.reuse info.index) bdi := by
  rw [bgpReuseListDelete, found]
  exact if_pos inArray

/-! ## Freeing -/

/-- What is left of the state when a history is freed, given what deleting it from its
list made of the lists. -/
def forgotten (s : State) (bdi : Nat) (info : History) (withdraw : Bool) (links : Links Nat)
    (heads : Slot → Option Nat) : State :=
  { s with
    links := Function.update links bdi none
    infos := Function.update s.infos bdi none
    heads
    damped := Function.update s.damped info.binfo false
    history := Function.update s.history info.binfo false
    removed := if info.lastrecord = .withdraw ∧ withdraw then
      Function.update s.removed info.binfo true else s.removed
    dampInfo := Function.update s.dampInfo info.binfo none }

/-- A history is taken out of the list it belongs on. -/
theorem takeOff_eq (found : s.infos bdi = some info)
    (inArray : s.damped info.binfo = true → InArray cfg info.index) :
    takeOff cfg s bdi info.binfo = bgpInfoDel s (s.slotOf info) bdi := by
  rw [takeOff, State.slotOf]
  split
  · rename_i flagged
    exact bgpReuseListDelete_eq found (inArray flagged)
  · rfl

theorem bgpDampInfoFree_eq (inv : Inv cfg s) (found : s.infos bdi = some info) (withdraw : Bool)
    {links : Links Nat} {heads : Slot → Option Nat}
    (taken : bgpInfoDel { s with dampInfo := Function.update s.dampInfo info.binfo none }
        (s.slotOf info) bdi
      = some { s with dampInfo := Function.update s.dampInfo info.binfo none, links, heads }) :
    bgpDampInfoFree cfg s bdi withdraw = some (forgotten s bdi info withdraw links heads) := by
  have off := (takeOff_eq
    (s := { s with dampInfo := Function.update s.dampInfo info.binfo none }) found
    (inv.inArray bdi info found)).trans taken
  rw [bgpDampInfoFree, found, Option.bind_eq_bind, Option.bind_some, off, Option.bind_eq_bind,
    Option.bind_some]
  dsimp only [forgotten, State.setHistory, State.setDamped]
  split <;> rfl

/-- A freed history is on no list and known to no route; the others are where they were. -/
theorem bgpDampInfoFree_inv (inv : Inv cfg s) (filed : Filed s.links s.heads s.place lists)
    (found : s.infos bdi = some info) (withdraw : Bool) :
    ∃ s', bgpDampInfoFree cfg s bdi withdraw = some s' ∧ Inv cfg s' ∧ s'.next = s.next
      ∧ Filed s'.links s'.heads s'.place
          (Function.update lists (s.slotOf info) ((lists (s.slotOf info)).erase bdi))
      ∧ ∃ head, s'.heads = Function.update s.heads (s.slotOf info) head
        ∧ (s.heads (s.slotOf info) = some bdi → ∀ link, s.links bdi = some link →
          head = link.next) := by
  obtain ⟨links, head, taken, filed', elements, first⟩ :=
    bgpInfoDel_filed (s := { s with dampInfo := Function.update s.dampInfo info.binfo none })
      filed (place_found found)
  let after := forgotten s bdi info withdraw links (Function.update s.heads (s.slotOf info) head)
  have gone : Function.update s.place bdi none bdi = none := update_self ..
  have flags : ∀ route, route ≠ info.binfo → after.damped route = s.damped route :=
    fun route foreign => update_of_ne foreign ..
  have removed : after.infos = Function.update s.infos bdi none := rfl
  have places : after.place = Function.update s.place bdi none :=
    inv.place_rewrite found removed flags
  have shelved : Filed after.links after.heads after.place
      (Function.update lists (s.slotOf info) ((lists (s.slotOf info)).erase bdi)) := by
    rw [places]
    exact filed'.congr_update gone none
  refine ⟨after, bgpDampInfoFree_eq inv found withdraw taken, ?_, rfl, shelved, head, rfl, first⟩
  exact
    { filed := ⟨_, shelved⟩
      allocated := fun other => by
        show (Function.update links bdi none other).isSome
          = (Function.update s.infos bdi none other).isSome
        by_cases own : other = bdi
        · subst own
          rw [update_self, update_self]
          rfl
        · rw [update_of_ne own, update_of_ne own, elements, inv.allocated]
      owned := fun route other => by
        show Function.update s.dampInfo info.binfo none route = some other
          ↔ ∃ its, Function.update s.infos bdi none other = some its ∧ its.binfo = route
        by_cases own : other = bdi
        · subst own
          rw [update_self]
          refine iff_of_false (fun known => ?_) fun ⟨_, nothing, _⟩ => nomatch nothing
          by_cases its : route = info.binfo
          · subst its
            rw [update_self] at known
            cases known
          · rw [update_of_ne its, inv.owned, found] at known
            obtain ⟨theirs, same, owner⟩ := known
            cases same
            exact its owner.symm
        · rw [update_of_ne own]
          by_cases its : route = info.binfo
          · subst its
            rw [update_self]
            refine iff_of_false (fun nothing => nomatch nothing) ?_
            rintro ⟨theirs, known, same⟩
            exact own (inv.single found known same)
          · rw [update_of_ne its, inv.owned]
      bounded := fun other above => by
        show Function.update s.infos bdi none other = none
        by_cases own : other = bdi
        · subst own
          exact update_self ..
        · rw [update_of_ne own]
          exact inv.bounded other above
      inArray := fun other its known flagged => by
        have apart : other ≠ bdi := by
          rintro rfl
          rw [show after.infos other = none from update_self ..] at known
          cases known
        rw [show after.infos other = s.infos other from update_of_ne apart ..] at known
        have foreign : its.binfo ≠ info.binfo := fun same => apart (inv.single found known same)
        rw [flags _ foreign] at flagged
        exact inv.inArray other its known flagged
      unflagged := fun route nothing => by
        by_cases its : route = info.binfo
        · subst its
          exact update_self ..
        · rw [flags _ its]
          exact inv.unflagged route ((update_of_ne its ..).symm.trans nothing) }

/-! ## Moving -/

namespace Kept

/-- A history that was rewritten is on the list it now belongs on. -/
theorem moved (inv : Inv cfg s)
    (filed : ∃ lists, Filed s'.links s'.heads (Function.update s.place bdi (some slot)) lists)
    (elements : SameElements s.links s'.links) (rewritten : Rewritten cfg s s' bdi info info')
    (belongs : s'.slotOf info' = slot) : Inv cfg s' := by
  rw [← inv.place_rewritten rewritten belongs] at filed
  exact inv.rewrite rewritten filed elements

/-- A history that was rewritten still belongs on its list. -/
theorem stays (inv : Inv cfg s) (found : s.infos bdi = some info) (links : s'.links = s.links)
    (heads : s'.heads = s.heads) (infos : s'.infos = Function.update s.infos bdi (some info'))
    (owner : info'.binfo = info.binfo) (index : info'.index = info.index)
    (dampInfo : s'.dampInfo = s.dampInfo) (next : s'.next = s.next)
    (damped : s'.damped = s.damped) : Inv cfg s' := by
  have same : s'.slotOf info' = s.slotOf info := by
    rw [State.slotOf, State.slotOf, owner, index, damped]
  have unmoved : Function.update s.place bdi (some (s.slotOf info)) = s.place := by
    rw [← place_found found, update_eq_self]
  refine inv.moved ?_ ?_ ⟨found, infos, owner, dampInfo, next, fun _ _ => by rw [damped],
    fun flagged => ?_⟩ same
  · rw [unmoved, links, heads]
    exact inv.filed
  · rw [links]
    exact fun _ => rfl
  · rw [damped] at flagged
    rw [index]
    exact inv.inArray bdi info found flagged

end Kept

variable (cfg) in
/-- A history goes from the list it is on to a reuse list. -/
theorem relist_reuse (filed : Filed s.links s.heads place lists) (placed : place bdi = some slot)
    (found : s.infos bdi = some info) (alive : (s.links bdi).isSome) :
    ∃ middle index links heads lists', bgpInfoDel s slot bdi = some middle
      ∧ bgpReuseListAdd cfg middle bdi
        = some { s.setInfo bdi { info with index } with links, heads }
      ∧ InArray cfg index
      ∧ Filed links heads (Function.update place bdi (some (.reuse index))) lists'
      ∧ SameElements s.links links := by
  obtain ⟨links₁, head₁, taken, filed₁, elements₁, -⟩ := bgpInfoDel_filed filed placed
  let middle : State := { s with links := links₁, heads := Function.update s.heads slot head₁ }
  obtain ⟨index, links, heads, lists', inArray, added, filed', elements, -⟩ :=
    bgpReuseListAdd_filed cfg (s := middle) filed₁ found (update_self ..)
      (by rw [show middle.links = links₁ from rfl, elements₁]; exact alive)
  rw [update_idem] at filed'
  exact ⟨middle, index, links, heads, lists', taken, added, inArray, filed',
    fun other => (elements other).trans (elements₁ other)⟩

/-- A history goes from the list it is on to the one without reuse. -/
theorem relist_noReuse (filed : Filed s.links s.heads place lists)
    (placed : place bdi = some slot) (alive : (s.links bdi).isSome) :
    ∃ middle links heads lists', bgpInfoDel s slot bdi = some middle
      ∧ bgpInfoAdd middle .noReuse bdi = some { s with links, heads }
      ∧ Filed links heads (Function.update place bdi (some .noReuse)) lists'
      ∧ SameElements s.links links := by
  obtain ⟨links₁, head₁, taken, filed₁, elements₁, -⟩ := bgpInfoDel_filed filed placed
  let middle : State := { s with links := links₁, heads := Function.update s.heads slot head₁ }
  obtain ⟨links, heads, lists', added, filed', elements, -⟩ :=
    bgpInfoAdd_filed (s := middle) filed₁ .noReuse (update_self ..)
      (by rw [show middle.links = links₁ from rfl, elements₁]; exact alive)
  rw [update_idem] at filed'
  exact ⟨middle, links, heads, lists', taken, added, filed',
    fun other => (elements other).trans (elements₁ other)⟩

theorem slotOf_damped (flagged : s.damped info.binfo = true) : s.slotOf info = .reuse info.index :=
  if_pos flagged

theorem slotOf_plain (plain : s.damped info.binfo = false) : s.slotOf info = .noReuse :=
  if_neg (by rw [plain]; decide)

/-! ## Operations -/

/-- Whether or not the route is set aside, its history ends up where it belongs. -/
theorem judged_inv (inv : Inv cfg s) (found : s.infos bdi = some info) (lastPenalty : Nat)
    (now : Int) :
    ∃ after, judged cfg s bdi info lastPenalty now = some after ∧ Inv cfg after.1 := by
  obtain ⟨lists, filed⟩ := inv.filed
  have alive := inv.alive found
  have placed := place_found found
  rw [judged]
  split
  · rename_i flagged
    split
    · rw [slotOf_damped flagged] at placed
      obtain ⟨middle, index, links, heads, lists', taken, added, inArray, filed', elements⟩ :=
        relist_reuse cfg filed placed found alive
      rw [bgpReuseListDelete_eq found (inv.inArray bdi info found flagged), taken,
        Option.bind_eq_bind, Option.bind_some, added]
      refine ⟨_, rfl, inv.moved ⟨lists', filed'⟩ elements
        ⟨found, rfl, rfl, rfl, rfl, fun _ _ => rfl, fun _ => inArray⟩ ?_⟩
      exact slotOf_damped flagged
    · exact ⟨_, rfl, inv⟩
  · rename_i plain
    split
    · rw [slotOf_plain (eq_false_of_ne_true plain)] at placed
      let t := (s.setDamped info.binfo true).setInfo bdi { info with suppressTime := now }
      obtain ⟨middle, index, links, heads, lists', taken, added, inArray, filed', elements⟩ :=
        relist_reuse cfg (s := t) filed placed (update_self ..) alive
      dsimp only
      rw [show bgpInfoDel t .noReuse bdi = some middle from taken, Option.bind_eq_bind,
        Option.bind_some, added]
      refine ⟨_, rfl, inv.moved ⟨lists', filed'⟩ elements ⟨found, update_idem .., rfl, rfl, rfl,
        fun _ foreign => update_of_ne foreign .., fun _ => inArray⟩ ?_⟩
      exact slotOf_damped (update_self ..)
    · exact ⟨_, rfl, inv⟩

theorem withdrawn_inv (inv : Inv cfg s) (found : s.infos bdi = some info) (lastPenalty : Nat)
    (now : Int) :
    ∃ after, withdrawn cfg s info.binfo bdi lastPenalty now = some after ∧ Inv cfg after.1 := by
  rw [withdrawn, found, Option.bind_eq_bind, Option.bind_some, if_pos rfl]
  let info₁ : History := { info with lastrecord := .withdraw, tUpdated := now }
  have stays : Inv cfg ((s.setInfo bdi info₁).setHistory info.binfo true) :=
    inv.stays found rfl rfl rfl rfl rfl rfl rfl rfl
  have found₁ : ((s.setInfo bdi info₁).setHistory info.binfo true).infos bdi = some info₁ :=
    update_self ..
  exact judged_inv stays found₁ lastPenalty now

variable {route : Nat}

/-- A history that was just made is on the list without reuse. -/
theorem newHistory_inv (inv : Inv cfg s) (unknown : s.dampInfo route = none) (attrChange : Bool)
    (now : Int) :
    ∃ after bdi info, newHistory s route attrChange now = some (after, bdi) ∧ Inv cfg after
      ∧ after.infos bdi = some info ∧ info.binfo = route := by
  obtain ⟨lists, filed⟩ := inv.filed
  have fresh : s.infos s.next = none := inv.bounded s.next le_rfl
  have unplaced : s.place s.next = none := by
    rw [State.place, fresh]
    rfl
  let info : History :=
    { binfo := route, penalty := flapCost attrChange, flap := 1, startTime := now, tUpdated := now
      suppressTime := 0, index := -1, lastrecord := .withdraw }
  let t : State := { s.setInfo s.next info with
    links := Function.update s.links s.next (some ⟨none, none⟩)
    next := s.next + 1
    dampInfo := Function.update s.dampInfo route (some s.next) }
  have plain : t.damped route = false := inv.unflagged route unknown
  obtain ⟨links, heads, lists', added, filed', elements, -⟩ :=
    bgpInfoAdd_filed (s := t) (filed.congr_update unplaced _) .noReuse unplaced
      (by rw [show t.links s.next = _ from update_self ..]; rfl)
  let after : State := { t with links, heads }
  have others : ∀ other, other ≠ s.next → after.infos other = s.infos other :=
    fun other apart => update_of_ne apart ..
  have own : after.infos s.next = some info := update_self ..
  have places : after.place = Function.update s.place s.next (some .noReuse) := by
    funext other
    rw [State.place]
    by_cases same : other = s.next
    · subst same
      rw [own, update_self, Option.map_some, slotOf_plain plain]
    · rw [others other same, update_of_ne same]
      rfl
  refine ⟨after, s.next, info, ?_, ?_, own, rfl⟩
  · rw [newHistory, show bgpInfoAdd t .noReuse s.next = some after from added]
    rfl
  · exact
      { filed := by
          rw [places]
          exact ⟨lists', filed'⟩
        allocated := fun other => by
          rw [show after.links other = links other from rfl, elements]
          by_cases same : other = s.next
          · subst same
            rw [own, show t.links s.next = _ from update_self ..]
            rfl
          · rw [others other same, ← inv.allocated]
            exact congrArg Option.isSome (update_of_ne same ..)
        owned := fun its other => by
          show Function.update s.dampInfo route (some s.next) its = some other ↔ _
          by_cases same : other = s.next
          · subst same
            rw [own]
            by_cases its_ : its = route
            · subst its_
              rw [update_self]
              exact iff_of_true rfl ⟨info, rfl, rfl⟩
            · rw [update_of_ne its_, inv.owned, fresh]
              refine iff_of_false (fun ⟨_, nothing, _⟩ => nomatch nothing) ?_
              rintro ⟨theirs, known, owner⟩
              cases known
              exact its_ owner.symm
          · rw [others other same]
            by_cases its_ : its = route
            · subst its_
              rw [update_self, ← inv.owned, unknown]
              exact iff_of_false (fun equal => same (Option.some.inj equal).symm)
                (fun nothing => nomatch nothing)
            · rw [update_of_ne its_, inv.owned]
        bounded := fun other above => by
          have beyond : s.next + 1 ≤ other := above
          rw [others other (by omega)]
          exact inv.bounded other (by omega)
        inArray := fun other its known flagged => by
          by_cases same : other = s.next
          · subst same
            rw [own] at known
            cases known
            rw [show after.damped info.binfo = false from plain] at flagged
            cases flagged
          · rw [others other same] at known
            exact inv.inArray other its known flagged
        unflagged := fun its nothing => by
          by_cases its_ : its = route
          · subst its_
            exact plain
          · exact inv.unflagged its ((update_of_ne its_ ..).symm.trans nothing) }

/-- `bgp_damp_withdraw` keeps every history where it belongs. -/
theorem bgpDampWithdraw_inv (inv : Inv cfg s) (route : Nat) (attrChange : Bool) (now : Int) :
    ∃ after, bgpDampWithdraw cfg s route attrChange now = some after ∧ Inv cfg after.1 := by
  rw [bgpDampWithdraw]
  cases known : s.dampInfo route with
  | none =>
    obtain ⟨after, bdi, info, made, inv', found, rfl⟩ := newHistory_inv inv known attrChange now
    rw [made, Option.bind_eq_bind, Option.bind_some]
    exact withdrawn_inv inv' found 0 now
  | some bdi =>
    obtain ⟨info, found, rfl⟩ := (inv.owned route bdi).mp known
    dsimp only
    rw [found, Option.bind_eq_bind, Option.bind_some]
    let again := flapAgain cfg info attrChange now
    have found₁ : (s.setInfo bdi again).infos bdi = some again := update_self ..
    have stays : Inv cfg (s.setInfo bdi again) := inv.stays found rfl rfl rfl rfl rfl rfl rfl rfl
    exact withdrawn_inv stays found₁ info.penalty now

/-- The part of an update in front of the question whether the history is kept. -/
theorem updated_inv (inv : Inv cfg s) (found : s.infos bdi = some info) :
    ∃ after its status, updated cfg s info.binfo bdi info = some (after, its, status)
      ∧ Inv cfg after ∧ after.infos bdi = some its := by
  rw [updated]
  split
  · exact ⟨_, _, _, rfl, inv, found⟩
  · split
    · rename_i reuse
      obtain ⟨lists, filed⟩ := inv.filed
      have placed := place_found found
      rw [slotOf_damped reuse.1] at placed
      let t := s.setDamped info.binfo false
      obtain ⟨middle, links, heads, lists', taken, added, filed', elements⟩ :=
        relist_noReuse (s := t) filed placed (inv.alive found)
      rw [bgpReuseListDelete_eq (s := t) found (inv.inArray bdi info found reuse.1), taken,
        Option.bind_eq_bind, Option.bind_some, added]
      refine ⟨_, _, _, rfl, inv.moved ⟨lists', filed'⟩ elements ⟨found, rfl, rfl, rfl, rfl,
        fun _ foreign => update_of_ne foreign .., fun flagged => ?_⟩ ?_, update_self ..⟩
      · rw [show State.damped _ info.binfo = false from update_self ..] at flagged
        cases flagged
      · exact slotOf_plain (update_self ..)
    · exact ⟨_, _, _, rfl, inv, found⟩

theorem bgpDampUpdate_inv (inv : Inv cfg s) (route : Nat) (now : Int) :
    ∃ after, bgpDampUpdate cfg s route now = some after ∧ Inv cfg after.1 := by
  rw [bgpDampUpdate]
  cases known : s.dampInfo route with
  | none => exact ⟨_, rfl, inv⟩
  | some bdi =>
    obtain ⟨info, found, rfl⟩ := (inv.owned route bdi).mp known
    dsimp only
    rw [found, Option.bind_eq_bind, Option.bind_some]
    let info₁ : History :=
      { info with lastrecord := .update, penalty := cfg.decay (now - info.tUpdated) info.penalty }
    let t := (s.setHistory info.binfo false).setInfo bdi info₁
    have stays : Inv cfg t := inv.stays found rfl rfl rfl rfl rfl rfl rfl rfl
    obtain ⟨after, its, status, did, inv', found'⟩ :=
      updated_inv stays (update_self .. : t.infos bdi = some info₁)
    rw [show updated cfg t info.binfo bdi info₁ = some (after, its, status) from did,
      Option.bind_eq_bind, Option.bind_some]
    split
    · exact ⟨_, rfl, inv'.stays found' rfl rfl rfl rfl rfl rfl rfl rfl⟩
    · obtain ⟨lists, filed⟩ := inv'.filed
      obtain ⟨freed, did, inv'', -⟩ := bgpDampInfoFree_inv inv' filed found' false
      rw [did]
      exact ⟨_, rfl, inv''⟩

theorem bgpDampScan_inv (inv : Inv cfg s) (known : (s.dampInfo route).isSome) (now : Int) :
    ∃ after, bgpDampScan cfg s route now = some after ∧ Inv cfg after.1 := by
  obtain ⟨bdi, known⟩ := Option.isSome_iff_exists.mp known
  obtain ⟨info, found, rfl⟩ := (inv.owned route bdi).mp known
  obtain ⟨lists, filed⟩ := inv.filed
  rw [bgpDampScan, known, Option.bind_eq_bind, Option.bind_some, found, Option.bind_eq_bind,
    Option.bind_some]
  split
  · rename_i flagged
    split
    · have placed := place_found found
      rw [slotOf_damped flagged] at placed
      let t := s.setDamped info.binfo false
      obtain ⟨middle, links, heads, lists', taken, added, filed', elements⟩ :=
        relist_noReuse (s := t) filed placed (inv.alive found)
      rw [bgpReuseListDelete_eq (s := t) found (inv.inArray bdi info found flagged), taken,
        Option.bind_eq_bind, Option.bind_some, added]
      refine ⟨_, rfl, inv.moved ⟨lists', filed'⟩ elements ⟨found, rfl, rfl, rfl, rfl,
        fun _ foreign => update_of_ne foreign .., fun flagged => ?_⟩ ?_⟩
      · rw [show State.damped _ info.binfo = false from update_self ..] at flagged
        cases flagged
      · exact slotOf_plain (update_self ..)
    · exact ⟨_, rfl, inv⟩
  · dsimp only
    let info₁ : History := { info with penalty := cfg.decay (now - info.tUpdated) info.penalty }
    have stays : Inv cfg (s.setInfo bdi info₁) := inv.stays found rfl rfl rfl rfl rfl rfl rfl rfl
    split
    · obtain ⟨lists₁, filed₁⟩ := stays.filed
      obtain ⟨freed, did, inv', -⟩ :=
        bgpDampInfoFree_inv stays filed₁
          (update_self .. : (s.setInfo bdi info₁).infos bdi = some info₁) true
      rw [show bgpDampInfoFree cfg (s.setInfo bdi info₁) bdi true = some freed from did]
      exact ⟨_, rfl, inv'⟩
    · exact ⟨_, rfl, inv.stays found rfl rfl (update_idem ..) rfl rfl rfl rfl rfl⟩

/-! ## The reuse timer -/

/-- The places of the histories while some of them are on no list. -/
def off (s : State) (detached : List Nat) (bdi : Nat) : Option Slot :=
  if bdi ∈ detached then none else s.place bdi

/-- What is left of the penalty is enough for the history to be kept. -/
def Spares (cfg : Config) (now : Int) (info : History) : Prop :=
  cfg.decay (now - info.tUpdated) info.penalty < cfg.reuseLimit →
    cfg.reuseLimit < 2 * cfg.decay (now - info.tUpdated) info.penalty

section Timer

variable {rest : List Nat} {now : Int}

/-- A detached history that was put on a list is the only one that came to have a place. -/
theorem off_rewrite (apart : bdi ∉ rest)
    (places : s'.place = Function.update s.place bdi (some slot)) :
    off s' rest = Function.update (off s (bdi :: rest)) bdi (some slot) := by
  funext other
  rw [off, places]
  by_cases own : other = bdi
  · subst own
    rw [if_neg apart, update_self, update_self]
  · rw [update_of_ne own, update_of_ne own, off]
    have same : other ∈ bdi :: rest ↔ other ∈ rest := by
      rw [List.mem_cons]
      exact or_iff_right own
    simp only [same]

@[simp] theorem reused_links : (reused s bdi info).links = s.links := by
  unfold reused
  split <;> rfl

@[simp] theorem reused_heads : (reused s bdi info).heads = s.heads := by
  unfold reused
  split <;> rfl

@[simp] theorem reused_infos : (reused s bdi info).infos
    = Function.update s.infos bdi (some { info with suppressTime := 0 }) := by
  unfold reused
  split <;> rfl

@[simp] theorem reused_damped :
    (reused s bdi info).damped = Function.update s.damped info.binfo false := by
  unfold reused
  split <;> rfl

@[simp] theorem reused_dampInfo : (reused s bdi info).dampInfo = s.dampInfo := by
  unfold reused
  split <;> rfl

@[simp] theorem reused_next : (reused s bdi info).next = s.next := by
  unfold reused
  split <;> rfl

/-- What a turn of the timer's loop leaves of the histories that are still detached. -/
structure Waiting (cfg : Config) (now : Int) (s : State) (detached : List Nat) : Prop where
  kept : Kept cfg s (off s detached)
  flagged : ∀ bdi ∈ detached, ∃ info,
    s.infos bdi = some info ∧ s.damped info.binfo = true ∧ Spares cfg now info

/-- A turn that rewrites a history and puts it on a list. -/
theorem Waiting.turn (waiting : Waiting cfg now s (bdi :: rest)) (apart : bdi ∉ rest)
    (filed : ∃ lists, Filed s'.links s'.heads
      (Function.update (off s (bdi :: rest)) bdi (some slot)) lists)
    (elements : SameElements s.links s'.links) (rewritten : Rewritten cfg s s' bdi info info')
    (belongs : s'.slotOf info' = slot) : Waiting cfg now s' rest where
  kept := by
    rw [← off_rewrite apart (waiting.kept.place_rewritten rewritten belongs)] at filed
    exact waiting.kept.rewrite rewritten filed elements
  flagged other member := by
    obtain ⟨its, known, set, spares⟩ := waiting.flagged other (List.mem_cons_of_mem _ member)
    have different : other ≠ bdi := fun same => apart (same ▸ member)
    have foreign : its.binfo ≠ info.binfo := fun same =>
      different (waiting.kept.single rewritten.found known same)
    refine ⟨its, ?_, ?_, spares⟩
    · rw [rewritten.infos, update_of_ne different, known]
    · rw [rewritten.damped _ foreign, set]

/-- One turn of the loop, if it frees nothing. -/
theorem reuseOne_waiting (waiting : Waiting cfg now s (bdi :: rest)) (apart : bdi ∉ rest) :
    ∃ s', reuseOne cfg s bdi now = some s' ∧ Waiting cfg now s' rest
      ∧ ∀ other ∈ rest, s'.links other = s.links other := by
  obtain ⟨info, found, flagged, spares⟩ := waiting.flagged bdi List.mem_cons_self
  obtain ⟨lists, filed⟩ := waiting.kept.filed
  have alive := waiting.kept.alive found
  have unplaced : off s (bdi :: rest) bdi = none := if_pos List.mem_cons_self
  have nowhere : ∀ other ∈ rest, other ≠ bdi ∧ off s (bdi :: rest) other = none :=
    fun other member => ⟨fun same => apart (same ▸ member),
      if_pos (List.mem_cons_of_mem _ member)⟩
  let info₁ : History :=
    { info with penalty := cfg.decay (now - info.tUpdated) info.penalty, tUpdated := now }
  rw [reuseOne, found, Option.bind_eq_bind, Option.bind_some]
  dsimp only
  split
  · rename_i low
    rw [if_neg (Nat.not_le.mpr (spares low))]
    let t := reused (s.setInfo bdi info₁) bdi info₁
    have linksEq : t.links = s.links := reused_links
    have headsEq : t.heads = s.heads := reused_heads
    have dampedEq : t.damped = Function.update s.damped info.binfo false := reused_damped
    have infosEq : t.infos
        = Function.update s.infos bdi (some { info₁ with suppressTime := 0 }) := by
      rw [show t.infos = _ from reused_infos]
      exact update_idem ..
    have plain : t.damped info.binfo = false := by
      rw [dampedEq]
      exact update_self ..
    obtain ⟨links, heads, lists', added, filed', elements, others⟩ :=
      bgpInfoAdd_filed (s := t) (by rw [linksEq, headsEq]; exact filed) .noReuse unplaced
        (by rw [linksEq]; exact alive)
    rw [linksEq] at elements others
    refine ⟨{ t with links, heads }, added, ?_, fun other member =>
      others other (nowhere other member).1 (nowhere other member).2⟩
    refine waiting.turn apart ⟨lists', filed'⟩ elements ⟨found, infosEq, rfl, reused_dampInfo,
      reused_next, fun route foreign => ?_, fun set => ?_⟩ (slotOf_plain plain)
    · exact (congrFun dampedEq route).trans (update_of_ne foreign ..)
    · exact absurd (plain.symm.trans set) (by decide)
  · let t := s.setInfo bdi info₁
    obtain ⟨index, links, heads, lists', inArray, added, filed', elements, others⟩ :=
      bgpReuseListAdd_filed cfg (s := t) filed (update_self .. : t.infos bdi = some info₁)
        unplaced alive
    refine ⟨{ t.setInfo bdi { info₁ with index } with links, heads }, added, ?_,
      fun other member => others other (nowhere other member).1 (nowhere other member).2⟩
    exact waiting.turn apart ⟨lists', filed'⟩ elements
      ⟨found, update_idem .., rfl, rfl, rfl, fun _ _ => rfl, fun _ => inArray⟩
      (slotOf_damped flagged)

/-- The whole loop, if it frees nothing: it ends, and every history is on a list. -/
theorem followed_reuse (detached : List Nat) {fuel : Nat} {head : Option Nat}
    (enough : detached.length ≤ fuel) (waiting : Waiting cfg now s detached)
    (forward : Forward s.links head detached) (distinct : detached.Nodup) :
    ∃ s', followed (fun s bdi => reuseOne cfg s bdi now) fuel head s = some s' ∧ Inv cfg s' := by
  induction detached generalizing s head fuel with
  | nil =>
    cases forward
    refine ⟨s, by cases fuel <;> rfl, ?_⟩
    have everywhere : off s [] = s.place := by
      funext bdi
      exact if_neg List.not_mem_nil
    show Kept cfg s s.place
    rw [← everywhere]
    exact waiting.kept
  | cons bdi rest ih =>
    obtain ⟨rfl, link, found, more⟩ := forward
    obtain ⟨fuel, rfl⟩ : ∃ n, fuel = n + 1 := ⟨fuel - 1, by rw [List.length_cons] at enough; omega⟩
    have apart := (List.nodup_cons.mp distinct)
    obtain ⟨after, did, waiting', links⟩ := reuseOne_waiting waiting apart.1
    rw [followed, found, Option.bind_eq_bind, Option.bind_some, did, Option.bind_eq_bind,
      Option.bind_some]
    exact ih (by rw [List.length_cons] at enough; omega) waiting' (more.congr links) apart.2

/-- A list is not longer than there ever were histories. -/
theorem length_le_next (inv : Inv cfg s) (filed : Filed s.links s.heads s.place lists)
    (slot : Slot) : (lists slot).length ≤ s.next := by
  have within : lists slot ⊆ List.range s.next := by
    intro bdi member
    have placed := (filed.member slot bdi).mp member
    rw [List.mem_range]
    by_contra above
    rw [State.place, inv.bounded bdi (Nat.le_of_not_lt above)] at placed
    cases placed
  have bound := (List.subperm_of_subset (filed.chain slot).chain_nodup within).length_le
  rwa [List.length_range] at bound

/-- The timer keeps every history where it belongs, if it frees none. -/
theorem bgpReuseTimer_inv (inv : Inv cfg s)
    (spared : ∀ bdi info, s.infos bdi = some info → s.damped info.binfo = true →
      info.index = s.reuseOffset → Spares cfg now info) :
    ∃ s', bgpReuseTimer cfg s now = some s' ∧ Inv cfg s' := by
  obtain ⟨lists, filed⟩ := inv.filed
  let slot := Slot.reuse s.reuseOffset
  let t : State := { s with
    heads := Function.update s.heads slot none
    reuseOffset := (s.reuseOffset + 1) % cfg.reuseListSize }
  obtain ⟨forward, filed'⟩ := filed.detach slot
  have places : (fun bdi => if s.place bdi = some slot then none else s.place bdi)
      = off t (lists slot) := by
    funext bdi
    rw [off]
    simp only [filed.member slot bdi]
    rfl
  rw [places] at filed'
  have waiting : Waiting cfg now t (lists slot) :=
    { kept := ⟨⟨_, filed'⟩, inv.allocated, inv.owned, inv.bounded, inv.inArray, inv.unflagged⟩
      flagged := fun bdi member => by
        have placed := (filed.member slot bdi).mp member
        obtain ⟨info, found, belongs⟩ := Option.map_eq_some_iff.mp placed
        by_cases flagged : s.damped info.binfo = true
        · rw [slotOf_damped flagged] at belongs
          exact ⟨info, found, flagged,
            spared bdi info found flagged (Slot.reuse.inj belongs)⟩
        · rw [slotOf_plain (eq_false_of_ne_true flagged)] at belongs
          exact nomatch (show Slot.noReuse = Slot.reuse s.reuseOffset from belongs) }
  exact followed_reuse (lists slot) (length_le_next inv filed slot) waiting forward
    (filed.chain slot).chain_nodup

end Timer

/-! ## Cleaning up -/

/-- Freeing one history after the other empties a list. -/
theorem followed_free {fuel : Nat} (slot : Slot) (inv : Inv cfg s)
    (filed : Filed s.links s.heads s.place lists) (enough : (lists slot).length ≤ fuel) :
    ∃ s', followed (fun s bdi => bgpDampInfoFree cfg s bdi true) fuel (s.heads slot) s = some s'
      ∧ Inv cfg s' ∧ s'.heads slot = none := by
  induction fuel generalizing s lists with
  | zero =>
    have chain := filed.chain slot
    rw [List.eq_nil_of_length_eq_zero (Nat.le_zero.mp enough)] at chain
    have empty : s.heads slot = none := chain
    rw [empty]
    exact ⟨s, rfl, inv, empty⟩
  | succ fuel ih =>
    cases whole : lists slot with
    | nil =>
      have chain := filed.chain slot
      rw [whole] at chain
      have empty : s.heads slot = none := chain
      rw [empty]
      exact ⟨s, rfl, inv, empty⟩
    | cons bdi rest =>
      have chain := filed.chain slot
      rw [whole] at chain
      obtain ⟨head, link, linked, -, -⟩ := chain
      have placed := (filed.member slot bdi).mp (by rw [whole]; exact List.mem_cons_self)
      obtain ⟨info, found, belongs⟩ := Option.map_eq_some_iff.mp placed
      obtain ⟨after, did, inv', -, filed', first, heads, next⟩ :=
        bgpDampInfoFree_inv inv filed found true
      rw [belongs] at filed' heads next
      -- The list now begins with what followed the history that was its first.
      have following : after.heads slot = link.next := by
        rw [heads, update_self]
        exact next head link linked
      have shorter : (Function.update lists slot ((lists slot).erase bdi) slot).length ≤ fuel := by
        rw [update_self, whole, List.erase_cons_head]
        rw [whole, List.length_cons] at enough
        omega
      rw [head, followed, linked, Option.bind_eq_bind, Option.bind_some, did, Option.bind_eq_bind,
        Option.bind_some, ← following]
      exact ih inv' filed' shorter

theorem cleanSlot_inv (slot : Slot) (inv : Inv cfg s) :
    ∃ s', cleanSlot cfg s slot = some s' ∧ Inv cfg s' := by
  obtain ⟨lists, filed⟩ := inv.filed
  obtain ⟨after, did, inv', empty⟩ := followed_free slot inv filed (length_le_next inv filed slot)
  refine ⟨after, ?_, inv'⟩
  rw [cleanSlot, did, Option.bind_eq_bind, Option.bind_some, ← empty, update_eq_self]
  rfl

theorem bgpDampInfoClean_inv (inv : Inv cfg s) :
    ∃ s', bgpDampInfoClean cfg s = some s' ∧ Inv cfg s' := by
  have slots : ∀ (indices : List Nat) {s : State}, Inv cfg s →
      ∃ s', indices.foldlM (fun s (i : Nat) => cleanSlot cfg s (.reuse i)) s = some s' ∧
          Inv cfg s' := by
    intro indices
    induction indices with
    | nil => exact fun inv => ⟨_, rfl, inv⟩
    | cons index rest ih =>
      intro s inv
      obtain ⟨after, did, inv'⟩ := cleanSlot_inv (.reuse index) inv
      obtain ⟨last, others, inv''⟩ := ih inv'
      refine ⟨last, ?_, inv''⟩
      rw [List.foldlM_cons, did, Option.bind_eq_bind, Option.bind_some, others]
  have reset : Inv cfg { s with reuseOffset := 0 } :=
    ⟨inv.filed, inv.allocated, inv.owned, inv.bounded, inv.inArray, inv.unflagged⟩
  obtain ⟨after, did, inv'⟩ := slots (List.range cfg.reuseListSize) reset
  obtain ⟨last, others, inv''⟩ := cleanSlot_inv .noReuse inv'
  refine ⟨last, ?_, inv''⟩
  rw [bgpDampInfoClean, did, Option.bind_eq_bind, Option.bind_some, others]

/-! ## Runs -/

/-- The reuse timer frees nothing: no history on the list it comes to has lost so much
of its penalty that it is not only used again but forgotten. -/
def Spared (cfg : Config) (s : State) : Action → Prop
  | .reuseTimer now => ∀ bdi info, s.infos bdi = some info → s.damped info.binfo = true →
      info.index = s.reuseOffset → Spares cfg now info
  | _ => True

/-- Every step keeps every history where it belongs, unless the reuse timer frees one. -/
theorem step_inv (inv : Inv cfg s) (action : Action) (spared : Spared cfg s action) :
    ∃ s', step cfg s action = some s' ∧ Inv cfg s' := by
  cases action with
  | withdraw route attrChange now =>
    obtain ⟨after, did, inv'⟩ := bgpDampWithdraw_inv inv route attrChange now
    exact ⟨after.1, by rw [step, did]; rfl, inv'⟩
  | update route now =>
    obtain ⟨after, did, inv'⟩ := bgpDampUpdate_inv inv route now
    exact ⟨after.1, by rw [step, did]; rfl, inv'⟩
  | scan route now =>
    rw [step]
    split
    · rename_i known
      obtain ⟨after, did, inv'⟩ := bgpDampScan_inv inv known now
      exact ⟨after.1, by rw [did]; rfl, inv'⟩
    · exact ⟨s, rfl, inv⟩
  | reuseTimer now => exact bgpReuseTimer_inv inv spared
  | free route withdraw =>
    rw [step]
    cases known : s.dampInfo route with
    | none => exact ⟨s, rfl, inv⟩
    | some bdi =>
      obtain ⟨info, found, -⟩ := (inv.owned route bdi).mp known
      obtain ⟨lists, filed⟩ := inv.filed
      obtain ⟨after, did, inv', -⟩ := bgpDampInfoFree_inv inv filed found withdraw
      exact ⟨after, did, inv'⟩
  | clean => exact bgpDampInfoClean_inv inv

/-- One step of a run, which ends where a freed history is followed. -/
def advance (cfg : Config) (s : Option State) (action : Action) : Option State :=
  s.bind fun s => step cfg s action

/-- The condition on a step of a run. -/
def SparedIn (cfg : Config) (s : Option State) (action : Action) : Prop :=
  ∀ state, s = some state → Spared cfg state action

/-- In every run in which the reuse timer frees nothing, every state that is reached has
every history on its list. What the timer frees has lost its flag by then and is taken
out of the list without reuse, where it is not, so that the pointers of that list are wrong. -/
theorem lists_well_formed (cfg : Config) (actions : List Action)
    (spared : Runs.Guarded (advance cfg) (SparedIn cfg) (some start) actions) :
    ∀ front later, actions = front ++ later →
      ∃ s, Runs.run (advance cfg) (some start) front = some s ∧ WellFormed s := by
  rintro front later rfl
  have guarded := ((Runs.guarded_append _ _ _ front later).mp spared).1
  obtain ⟨s, reached, inv⟩ := Runs.guarded_invariant (advance cfg) (SparedIn cfg)
    (fun s => ∃ state, s = some state ∧ Inv cfg state)
    (by
      rintro _ action ⟨state, rfl, inv⟩ spared
      obtain ⟨after, did, inv'⟩ := step_inv inv action (spared state rfl)
      exact ⟨after, did, inv'⟩)
    (some start) front ⟨start, rfl, start_inv cfg⟩ guarded
  exact ⟨s, reached, inv.filed⟩

/-! ## A late timer -/

/-- `bgp dampening 1 1900 2000 1`: seven reuse lists, and no penalty lasts longer than a
minute. -/
def oneMinute : Config where
  suppressValue := 2000
  reuseLimit := 1900
  maxSuppressTime := 60
  ceiling := 3800
  reuseListSize := 7
  sized := by decide
  bucket := fun _ => -2
  decay := fun tdiff penalty => if tdiff < 5 then penalty else if 60 ≤ tdiff then 0 else penalty / 2

/-- A route flaps twice, is set aside, and is used again because its time is over. -/
def overInTime : List Action :=
  [.withdraw 1 false 0, .withdraw 1 false 0, .scan 1 100, .reuseTimer 120]

theorem lists_well_formed_in_time :
    ∃ s, Runs.run (advance oneMinute) (some start) overInTime = some s ∧ WellFormed s := by
  refine lists_well_formed oneMinute overInTime ?_ overInTime [] (List.append_nil _).symm
  refine ⟨fun _ _ => trivial, fun _ _ => trivial, fun _ _ => trivial, ?_, trivial⟩
  intro state reached bdi info _ flagged
  have flags : (some state).map State.damped
      = some (Function.update (Function.update (fun _ => false) 1 true) 1 false) := by
    rw [← reached]
    rfl
  rw [Option.map_some, Option.some.injEq] at flags
  rw [flags, update_idem, update_apply] at flagged
  split at flagged <;> cases flagged

/-- The first route flaps twice and is set aside, the second flaps once; the timer runs
twice in time, and comes late to the first route. -/
def lateTimer : List Action :=
  [.withdraw 1 false 0, .withdraw 1 false 0, .withdraw 2 false 0, .reuseTimer 10, .reuseTimer 20,
    .reuseTimer 200]

/-- The history of the second route is still there, and the list that it belongs on is
empty. -/
theorem late_timer_loses :
    ∃ s, Runs.run (advance oneMinute) (some start) lateTimer = some s
      ∧ s.place 1 = some .noReuse ∧ s.heads .noReuse = none ∧ ¬ WellFormed s := by
  have reached : (Runs.run (advance oneMinute) (some start) lateTimer).map
      (fun s => (s.place 1, s.heads .noReuse)) = some (some .noReuse, none) := by decide
  obtain ⟨s, run, found⟩ := Option.map_eq_some_iff.mp reached
  obtain ⟨placed, empty⟩ := Prod.mk.inj found
  refine ⟨s, run, placed, empty, ?_⟩
  rintro ⟨lists, filed⟩
  have member := (filed.member .noReuse 1).mpr placed
  have chain := filed.chain .noReuse
  rw [empty] at chain
  cases whole : lists .noReuse with
  | nil =>
    rw [whole] at member
    cases member
  | cons bdi rest =>
    rw [whole] at chain
    cases chain.1

end Bgpd.DampLists
