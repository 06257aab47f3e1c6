import Bgpd.Selection

/-!
# What the selection does to a node

The selection changes no flag of a route but its own two marks. A selected route
is never taken out by it, the route it finds selected so far is one, and the route
it picks can be used.
-/

namespace Bgpd.Choice

open Rib Selection

variable (env : Env)

/-- Only the marks of the deterministic MED comparison may differ. -/
def Remarked (ri ri' : BgpInfo) : Prop :=
  ∃ check group, ri' = (ri.put .dmedCheck check).put .dmedSelected group

namespace Remarked

variable {ri ri' ri'' : BgpInfo}

theorem refl (ri : BgpInfo) : Remarked ri ri := ⟨ri.flags.dmedCheck, ri.flags.dmedSelected, rfl⟩

theorem trans (left : Remarked ri ri') (right : Remarked ri' ri'') : Remarked ri ri'' := by
  obtain ⟨check, group, rfl⟩ := left
  obtain ⟨check', group', rfl⟩ := right
  exact ⟨check', group', rfl⟩

theorem check (ri : BgpInfo) (on : Bool) : Remarked ri (ri.put .dmedCheck on) :=
  ⟨on, ri.flags.dmedSelected, rfl⟩

theorem group (ri : BgpInfo) (on : Bool) : Remarked ri (ri.put .dmedSelected on) :=
  ⟨ri.flags.dmedCheck, on, rfl⟩

theorem id (remarked : Remarked ri ri') : ri'.id = ri.id := by
  obtain ⟨check, group, rfl⟩ := remarked
  rfl

theorem selected (remarked : Remarked ri ri') : ri'.flags.selected = ri.flags.selected := by
  obtain ⟨check, group, rfl⟩ := remarked
  rfl

end Remarked

variable (infos : List BgpInfo)

/-- All routes of a list are remarked in their places. -/
def RemarkedAll (infos infos' : List BgpInfo) : Prop :=
  ∃ change, infos' = infos.map change ∧ ∀ ri, Remarked ri (change ri)

theorem RemarkedAll.refl : RemarkedAll infos infos :=
  ⟨fun ri => ri, (List.map_id' infos).symm, .refl⟩

theorem RemarkedAll.trans {infos infos' infos'' : List BgpInfo} (left : RemarkedAll infos infos')
    (right : RemarkedAll infos' infos'') : RemarkedAll infos infos'' := by
  obtain ⟨change, rfl, each⟩ := left
  obtain ⟨change', rfl, each'⟩ := right
  exact ⟨change' ∘ change, List.map_map, fun ri => (each ri).trans (each' (change ri))⟩

theorem changeIn_remarked (id : Nat) (change : BgpInfo → BgpInfo)
    (each : ∀ ri, Remarked ri (change ri)) : RemarkedAll infos (changeIn infos id change) := by
  refine ⟨_, rfl, fun ri => ?_⟩
  split
  · exact each ri
  · exact .refl ri

theorem dmedGroup_remarked (ri1 : BgpInfo) (ids : List Nat) (infos : List BgpInfo) (best : Nat) :
    RemarkedAll infos (dmedGroup env ri1 ids infos best).1 := by
  induction ids generalizing infos best with
  | nil => exact .refl infos
  | cons id later ih =>
    unfold dmedGroup
    split
    · exact ih infos best
    · split
      · exact ih infos best
      · split
        · dsimp only
          refine RemarkedAll.trans ?_ (ih _ _)
          refine RemarkedAll.trans ?_ (changeIn_remarked _ id _ fun ri => .check ri true)
          split
          · exact changeIn_remarked infos best _ fun ri => .group ri false
          · exact .refl infos
        · exact ih infos best

theorem dmedPass_remarked (ids : List Nat) (infos : List BgpInfo) :
    RemarkedAll infos (dmedPass env ids infos) := by
  induction ids generalizing infos with
  | nil => exact .refl infos
  | cons id later ih =>
    unfold dmedPass
    split
    · exact ih infos
    · rename_i ri1 found
      split
      · exact ih infos
      · have grouped := dmedGroup_remarked env ri1 later infos id
        refine (grouped.trans ?_).trans (ih _)
        exact changeIn_remarked _ _ _ fun ri => (Remarked.check ri true).trans (.group _ true)

/-- What the selection leaves of the routes of a node, with a route that was
selected before those. -/
structure Selects (infos : List BgpInfo) (old : Option Nat) (selected : Selected) : Prop where
  names : (selected.infos.map BgpInfo.id).Sublist (infos.map BgpInfo.id)
  origin : ∀ ri' ∈ selected.infos, ∃ ri ∈ infos, Remarked ri ri'
  kept : ∀ ri ∈ infos, ri.flags.selected = true → ∃ ri' ∈ selected.infos, Remarked ri ri'
  old : (∃ ri ∈ infos, ri.flags.selected = true ∧ selected.old = some ri.id) ∨
    (∀ ri ∈ infos, ri.flags.selected = false) ∧ selected.old = old

/-- One more route in front of what the loop selects among the later ones. -/
theorem Selects.cons {later : List BgpInfo} {old : Option Nat} {rest : Selected} {ri ri' : BgpInfo}
    (selects : Selects later (if ri.flags.selected then some ri.id else old) rest)
    (remarked : Remarked ri ri') :
    Selects (ri :: later) old { rest with infos := ri' :: rest.infos } where
  names := by
    rw [List.map_cons, List.map_cons, remarked.id]
    exact selects.names.cons_cons ri.id
  origin := by
    intro other member
    rcases List.mem_cons.mp member with rfl | inRest
    · exact ⟨ri, List.mem_cons_self, remarked⟩
    · obtain ⟨source, held, same⟩ := selects.origin other inRest
      exact ⟨source, List.mem_cons_of_mem _ held, same⟩
  kept := by
    intro other member marked
    rcases List.mem_cons.mp member with rfl | inLater
    · exact ⟨ri', List.mem_cons_self, remarked⟩
    · obtain ⟨kept, held, same⟩ := selects.kept other inLater marked
      exact ⟨kept, List.mem_cons_of_mem _ held, same⟩
  old := by
    rcases selects.old with ⟨other, held, marked, same⟩ | ⟨none, same⟩
    · exact Or.inl ⟨other, List.mem_cons_of_mem _ held, marked, same⟩
    · cases marked : ri.flags.selected with
      | true => exact Or.inl ⟨ri, List.mem_cons_self, marked, by simpa [marked] using same⟩
      | false =>
        refine Or.inr ⟨?_, by simpa [marked] using same⟩
        intro other member
        rcases List.mem_cons.mp member with rfl | inLater
        · exact marked
        · exact none other inLater

/-- One turn of the loop, with the route selected so far. -/
theorem selectLoop_cons (ri : BgpInfo) (later : List BgpInfo) (old old' : Option Nat)
    (new : Option BgpInfo) (sofar : (if ri.flags.selected then some ri.id else old) = old') :
    selectLoop env (ri :: later) old new =
      if ri.holddown then
        if ri.flags.removed ∧ old' ≠ some ri.id then selectLoop env later old' new
        else
          { selectLoop env later old' new with infos := ri ::
            (selectLoop env later old' new).infos }
      else if env.bestPath.deterministicMed ∧ !ri.flags.dmedSelected then
        { selectLoop env later old' new with
          infos := ri.put .dmedCheck false :: (selectLoop env later old' new).infos }
      else
        let ri := (ri.put .dmedCheck false).put .dmedSelected false
        let rest := selectLoop env later old' (if bgpInfoCmp env ri new then some ri else new)
        { rest with infos := ri :: rest.infos } := by
  subst sofar
  rfl

theorem selectLoop_selects (old : Option Nat) (new : Option BgpInfo) :
    Selects infos old (selectLoop env infos old new) := by
  induction infos generalizing old new with
  | nil =>
    exact ⟨List.Sublist.refl _, fun _ member => absurd member List.not_mem_nil,
      fun _ member => absurd member List.not_mem_nil,
      Or.inr ⟨fun _ member => absurd member List.not_mem_nil, rfl⟩⟩
  | cons ri later ih =>
    generalize sofar : (if ri.flags.selected then some ri.id else old) = old'
    rw [selectLoop_cons env ri later old old' new sofar]
    split
    · split
      · rename_i removed
        -- A route that goes is not the one selected so far.
        have unmarked : ri.flags.selected = false := by
          by_contra marked
          rw [if_pos (eq_true_of_ne_false marked)] at sofar
          exact removed.2 sofar.symm
        simp only [unmarked, Bool.false_eq_true, if_false] at sofar
        subst sofar
        have rest := ih old new
        refine ⟨rest.names.cons ri.id, ?_, ?_, ?_⟩
        · intro other member
          obtain ⟨source, held, same⟩ := rest.origin other member
          exact ⟨source, List.mem_cons_of_mem _ held, same⟩
        · intro other member marked
          rcases List.mem_cons.mp member with rfl | inLater
          · rw [unmarked] at marked
            exact absurd marked Bool.false_ne_true
          · exact rest.kept other inLater marked
        · rcases rest.old with ⟨other, held, marked, same⟩ | ⟨none, same⟩
          · exact Or.inl ⟨other, List.mem_cons_of_mem _ held, marked, same⟩
          · refine Or.inr ⟨fun other member => ?_, same⟩
            rcases List.mem_cons.mp member with rfl | inLater
            · exact unmarked
            · exact none other inLater
      · subst sofar
        exact (ih _ new).cons (.refl ri)
    · split
      · subst sofar
        exact (ih _ new).cons (.check ri false)
      · subst sofar
        exact (ih _ _).cons ((Remarked.check ri false).trans (.group _ false))

/-- The route that is picked is among those that stay and can be used, or it is the
best one so far. -/
theorem selectLoop_new (old : Option Nat) (new : Option BgpInfo) (id : Nat)
    (picked : (selectLoop env infos old new).new = some id) :
    (∃ ri ∈ (selectLoop env infos old new).infos, ri.id = id ∧ ri.holddown = false) ∨
      new.map BgpInfo.id = some id := by
  induction infos generalizing old new with
  | nil => exact Or.inr picked
  | cons ri later ih =>
    rw [selectLoop_cons env ri later old _ new rfl] at picked ⊢
    generalize (if ri.flags.selected then some ri.id else old) = old' at picked ⊢
    split
    · rename_i unusable
      rw [if_pos unusable] at picked
      split
      · rename_i removed
        rw [if_pos removed] at picked
        exact ih _ _ picked
      · rename_i stays
        rw [if_neg stays] at picked
        exact (ih _ _ picked).imp_left fun ⟨other, held, same⟩ =>
          ⟨other, List.mem_cons_of_mem _ held, same⟩
    · rename_i usable
      rw [if_neg usable] at picked
      split
      · rename_i skipped
        rw [if_pos skipped] at picked
        exact (ih _ _ picked).imp_left fun ⟨other, held, same⟩ =>
          ⟨other, List.mem_cons_of_mem _ held, same⟩
      · rename_i compared
        rw [if_neg compared] at picked
        rcases ih _ _ picked with ⟨other, held, same⟩ | best
        · exact Or.inl ⟨other, List.mem_cons_of_mem _ held, same⟩
        · split at best
          · refine Or.inl ⟨_, List.mem_cons_self, Option.some.inj best, ?_⟩
            exact eq_false_of_ne_true usable
          · exact Or.inr best

/-- `bgp_best_selection` does what its loop does. -/
theorem bgpBestSelection_selects :
    Selects infos none (bgpBestSelection env infos) := by
  unfold bgpBestSelection
  split
  · obtain ⟨change, same, each⟩ := dmedPass_remarked env (infos.map BgpInfo.id) infos
    have selects := selectLoop_selects env (dmedPass env (infos.map BgpInfo.id) infos) none none
    generalize selectLoop env (dmedPass env (infos.map BgpInfo.id) infos) none none = selected
      at selects ⊢
    rw [same] at selects
    have names : (infos.map change).map BgpInfo.id = infos.map BgpInfo.id := by
      rw [List.map_map]
      exact List.map_congr_left fun ri _ => (each ri).id
    refine ⟨names ▸ selects.names, ?_, ?_, ?_⟩
    · intro ri' member
      obtain ⟨mid, held, remarked⟩ := selects.origin ri' member
      obtain ⟨ri, held', rfl⟩ := List.mem_map.mp held
      exact ⟨ri, held', (each ri).trans remarked⟩
    · intro ri held marked
      obtain ⟨ri', member, remarked⟩ := selects.kept (change ri) (List.mem_map_of_mem held)
        ((each ri).selected.trans marked)
      exact ⟨ri', member, (each ri).trans remarked⟩
    · rcases selects.old with ⟨mid, held, marked, found⟩ | ⟨none, found⟩
      · obtain ⟨ri, held', rfl⟩ := List.mem_map.mp held
        exact Or.inl ⟨ri, held', (each ri).selected ▸ marked, (each ri).id ▸ found⟩
      · refine Or.inr ⟨fun ri held => ?_, found⟩
        rw [← (each ri).selected]
        exact none _ (List.mem_map_of_mem held)
  · exact selectLoop_selects env infos none none

theorem bgpBestSelection_new (id : Nat) (picked : (bgpBestSelection env infos).new = some id) :
    ∃ ri ∈ (bgpBestSelection env infos).infos, ri.id = id ∧ ri.holddown = false := by
  unfold bgpBestSelection at picked ⊢
  rcases selectLoop_new env _ none none id picked with found | none
  · exact found
  · exact absurd none (by simp)

end Bgpd.Choice
