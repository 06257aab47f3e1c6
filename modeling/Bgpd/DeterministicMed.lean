import Bgpd.RouteOrder

/-!
# Deterministic MED

The pass before the selection leaves one route for each neighbouring AS: the one that
is preferred to all others of the AS. The main loop is a contest between these, and
between them MEDs are compared only where neither path has an AS. So the comparison
may go round in a circle, and the selection does not depend on the order of the routes
exactly when one of those routes is preferred to all the others.
-/

namespace Bgpd.DeterministicMed

open Octets AsPath Rib Selection RouteOrder

/-! ## Routes of the same AS -/

/-- The two routes are put into one group. -/
def sameAs (left right : BgpInfo) : Bool :=
  aspathCmpLeft (BgpInfo.aspath left) (BgpInfo.aspath right)
    || aspathCmpLeftConfed (BgpInfo.aspath left) (BgpInfo.aspath right)

/-- The AS a path starts with. -/
def leftmost (path : Aspath) : Option U32 :=
  match path.segments with
  | ⟨.asSequence, as⟩ :: _ => some (firstAs ⟨.asSequence, as⟩)
  | _ => none

/-- The path has no confederation segments. -/
def Plain (ri : BgpInfo) : Prop := ∀ seg ∈ (BgpInfo.aspath ri).segments, seg.confed = false

instance (ri : BgpInfo) : Decidable (Plain ri) := by
  unfold Plain
  infer_instance

variable {ri : BgpInfo}

theorem dropWhile_plain (plain : Plain ri) :
    (BgpInfo.aspath ri).segments.dropWhile Assegment.confed = (BgpInfo.aspath ri).segments := by
  unfold Plain at plain
  cases segments : (BgpInfo.aspath ri).segments with
  | nil => rfl
  | cons seg rest =>
    rw [segments] at plain
    exact List.dropWhile_cons_of_neg (Bool.eq_false_iff.mp (plain seg List.mem_cons_self))

variable {left right : BgpInfo}

/-- Without confederation segments, routes are grouped by the AS their paths start with. -/
theorem sameAs_iff (plain : Plain left) (plain' : Plain right) :
    sameAs left right = true ↔
      ∃ as, leftmost (BgpInfo.aspath left) = some as ∧
        leftmost (BgpInfo.aspath right) = some as := by
  unfold sameAs aspathCmpLeft aspathCmpLeftConfed leftmost
  rw [dropWhile_plain plain, dropWhile_plain plain']
  unfold Plain at plain plain'
  generalize (BgpInfo.aspath left).segments = segments at plain ⊢
  generalize (BgpInfo.aspath right).segments = segments' at plain' ⊢
  rcases segments with _ | ⟨⟨type, as⟩, rest⟩
  · simp
  · rcases segments' with _ | ⟨⟨type', as'⟩, rest'⟩
    · simp
    · have first := plain _ List.mem_cons_self
      have first' := plain' _ List.mem_cons_self
      cases type with
      | asConfedSequence => cases first
      | asConfedSet => cases first
      | asSet => simp
      | asSequence =>
        cases type' with
        | asConfedSequence => cases first'
        | asConfedSet => cases first'
        | asSet => simp
        | asSequence =>
          simp only [reduceCtorEq, decide_true, decide_false, Bool.true_and, Bool.false_and,
            Bool.or_false, Option.some.injEq]
          exact ⟨fun same => ⟨_, of_decide_eq_true same, rfl⟩,
            fun ⟨_, same, same'⟩ => decide_eq_true (same.trans same'.symm)⟩

variable {env : Env}
variable (infos : List BgpInfo) (checked chosen : Nat → Bool) (id : Nat)

theorem sameAs_symm (plain : Plain left) (plain' : Plain right) (same : sameAs left right = true) :
    sameAs right left = true := by
  obtain ⟨as, starts, starts'⟩ := (sameAs_iff plain plain').mp same
  exact (sameAs_iff plain' plain).mpr ⟨as, starts', starts⟩

theorem sameAs_trans {first second third : BgpInfo} (plain : Plain first) (plain' : Plain second)
    (plain'' : Plain third) (same : sameAs first second = true)
    (same' : sameAs second third = true) : sameAs first third = true := by
  obtain ⟨as, starts, starts'⟩ := (sameAs_iff plain plain').mp same
  obtain ⟨as', again, starts''⟩ := (sameAs_iff plain' plain'').mp same'
  rw [starts'] at again
  cases again
  exact (sameAs_iff plain plain'').mpr ⟨as, starts, starts''⟩

/-- No AS counts in the length of the path. -/
def local_ (ri : BgpInfo) : Bool := aspathCountHops (BgpInfo.aspath ri) = 0

/-- Without confederation segments, MEDs are compared inside an AS, and between paths
that have none. -/
theorem medsCompare_plain (plain : Plain left) (plain' : Plain right) :
    medsCompare env left right =
      (env.bestPath.alwaysCompareMed || sameAs left right || (local_ left && local_ right)) := by
  have none (ri : BgpInfo) (plain : Plain ri) : aspathCountConfeds (BgpInfo.aspath ri) = 0 := by
    unfold Plain at plain
    unfold aspathCountConfeds
    refine List.sum_eq_zero fun count inside => ?_
    obtain ⟨⟨type, as⟩, member, rfl⟩ := List.mem_map.mp inside
    have other := plain _ member
    cases type with
    | asConfedSequence => cases other
    | asConfedSet => cases other
    | _ => rfl
  unfold medsCompare sameAs local_
  simp [none left plain, none right plain', Bool.or_assoc]

/-! ## Marks -/

/-- A route with the two marks of the pass. -/
def mark (checked chosen : Nat → Bool) (ri : BgpInfo) : BgpInfo :=
  (ri.put .dmedCheck (checked ri.id)).put .dmedSelected (chosen ri.id)

/-- Changing the marks of one route. -/
theorem changeIn_mark {checked chosen checked' chosen' : Nat → Bool} {id : Nat}
    {change : BgpInfo → BgpInfo}
    (own : ∀ ri : BgpInfo, ri.id = id → change (mark checked chosen ri) = mark checked' chosen' ri)
    (others : ∀ n, n ≠ id → checked' n = checked n ∧ chosen' n = chosen n) :
    changeIn (infos.map (mark checked chosen)) id change = infos.map (mark checked' chosen') := by
  unfold changeIn
  rw [List.map_map]
  refine List.map_congr_left fun ri _ => ?_
  have named : (mark checked chosen ri).id = ri.id := rfl
  rw [Function.comp_apply, named]
  by_cases same : ri.id = id
  · rw [if_pos same, own ri same]
  · obtain ⟨keeps, keeps'⟩ := others ri.id same
    rw [if_neg same]
    unfold mark
    rw [keeps, keeps']

theorem changeIn_check :
    changeIn (infos.map (mark checked chosen)) id (·.put .dmedCheck true) =
      infos.map (mark (fun n => n = id || checked n) chosen) := by
  refine changeIn_mark infos (fun ri same => ?_) fun n different => ⟨?_, rfl⟩
  · simp [mark, same]
    rfl
  · simp [different]

theorem changeIn_unchosen (unchosen : chosen id = false) :
    changeIn (infos.map (mark checked chosen)) id (·.put .dmedSelected false) =
      infos.map (mark checked chosen) := by
  refine changeIn_mark infos (fun ri same => ?_) fun _ _ => ⟨rfl, rfl⟩
  unfold mark
  rw [same, unchosen]
  rfl

theorem changeIn_chosen :
    changeIn (infos.map (mark checked chosen)) id
        (fun ri => (ri.put .dmedCheck true).put .dmedSelected true) =
      infos.map (mark (fun n => n = id || checked n) (fun n => n = id || chosen n)) := by
  refine changeIn_mark infos (fun ri same => ?_) fun n different => ⟨?_, ?_⟩
  · simp [mark, same]
    rfl
  · simp [different]
  · simp [different]

/-- A route is found by its name. -/
theorem find_mark {infos : List BgpInfo} (distinct : (infos.map BgpInfo.id).Nodup)
    (checked chosen : Nat → Bool) (held : ri ∈ infos) :
    (infos.map (mark checked chosen)).find? (fun other => other.id = ri.id) =
      some (mark checked chosen ri) := by
  have found : infos.find? (fun other => other.id = ri.id) = some ri := by
    cases hit : infos.find? (fun other => other.id = ri.id) with
    | none =>
      have absent := List.find?_eq_none.mp hit ri held
      exact absurd (decide_eq_true rfl) absent
    | some other =>
      have named : other.id = ri.id := by simpa using List.find?_some hit
      rw [List.inj_on_of_nodup_map distinct (List.mem_of_find?_eq_some hit) held named]
  rw [List.find?_map]
  exact congrArg (Option.map _) found

/-! ## One group -/

/-- The routes of a node as a list that the claim is about: usable and unmarked, each
from another neighbour but for one that may be local. -/
structure Field (env : Env) (infos : List BgpInfo) : Prop where
  usable : ∀ ri ∈ infos, ri.holddown = false
  unmarked : ∀ ri ∈ infos, ri.flags.dmedCheck = false ∧ ri.flags.dmedSelected = false
  distinct : (infos.map BgpInfo.id).Nodup
  plain : ∀ ri ∈ infos, Plain ri
  sorted : ∀ ri ∈ infos, Sorted env ri
  rivals : infos.Pairwise (Rivals env)

namespace Field

variable {infos : List BgpInfo}

theorem of_perm {infos' : List BgpInfo} (field : Field env infos) (permuted : infos'.Perm infos) :
    Field env infos' where
  usable ri member := field.usable ri (permuted.mem_iff.mp member)
  unmarked ri member := field.unmarked ri (permuted.mem_iff.mp member)
  distinct := (permuted.map _).nodup_iff.mpr field.distinct
  plain ri member := field.plain ri (permuted.mem_iff.mp member)
  sorted ri member := field.sorted ri (permuted.mem_iff.mp member)
  rivals := permuted.symm.pairwise field.rivals (Rivals.symm env)

theorem named (field : Field env infos) (among : left ∈ infos) (among' : right ∈ infos)
    (same : left.id = right.id) : left = right :=
  List.inj_on_of_nodup_map field.distinct among among' same

/-- Two routes are compared by their keys. -/
theorem prefers_key (router : env.bestPath.compareRouterId = true) (field : Field env infos)
    (among : left ∈ infos) (among' : right ∈ infos) (different : left ≠ right) {med : Bool}
    (compared : medsCompare env left right = med) :
    prefers env left right = decide (key env med left < key env med right) ∧
      key env med left ≠ key env med right := by
  have symmetric : Std.Symm (Rivals env) := ⟨fun _ _ => Rivals.symm env⟩
  have rivals := field.rivals.forall among among' different
  subst compared
  exact ⟨bgpInfoCmp_key router rivals (field.sorted left among) (field.sorted right among'),
    rivals.key_ne _⟩

variable {entrants : List BgpInfo}

/-- Where all MEDs are compared, or none, some route leads. -/
theorem leads (router : env.bestPath.compareRouterId = true) (field : Field env infos)
    (within : entrants ⊆ infos) (filled : entrants ≠ []) (med : Bool)
    (compared : ∀ left ∈ entrants, ∀ right ∈ entrants, left ≠ right →
      medsCompare env left right = med) : ∃ best, Contest.Leads (prefers env) entrants best := by
  refine Contest.leads_of_key (key env med) filled fun left among right among' different => ?_
  obtain ⟨follows, apart⟩ := field.prefers_key router (within among) (within among') different
    (compared left among right among' different)
  exact ⟨apart, by rw [follows, decide_eq_true_iff]⟩

/-- Of two routes one is preferred. -/
theorem decided (router : env.bestPath.compareRouterId = true) (field : Field env infos)
    (within : entrants ⊆ infos) : Contest.Decided (prefers env) entrants := by
  intro left among right among' different
  have plain := field.plain left (within among)
  have plain' := field.plain right (within among')
  have same : sameAs right left = sameAs left right :=
    Bool.eq_iff_iff.mpr ⟨sameAs_symm plain' plain, sameAs_symm plain plain'⟩
  have symmetric : medsCompare env right left = medsCompare env left right := by
    rw [medsCompare_plain plain' plain, medsCompare_plain plain plain', same, Bool.and_comm]
  obtain ⟨follows, apart⟩ := field.prefers_key router (within among) (within among') different rfl
  obtain ⟨follows', _⟩ :=
    field.prefers_key router (within among') (within among) different.symm symmetric
  rw [follows, follows']
  rcases lt_or_gt_of_ne apart with less | more
  · simp [less, less.asymm]
  · simp [more, more.asymm]

/-- In one AS some route leads. -/
theorem group_leads (router : env.bestPath.compareRouterId = true) (field : Field env infos)
    {group : List BgpInfo} (within : group ⊆ infos) (filled : group ≠ [])
    (one : ∀ left ∈ group, ∀ right ∈ group, left ≠ right → sameAs left right = true) :
    ∃ best, Contest.Leads (prefers env) group best := by
  refine field.leads router within filled true fun left among right among' different => ?_
  rw [medsCompare_plain (field.plain left (within among)) (field.plain right (within among')),
    one left among right among' different, Bool.or_true, Bool.true_or]

end Field

/-- The inner loop is a contest between the routes of the same AS, which marks what it
looks at. -/
theorem dmedGroup_eq (router : env.bestPath.compareRouterId = true) {infos : List BgpInfo}
    (field : Field env infos) (r1 : BgpInfo) (flags : InfoFlags) {later : List BgpInfo}
    (within : later ⊆ infos) (once : later.Nodup) {checked chosen : Nat → Bool}
    (fresh : ∀ r ∈ later, sameAs r1 r = true → checked r.id = false ∧ chosen r.id = false)
    {best : BgpInfo} (held : best ∈ infos) (unchosen : chosen best.id = false) :
    ∃ checked', dmedGroup env { r1 with flags } (later.map BgpInfo.id)
        (infos.map (mark checked chosen)) best.id =
          (infos.map (mark checked' chosen),
            (Contest.champion (prefers env) best (later.filter (sameAs r1))).id) ∧
      ∀ n, checked' n = true ↔ checked n = true ∨ ∃ r ∈ later, r.id = n ∧ sameAs r1 r = true := by
  induction later generalizing checked best with
  | nil =>
    refine ⟨checked, rfl, fun n => ?_⟩
    simp
  | cons r2 later ih =>
    obtain ⟨among, rest⟩ := List.cons_subset.mp within
    obtain ⟨absent, once⟩ := List.nodup_cons.mp once
    have found := find_mark field.distinct checked chosen among
    have foundBest := find_mark field.distinct checked chosen held
    have grouped : (aspathCmpLeft (BgpInfo.aspath { r1 with flags })
        (BgpInfo.aspath (mark checked chosen r2)) ||
        aspathCmpLeftConfed (BgpInfo.aspath { r1 with flags })
          (BgpInfo.aspath (mark checked chosen r2))) = sameAs r1 r2 := rfl
    have flagged : (mark checked chosen r2).flags.dmedCheck = checked r2.id := rfl
    have usable : (mark checked chosen r2).holddown = false := field.usable r2 among
    rw [List.map_cons, dmedGroup, found]
    dsimp only
    rw [grouped, flagged, usable, Bool.or_false]
    by_cases same : sameAs r1 r2 = true
    · obtain ⟨unseen, unchosen2⟩ := fresh r2 List.mem_cons_self same
      have compared : bgpInfoCmp env (mark checked chosen r2)
          (some (mark checked chosen best)) = prefers env r2 best :=
        prefers_flags router r2 best _ _
      rw [unseen, if_neg Bool.false_ne_true, if_pos same, foundBest, compared,
        List.filter_cons_of_pos same, Contest.champion]
      -- nothing before this was chosen, so taking the choice back changes nothing
      have kept : (if prefers env r2 best = true then
          changeIn (infos.map (mark checked chosen)) best.id (·.put .dmedSelected false)
          else infos.map (mark checked chosen)) = infos.map (mark checked chosen) := by
        rw [changeIn_unchosen infos checked chosen best.id unchosen, ite_self]
      rw [kept, changeIn_check]
      have fresh' : ∀ r ∈ later, sameAs r1 r = true →
          (decide (r.id = r2.id) || checked r.id) = false ∧ chosen r.id = false := by
        intro r behind same'
        obtain ⟨unseen', unchosen'⟩ := fresh r (.tail _ behind) same'
        have other : r.id ≠ r2.id := by
          intro equal
          rw [field.named (rest behind) among equal] at behind
          exact absent behind
        rw [decide_eq_false other, Bool.false_or]
        exact ⟨unseen', unchosen'⟩
      have count (checked' : Nat → Bool)
          (marks : ∀ n, checked' n = true ↔ (decide (n = r2.id) || checked n) = true ∨
            ∃ r ∈ later, r.id = n ∧ sameAs r1 r = true) (n : Nat) :
          checked' n = true ↔ checked n = true ∨ ∃ r ∈ r2 :: later, r.id = n ∧
              sameAs r1 r = true := by
        rw [marks n, Bool.or_eq_true, decide_eq_true_iff]
        constructor
        · rintro ((rfl | before) | ⟨r, behind, named⟩)
          · exact Or.inr ⟨r2, List.mem_cons_self, rfl, same⟩
          · exact Or.inl before
          · exact Or.inr ⟨r, .tail _ behind, named⟩
        · rintro (before | ⟨r, inside, named, same'⟩)
          · exact Or.inl (Or.inr before)
          · rcases List.mem_cons.mp inside with rfl | behind
            · exact Or.inl (Or.inl named.symm)
            · exact Or.inr ⟨r, behind, named, same'⟩
      by_cases better : prefers env r2 best = true
      · rw [if_pos better, if_pos better]
        obtain ⟨checked', runs, marks⟩ :=
          @ih rest once (fun n => n = r2.id || checked n) fresh' r2 among unchosen2
        exact ⟨checked', runs, count checked' marks⟩
      · rw [if_neg better, if_neg better]
        obtain ⟨checked', runs, marks⟩ :=
          @ih rest once (fun n => n = r2.id || checked n) fresh' best held unchosen
        exact ⟨checked', runs, count checked' marks⟩
    · rw [if_neg same, ite_self, List.filter_cons_of_neg same]
      obtain ⟨checked', runs, marks⟩ :=
        ih rest once (fun r behind => fresh r (.tail _ behind)) held unchosen
      refine ⟨checked', runs, fun n => (marks n).trans ?_⟩
      simp [same]

/-! ## The pass -/

/-- The two are one route, or in one group. -/
def together (left right : BgpInfo) : Bool := left = right || sameAs left right

/-- The route is preferred to all others of its AS. -/
def foremost (env : Env) (infos : List BgpInfo) (ri : BgpInfo) : Bool :=
  infos.all fun other => other = ri || !sameAs ri other || prefers env ri other

theorem together_iff : together left right = true ↔ left = right ∨ sameAs left right = true := by
  unfold together
  rw [Bool.or_eq_true, decide_eq_true_iff]

theorem foremost_iff {infos : List BgpInfo} : foremost env infos ri = true ↔
    ∀ other ∈ infos, other ≠ ri → sameAs ri other = true → prefers env ri other = true := by
  unfold foremost
  rw [List.all_eq_true]
  refine forall₂_congr fun other _ => ?_
  cases sameAs ri other <;> simp [or_iff_not_imp_left]

namespace Field

variable {infos : List BgpInfo}

theorem together_symm (field : Field env infos) (among : left ∈ infos) (among' : right ∈ infos)
    (group : together left right = true) : together right left = true := by
  rcases together_iff.mp group with same | same
  · exact together_iff.mpr (Or.inl same.symm)
  · exact together_iff.mpr (Or.inr (sameAs_symm (field.plain _ among) (field.plain _ among') same))

variable {first : BgpInfo}

theorem together_trans (field : Field env infos) {second third : BgpInfo} (among : first ∈ infos)
    (among' : second ∈ infos) (among'' : third ∈ infos) (group : together first second = true)
    (group' : together second third = true) : together first third = true := by
  rcases together_iff.mp group with rfl | same
  · exact group'
  · rcases together_iff.mp group' with rfl | same'
    · exact group
    · exact together_iff.mpr (Or.inr (sameAs_trans (field.plain _ among) (field.plain _ among')
        (field.plain _ among'') same same'))

/-- Two routes of one group have the same AS. -/
theorem sameAs_of_together (field : Field env infos) (among : first ∈ infos) (among' : left ∈ infos)
    (among'' : right ∈ infos) (group : together first left = true)
    (group' : together first right = true) (different : left ≠ right) :
    sameAs left right = true := by
  have both := field.together_trans among' among among''
    (field.together_symm among among' group) group'
  exact (together_iff.mp both).resolve_left different

/-- The foremost route of a group is the one that leads it. -/
theorem foremost_leads (field : Field env infos) {best : BgpInfo} {group : List BgpInfo}
    (among : first ∈ infos) (members : ∀ ri, ri ∈ group ↔ ri ∈ infos ∧ together first ri = true)
    (leads : Contest.Leads (prefers env) group best) (held : ri ∈ infos) :
    ri = best ↔ foremost env infos ri = true ∧ together first ri = true := by
  obtain ⟨inside, beats⟩ := leads
  obtain ⟨heldBest, groupBest⟩ := (members best).mp inside
  constructor
  · rintro rfl
    refine ⟨foremost_iff.mpr fun other member different same => ?_, groupBest⟩
    have group' := field.together_trans among held member groupBest
      (together_iff.mpr (Or.inr same))
    exact (beats other ((members other).mpr ⟨member, group'⟩) different).1
  · rintro ⟨first', group'⟩
    by_contra different
    have same := field.sameAs_of_together among held heldBest group' groupBest different
    have loses := (beats ri ((members ri).mpr ⟨held, group'⟩) different).2
    rw [foremost_iff.mp first' best heldBest (Ne.symm different) same] at loses
    cases loses

/-- Each group has a foremost route. -/
theorem exists_foremost (router : env.bestPath.compareRouterId = true) (field : Field env infos)
    (among : first ∈ infos) :
    ∃ best ∈ infos, foremost env infos best = true ∧ together first best = true := by
  have members (ri : BgpInfo) :
      ri ∈ infos.filter (together first) ↔ ri ∈ infos ∧ together first ri = true := List.mem_filter
  have filled : infos.filter (together first) ≠ [] :=
    List.ne_nil_of_mem ((members first).mpr ⟨among, together_iff.mpr (Or.inl rfl)⟩)
  obtain ⟨best, leads⟩ := field.group_leads router (List.filter_subset_self _) filled
    fun left inside right inside' different => field.sameAs_of_together among
      ((members left).mp inside).1 ((members right).mp inside').1 ((members left).mp inside).2
      ((members right).mp inside').2 different
  have held := ((members best).mp leads.1).1
  exact ⟨best, held, (field.foremost_leads among members leads held).mp rfl⟩

end Field

/-- The checked routes among those that remain are in a group with one in front of them,
and the chosen ones are the foremost of the groups so far. -/
structure Passed (env : Env) (infos done rest : List BgpInfo) (checked chosen : Nat → Bool) :
    Prop where
  seen : ∀ ri ∈ rest, checked ri.id = true ↔ ∃ r ∈ done, sameAs r ri = true
  chose : ∀ ri ∈ infos, chosen ri.id = true ↔
    foremost env infos ri = true ∧ ∃ r ∈ done, together r ri = true

section Pass

variable {infos done later : List BgpInfo} {r1 : BgpInfo} {checked chosen : Nat → Bool}
  (field : Field env infos) (split : infos = done ++ r1 :: later)
  (passed : Passed env infos done (r1 :: later) checked chosen)

include field split passed

/-- A route that is checked belongs to a group from before. -/
theorem Passed.skip (grouped : checked r1.id = true) :
    Passed env infos (done ++ [r1]) later checked chosen := by
  have before {r : BgpInfo} (inside : r ∈ done) : r ∈ infos :=
    split ▸ List.mem_append_left _ inside
  have behind {r : BgpInfo} (inside : r ∈ later) : r ∈ infos :=
    split ▸ List.mem_append_right _ (.tail _ inside)
  have among : r1 ∈ infos := split ▸ List.mem_append_right _ List.mem_cons_self
  have once : (done ++ r1 :: later).Nodup := split ▸ field.distinct.of_map _
  obtain ⟨r, inside, same⟩ := (passed.seen r1 List.mem_cons_self).mp grouped
  have joins {ri : BgpInfo} (held : ri ∈ infos) (group : together r1 ri = true) :
      together r ri = true :=
    field.together_trans (before inside) among held (together_iff.mpr (Or.inr same)) group
  refine ⟨fun ri member => (passed.seen ri (.tail _ member)).trans ?_,
    fun ri held => (passed.chose ri held).trans (and_congr_right fun _ => ?_)⟩
  · constructor
    · rintro ⟨r', inside', same'⟩
      exact ⟨r', List.mem_append_left _ inside', same'⟩
    · rintro ⟨r', inside', same'⟩
      rcases List.mem_append.mp inside' with earlier | last
      · exact ⟨r', earlier, same'⟩
      · obtain rfl := List.mem_singleton.mp last
        refine ⟨r, inside, (together_iff.mp (joins (behind member)
          (together_iff.mpr (Or.inr same')))).resolve_left ?_⟩
        exact (List.nodup_append.mp once).2.2 r inside ri (.tail _ member)
  · constructor
    · rintro ⟨r', inside', group⟩
      exact ⟨r', List.mem_append_left _ inside', group⟩
    · rintro ⟨r', inside', group⟩
      rcases List.mem_append.mp inside' with earlier | last
      · exact ⟨r', earlier, group⟩
      · obtain rfl := List.mem_singleton.mp last
        exact ⟨r, inside, joins held group⟩

/-- No route in front of an unchecked one is in its group. -/
theorem Passed.separate (grouped : ¬ checked r1.id = true) {r : BgpInfo} (inside : r ∈ done)
    (held : ri ∈ infos) (group : together r1 ri = true) : ¬ together r ri = true := by
  intro joins
  have among : r1 ∈ infos := split ▸ List.mem_append_right _ List.mem_cons_self
  have once : (done ++ r1 :: later).Nodup := split ▸ field.distinct.of_map _
  have before : r ∈ infos := split ▸ List.mem_append_left _ inside
  have first := field.together_trans before held among joins
    (field.together_symm among held group)
  rcases together_iff.mp first with rfl | same
  · exact (List.nodup_append.mp once).2.2 r inside r List.mem_cons_self rfl
  · exact grouped ((passed.seen r1 List.mem_cons_self).mpr ⟨r, inside, same⟩)

/-- So its group is the route itself and those of its AS behind it. -/
theorem Passed.members (grouped : ¬ checked r1.id = true) (ri : BgpInfo) :
    ri ∈ r1 :: later.filter (sameAs r1) ↔ ri ∈ infos ∧ together r1 ri = true := by
  rw [List.mem_cons, List.mem_filter, together_iff]
  constructor
  · rintro (rfl | ⟨member, same⟩)
    · exact ⟨split ▸ List.mem_append_right _ List.mem_cons_self, Or.inl rfl⟩
    · exact ⟨split ▸ List.mem_append_right _ (.tail _ member), Or.inr same⟩
  · rintro ⟨held, rfl | same⟩
    · exact Or.inl rfl
    · have sides : ri ∈ done ++ r1 :: later := split ▸ held
      rcases List.mem_append.mp sides with inside | rest
      · exact absurd (together_iff.mpr (Or.inl rfl))
          (passed.separate field split grouped inside held
          (together_iff.mpr (Or.inr same)))
      · rcases List.mem_cons.mp rest with rfl | member
        · exact Or.inl rfl
        · exact Or.inr ⟨member, same⟩

/-- The inner loop finds the foremost route of the group. -/
theorem Passed.group (router : env.bestPath.compareRouterId = true)
    (grouped : ¬ checked r1.id = true) :
    ∃ checked', ∃ best ∈ infos,
      dmedGroup env (mark checked chosen r1) (later.map BgpInfo.id)
    (infos.map (mark checked chosen))
          r1.id = (infos.map (mark checked' chosen), best.id) ∧
      (∀ n, checked' n = true ↔ checked n = true ∨ ∃ r ∈ later, r.id = n ∧ sameAs r1 r = true) ∧
      ∀ ri ∈ infos, ri = best ↔ foremost env infos ri = true ∧ together r1 ri = true := by
  have among : r1 ∈ infos := split ▸ List.mem_append_right _ List.mem_cons_self
  have behind {r : BgpInfo} (inside : r ∈ later) : r ∈ infos :=
    split ▸ List.mem_append_right _ (.tail _ inside)
  have once : (done ++ r1 :: later).Nodup := split ▸ field.distinct.of_map _
  have members := passed.members field split grouped
  have unchosen {ri : BgpInfo} (held : ri ∈ infos) (group : together r1 ri = true) :
      chosen ri.id = false := by
    refine Bool.eq_false_iff.mpr fun already => ?_
    obtain ⟨_, r, inside, joins⟩ := (passed.chose ri held).mp already
    exact passed.separate field split grouped inside held group joins
  have fresh : ∀ r ∈ later, sameAs r1 r = true → checked r.id = false ∧ chosen r.id = false := by
    intro ri member same
    have group : together r1 ri = true := together_iff.mpr (Or.inr same)
    refine ⟨Bool.eq_false_iff.mpr fun already => ?_, unchosen (behind member) group⟩
    obtain ⟨r, inside, joins⟩ := (passed.seen ri (.tail _ member)).mp already
    exact passed.separate field split grouped inside (behind member) group
      (together_iff.mpr (Or.inr joins))
  obtain ⟨checked', runs, marks⟩ := dmedGroup_eq router field r1 (mark checked chosen r1).flags
    (fun _ => behind) (List.nodup_cons.mp (List.nodup_append.mp once).2.1).2 fresh among
    (unchosen among (together_iff.mpr (Or.inl rfl)))
  obtain ⟨best, leads⟩ := field.group_leads router (fun ri inside => ((members ri).mp inside).1)
    (List.cons_ne_nil _ _) fun left inside right inside' different =>
      field.sameAs_of_together among ((members left).mp inside).1 ((members right).mp inside').1
        ((members left).mp inside).2 ((members right).mp inside').2 different
  rw [leads.champion] at runs
  exact ⟨checked', best, ((members best).mp leads.1).1, runs, marks,
    fun ri held => field.foremost_leads among members leads held⟩

/-- A route that is not checked starts a group, of which the foremost route is chosen. -/
theorem Passed.start {checked' : Nat → Bool} {best : BgpInfo} (held : best ∈ infos)
    (marks : ∀ n, checked' n = true ↔
      checked n = true ∨ ∃ r ∈ later, r.id = n ∧ sameAs r1 r = true)
    (leader : ∀ ri ∈ infos, ri = best ↔ foremost env infos ri = true ∧ together r1 ri = true) :
    Passed env infos (done ++ [r1]) later (fun n => n = best.id || checked' n)
      (fun n => n = best.id || chosen n) := by
  have behind {r : BgpInfo} (inside : r ∈ later) : r ∈ infos :=
    split ▸ List.mem_append_right _ (.tail _ inside)
  have once : (done ++ r1 :: later).Nodup := split ▸ field.distinct.of_map _
  constructor
  · intro ri member
    rw [Bool.or_eq_true, decide_eq_true_iff, marks, passed.seen ri (.tail _ member)]
    have notFirst : r1 ≠ ri := by
      rintro rfl
      exact (List.nodup_cons.mp (List.nodup_append.mp once).2.1).1 member
    constructor
    · rintro (named | ⟨r, inside, same⟩ | ⟨r, inside, named, same⟩)
      · obtain ⟨_, group⟩ := (leader ri (behind member)).mp (field.named (behind member) held named)
        exact ⟨r1, List.mem_append_right _ List.mem_cons_self,
          (together_iff.mp group).resolve_left notFirst⟩
      · exact ⟨r, List.mem_append_left _ inside, same⟩
      · obtain rfl := field.named (behind inside) (behind member) named
        exact ⟨r1, List.mem_append_right _ List.mem_cons_self, same⟩
    · rintro ⟨r, inside, same⟩
      rcases List.mem_append.mp inside with earlier | last
      · exact Or.inr (Or.inl ⟨r, earlier, same⟩)
      · obtain rfl := List.mem_singleton.mp last
        exact Or.inr (Or.inr ⟨ri, member, rfl, same⟩)
  · intro ri heldRi
    have isBest : ri.id = best.id ↔ foremost env infos ri = true ∧ together r1 ri = true :=
      Iff.trans ⟨field.named heldRi held, fun same => same ▸ rfl⟩ (leader ri heldRi)
    rw [Bool.or_eq_true, decide_eq_true_iff, isBest, passed.chose ri heldRi, ← and_or_left]
    refine and_congr_right fun _ => ?_
    simp only [List.mem_append, List.mem_singleton, or_and_right, exists_or, exists_eq_left]
    exact or_comm

end Pass

/-- The pass chooses the foremost route of each group. -/
theorem dmedPass_eq (router : env.bestPath.compareRouterId = true) {infos : List BgpInfo}
    (field : Field env infos) {done rest : List BgpInfo} (split : infos = done ++ rest)
    {checked chosen : Nat → Bool} (passed : Passed env infos done rest checked chosen) :
    ∃ checked' chosen', dmedPass env (rest.map BgpInfo.id) (infos.map (mark checked chosen)) =
        infos.map (mark checked' chosen') ∧
      ∀ ri ∈ infos, chosen' ri.id = foremost env infos ri := by
  induction rest generalizing done checked chosen with
  | nil =>
    refine ⟨checked, chosen, rfl, fun ri held =>
      Bool.eq_iff_iff.mpr ((passed.chose ri held).trans ?_)⟩
    rw [List.append_nil] at split
    rw [← split]
    exact and_iff_left ⟨ri, held, together_iff.mpr (Or.inl rfl)⟩
  | cons r1 later ih =>
    have split' : infos = (done ++ [r1]) ++ later := by rw [split, List.append_assoc]; rfl
    have among : r1 ∈ infos := split ▸ List.mem_append_right _ List.mem_cons_self
    have found := find_mark field.distinct checked chosen among
    have flagged : (mark checked chosen r1).flags.dmedCheck = checked r1.id := rfl
    have usable : (mark checked chosen r1).holddown = false := field.usable r1 among
    rw [List.map_cons, dmedPass, found]
    dsimp only
    rw [flagged, usable, Bool.or_false]
    by_cases grouped : checked r1.id = true
    · rw [if_pos grouped]
      exact ih split' (passed.skip field split grouped)
    · rw [if_neg grouped]
      obtain ⟨checked', best, held, runs, marks, leader⟩ := passed.group field split router grouped
      rw [runs]
      rw [changeIn_chosen]
      exact ih split' (passed.start field split held marks leader)

/-! ## The selection -/

/-- The routes that the main loop compares. -/
def finalists (env : Env) (infos : List BgpInfo) : List BgpInfo :=
  infos.filter (foremost env infos)

/-- One of the foremost routes is preferred to all others. -/
def Settled (env : Env) (infos : List BgpInfo) : Prop :=
  ∃ best ∈ finalists env infos, ∀ other ∈ finalists env infos, other ≠ best →
    prefers env best other = true

instance (infos : List BgpInfo) : Decidable (Settled env infos) := by
  unfold Settled
  infer_instance

namespace Field

variable {infos : List BgpInfo}

theorem within : finalists env infos ⊆ infos := List.filter_subset_self _

/-- The selection is a contest between the foremost routes of all groups. -/
theorem selection (med : env.bestPath.deterministicMed = true)
    (router : env.bestPath.compareRouterId = true) (field : Field env infos) :
    (bgpBestSelection env infos).new =
      (Contest.winner (prefers env) (finalists env infos)).map BgpInfo.id := by
  have clear : infos.map (mark (fun _ => false) fun _ => false) = infos := by
    refine (List.map_congr_left fun ri held => ?_).trans (List.map_id infos)
    obtain ⟨unchecked, unchosen⟩ := field.unmarked ri held
    calc mark (fun _ => false) (fun _ => false) ri
      _ = mark (fun _ => ri.flags.dmedCheck) (fun _ => ri.flags.dmedSelected) ri := by
        rw [unchecked, unchosen]
      _ = ri := rfl
  obtain ⟨checked, chosen, passes, choice⟩ := @dmedPass_eq env router infos field [] infos rfl
    (fun _ => false) (fun _ => false) ⟨fun _ _ => by simp, fun _ _ => by simp⟩
  rw [clear] at passes
  have entered : candidates env (infos.map (mark checked chosen)) =
      (finalists env infos).map (mark checked chosen) := by
    unfold candidates finalists
    rw [List.filter_map]
    refine congrArg _ (List.filter_congr fun ri held => ?_)
    have usable : (mark checked chosen ri).holddown = false := field.usable ri held
    have selected : (mark checked chosen ri).flags.dmedSelected = chosen ri.id := rfl
    rw [Function.comp_apply, enters, usable, selected, choice ri held, med]
    rfl
  have blind := Contest.winner_map (mark checked chosen)
    (fun left right => prefers_flags router left right _ _) (finalists env infos)
  unfold bgpBestSelection
  rw [if_pos med, passes, selectLoop_winner router, entered, blind, Option.map_map]
  rfl

variable {infos' : List BgpInfo}

theorem foremost_perm (permuted : infos'.Perm infos) :
    foremost env infos' = foremost env infos := by
  funext ri
  refine Bool.eq_iff_iff.mpr (foremost_iff.trans (Iff.trans ?_ foremost_iff.symm))
  exact forall_congr' fun other => by rw [permuted.mem_iff]

theorem finalists_perm (permuted : infos'.Perm infos) :
    (finalists env infos').Perm (finalists env infos) := by
  unfold finalists
  rw [foremost_perm permuted]
  exact permuted.filter _

/-- Every order of the foremost routes comes from one of all routes. -/
theorem perm_of_finalists {order : List BgpInfo} (permuted : order.Perm (finalists env infos)) :
    ∃ infos', infos'.Perm infos ∧ finalists env infos' = order := by
  have whole : (order ++ infos.filter fun ri => !foremost env infos ri).Perm infos :=
    (permuted.append_right _).trans (List.filter_append_perm _ infos)
  refine ⟨_, whole, ?_⟩
  have inside : order.filter (foremost env infos) = order :=
    List.filter_eq_self.mpr fun ri member => (List.mem_filter.mp (permuted.mem_iff.mp member)).2
  have outside :
      (infos.filter fun ri => !foremost env infos ri).filter (foremost env infos) = [] := by
    refine List.filter_eq_nil_iff.mpr fun ri member => ?_
    simpa using (List.mem_filter.mp member).2
  unfold finalists
  rw [foremost_perm whole, List.filter_append, inside, outside, List.append_nil]

/-- One of the finalists is preferred to the others exactly when it leads. -/
theorem settled_iff (router : env.bestPath.compareRouterId = true) (field : Field env infos) :
    Settled env infos ↔ ∃ best, Contest.Leads (prefers env) (finalists env infos) best := by
  constructor
  · rintro ⟨best, among, beats⟩
    refine ⟨best, among, fun other member different => ?_⟩
    have wins := beats other member different
    have decided := field.decided router within best among other member (Ne.symm different)
    rw [wins] at decided
    exact ⟨wins, by simpa using decided⟩
  · rintro ⟨best, among, beats⟩
    exact ⟨best, among, fun other member different => (beats other member different).1⟩

end Field

/-- In every order of the routes the same one is selected. -/
def Ordered (env : Env) (infos : List BgpInfo) : Prop :=
  ∀ infos', infos'.Perm infos → (bgpBestSelection env infos').new = (bgpBestSelection env infos).new

namespace Field

variable {infos : List BgpInfo} (med : env.bestPath.deterministicMed = true)
  (router : env.bestPath.compareRouterId = true) (field : Field env infos)

include router field

theorem finalists_ne_nil (filled : infos ≠ []) : finalists env infos ≠ [] := by
  obtain ⟨first, among⟩ := List.exists_mem_of_ne_nil infos filled
  obtain ⟨best, held, foremost, _⟩ := field.exists_foremost router among
  exact List.ne_nil_of_mem (List.mem_filter.mpr ⟨held, foremost⟩)

include med

theorem ordered_of_settled (settled : Settled env infos) : Ordered env infos := by
  obtain ⟨best, leads⟩ := (field.settled_iff router).mp settled
  intro infos' permuted
  rw [(field.of_perm permuted).selection med router, field.selection med router, leads.wins,
    (leads.of_perm (finalists_perm permuted)).wins]

theorem settled_of_ordered (ordered : Ordered env infos) (filled : infos ≠ []) :
    Settled env infos := by
  obtain ⟨best, won⟩ := @Contest.exists_winner _ (prefers env) _
    (field.finalists_ne_nil router filled)
  have among := within (Contest.winner_mem won)
  refine (field.settled_iff router).mpr ⟨best,
    Contest.leads_of_wins (field.decided router within) fun order permuted => ?_⟩
  have filled' : order ≠ [] := by
    rintro rfl
    exact field.finalists_ne_nil router filled permuted.symm.eq_nil
  obtain ⟨best', won'⟩ := @Contest.exists_winner _ (prefers env) _ filled'
  have among' := within (permuted.mem_iff.mp (Contest.winner_mem won'))
  -- the two orders of the foremost routes come from two orders of all routes
  obtain ⟨infos', whole, same⟩ := perm_of_finalists permuted
  have picks := ordered infos' whole
  rw [(field.of_perm whole).selection med router, field.selection med router, same, won,
    won'] at picks
  rw [won', field.named among' among (Option.some.inj picks)]

theorem ordered_iff : Ordered env infos ↔ infos = [] ∨ Settled env infos := by
  constructor
  · intro ordered
    by_cases filled : infos = []
    · exact Or.inl filled
    · exact Or.inr (field.settled_of_ordered med router ordered filled)
  · rintro (rfl | settled)
    · intro infos' permuted
      rw [permuted.eq_nil]
    · exact field.ordered_of_settled med router settled

/-- The route that is preferred to the other foremost ones is selected. -/
theorem selects {best : BgpInfo} (among : best ∈ finalists env infos)
    (beats : ∀ other ∈ finalists env infos, other ≠ best → prefers env best other = true) :
    (bgpBestSelection env infos).new = some best.id := by
  obtain ⟨best', leads⟩ := (field.settled_iff router).mp ⟨best, among, beats⟩
  have same : best' = best := by
    by_contra different
    have loses := (leads.2 best among (Ne.symm different)).2
    rw [beats best' leads.1 different] at loses
    cases loses
  rw [field.selection med router, leads.wins, same]
  rfl

omit med

/-- Foremost routes are of different ASes. -/
theorem finalists_apart (among : left ∈ finalists env infos) (among' : right ∈ finalists env infos)
    (different : left ≠ right) : sameAs left right = false := by
  refine Bool.eq_false_iff.mpr fun same => ?_
  obtain ⟨held, first⟩ := List.mem_filter.mp among
  obtain ⟨held', first'⟩ := List.mem_filter.mp among'
  have same' := sameAs_symm (field.plain left held) (field.plain right held') same
  have decided := field.decided router within left among right among' different
  rw [foremost_iff.mp first right held' different.symm same,
    foremost_iff.mp first' left held different same'] at decided
  cases decided

theorem settled_of_comparable (filled : infos ≠ [])
    (comparable : env.bestPath.alwaysCompareMed = true ∨
      ∀ left ∈ infos, ∀ right ∈ infos, left ≠ right → local_ left = true → local_ right = false) :
    Settled env infos := by
  refine (field.settled_iff router).mpr (field.leads router within
    (field.finalists_ne_nil router filled) env.bestPath.alwaysCompareMed
    fun left among right among' different => ?_)
  rw [medsCompare_plain (field.plain left (within among)) (field.plain right (within among')),
    field.finalists_apart router among among' different, Bool.or_false]
  rcases comparable with always | once
  · rw [always, Bool.true_or]
  · cases here : local_ left with
    | false => rw [Bool.false_and, Bool.or_false]
    | true =>
      rw [once left (within among) right (within among') different here, Bool.and_false,
        Bool.or_false]

end Field

/-- The selection is a contest between the foremost routes of the neighbouring ASes. It
does not depend on the order of the routes exactly when one of these is preferred to
all others, which is then the one selected. It is so where MEDs are always compared,
or where at most one route has a path without an AS. -/
theorem deterministic_iff (med : env.bestPath.deterministicMed = true)
    (router : env.bestPath.compareRouterId = true) {infos : List BgpInfo}
    (field : Field env infos) :
    (Ordered env infos ↔ infos = [] ∨ Settled env infos) ∧
    (∀ best ∈ finalists env infos, (∀ other ∈ finalists env infos, other ≠ best →
        prefers env best other = true) → (bgpBestSelection env infos).new = some best.id) ∧
    ((env.bestPath.alwaysCompareMed = true ∨ ∀ left ∈ infos, ∀ right ∈ infos, left ≠ right →
        local_ left = true → local_ right = false) → Ordered env infos) := by
  have ordered := field.ordered_iff med router
  refine ⟨ordered, fun best among beats => field.selects med router among beats,
    fun comparable => ordered.mpr ?_⟩
  by_cases filled : infos = []
  · exact Or.inl filled
  · exact Or.inr (field.settled_of_comparable router filled comparable)

/-- An instance with two neighbours of its own AS and one of another. -/
def twoInside : Env :=
  { deciding { deterministicMed := true, compareRouterId := true } with
    config := fun peer => .plain peer (if peer = 3 then 65004 else 65001) 65001
    config_id := fun _ => rfl }

/-- A route with a preference, which the neighbour may have originated. -/
def preferred (id peer : Nat) (path : List Assegment) (med pref : U32) : BgpInfo :=
  let ri := heard id peer med { valid := true }
  { ri with attr := { ri.attr with aspath := some ⟨path⟩, localPref := pref } }

/-- Three routes that are preferred to each other in a circle. -/
def circle : List BgpInfo :=
  [preferred 1 1 [] 10 100, preferred 2 2 [] 20 200, preferred 3 3 [⟨.asSequence, [65004]⟩] 0 150]

theorem circle_field : Field twoInside circle where
  usable := by decide
  unmarked := by decide
  distinct := by decide
  plain := by decide
  sorted := by
    unfold Sorted
    decide
  rivals := by
    have apart : circle.Pairwise fun left right => left.subType = .normal ∧
        (twoInside.config left.peer).suRemote ≠ (twoInside.config right.peer).suRemote := by decide
    exact apart.imp fun ⟨learned, different⟩ => ⟨Or.inl learned, fun _ _ => different⟩

/-- Two routes without an AS compare their MEDs, and the third one only its preference. So
the route that comes last is selected. -/
theorem circle_turns : Field twoInside circle ∧ (bgpBestSelection twoInside circle).new = some 3 ∧
    (bgpBestSelection twoInside (circle.rotate 1)).new = some 1 ∧ ¬ Ordered twoInside circle := by
  have first : (bgpBestSelection twoInside circle).new = some 3 := by decide
  have second : (bgpBestSelection twoInside (circle.rotate 1)).new = some 1 := by decide
  refine ⟨circle_field, first, second, fun ordered => ?_⟩
  have same := ordered (circle.rotate 1) (List.rotate_perm circle 1)
  rw [first, second] at same
  cases same

/-- Three routes of neighbours in other ASes. -/
def outside : List BgpInfo :=
  [heard 1 1 30 { valid := true }, heard 2 2 10 { valid := true }, heard 3 3 20 { valid := true }]

theorem outside_ordered :
    Ordered (deciding { deterministicMed := true, compareRouterId := true }) outside := by
  have field : Field (deciding { deterministicMed := true, compareRouterId := true }) outside := by
    refine ⟨by decide, by decide, by decide, by decide, ?_, ?_⟩
    · unfold Sorted
      decide
    · have apart : outside.Pairwise fun left right => left.subType = .normal ∧
          Apart (deciding { deterministicMed := true, compareRouterId := true }) left right := by
        unfold Apart
        decide
      exact apart.imp fun ⟨learned, different⟩ => ⟨Or.inl learned, fun _ _ => different⟩
  exact (deterministic_iff rfl rfl field).2.2 (Or.inr (by decide))

end Bgpd.DeterministicMed
