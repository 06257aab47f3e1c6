import Bgpd.Actions
import Bgpd.Choice
import Bgpd.Contest

/-!
# The order of routes

Between routes that were learned from different neighbours the tests of the
comparison are a lexicographic order: each test asks for a number, and the last one,
the neighbour's address, differs. The MED comes first, where the two are compared
at all. If it always is and the router identifier decides before the age of a route,
then the comparison is a strict total order and the selection picks its least route,
whatever the routes' order and marks are.
-/

namespace Bgpd.RouteOrder

open Octets Attributes Neighbors Rib Selection

/-! ## Tests on numbers -/

/-- Numbers that are tested in turn. -/
def inTurn (left right : List Nat) : Option Bool := (List.zipWith lower left right).findSome? id

/-- Tests in turn follow the lexicographic order. -/
theorem inTurn_eq {left right : List Nat} (same : left.length = right.length) :
    inTurn left right = if left = right then none else some (decide (left < right)) := by
  induction left generalizing right with
  | nil =>
    obtain rfl := List.length_eq_zero_iff.mp same.symm
    rfl
  | cons first later ih =>
    cases right with
    | nil => cases same
    | cons first' later' =>
      have rest := ih (Nat.succ.inj same)
      have unfolded : inTurn (first :: later) (first' :: later') =
          (lower first first').or (inTurn later later') := by
        unfold inTurn
        rw [List.zipWith_cons_cons, List.findSome?_cons]
        cases lower first first' <;> rfl
      rw [unfolded]
      unfold lower
      rcases Nat.lt_trichotomy first first' with less | rfl | more
      · simp [less, less.ne, List.cons_lt_cons_iff]
      · simp [rest]
      · simp [more, more.ne', List.cons_lt_cons_iff, Nat.not_lt.mpr more.le]

theorem findSome?_singleton (test : Option Bool) : [test].findSome? id = test := by
  cases test <;> rfl

/-- Behind other tests it only matters what the last one comes to. -/
theorem getD_last (tests : List (Option Bool)) {last last' : Option Bool}
    (same : last.getD true = last'.getD true) :
    ((tests ++ [last]).findSome? id).getD true = ((tests ++ [last']).findSome? id).getD true := by
  rw [List.findSome?_append, List.findSome?_append, findSome?_singleton, findSome?_singleton]
  cases tests.findSome? id with
  | none => exact same
  | some decision => rfl

/-! ## What the tests ask for -/

section Keys

variable (env : Env)

/-- Local routes come first, by their kind. -/
def kind (ri : BgpInfo) : Nat :=
  match ri.subType with
  | .static => 0
  | .redistribute => 1
  | .aggregate => 2
  | .normal => 3

/-- Routes from outside come first. -/
def inside (ri : BgpInfo) : Nat := if env.external ri.peer then 0 else 1

/-- The address of a neighbour as a number; IPv4 comes first. -/
def addressRank : SockUnion → Nat
  | .inet address => address.toNat
  | .inet6 address => 2 ^ 32 + address.toNat

/-- The tests up to the kind of a route, which every two routes but two local ones of
the same kind can be told by. -/
def front (med : Bool) (ri : BgpInfo) : List Nat :=
  (if med then [(bgpMedValue env ri.attr).toNat] else []) ++
    [2 ^ 32 - weightOf ri, 2 ^ 32 - prefOf env ri, kind ri]

/-- The tests behind, for routes that were learned. -/
def back (ri : BgpInfo) : List Nat :=
  [if env.bestPath.aspathIgnore then 0 else hopsOf env ri, ri.attr.origin.toNat, inside env ri,
    ((ri.extra.map InfoExtra.igpmetric).getD 0).toNat, routerIdOf env ri, clusterOf ri,
    addressRank (env.config ri.peer).suRemote]

/-- What two routes are compared by. -/
def key (med : Bool) (ri : BgpInfo) : List Nat := front env med ri ++ back env ri

/-- Two routes that the comparison can tell apart: one of them was learned, and if both
were, then from neighbours with different addresses. -/
structure Rivals (left right : BgpInfo) : Prop where
  learned : left.subType = .normal ∨ right.subType = .normal
  addresses : left.subType = .normal → right.subType = .normal →
    (env.config left.peer).suRemote ≠ (env.config right.peer).suRemote

theorem Rivals.symm {left right : BgpInfo} (rivals : Rivals env left right) :
    Rivals env right left :=
  ⟨rivals.learned.symm, fun learned learned' => (rivals.addresses learned' learned).symm⟩

/-- A route that was learned comes from a neighbour, and not from the daemon itself. -/
def Sorted (ri : BgpInfo) : Prop :=
  ri.subType = .normal → peerSort env.bgp (env.config ri.peer) ≠ .internal

end Keys

variable {env : Env} {left right : BgpInfo}

theorem addressRank_injective {first second : SockUnion}
    (same : addressRank first = addressRank second) : first = second := by
  cases first with
  | inet address =>
    cases second with
    | inet address' => exact congrArg SockUnion.inet (BitVec.eq_of_toNat_eq same)
    | inet6 address' =>
      simp only [addressRank] at same
      omega
  | inet6 address =>
    cases second with
    | inet address' =>
      simp only [addressRank] at same
      omega
    | inet6 address' =>
      simp only [addressRank, Nat.add_left_cancel_iff] at same
      exact congrArg SockUnion.inet6 (BitVec.eq_of_toNat_eq same)

theorem after_eq (first second : SockUnion) :
    first.after second = decide (addressRank second < addressRank first) := by
  cases first with
  | inet address =>
    cases second with
    | inet address' => rfl
    | inet6 address' =>
      have below : ¬ 2 ^ 32 + address'.toNat < address.toNat := by omega
      exact (decide_eq_false below).symm
  | inet6 address =>
    cases second with
    | inet address' =>
      have below : address'.toNat < 2 ^ 32 + address.toNat := by omega
      exact (decide_eq_true below).symm
    | inet6 address' =>
      have shifted : (2 ^ 32 + address'.toNat < 2 ^ 32 + address.toNat) =
          (address'.toNat < address.toNat) := propext Nat.add_lt_add_iff_left
      simp only [SockUnion.after, addressRank, shifted]
      rfl

/-- A larger number wins where the difference to a bound does. -/
theorem lower_flip {first second : Nat} (bound : first ≤ 2 ^ 32) (bound' : second ≤ 2 ^ 32) :
    lower second first = lower (2 ^ 32 - first) (2 ^ 32 - second) := by
  unfold lower
  have one : second < first ↔ 2 ^ 32 - first < 2 ^ 32 - second := by omega
  have other : first < second ↔ 2 ^ 32 - second < 2 ^ 32 - first := by omega
  simp only [one, other]

/-- The three tests for local routes ask for the kind. -/
theorem having_kind (learned : left.subType = .normal ∨ right.subType = .normal) :
    [having (left.subType = .static) (right.subType = .static),
      having (left.subType = .redistribute) (right.subType = .redistribute),
      having (left.subType = .aggregate) (right.subType = .aggregate)].findSome? id =
      lower (kind left) (kind right) := by
  unfold kind
  rcases learned with normal | normal
  · rw [normal]
    cases right.subType <;> rfl
  · rw [normal]
    cases left.subType <;> rfl

theorem peerTypes_eq (sort : peerSort env.bgp (env.config left.peer) ≠ .internal)
    (sort' : peerSort env.bgp (env.config right.peer) ≠ .internal) :
    peerTypes env left right = lower (inside env left) (inside env right) := by
  unfold peerTypes inside Env.external
  cases first : peerSort env.bgp (env.config left.peer) with
  | internal => exact absurd first sort
  | _ =>
    cases second : peerSort env.bgp (env.config right.peer) with
    | internal => exact absurd second sort'
    | _ => simp [first, second, lower]

/-! ## The comparison -/

theorem front_length (med : Bool) : (front env med left).length = (front env med right).length := by
  unfold front
  cases med <;> rfl

theorem weightOf_bound (ri : BgpInfo) : weightOf ri ≤ 2 ^ 32 :=
  Nat.le_of_lt (ri.attr.extra.getD .zero).weight.isLt

theorem prefOf_bound (ri : BgpInfo) : prefOf env ri ≤ 2 ^ 32 := Nat.le_of_lt (BitVec.isLt _)

/-- The first six tests, for two routes that are not both local. -/
theorem front_tests (learned : left.subType = .normal ∨ right.subType = .normal) :
    ((comparisons env left right).take 6).findSome? id =
      inTurn (front env (medsCompare env left right) left)
        (front env (medsCompare env left right) right) := by
  have tests : (comparisons env left right).take 6 =
      [if medsCompare env left right then
          lower (bgpMedValue env left.attr).toNat (bgpMedValue env right.attr).toNat
        else none,
        lower (weightOf right) (weightOf left), lower (prefOf env right) (prefOf env left)] ++
      [having (left.subType = .static) (right.subType = .static),
        having (left.subType = .redistribute) (right.subType = .redistribute),
        having (left.subType = .aggregate) (right.subType = .aggregate)] := rfl
  rw [tests, List.findSome?_append, having_kind learned,
    lower_flip (weightOf_bound left) (weightOf_bound right),
    lower_flip (prefOf_bound left) (prefOf_bound right),
    ← findSome?_singleton (lower (kind left) (kind right)), ← List.findSome?_append]
  unfold inTurn front
  cases medsCompare env left right with
  | false => rfl
  | true => rfl

/-- The tests behind, for two routes that were learned. -/
theorem back_tests (router : env.bestPath.compareRouterId = true)
    (sort : peerSort env.bgp (env.config left.peer) ≠ .internal)
    (sort' : peerSort env.bgp (env.config right.peer) ≠ .internal)
    (apart : (env.config left.peer).suRemote ≠ (env.config right.peer).suRemote) :
    (((comparisons env left right).drop 6).findSome? id).getD true =
      (inTurn (back env left) (back env right)).getD true := by
  have tests : (comparisons env left right).drop 6 =
      [if env.bestPath.aspathIgnore then none else lower (hopsOf env left) (hopsOf env right),
        lower left.attr.origin.toNat right.attr.origin.toNat, peerTypes env left right,
        lower ((left.extra.map InfoExtra.igpmetric).getD 0).toNat
          ((right.extra.map InfoExtra.igpmetric).getD 0).toNat,
        if !env.bestPath.compareRouterId ∧ env.external left.peer ∧ env.external right.peer then
          having left.flags.selected right.flags.selected
        else none,
        lower (routerIdOf env left) (routerIdOf env right),
        lower (clusterOf left) (clusterOf right),
        if (env.config left.peer).suRemote.after (env.config right.peer).suRemote then some false
        else none] := rfl
  have hops : (if env.bestPath.aspathIgnore then none
      else lower (hopsOf env left) (hopsOf env right)) =
      lower (if env.bestPath.aspathIgnore then 0 else hopsOf env left)
        (if env.bestPath.aspathIgnore then 0 else hopsOf env right) := by
    cases env.bestPath.aspathIgnore <;> rfl
  -- the last test is the only one that says nothing where the first route is the lower one
  have address : (if (env.config left.peer).suRemote.after (env.config right.peer).suRemote then
      some false else none).getD true =
      (lower (addressRank (env.config left.peer).suRemote)
        (addressRank (env.config right.peer).suRemote)).getD true := by
    rw [after_eq]
    unfold lower
    rcases Nat.lt_trichotomy (addressRank (env.config left.peer).suRemote)
      (addressRank (env.config right.peer).suRemote) with less | same | more
    · simp [less, Nat.not_lt.mpr less.le]
    · exact absurd (addressRank_injective same) apart
    · simp [more, Nat.not_lt.mpr more.le]
  have age :
    (if !env.bestPath.compareRouterId ∧ env.external left.peer ∧ env.external right.peer then
      having left.flags.selected right.flags.selected else none) = none := by
    rw [router]
    exact if_neg fun both => Bool.false_ne_true both.1
  have turns : inTurn (back env left) (back env right) =
      ([lower (if env.bestPath.aspathIgnore then 0 else hopsOf env left)
          (if env.bestPath.aspathIgnore then 0 else hopsOf env right),
        lower left.attr.origin.toNat right.attr.origin.toNat,
        lower (inside env left) (inside env right),
        lower ((left.extra.map InfoExtra.igpmetric).getD 0).toNat
          ((right.extra.map InfoExtra.igpmetric).getD 0).toNat,
        lower (routerIdOf env left) (routerIdOf env right),
        lower (clusterOf left) (clusterOf right)] ++
      [lower (addressRank (env.config left.peer).suRemote)
        (addressRank (env.config right.peer).suRemote)]).findSome? id := rfl
  rw [tests, age, peerTypes_eq sort sort', hops, turns, getD_last _ address.symm]
  simp only [List.cons_append, List.nil_append, List.findSome?_cons, id]

theorem append_lt_iff {first second later later' : List Nat} (same : first.length = second.length) :
    first ++ later < second ++ later' ↔ first < second ∨ first = second ∧ later < later' := by
  induction first generalizing second with
  | nil =>
    obtain rfl := List.length_eq_zero_iff.mp same.symm
    simp
  | cons head rest ih =>
    cases second with
    | nil => cases same
    | cons head' rest' =>
      rw [List.cons_append, List.cons_append, List.cons_lt_cons_iff, List.cons_lt_cons_iff,
        ih (Nat.succ.inj same), List.cons.injEq]
      tauto

variable {med : Bool}

theorem front_kind (same : front env med left = front env med right) : kind left = kind right := by
  unfold front at same
  cases med <;> simp_all

/-- Where the first tests say nothing, both routes were learned. -/
theorem Rivals.both_learned (rivals : Rivals env left right)
    (same : front env med left = front env med right) :
    left.subType = .normal ∧ right.subType = .normal := by
  have kinds := front_kind same
  unfold kind at kinds
  rcases rivals.learned with learned | learned
  · refine ⟨learned, ?_⟩
    rw [learned] at kinds
    cases other : right.subType <;> simp [other] at kinds ⊢
  · refine ⟨?_, learned⟩
    rw [learned] at kinds
    cases other : left.subType <;> simp [other] at kinds ⊢

theorem Rivals.back_ne (rivals : Rivals env left right)
    (learned : left.subType = .normal ∧ right.subType = .normal) :
    back env left ≠ back env right := by
  intro same
  refine rivals.addresses learned.1 learned.2 (addressRank_injective ?_)
  simp only [back, List.cons.injEq] at same
  exact same.2.2.2.2.2.2.1

theorem Rivals.key_ne (rivals : Rivals env left right) (med : Bool) :
    key env med left ≠ key env med right := by
  intro same
  obtain ⟨fronts, backs⟩ := List.append_inj same (front_length med)
  exact rivals.back_ne (rivals.both_learned fronts) backs

/-- With the router identifier compared, two rivals are compared by their keys. -/
theorem bgpInfoCmp_key (router : env.bestPath.compareRouterId = true)
    (rivals : Rivals env left right) (sort : Sorted env left) (sort' : Sorted env right) :
    let med := medsCompare env left right
    bgpInfoCmp env left (some right) = decide (key env med left < key env med right) := by
  intro med
  have split : comparisons env left right =
      (comparisons env left right).take 6 ++ (comparisons env left right).drop 6 :=
    (List.take_append_drop 6 _).symm
  have less : (key env med left < key env med right) ↔ front env med left < front env med right ∨
      front env med left = front env med right ∧ back env left < back env right :=
    append_lt_iff (front_length med)
  change ((comparisons env left right).findSome? id).getD true = _
  rw [split, List.findSome?_append, front_tests rivals.learned, inTurn_eq (front_length _)]
  by_cases same : front env med left = front env med right
  · obtain ⟨learned, learned'⟩ := rivals.both_learned same
    have tests := back_tests router (sort learned) (sort' learned')
      (rivals.addresses learned learned')
    have lengths : (back env left).length = (back env right).length := rfl
    rw [inTurn_eq lengths, if_neg (rivals.back_ne ⟨learned, learned'⟩)] at tests
    rw [if_pos same, Option.none_or, tests, Option.getD_some, decide_eq_decide, less]
    constructor
    · exact fun below => Or.inr ⟨same, below⟩
    · rintro (below | ⟨_, below⟩)
      · exact absurd below (same ▸ lt_irrefl _)
      · exact below
  · rw [if_neg same, Option.some_or, Option.getD_some, decide_eq_decide, less]
    constructor
    · exact Or.inl
    · rintro (below | ⟨fronts, _⟩)
      · exact below
      · exact absurd fronts same

/-! ## The selection -/

/-- The comparison, as what a contest asks for. -/
def prefers (env : Env) (left right : BgpInfo) : Bool := bgpInfoCmp env left (some right)

/-- The main loop compares the route. -/
def enters (env : Env) (ri : BgpInfo) : Bool :=
  !ri.holddown && (!env.bestPath.deterministicMed || ri.flags.dmedSelected)

/-- The routes that the main loop compares. -/
def candidates (env : Env) (infos : List BgpInfo) : List BgpInfo := infos.filter (enters env)

/-- With the router identifier compared, no mark of a route counts. -/
theorem prefers_flags (router : env.bestPath.compareRouterId = true) (left right : BgpInfo)
    (flags flags' : InfoFlags) :
    prefers env { left with flags } { right with flags := flags' } = prefers env left right := by
  have age (selected selected' : Bool) :
      (if !env.bestPath.compareRouterId ∧ env.external left.peer ∧ env.external right.peer then
        having selected selected' else none) = none := by
    rw [router]
    exact if_neg fun both => Bool.false_ne_true both.1
  have tests : comparisons env { left with flags } { right with flags := flags' } =
      comparisons env left right := by
    unfold comparisons
    rw [age left.flags.selected right.flags.selected]
    exact congrArg (fun test => _ :: _ :: _ :: _ :: _ :: _ :: _ :: _ :: _ :: _ :: test :: _)
      (age flags.selected flags'.selected)
  change ((comparisons env _ _).findSome? id).getD true = _
  rw [tests]
  rfl

/-- A route in turn, if it is compared. -/
theorem selectLoop_turn (ri : BgpInfo) (later : List BgpInfo) (old : Option Nat)
    (new : Option BgpInfo) :
    let unmarked := (ri.put .dmedCheck false).put .dmedSelected false
    ∃ old', (selectLoop env (ri :: later) old new).new =
      (selectLoop env later old' (if enters env ri && bgpInfoCmp env unmarked new then some unmarked
        else new)).new := by
  intro unmarked
  generalize sofar : (if ri.flags.selected then some ri.id else old) = old'
  refine ⟨old', ?_⟩
  rw [Choice.selectLoop_cons env ri later old old' new sofar]
  unfold enters
  by_cases unusable : ri.holddown = true
  · rw [if_pos unusable, unusable]
    split <;> rfl
  · rw [if_neg unusable, Bool.eq_false_iff.mpr unusable]
    by_cases skipped : env.bestPath.deterministicMed ∧ !ri.flags.dmedSelected
    · have out : (!false && (!env.bestPath.deterministicMed || ri.flags.dmedSelected)) = false := by
        simpa using skipped
      rw [if_pos skipped, out]
      rfl
    · have in_ : (!false && (!env.bestPath.deterministicMed || ri.flags.dmedSelected)) = true := by
        simpa [imp_iff_not_or] using skipped
      rw [if_neg skipped, in_, Bool.true_and]

/-- Without the marks of the deterministic comparison, which the loop takes off. -/
def unmarked (ri : BgpInfo) : BgpInfo := (ri.put .dmedCheck false).put .dmedSelected false

/-- The main loop is a contest between its candidates, with the route held so far. -/
theorem selectLoop_contest (infos : List BgpInfo) (old : Option Nat) (new : Option BgpInfo) :
    (selectLoop env infos old (new.map unmarked)).new =
      (Contest.winner (prefers env) ((new.toList ++ candidates env infos).map unmarked)).map
        BgpInfo.id := by
  induction infos generalizing old new with
  | nil => cases new <;> rfl
  | cons ri later ih =>
    obtain ⟨old', turn⟩ := @selectLoop_turn env ri later old (new.map unmarked)
    rw [turn]
    unfold candidates
    by_cases compared : enters env ri = true
    · rw [List.filter_cons_of_pos compared, compared, Bool.true_and]
      cases new with
      | none => exact ih old' (some ri)
      | some held =>
        change (selectLoop env later old' (if prefers env (unmarked ri) (unmarked held) = true then
          (some ri).map unmarked else (some held).map unmarked)).new = _
        by_cases better : prefers env (unmarked ri) (unmarked held) = true
        · rw [if_pos better, ih]
          simp [Contest.winner, Contest.champion, better, candidates]
        · rw [if_neg better, ih]
          simp [Contest.winner, Contest.champion, better, candidates]
    · rw [List.filter_cons_of_neg compared, Bool.eq_false_iff.mpr compared]
      exact ih old' new

/-- With the router identifier compared, no mark counts in it. -/
theorem selectLoop_winner (router : env.bestPath.compareRouterId = true) (infos : List BgpInfo)
    (old : Option Nat) :
    (selectLoop env infos old none).new =
      (Contest.winner (prefers env) (candidates env infos)).map BgpInfo.id := by
  refine (selectLoop_contest infos old none).trans ?_
  rw [Option.toList_none, List.nil_append,
    Contest.winner_map unmarked fun left right => prefers_flags router left right _ _,
    Option.map_map]
  rfl

/-! ## With MEDs always compared -/

/-- The route came from a neighbour. -/
def Learned (env : Env) (ri : BgpInfo) : Prop :=
  ri.subType = .normal ∧ peerSort env.bgp (env.config ri.peer) ≠ .internal

/-- The routes came from neighbours with different addresses. -/
def Apart (env : Env) (left right : BgpInfo) : Prop :=
  (env.config left.peer).suRemote ≠ (env.config right.peer).suRemote

/-- The routes that can be used. -/
def usable (infos : List BgpInfo) : List BgpInfo := infos.filter fun ri => !ri.holddown

/-- Routes that came from different neighbours each. -/
structure FromNeighbors (env : Env) (infos : List BgpInfo) : Prop where
  learned : ∀ ri ∈ infos, Learned env ri
  apart : infos.Pairwise (Apart env)

/-- Without the mark of a selected route. -/
def unselected (ri : BgpInfo) : BgpInfo := ri.put .selected false

theorem FromNeighbors.unselected {infos : List BgpInfo} (field : FromNeighbors env infos) :
    FromNeighbors env (infos.map unselected) := by
  refine ⟨fun ri member => ?_, List.pairwise_map.mpr field.apart⟩
  obtain ⟨source, held, rfl⟩ := List.mem_map.mp member
  exact field.learned source held

theorem candidates_usable (plain : env.bestPath.deterministicMed = false) (infos : List BgpInfo) :
    candidates env infos = usable infos := by
  unfold candidates usable enters
  simp [plain]

section Always

variable (always : env.bestPath.alwaysCompareMed = true)
  (router : env.bestPath.compareRouterId = true)

include always router

/-- Routes of different neighbours are compared by all their numbers. -/
theorem prefers_always (learned : Learned env left) (learned' : Learned env right)
    (apart : Apart env left right) :
    prefers env left right = decide (key env true left < key env true right) ∧
      key env true left ≠ key env true right := by
  have rivals : Rivals env left right := ⟨Or.inl learned.1, fun _ _ => apart⟩
  have compared : medsCompare env left right = true := by
    unfold medsCompare
    simp [always]
  have keys := bgpInfoCmp_key router rivals (fun _ => learned.2) (fun _ => learned'.2)
  rw [compared] at keys
  exact ⟨keys, rivals.key_ne true⟩

theorem FromNeighbors.leads {infos : List BgpInfo} (field : FromNeighbors env infos)
    (filled : infos ≠ []) : ∃ best, Contest.Leads (prefers env) infos best := by
  refine Contest.leads_of_key (key env true) filled fun left among right among' different => ?_
  have symmetric : Std.Symm (Apart env) := ⟨fun _ _ => Ne.symm⟩
  have apart : Apart env left right := field.apart.forall among among' different
  obtain ⟨follows, distinct⟩ := prefers_always always router (field.learned left among)
    (field.learned right among') apart
  exact ⟨distinct, by rw [follows, decide_eq_true_iff]⟩

/-- The comparison is a strict total order on the routes of different neighbours, and
the selection picks the least of those that can be used. Neither their order nor the
marks of selected routes nor the routes between them that cannot be used make a
difference. -/
theorem selection_least (plain : env.bestPath.deterministicMed = false) :
    (∀ left right, Learned env left → Learned env right → Apart env left right →
      bgpInfoCmp env left (some right) = !bgpInfoCmp env right (some left)) ∧
    (∀ first second third, Learned env first → Learned env second → Learned env third →
      Apart env first second → Apart env second third → Apart env first third →
      bgpInfoCmp env first (some second) = true → bgpInfoCmp env second (some third) = true →
        bgpInfoCmp env first (some third) = true) ∧
    (∀ infos, FromNeighbors env (usable infos) →
      (usable infos = [] → (bgpBestSelection env infos).new = none) ∧
      (usable infos ≠ [] → ∃ best ∈ usable infos,
        (bgpBestSelection env infos).new = some best.id ∧
          ∀ other ∈ usable infos, other ≠ best → bgpInfoCmp env best (some other) = true)) ∧
    ∀ infos infos', FromNeighbors env (usable infos) →
      ((usable infos').map unselected).Perm ((usable infos).map unselected) →
        (bgpBestSelection env infos').new = (bgpBestSelection env infos).new := by
  have selected (infos : List BgpInfo) : (bgpBestSelection env infos).new =
      (Contest.winner (prefers env) (usable infos)).map BgpInfo.id := by
    unfold bgpBestSelection
    rw [plain, if_neg Bool.false_ne_true, selectLoop_winner router, candidates_usable plain]
  refine ⟨?_, ?_, ?_, ?_⟩
  · intro left right learned learned' apart
    obtain ⟨follows, distinct⟩ := prefers_always always router learned learned' apart
    obtain ⟨follows', _⟩ := prefers_always always router learned' learned (Ne.symm apart)
    change prefers env left right = !prefers env right left
    rw [follows, follows']
    rcases lt_or_gt_of_ne distinct with less | more
    · simp [less, less.asymm]
    · simp [more, more.asymm]
  · intro first second third learned learned' learned'' apart apart' apart'' better better'
    have one := (prefers_always always router learned learned' apart).1.symm.trans better
    have two := (prefers_always always router learned' learned'' apart').1.symm.trans better'
    have three := (prefers_always always router learned learned'' apart'').1
    refine three.trans (decide_eq_true ?_)
    exact lt_trans (of_decide_eq_true one) (of_decide_eq_true two)
  · intro infos field
    refine ⟨fun nothing => ?_, fun filled => ?_⟩
    · rw [selected, nothing]
      rfl
    · obtain ⟨best, leads⟩ := field.leads always router filled
      refine ⟨best, leads.1, ?_, fun other among different => (leads.2 other among different).1⟩
      rw [selected, leads.wins]
      rfl
  · intro infos infos' field permuted
    have blind (infos : List BgpInfo) :
        (Contest.winner (prefers env) (usable infos)).map BgpInfo.id =
          (Contest.winner (prefers env) ((usable infos).map unselected)).map BgpInfo.id := by
      rw [Contest.winner_map unselected fun left right => prefers_flags router left right _ _,
        Option.map_map]
      rfl
    rw [selected, selected, blind, blind]
    by_cases filled : (usable infos).map unselected = []
    · rw [filled] at permuted ⊢
      rw [permuted.eq_nil]
    · obtain ⟨best, leads⟩ := field.unselected.leads always router filled
      rw [leads.wins, (leads.of_perm permuted).wins]

end Always

/-- An instance with neighbours in other ASes, which decides by these options. -/
def deciding (bestPath : BestPath) : Env :=
  { Actions.plainEnv [1, 2, 3] with bestPath }

/-- A route of a neighbour, whose path has one AS number. -/
def heard (id peer : Nat) (med : U32) (flags : InfoFlags) : BgpInfo where
  id := id
  peer := peer
  type := .bgp
  subType := .normal
  attr := { bgpAttrDefaultSet bgpOriginIgp with
    aspath := some ⟨[⟨.asSequence, [65001 + BitVec.ofNat 32 peer]⟩]⟩
    med := med }
  extra := none
  flags := flags

/-- Three routes, of which one is selected, and one that was removed. -/
def threeHeard : List BgpInfo :=
  [heard 1 1 30 { valid := true, selected := true }, heard 4 1 0 { valid := true, removed := true },
    heard 2 2 10 { valid := true }, heard 3 3 20 { valid := true }]

/-- The least of the three is picked. -/
theorem selection_least_three :
    let env := deciding { alwaysCompareMed := true, compareRouterId := true }
    ∃ best ∈ usable threeHeard, (bgpBestSelection env threeHeard).new = some best.id ∧
      ∀ other ∈ usable threeHeard, other ≠ best → bgpInfoCmp env best (some other) = true := by
  have field : FromNeighbors (deciding { alwaysCompareMed := true, compareRouterId := true })
      (usable threeHeard) := by
    refine ⟨?_, ?_⟩
    · unfold Learned
      decide
    · unfold Apart
      decide
  exact ((@selection_least (deciding { alwaysCompareMed := true, compareRouterId := true })
    rfl rfl rfl).2.2.1 threeHeard field).2 (by decide)

end Bgpd.RouteOrder
