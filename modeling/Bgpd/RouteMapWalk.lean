import Bgpd.RouteMap
import Bgpd.Runs
import Mathlib.Logic.Relation

/-!
# The walk over a route map

The comment in front of `route_map_apply` describes what a map does as a walk from index
to index: an index that does not match is skipped, one that matches and denies ends the
walk, and one that permits acts and then ends the walk, or goes on with the next index, or
with the first one at or behind a preference. Behind its last index a map has, as it were,
one that denies everything.

The walk is compared with the loop of the source, for maps as the commands build them.
-/

namespace Bgpd.RouteMapWalk

open RouteMap Runs

variable {Rule Clause σ : Type}
variable {map : List (RouteMapIndex Rule Clause)}

/-! ## Maps as commands build them -/

/-- The indexes are in the order of their preferences, and jumps go forward. -/
structure Ordered (map : List (RouteMapIndex Rule Clause)) : Prop where
  increasing : map.Pairwise fun left right => left.pref < right.pref
  forward : ∀ index ∈ map, index.exitpolicy = .goto → index.pref < index.nextpref

/-- `route_map_index_new`, with what `route_map_index_add` sets. -/
def routeMapIndexNew (type : RouteMapType) (pref : Nat) : RouteMapIndex Rule Clause :=
  ⟨pref, type, [], [], none, .exit, 0⟩

/-- `route_map_index_add`: the index goes in front of the first one that is not before it. -/
def routeMapIndexAdd (type : RouteMapType) (pref : Nat) :
    List (RouteMapIndex Rule Clause) → List (RouteMapIndex Rule Clause)
  | [] => [routeMapIndexNew type pref]
  | point :: rest =>
    if point.pref ≥ pref then routeMapIndexNew type pref :: point :: rest
    else point :: routeMapIndexAdd type pref rest

/-- `route_map_index_lookup`, where `none` is `RMAP_ANY`. -/
def routeMapIndexLookup (map : List (RouteMapIndex Rule Clause)) (type : Option RouteMapType)
    (pref : Nat) : Option (RouteMapIndex Rule Clause) :=
  map.find? fun index => (type.all fun type => index.type = type) ∧ index.pref = pref

/-- `route_map_index_delete`. -/
def routeMapIndexDelete (map : List (RouteMapIndex Rule Clause)) (pref : Nat) :
    List (RouteMapIndex Rule Clause) := map.eraseP fun index => index.pref = pref

/-- `route_map_index_get`. -/
def routeMapIndexGet (map : List (RouteMapIndex Rule Clause)) (type : RouteMapType) (pref : Nat) :
    List (RouteMapIndex Rule Clause) :=
  match routeMapIndexLookup map none pref with
  | some index =>
    if index.type ≠ type then routeMapIndexAdd type pref (routeMapIndexDelete map pref) else map
  | none => routeMapIndexAdd type pref map

/-- A command on a map, or inside one of its indexes. -/
inductive Command (Rule Clause : Type)
  | routeMap (type : RouteMapType) (pref : Nat)
  | noRouteMap (type : RouteMapType) (pref : Nat)
  | onMatchNext (pref : Nat)
  | noOnMatch (pref : Nat)
  | onMatchGoto (pref : Nat) (target : Option Nat)
  | call (pref : Nat) (nextrm : Option String)
  | rules (pref : Nat) (matchList : List Rule) (setList : List Clause)

/-- The index of a preference is changed. -/
def edit (map : List (RouteMapIndex Rule Clause)) (pref : Nat)
    (change : RouteMapIndex Rule Clause → RouteMapIndex Rule Clause) :
    List (RouteMapIndex Rule Clause) :=
  map.map fun index => if index.pref = pref then change index else index

/-- What the commands do. `on-match goto` cannot go backwards. -/
def command (map : List (RouteMapIndex Rule Clause)) :
    Command Rule Clause → List (RouteMapIndex Rule Clause)
  | .routeMap type pref => routeMapIndexGet map type pref
  | .noRouteMap type pref =>
    match routeMapIndexLookup map (some type) pref with
    | none => map
    | some _ => routeMapIndexDelete map pref
  | .onMatchNext pref => edit map pref fun index => { index with exitpolicy := .next }
  | .noOnMatch pref => edit map pref fun index => { index with exitpolicy := .exit }
  | .onMatchGoto pref target => edit map pref fun index =>
    let d := target.getD (index.pref + 1)
    if d ≤ index.pref then index else { index with exitpolicy := .goto, nextpref := d }
  | .call pref nextrm => edit map pref fun index => { index with nextrm }
  | .rules pref matchList setList => edit map pref fun index => { index with matchList, setList }

/-- A change that keeps preferences and jumps forward keeps a map ordered. -/
theorem Ordered.edit (ordered : Ordered map) (pref : Nat)
    {change : RouteMapIndex Rule Clause → RouteMapIndex Rule Clause}
    (kept : ∀ index, (change index).pref = index.pref)
    (forward : ∀ index, (index.exitpolicy = .goto → index.pref < index.nextpref) →
      (change index).exitpolicy = .goto → (change index).pref < (change index).nextpref) :
    Ordered (edit map pref change) := by
  have same : ∀ index : RouteMapIndex Rule Clause,
      (if index.pref = pref then change index else index).pref = index.pref := by
    intro index
    split
    · exact kept index
    · rfl
  constructor
  · refine List.pairwise_map.mpr (ordered.increasing.imp fun before => ?_)
    rwa [same, same]
  · intro index member
    obtain ⟨old, held, rfl⟩ := List.mem_map.mp member
    split
    · exact forward old (ordered.forward old held)
    · exact ordered.forward old held

theorem Ordered.sublist {map map' : List (RouteMapIndex Rule Clause)} (ordered : Ordered map)
    (within : map'.Sublist map) : Ordered map' :=
  ⟨ordered.increasing.sublist within, fun index member =>
    ordered.forward index (within.subset member)⟩

theorem mem_routeMapIndexAdd {type : RouteMapType} {pref : Nat}
    {index : RouteMapIndex Rule Clause} :
    index ∈ routeMapIndexAdd type pref map ↔ index = routeMapIndexNew type pref ∨ index ∈ map := by
  induction map with
  | nil => simp [routeMapIndexAdd]
  | cons point rest ih =>
    unfold routeMapIndexAdd
    split
    · exact List.mem_cons
    · rw [List.mem_cons, ih, List.mem_cons]
      exact or_left_comm

/-- An index is added where there is none of its preference. -/
theorem Ordered.add (ordered : Ordered map) (type : RouteMapType) (pref : Nat)
    (fresh : ∀ index ∈ map, index.pref ≠ pref) : Ordered (routeMapIndexAdd type pref map) := by
  constructor
  · have increasing := ordered.increasing
    clear ordered
    induction map with
    | nil => exact List.pairwise_singleton _ _
    | cons point rest ih =>
      obtain ⟨first, later⟩ := List.pairwise_cons.mp increasing
      have other := fresh point List.mem_cons_self
      unfold routeMapIndexAdd
      split <;> rename_i place
      · have before : pref < point.pref := lt_of_le_of_ne place other.symm
        refine List.pairwise_cons.mpr ⟨fun index member => ?_, increasing⟩
        rcases List.mem_cons.mp member with rfl | inside
        · exact before
        · exact before.trans (first index inside)
      · refine List.pairwise_cons.mpr
          ⟨fun index member => ?_,
            ih (fun index member => fresh index (List.mem_cons_of_mem _ member)) later⟩
        rcases mem_routeMapIndexAdd.mp member with rfl | inside
        · exact not_le.mp place
        · exact first index inside
  · intro index member jumps
    rcases mem_routeMapIndexAdd.mp member with rfl | inside
    · cases jumps
    · exact ordered.forward index inside jumps

theorem Ordered.delete (ordered : Ordered map) (pref : Nat) :
    Ordered (routeMapIndexDelete map pref) := ordered.sublist List.eraseP_sublist

/-- After a deletion the preference is free. -/
theorem routeMapIndexDelete_fresh (ordered : Ordered map) (pref : Nat) :
    ∀ index ∈ routeMapIndexDelete map pref, index.pref ≠ pref := by
  have increasing := ordered.increasing
  clear ordered
  induction map with
  | nil => exact fun index member => absurd member List.not_mem_nil
  | cons point rest ih =>
    obtain ⟨first, later⟩ := List.pairwise_cons.mp increasing
    intro index member
    unfold routeMapIndexDelete at member
    by_cases here : point.pref = pref
    · rw [List.eraseP_cons_of_pos (by simpa using here)] at member
      exact (here ▸ first index member).ne'
    · rw [List.eraseP_cons_of_neg (by simpa using here)] at member
      rcases List.mem_cons.mp member with rfl | inside
      · exact here
      · exact ih later index inside

/-- Every command keeps a map ordered. -/
theorem Ordered.command (ordered : Ordered map) (given : Command Rule Clause) :
    Ordered (command map given) := by
  cases given with
  | routeMap type pref =>
    change Ordered (routeMapIndexGet map type pref)
    unfold routeMapIndexGet
    split
    · split
      · exact (ordered.delete pref).add type pref (routeMapIndexDelete_fresh ordered pref)
      · exact ordered
    · rename_i absent
      refine ordered.add type pref fun index member => ?_
      simpa [routeMapIndexLookup] using List.find?_eq_none.mp absent index member
  | noRouteMap type pref =>
    unfold RouteMapWalk.command
    dsimp only
    split
    · exact ordered
    · exact ordered.delete pref
  | onMatchNext pref => exact ordered.edit pref (fun _ => rfl) fun _ _ goes => by cases goes
  | noOnMatch pref => exact ordered.edit pref (fun _ => rfl) fun _ _ goes => by cases goes
  | onMatchGoto pref target =>
    refine ordered.edit pref (fun index => ?_) fun index forward => ?_
    · dsimp only
      split <;> rfl
    · dsimp only
      split <;> rename_i back
      · exact forward
      · exact fun _ => not_le.mp back
  | call pref nextrm => exact ordered.edit pref (fun _ => rfl) fun _ forward => forward
  | rules pref matchList setList => exact ordered.edit pref (fun _ => rfl) fun _ forward => forward

/-- Every map that commands build is ordered: its preferences rise, and every jump leads
forward, which is what the loop over the indexes relies on. -/
theorem ordered_run (commands : List (Command Rule Clause)) :
    Ordered (run command ([] : List (RouteMapIndex Rule Clause)) commands) :=
  invariant command Ordered (fun _ given ordered => ordered.command given) [] commands
    ⟨List.Pairwise.nil, fun _ member => absurd member List.not_mem_nil⟩

/-! ## The walk -/

section Walk

variable (routeMapLookupByName : String → Option (List (RouteMapIndex Rule Clause)))
  (applyMatch : Rule → σ → RouteMapResult) (applySet : Clause → σ → RouteMapResult × σ)
  (call : List (RouteMapIndex Rule Clause) → σ → RouteMapResult × σ)
  (map : List (RouteMapIndex Rule Clause))

/-- An index matches a route. -/
def Matches (index : RouteMapIndex Rule Clause) (object : σ) : Prop :=
  routeMapApplyMatch applyMatch object index.matchList = .matched

/-- The map that an index calls denies the route. -/
def Refused (index : RouteMapIndex Rule Clause) (object : σ) : Prop :=
  ∃ nextrm, index.nextrm.bind routeMapLookupByName = some nextrm ∧
    (call nextrm (applySets applySet index.setList object).2).1 = .denyMatch

/-- The route after a matched index that permits. -/
def acted (index : RouteMapIndex Rule Clause) (object : σ) : σ :=
  (applyAction routeMapLookupByName applySet call index object).2

/-- One step of the walk, from an index with the route as it is there. A goto that finds
no index ends the walk. -/
inductive Step : Nat × σ → Nat × σ → Prop
  | skip {i : Nat} {object : σ} {index : RouteMapIndex Rule Clause} (here : map[i]? = some index)
      (other : ¬ Matches applyMatch index object) : Step (i, object) (i + 1, object)
  | next {i : Nat} {object : σ} {index : RouteMapIndex Rule Clause} (here : map[i]? = some index)
      (matched : Matches applyMatch index object) (permits : index.type = .permit)
      (allowed : ¬ Refused routeMapLookupByName applySet call index object)
      (goes : index.exitpolicy = .next) :
      Step (i, object) (i + 1, acted routeMapLookupByName applySet call index object)
  | goto {i j : Nat} {object : σ} {index : RouteMapIndex Rule Clause} (here : map[i]? = some index)
      (matched : Matches applyMatch index object) (permits : index.type = .permit)
      (allowed : ¬ Refused routeMapLookupByName applySet call index object)
      (goes : index.exitpolicy = .goto)
      (first : (map.findIdx? fun index' => index.nextpref ≤ index'.pref) = some j) :
      Step (i, object) (j, acted routeMapLookupByName applySet call index object)

/-- The walk comes to a place. -/
def Reaches (object : σ) (place : Nat × σ) : Prop :=
  Relation.ReflTransGen (Step routeMapLookupByName applyMatch applySet call map) (0, object) place

/-- A place at which the walk ends with a denial: an index that matches and denies, or
calls a map that denies, or the end of the map. -/
inductive Denies : Nat × σ → Prop
  | clause {i : Nat} {object : σ} {index : RouteMapIndex Rule Clause} (here : map[i]? = some index)
      (matched : Matches applyMatch index object) (denies : index.type = .deny) : Denies (i, object)
  | called {i : Nat} {object : σ} {index : RouteMapIndex Rule Clause} (here : map[i]? = some index)
      (matched : Matches applyMatch index object) (permits : index.type = .permit)
      (refused : Refused routeMapLookupByName applySet call index object) : Denies (i, object)
  | ended {object : σ} : Denies (map.length, object)

/-- From a place the walk comes to one of some kind. -/
def Meets (kind : Nat × σ → Prop) (place : Nat × σ) : Prop :=
  ∃ place',
    Relation.ReflTransGen (Step routeMapLookupByName applyMatch applySet call map) place place' ∧
    kind place'

theorem meets_iff (kind : Nat × σ → Prop) (place : Nat × σ) :
    Meets routeMapLookupByName applyMatch applySet call map kind place ↔
      kind place ∨ ∃ next, Step routeMapLookupByName applyMatch applySet call map place next ∧
        Meets routeMapLookupByName applyMatch applySet call map kind next := by
  constructor
  · rintro ⟨final, walk, found⟩
    rcases walk.cases_head with rfl | ⟨next, step, rest⟩
    · exact Or.inl found
    · exact Or.inr ⟨next, step, final, rest, found⟩
  · rintro (found | ⟨next, step, final, rest, found⟩)
    · exact ⟨place, .refl, found⟩
    · exact ⟨final, .head step rest, found⟩

section Places

variable {routeMapLookupByName} {applyMatch} {applySet} {call} {map} {i : Nat} {object : σ}
  {index : RouteMapIndex Rule Clause} {kind : Nat × σ → Prop}

theorem meets_skipped (here : map[i]? = some index) (other : ¬ Matches applyMatch index object) :
    Meets routeMapLookupByName applyMatch applySet call map kind (i, object) ↔ kind (i, object) ∨
      Meets routeMapLookupByName applyMatch applySet call map kind (i + 1, object) := by
  rw [meets_iff]
  refine or_congr_right ⟨?_, fun meets => ⟨_, .skip here other, meets⟩⟩
  rintro ⟨next, step, meets⟩
  cases step with
  | skip => exact meets
  | next here' matched => exact absurd (Option.some.inj (here'.symm.trans here) ▸ matched) other
  | goto here' matched => exact absurd (Option.some.inj (here'.symm.trans here) ▸ matched) other

/-- The walk ends at an index that matches and denies, or calls a map that denies. -/
theorem meets_stopped (here : map[i]? = some index) (matched : Matches applyMatch index object)
    (stops : index.type = .deny ∨ Refused routeMapLookupByName applySet call index object) :
    Meets routeMapLookupByName applyMatch applySet call map kind (i, object) ↔
      kind (i, object) := by
  have stuck : ∀ {index'}, map[i]? = some index' → index'.type = .permit →
      ¬ Refused routeMapLookupByName applySet call index' object → False := by
    intro index' there permits allowed
    obtain rfl := Option.some.inj (there.symm.trans here)
    rcases stops with denies | refused
    · rw [permits] at denies
      cases denies
    · exact allowed refused
  rw [meets_iff]
  refine or_iff_left ?_
  rintro ⟨next, step, -⟩
  cases step with
  | skip there other => exact other (Option.some.inj (there.symm.trans here) ▸ matched)
  | next there _ permits allowed => exact stuck there permits allowed
  | goto there _ permits allowed => exact stuck there permits allowed

/-- What the walk does at an index that matches and permits, when no called map denies. -/
theorem meets_permitted (here : map[i]? = some index) (matched : Matches applyMatch index object)
    (permits : index.type = .permit)
    (allowed : ¬ Refused routeMapLookupByName applySet call index object) :
    Meets routeMapLookupByName applyMatch applySet call map kind (i, object) ↔ kind (i, object) ∨
      match index.exitpolicy with
      | .exit => False
      | .next => Meets routeMapLookupByName applyMatch applySet call map kind
          (i + 1, acted routeMapLookupByName applySet call index object)
      | .goto => ∃ j, (map.findIdx? fun index' => index.nextpref ≤ index'.pref) = some j ∧
          Meets routeMapLookupByName applyMatch applySet call map kind
            (j, acted routeMapLookupByName applySet call index object) := by
  have same : ∀ {index'}, map[i]? = some index' → index' = index := fun there =>
    Option.some.inj (there.symm.trans here)
  rw [meets_iff]
  refine or_congr_right ⟨?_, ?_⟩
  · rintro ⟨next, step, meets⟩
    cases step with
    | skip there other => exact absurd matched (same there ▸ other)
    | next there _ _ _ goes =>
      obtain rfl := same there
      rw [goes]
      exact meets
    | goto there _ _ _ goes first =>
      obtain rfl := same there
      rw [goes]
      exact ⟨_, first, meets⟩
  · cases goes : index.exitpolicy with
    | exit => exact False.elim
    | next => exact fun meets => ⟨_, .next here matched permits allowed goes, meets⟩
    | goto =>
      rintro ⟨j, first, meets⟩
      exact ⟨_, .goto here matched permits allowed goes first, meets⟩

/-- Behind the last index the walk ends. -/
theorem meets_ended :
    Meets routeMapLookupByName applyMatch applySet call map kind (map.length, object) ↔
    kind (map.length, object) := by
  have beyond : ∀ {index}, map[map.length]? ≠ some index := by simp
  rw [meets_iff]
  refine or_iff_left ?_
  rintro ⟨next, step, -⟩
  cases step with
  | skip there => exact beyond there
  | next there => exact beyond there
  | goto there => exact beyond there

/-- Where an index denies, and where it does not. -/
theorem denies_iff (here : map[i]? = some index) :
    Denies routeMapLookupByName applyMatch applySet call map (i, object) ↔
      Matches applyMatch index object ∧
        (index.type = .deny ∨ index.type = .permit ∧
          Refused routeMapLookupByName applySet call index object) := by
  have same : ∀ {index'}, map[i]? = some index' → index' = index := fun there =>
    Option.some.inj (there.symm.trans here)
  constructor
  · rintro (⟨there, matched, denies⟩ | ⟨there, matched, permits, refused⟩ | _)
    · exact same there ▸ ⟨matched, Or.inl denies⟩
    · exact same there ▸ ⟨matched, Or.inr ⟨permits, refused⟩⟩
    · simp at here
  · rintro ⟨matched, denies | ⟨permits, refused⟩⟩
    · exact .clause here matched denies
    · exact .called here matched permits refused

/-- Set functions that never deny leave the denial to the map that is called. -/
theorem applySets_allows (sets : ∀ clause object, (applySet clause object).1 ≠ .denyMatch)
    (clauses : List Clause) (object : σ) : (applySets applySet clauses object).1 ≠ .denyMatch := by
  have each : ∀ (clauses : List Clause) (t : RouteMapResult × σ), t.1 ≠ .denyMatch →
      (clauses.foldl (fun t clause => applySet clause t.2) t).1 ≠ .denyMatch := by
    intro clauses
    induction clauses with
    | nil => exact fun _ allows => allows
    | cons clause rest ih => exact fun t _ => ih _ (sets clause t.2)
  exact each clauses _ (by simp)

theorem applyAction_denies_iff (sets : ∀ clause object, (applySet clause object).1 ≠ .denyMatch) :
    (applyAction routeMapLookupByName applySet call index object).1 = .denyMatch ↔
      Refused routeMapLookupByName applySet call index object := by
  unfold applyAction Refused
  cases index.nextrm.bind routeMapLookupByName with
  | none => simp [applySets_allows sets]
  | some nextrm => simp

/-- Whom a matched index calls has a name. -/
theorem refused_named (refused : Refused routeMapLookupByName applySet call index object) :
    index.nextrm.isSome := by
  obtain ⟨nextrm, called, -⟩ := refused
  obtain ⟨name, named, -⟩ := Option.bind_eq_some_iff.mp called
  exact named ▸ rfl

end Places

variable (jump : Option (Nat × RouteMapResult))
variable {index : RouteMapIndex Rule Clause}

/-- A goto from an index lands behind it. -/
theorem goto_passes (ordered : Ordered map) {before rest : List (RouteMapIndex Rule Clause)}
    (whole : map = before ++ index :: rest) (goes : index.exitpolicy = .goto) :
    ∀ index' ∈ before ++ [index], index'.pref < index.nextpref := by
  intro index' member
  have last := ordered.forward index (whole ▸ by simp) goes
  rcases List.mem_append.mp member with earlier | same
  · have increasing := ordered.increasing
    rw [whole, List.pairwise_append] at increasing
    exact (increasing.2.2 index' earlier index List.mem_cons_self).trans last
  · exact List.mem_singleton.mp same ▸ last

/-- A jump lands at the first index that is not before its target. -/
theorem findIdx?_passed {before : List (RouteMapIndex Rule Clause)}
    (rest : List (RouteMapIndex Rule Clause)) {target : Nat}
    (passed : ∀ index' ∈ before, index'.pref < target) (lands : target ≤ index.pref) :
    ((before ++ index :: rest).findIdx? fun index => target ≤ index.pref) = some before.length := by
  have none : (before.findIdx? fun index => target ≤ index.pref) = none := by
    rw [List.findIdx?_eq_none_iff]
    exact fun index' member => by simpa using passed index' member
  rw [List.findIdx?_append, none, List.findIdx?_cons, if_pos (by simpa using lands)]
  simp

/-- The loop from an index on, and during a jump, where nothing that was passed is the
target. -/
theorem applyIndexes_denies_iff (sets : ∀ clause object, (applySet clause object).1 ≠ .denyMatch)
    (ordered : Ordered map) (rest : List (RouteMapIndex Rule Clause)) :
    let doomed := Meets routeMapLookupByName applyMatch applySet call map
      (Denies routeMapLookupByName applyMatch applySet call map)
    ∀ before, map = before ++ rest →
      (∀ object, (applyIndexes routeMapLookupByName applyMatch applySet call none rest object).1 =
          .denyMatch ↔ doomed (before.length, object)) ∧
      ∀ target ret object, ret ≠ RouteMapResult.denyMatch →
        (∀ index ∈ before, index.pref < target) →
        ((applyIndexes routeMapLookupByName applyMatch applySet call (some (target, ret)) rest
            object).1 = .denyMatch ↔
          ∃ j, (map.findIdx? fun index => target ≤ index.pref) = some j ∧ doomed (j, object)) := by
  intro doomed
  induction rest with
  | nil =>
    intro before whole
    rw [List.append_nil] at whole
    subst whole
    refine ⟨fun object => ⟨fun _ => meets_ended.mpr .ended, fun _ => rfl⟩, ?_⟩
    intro target ret object allows passed
    have nowhere : (map.findIdx? fun index => target ≤ index.pref) = none := by
      rw [List.findIdx?_eq_none_iff]
      exact fun index member => by simpa using passed index member
    rw [nowhere]
    exact ⟨fun denied => absurd denied allows, fun ⟨j, found, _⟩ => by cases found⟩
  | cons index rest ih =>
    intro before whole
    have whole' : map = (before ++ [index]) ++ rest := by rw [whole, List.append_assoc]; rfl
    obtain ⟨onwards, jumps⟩ := ih (before ++ [index]) whole'
    rw [List.length_append, List.length_singleton] at onwards
    have here : map[before.length]? = some index := by rw [whole]; simp
    -- the index is visited, whether or not a jump ends at it
    have visit : ∀ (jump : Option (Nat × RouteMapResult)) object,
        (jump.any fun target => index.pref < target.1) = false →
        ((applyIndexes routeMapLookupByName applyMatch applySet call jump (index :: rest)
          object).1 =
            .denyMatch ↔ doomed (before.length, object)) := by
      intro jump object lands
      rw [applyIndexes_cons, lands, if_neg Bool.false_ne_true]
      by_cases matched : routeMapApplyMatch applyMatch object index.matchList = .matched
      · rw [if_neg (not_not.mpr matched)]
        cases type : index.type with
        | deny =>
          have denies :
              Denies routeMapLookupByName applyMatch applySet call map (before.length, object) :=
            .clause here matched type
          exact ⟨fun _ => (meets_iff ..).mpr (Or.inl denies), fun _ => rfl⟩
        | permit =>
          by_cases refused : Refused routeMapLookupByName applySet call index object
          · have denies :
                Denies routeMapLookupByName applyMatch applySet call map (before.length, object) :=
              .called here matched type refused
            have denied := (applyAction_denies_iff sets).mpr refused
            rw [if_pos ⟨refused_named refused, denied⟩]
            exact ⟨fun _ => (meets_iff ..).mpr (Or.inl denies), fun _ => denied⟩
          · have allows := mt (applyAction_denies_iff sets).mp refused
            have permits : ¬ Denies routeMapLookupByName applyMatch applySet call map
                (before.length, object) := by
              rw [denies_iff here, type]
              simp [refused]
            rw [if_neg fun both => allows both.2]
            refine Iff.trans ?_ ((meets_permitted here matched type refused).trans
              (or_iff_right permits)).symm
            cases goes : index.exitpolicy with
            | exit => exact ⟨fun denied => allows denied, False.elim⟩
            | next => exact onwards _
            | goto => exact jumps _ _ _ allows (goto_passes map ordered whole goes)
      · have permits : ¬ Denies routeMapLookupByName applyMatch applySet call map
            (before.length, object) := by
          rw [denies_iff here]
          exact fun both => matched both.1
        rw [if_pos matched]
        exact (onwards object).trans ((meets_skipped here matched).trans
          (or_iff_right permits)).symm
    refine ⟨fun object => visit none object rfl, fun target ret object allows passed => ?_⟩
    by_cases skipped : index.pref < target
    · rw [applyIndexes_cons, if_pos (by simpa using skipped)]
      refine jumps target ret object allows fun index' member => ?_
      rcases List.mem_append.mp member with earlier | same
      · exact passed index' earlier
      · exact List.mem_singleton.mp same ▸ skipped
    · have found := findIdx?_passed rest passed (not_lt.mp skipped)
      rw [visit _ object (by simpa using skipped), whole, found]
      exact ⟨fun doomed => ⟨_, rfl, doomed⟩, fun ⟨j, same, doomed⟩ => Option.some.inj same ▸ doomed⟩

/-! ## What the loop visits -/

/-- The loop, with a note of each index whose match rules it tries and of the route there. -/
def traced : Option (Nat × RouteMapResult) → List (RouteMapIndex Rule Clause) → σ →
    (RouteMapResult × σ) × List (RouteMapIndex Rule Clause × σ)
  | none, [], object => ((.denyMatch, object), [])
  | some (_, ret), [], object => ((ret, object), [])
  | jump, index :: rest, object =>
    if (jump.any fun target => index.pref < target.1) then traced jump rest object
    else
      let t := if routeMapApplyMatch applyMatch object index.matchList ≠ .matched then
          traced none rest object
        else
          match index.type with
          | .deny => ((.denyMatch, object), [])
          | .permit =>
            let acted := applyAction routeMapLookupByName applySet call index object
            if index.nextrm.isSome ∧ acted.1 = .denyMatch then (acted, [])
            else
              match index.exitpolicy with
              | .exit => (acted, [])
              | .next => traced none rest acted.2
              | .goto => traced (some (index.nextpref, acted.1)) rest acted.2
      (t.1, (index, object) :: t.2)

/-- The notes change nothing about what the loop does. -/
theorem traced_result (rest : List (RouteMapIndex Rule Clause)) (object : σ) :
    (traced routeMapLookupByName applyMatch applySet call jump rest object).1 =
      applyIndexes routeMapLookupByName applyMatch applySet call jump rest object := by
  induction rest generalizing jump object with
  | nil => cases jump <;> rfl
  | cons index rest ih =>
    rw [traced, applyIndexes_cons]
    split
    · exact ih jump object
    · dsimp only
      split
      · exact ih none object
      · cases index.type with
        | deny => rfl
        | permit =>
          dsimp only
          split
          · rfl
          · cases index.exitpolicy with
            | exit => rfl
            | next => exact ih none _
            | goto => exact ih _ _

/-- The loop visits indexes in order. -/
theorem traced_sublist (rest : List (RouteMapIndex Rule Clause)) (object : σ) :
    ((traced routeMapLookupByName applyMatch applySet call jump rest object).2.map Prod.fst).Sublist
      rest := by
  induction rest generalizing jump object with
  | nil => cases jump <;> exact List.Sublist.refl _
  | cons index rest ih =>
    rw [traced]
    split
    · exact (ih jump object).cons _
    · refine List.Sublist.cons_cons _ ?_
      split
      · exact ih none object
      · cases index.type with
        | deny => exact List.nil_sublist _
        | permit =>
          dsimp only
          split
          · exact List.nil_sublist _
          · cases index.exitpolicy with
            | exit => exact List.nil_sublist _
            | next => exact ih none _
            | goto => exact ih _ _

/-- The loop visits what the walk comes to. -/
theorem mem_traced_iff
    (sets : ∀ clause object, (applySet clause object).1 ≠ .denyMatch) (ordered : Ordered map)
    (visit : RouteMapIndex Rule Clause × σ) (rest : List (RouteMapIndex Rule Clause)) :
    let visited := Meets routeMapLookupByName applyMatch applySet call map
      fun place => map[place.1]? = some visit.1 ∧ place.2 = visit.2
    ∀ before, map = before ++ rest →
      (∀ object, visit ∈ (traced routeMapLookupByName applyMatch applySet call none rest object).2 ↔
        visited (before.length, object)) ∧
      ∀ target ret object, (∀ index ∈ before, index.pref < target) →
        (visit ∈ (traced routeMapLookupByName applyMatch applySet call (some (target, ret)) rest
            object).2 ↔
          ∃ j, (map.findIdx? fun index => target ≤ index.pref) = some j ∧ visited (j, object)) := by
  intro visited
  induction rest with
  | nil =>
    intro before whole
    rw [List.append_nil] at whole
    subst whole
    refine ⟨fun object => ⟨fun member => absurd member List.not_mem_nil, fun meets => ?_⟩, ?_⟩
    · have here := (meets_ended.mp meets).1
      simp at here
    intro target ret object passed
    have nowhere : (map.findIdx? fun index => target ≤ index.pref) = none := by
      rw [List.findIdx?_eq_none_iff]
      exact fun index member => by simpa using passed index member
    rw [nowhere]
    exact ⟨fun member => absurd member List.not_mem_nil, fun ⟨j, found, _⟩ => by cases found⟩
  | cons index rest ih =>
    intro before whole
    have whole' : map = (before ++ [index]) ++ rest := by rw [whole, List.append_assoc]; rfl
    obtain ⟨onwards, jumps⟩ := ih (before ++ [index]) whole'
    rw [List.length_append, List.length_singleton] at onwards
    have here : map[before.length]? = some index := by rw [whole]; simp
    have first : ∀ object, (map[before.length]? = some visit.1 ∧ object = visit.2) ↔
        visit = (index, object) := by
      intro object
      rw [here, Prod.ext_iff]
      constructor
      · rintro ⟨same, rfl⟩
        exact ⟨(Option.some.inj same).symm, rfl⟩
      · rintro ⟨same, same'⟩
        exact ⟨congrArg some same.symm, same'.symm⟩
    have found : ∀ (jump : Option (Nat × RouteMapResult)) object,
        (jump.any fun target => index.pref < target.1) = false →
        (visit ∈
          (traced routeMapLookupByName applyMatch applySet call jump (index :: rest) object).2 ↔
          visited (before.length, object)) := by
      intro jump object lands
      rw [traced, lands, if_neg Bool.false_ne_true]
      rw [List.mem_cons]
      by_cases matched : routeMapApplyMatch applyMatch object index.matchList = .matched
      · rw [if_neg (not_not.mpr matched)]
        cases type : index.type with
        | deny =>
          refine Iff.trans ?_ (meets_stopped here matched (Or.inl type)).symm
          exact (or_iff_left List.not_mem_nil).trans (first object).symm
        | permit =>
          by_cases refused : Refused routeMapLookupByName applySet call index object
          · rw [if_pos ⟨refused_named refused, (applyAction_denies_iff sets).mpr refused⟩]
            refine Iff.trans ?_ (meets_stopped here matched (Or.inr refused)).symm
            exact (or_iff_left List.not_mem_nil).trans (first object).symm
          · have allows := mt (applyAction_denies_iff sets).mp refused
            rw [if_neg fun both => allows both.2]
            refine Iff.trans ?_ (meets_permitted here matched type refused).symm
            refine or_congr (first object).symm ?_
            cases goes : index.exitpolicy with
            | exit => exact ⟨fun member => absurd member List.not_mem_nil, False.elim⟩
            | next => exact onwards _
            | goto => exact jumps _ _ _ (goto_passes map ordered whole goes)
      · rw [if_pos matched]
        refine Iff.trans ?_ (meets_skipped here matched).symm
        exact or_congr (first object).symm (onwards object)
    refine ⟨fun object => found none object rfl, fun target ret object passed => ?_⟩
    by_cases skipped : index.pref < target
    · rw [traced, if_pos (by simpa using skipped)]
      refine jumps target ret object fun index' member => ?_
      rcases List.mem_append.mp member with earlier | same
      · exact passed index' earlier
      · exact List.mem_singleton.mp same ▸ skipped
    · have lands := findIdx?_passed rest passed (not_lt.mp skipped)
      rw [found _ object (by simpa using skipped), whole, lands]
      exact ⟨fun meets => ⟨_, rfl, meets⟩, fun ⟨j, same, meets⟩ => Option.some.inj same ▸ meets⟩

/-! ## Calls that nest -/

/-- `RMAP_RECURSION_LIMIT`. -/
def rmapRecursionLimit : Nat := 10

/-- The calls of a map nest no deeper than a number, so none comes back to the map. -/
def Nests : Nat → List (RouteMapIndex Rule Clause) → Prop
  | 0, map => ∀ index ∈ map, index.nextrm.bind routeMapLookupByName = none
  | depth + 1, map => ∀ index ∈ map, ∀ nextrm,
    index.nextrm.bind routeMapLookupByName = some nextrm →
      Nests depth nextrm

/-- Only what the indexes call matters of the way to apply another map. -/
theorem applyIndexes_congr {call call' : List (RouteMapIndex Rule Clause) → σ → RouteMapResult × σ}
    (jump : Option (Nat × RouteMapResult)) (rest : List (RouteMapIndex Rule Clause))
    (same : ∀ index ∈ rest, ∀ nextrm, index.nextrm.bind routeMapLookupByName = some nextrm →
      call nextrm = call' nextrm) (object : σ) :
    applyIndexes routeMapLookupByName applyMatch applySet call jump rest object =
      applyIndexes routeMapLookupByName applyMatch applySet call' jump rest object := by
  induction rest generalizing jump object with
  | nil => cases jump <;> rfl
  | cons index rest ih =>
    have later := fun jump => ih jump fun index member => same index (List.mem_cons_of_mem _ member)
    have acts : applyAction routeMapLookupByName applySet call index object =
        applyAction routeMapLookupByName applySet call' index object := by
      unfold applyAction
      cases called : index.nextrm.bind routeMapLookupByName with
      | none => rfl
      | some nextrm => exact congrFun (same index List.mem_cons_self nextrm called) _
    rw [applyIndexes_cons, applyIndexes_cons, acts, later, later]
    simp only [later]

/-- Where enough applications may start, it does not matter how many. -/
theorem routeMapApply_enough {depth : Nat} {map : List (RouteMapIndex Rule Clause)}
    (nests : Nests routeMapLookupByName depth map) {left left' : Nat} (enough : depth < left)
    (enough' : depth < left') :
    routeMapApply routeMapLookupByName applyMatch applySet left (some map) =
      routeMapApply routeMapLookupByName applyMatch applySet left' (some map) := by
  induction depth generalizing map left left' with
  | zero =>
    obtain ⟨left, rfl⟩ := Nat.exists_eq_succ_of_ne_zero enough.ne'
    obtain ⟨left', rfl⟩ := Nat.exists_eq_succ_of_ne_zero enough'.ne'
    funext object
    refine applyIndexes_congr _ _ _ _ _ (fun index member nextrm called => ?_) object
    rw [nests index member] at called
    cases called
  | succ depth ih =>
    obtain ⟨left, rfl⟩ := Nat.exists_eq_succ_of_ne_zero (Nat.ne_of_gt (Nat.zero_lt_of_lt enough))
    obtain ⟨left', rfl⟩ := Nat.exists_eq_succ_of_ne_zero (Nat.ne_of_gt (Nat.zero_lt_of_lt enough'))
    funext object
    refine applyIndexes_congr _ _ _ _ _ (fun index member nextrm called => ?_) object
    exact ih (nests index member nextrm called) (Nat.lt_of_succ_lt_succ enough)
      (Nat.lt_of_succ_lt_succ enough')

/-- What a map does when it is called, where its calls nest no deeper than the limit. -/
def whole (nextrm : List (RouteMapIndex Rule Clause)) : σ → RouteMapResult × σ :=
  routeMapApply routeMapLookupByName applyMatch applySet (rmapRecursionLimit + 1) (some nextrm)

theorem routeMapApply_whole {map : List (RouteMapIndex Rule Clause)}
    (nests : Nests routeMapLookupByName rmapRecursionLimit map) {left : Nat}
    (enough : rmapRecursionLimit < left) (object : σ) :
    routeMapApply routeMapLookupByName applyMatch applySet left (some map) object =
      applyIndexes routeMapLookupByName applyMatch applySet
        (whole routeMapLookupByName applyMatch applySet) none map object := by
  rw [routeMapApply_enough routeMapLookupByName applyMatch applySet nests enough
    (Nat.lt_succ_self _)]
  refine applyIndexes_congr _ _ _ _ _ (fun index member nextrm called => ?_) object
  have deeper := nests index member nextrm called
  exact routeMapApply_enough routeMapLookupByName applyMatch applySet deeper (by decide) (by decide)

/-! ## Exit policies -/

/-- An index that goes on with the next one, and one that jumps behind itself, do the same
where another index follows. -/
theorem applyIndexes_next_goto (before : List (RouteMapIndex Rule Clause))
    (index after : RouteMapIndex Rule Clause) (rest : List (RouteMapIndex Rule Clause))
    (order : index.pref < after.pref) (jump : Option (Nat × RouteMapResult)) (object : σ) :
    applyIndexes routeMapLookupByName applyMatch applySet call jump
        (before ++ { index with exitpolicy := .next } :: after :: rest) object =
      applyIndexes routeMapLookupByName applyMatch applySet call jump
        (before ++ { index with exitpolicy := .goto, nextpref := index.pref + 1 } :: after :: rest)
        object := by
  induction before generalizing jump object with
  | nil =>
    have lands : ∀ (ret : RouteMapResult) object,
        applyIndexes routeMapLookupByName applyMatch applySet call (some (index.pref + 1, ret))
            (after :: rest) object =
          applyIndexes routeMapLookupByName applyMatch applySet call none (after :: rest)
              object := by
      intro ret object
      have behind :
          ((some (index.pref + 1, ret)).any fun target => after.pref < target.1) = false := by
        simpa using order
      rw [applyIndexes_cons, applyIndexes_cons, behind]
      rfl
    have acts :
      applyAction routeMapLookupByName applySet call { index with exitpolicy := .next } object =
        applyAction routeMapLookupByName applySet call
          { index with exitpolicy := .goto, nextpref := index.pref + 1 } object := rfl
    generalize after :: rest = tail at lands
    rw [List.nil_append, List.nil_append, applyIndexes_cons, applyIndexes_cons, acts]
    dsimp only
    rw [lands]
  | cons first later ih =>
    rw [List.cons_append, List.cons_append, applyIndexes_cons, applyIndexes_cons]
    simp only [ih]

end Walk

/-! ## The matrix -/

section Matrix

variable (routeMapLookupByName : String → Option (List (RouteMapIndex Rule Clause)))
  (applyMatch : Rule → σ → RouteMapResult) (applySet : Clause → σ → RouteMapResult × σ)
  (map : List (RouteMapIndex Rule Clause))

/-- The walk over a map whose calls are whole applications. -/
abbrev Comes (object : σ) (place : Nat × σ) : Prop :=
  Reaches routeMapLookupByName applyMatch applySet
    (whole routeMapLookupByName applyMatch applySet) map
    object place

/-- A map denies if and only if its walk comes to an index that matches and denies, or to
one that matches and calls a map that denies, or past the last index. Its loop visits what
the walk comes to, each index once at most. Where another index follows, going on with the
next one is a goto behind the index. -/
theorem result_matrix (sets : ∀ clause object, (applySet clause object).1 ≠ .denyMatch)
    (ordered : Ordered map) (nests : Nests routeMapLookupByName rmapRecursionLimit map) (left : Nat)
    (enough : rmapRecursionLimit < left) :
    (∀ object, (routeMapApply routeMapLookupByName applyMatch applySet left (some map) object).1 =
        .denyMatch ↔
      ∃ place, Comes routeMapLookupByName applyMatch applySet map object place ∧
        Denies routeMapLookupByName applyMatch applySet
          (whole routeMapLookupByName applyMatch applySet) map place) ∧
    (∀ object,
      let noted := traced routeMapLookupByName applyMatch applySet
        (whole routeMapLookupByName applyMatch applySet) none map object
      noted.1 = routeMapApply routeMapLookupByName applyMatch applySet left (some map) object ∧
      (noted.2.map fun visit => visit.1.pref).Pairwise (· < ·) ∧
      ∀ index object', (index, object') ∈ noted.2 ↔
        ∃ i, Comes routeMapLookupByName applyMatch applySet map object (i, object') ∧
          map[i]? = some index) ∧
    ∀ before index after rest, map = before ++ index :: after :: rest →
      routeMapApply routeMapLookupByName applyMatch applySet left
          (some (before ++ { index with exitpolicy := .next } :: after :: rest)) =
        routeMapApply routeMapLookupByName applyMatch applySet left
          (some (before ++ { index with exitpolicy := .goto, nextpref := index.pref + 1 } ::
            after :: rest)) := by
  have loop := routeMapApply_whole routeMapLookupByName applyMatch applySet nests enough
  refine ⟨fun object => ?_, fun object => ⟨?_, ?_, fun index object' => ?_⟩, ?_⟩
  · rw [loop]
    exact (applyIndexes_denies_iff _ _ _ _ map sets ordered map [] rfl).1 object
  · rw [loop]
    exact traced_result ..
  · have order := List.pairwise_map.mpr ordered.increasing
    have within := (traced_sublist routeMapLookupByName applyMatch applySet
      (whole routeMapLookupByName applyMatch applySet) none map object).map RouteMapIndex.pref
    rw [List.map_map] at within
    exact order.sublist within
  · rw [(mem_traced_iff _ _ _ _ map sets ordered (index, object') map [] rfl).1 object]
    constructor
    · rintro ⟨⟨i, reached⟩, walk, here, rfl⟩
      exact ⟨i, walk, here⟩
    · rintro ⟨i, walk, here⟩
      exact ⟨(i, object'), walk, here, rfl⟩
  · intro before index after rest parts
    have order : index.pref < after.pref := by
      have increasing := ordered.increasing
      rw [parts, List.pairwise_append, List.pairwise_cons] at increasing
      exact increasing.2.1.1 after List.mem_cons_self
    obtain ⟨left, rfl⟩ := Nat.exists_eq_succ_of_ne_zero (Nat.ne_of_gt (Nat.zero_lt_of_lt enough))
    funext object
    exact applyIndexes_next_goto _ _ _ _ before index after rest order none object

end Matrix

/-- A permitting index without rules. -/
def permitting (pref : Nat) (exitpolicy : RouteMapEnd) (nextpref : Nat) : RouteMapIndex Unit Unit :=
  ⟨pref, .permit, [], [], none, exitpolicy, nextpref⟩

theorem result_matrix_pair :
    ∃ place, Comes (fun _ => none) (fun _ _ => .matched) (fun _ object => (.okay, object))
        [permitting 10 .goto 20, { permitting 20 .exit 0 with type := .deny }] () place ∧
      Denies (fun _ => none) (fun _ _ => .matched) (fun _ object => (.okay, object))
        (whole (fun _ => none) (fun _ _ => .matched) fun _ object => (.okay, object))
        [permitting 10 .goto 20, { permitting 20 .exit 0 with type := .deny }] place := by
  have ordered : Ordered [permitting 10 .goto 20, { permitting 20 .exit 0 with type := .deny }] :=
    ⟨by decide, by decide⟩
  have nests : Nests (fun _ => none) rmapRecursionLimit
      [permitting 10 .goto 20, { permitting 20 .exit 0 with type := .deny }] := by
    intro index member nextrm called
    simp at called
  exact ((result_matrix (fun _ => none) (fun _ _ => .matched) (fun _ object => (.okay, object)) _
    (fun _ _ => by simp) ordered nests 11 (by decide)).1 ()).mp rfl

/-- A map whose only index matches, permits and goes on with the next one denies, though
nothing on its walk does; with a goto behind the index it permits. -/
theorem lone_next_denies :
    ¬ ((routeMapApply (fun _ => none) (fun _ _ => .matched) (fun _ object => (.okay, object)) 11
          (some [permitting 10 .next 0]) ()).1 = .denyMatch ↔
        (∃ i index, Comes (fun _ => none) (fun _ _ => .matched) (fun _ object => (.okay, object))
            [permitting 10 .next 0] () (i, ()) ∧ [permitting 10 .next 0][i]? = some index ∧
          Matches (fun _ _ => .matched) index () ∧
          (index.type = .deny ∨ Refused (fun _ => none) (fun _ object => (.okay, object))
            (whole (fun _ => none) (fun _ _ => .matched) fun _ object =>
              (.okay, object)) index ())) ∨
        ∀ i index, Comes (fun _ => none) (fun _ _ => .matched) (fun _ object => (.okay, object))
            [permitting 10 .next 0] () (i, ()) → [permitting 10 .next 0][i]? = some index →
          ¬ Matches (fun _ _ => .matched) index ()) ∧
    routeMapApply (fun _ => none) (fun _ _ => .matched) (fun _ object => (.okay, object)) 11
        (some [permitting 10 .next 0]) () ≠
      routeMapApply (fun _ => none) (fun _ _ => .matched) (fun _ object => (.okay, object)) 11
        (some [permitting 10 .goto 11]) () := by
  refine ⟨fun equivalence => ?_, by decide⟩
  rcases equivalence.mp rfl with ⟨i, index, -, here, -, denies⟩ | unmatched
  · obtain rfl : index = permitting 10 .next 0 := by
      simpa using List.mem_of_getElem? here
    rcases denies with type | ⟨nextrm, called, -⟩
    · cases type
    · cases called
  · exact unmatched 0 (permitting 10 .next 0) .refl rfl rfl

end Bgpd.RouteMapWalk
