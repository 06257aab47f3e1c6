import Mathlib.Data.List.Basic

/-!
# Route maps

A route map is a list of indexes. The first index whose match rules all match is
applied: it denies the route, or runs its set clauses, may call another map, and
ends, goes on or jumps forward.

The maps here are over any object, with any match rules and set clauses. A
static counter limits how deep calls nest; it is given here as the number of
applications that may still start. A call beyond the limit sets the counter to
zero and its callers count down from there, so that number may be anything.
-/

namespace Bgpd.RouteMap

/-- `route_map_result_t`. -/
inductive RouteMapResult
  | matched
  | denyMatch
  | noMatch
  | error
  | okay
  deriving DecidableEq, Repr

/-- `enum route_map_type`. -/
inductive RouteMapType
  | permit
  | deny
  deriving DecidableEq, Repr

/-- `route_map_end_t`. -/
inductive RouteMapEnd
  | exit
  | goto
  | next
  deriving DecidableEq, Repr

/-- `struct route_map_index`. -/
structure RouteMapIndex (Rule Clause : Type) where
  pref : Nat
  type : RouteMapType
  matchList : List Rule
  setList : List Clause
  nextrm : Option String
  exitpolicy : RouteMapEnd
  nextpref : Nat

/-- The set clauses of an index run one after the other; the last one's result counts. -/
def applySets {Clause σ : Type} (applySet : Clause → σ → RouteMapResult × σ) (setList : List Clause)
    (object : σ) : RouteMapResult × σ :=
  setList.foldl (fun t clause => applySet clause t.2) (.matched, object)

/-- A set function that returns `RMAP_OKAY`. -/
def okay {Clause σ : Type} (apply : Clause → σ → σ) (clause : Clause) (object : σ) :
    RouteMapResult × σ := (.okay, apply clause object)

section Apply

variable {Rule Clause σ : Type}
  (routeMapLookupByName : String → Option (List (RouteMapIndex Rule Clause)))
  (applyMatch : Rule → σ → RouteMapResult) (applySet : Clause → σ → RouteMapResult × σ)

/-- `route_map_apply_match`. -/
def routeMapApplyMatch (object : σ) : List Rule → RouteMapResult
  | [] => .matched
  | rule :: rest =>
    let ret := applyMatch rule object
    if ret ≠ .matched then ret else routeMapApplyMatch object rest

/-- What a matched index that permits does: its set clauses, and its call where there is
the map it names. -/
def applyAction (call : List (RouteMapIndex Rule Clause) → σ → RouteMapResult × σ)
    (index : RouteMapIndex Rule Clause) (object : σ) : RouteMapResult × σ :=
  let set := applySets applySet index.setList object
  match index.nextrm.bind routeMapLookupByName with
  | none => set
  | some nextrm => call nextrm set.2

/-- The indexes of a map in order, for a way to apply another map. While a jump
is on, the indexes in front of its target are skipped; a jump past the end
returns what the action did. -/
def applyIndexes (call : List (RouteMapIndex Rule Clause) → σ → RouteMapResult × σ) :
    Option (Nat × RouteMapResult) → List (RouteMapIndex Rule Clause) → σ → RouteMapResult × σ
  | none, [], object => (.denyMatch, object)
  | some (_, ret), [], object => (ret, object)
  | jump, index :: rest, object =>
    if (jump.any fun target => index.pref < target.1) then applyIndexes call jump rest object
    else if routeMapApplyMatch applyMatch object index.matchList ≠ .matched then
      applyIndexes call none rest object
    else
      match index.type with
      | .deny => (.denyMatch, object)
      | .permit =>
        let acted := applyAction routeMapLookupByName applySet call index object
        if index.nextrm.isSome ∧ acted.1 = .denyMatch then acted
        else
          match index.exitpolicy with
          | .exit => acted
          | .next => applyIndexes call none rest acted.2
          | .goto => applyIndexes call (some (index.nextpref, acted.1)) rest acted.2

/-- The loop comes to an index, in a jump or not. -/
theorem applyIndexes_cons (call : List (RouteMapIndex Rule Clause) → σ → RouteMapResult × σ)
    (jump : Option (Nat × RouteMapResult)) (index : RouteMapIndex Rule Clause)
    (rest : List (RouteMapIndex Rule Clause)) (object : σ) :
    applyIndexes routeMapLookupByName applyMatch applySet call jump (index :: rest) object =
      if (jump.any fun target => index.pref < target.1) then
        applyIndexes routeMapLookupByName applyMatch applySet call jump rest object
      else if routeMapApplyMatch applyMatch object index.matchList ≠ .matched then
        applyIndexes routeMapLookupByName applyMatch applySet call none rest object
      else
        match index.type with
        | .deny => (.denyMatch, object)
        | .permit =>
          let acted := applyAction routeMapLookupByName applySet call index object
          if index.nextrm.isSome ∧ acted.1 = .denyMatch then acted
          else
            match index.exitpolicy with
            | .exit => acted
            | .next => applyIndexes routeMapLookupByName applyMatch applySet call none rest acted.2
            | .goto => applyIndexes routeMapLookupByName applyMatch applySet call
                (some (index.nextpref, acted.1)) rest acted.2 := by
  cases jump <;> rfl

/-- `route_map_apply`, with the number of applications that may still start. -/
def routeMapApply : Nat → Option (List (RouteMapIndex Rule Clause)) → σ → RouteMapResult × σ
  | 0, _, object => (.denyMatch, object)
  | _ + 1, none, object => (.denyMatch, object)
  | left + 1, some map, object =>
    applyIndexes routeMapLookupByName applyMatch applySet
      (fun nextrm => routeMapApply left (some nextrm)) none map object

end Apply

/-! ## What a map does is what its clauses do -/

section Simulation

variable {Rule Clause σ τ : Type}
  (routeMapLookupByName : String → Option (List (RouteMapIndex Rule Clause)))
  {applyMatch : Rule → σ → RouteMapResult} {applySet : Clause → σ → RouteMapResult × σ}
  {applyMatch' : Rule → τ → RouteMapResult} {applySet' : Clause → τ → RouteMapResult × τ}
  {Related : σ → τ → Prop}

/-- Results that are the same, with objects that are related. -/
def Alike (Related : σ → τ → Prop) (first : RouteMapResult × σ)
    (second : RouteMapResult × τ) : Prop :=
  first.1 = second.1 ∧ Related first.2 second.2

variable {s : σ} {t : τ}

/-- Related objects match alike. -/
theorem applyMatch_simulates
    (matches_ : ∀ rule s t, Related s t → applyMatch rule s = applyMatch' rule t)
    (related : Related s t) (rules : List Rule) :
    routeMapApplyMatch applyMatch s rules = routeMapApplyMatch applyMatch' t rules := by
  induction rules with
  | nil => rfl
  | cons rule rest ih => simp only [routeMapApplyMatch, matches_ rule s t related, ih]

/-- A list of set clauses keeps related objects related. -/
theorem applySets_simulates
    (sets : ∀ clause s t, Related s t → Alike Related (applySet clause s) (applySet' clause t))
    (clauses : List Clause) (related : Related s t) :
    Alike Related (applySets applySet clauses s) (applySets applySet' clauses t) := by
  have each : ∀ (clauses : List Clause) first second, Alike Related first second →
      Alike Related (clauses.foldl (fun t clause => applySet clause t.2) first)
        (clauses.foldl (fun t clause => applySet' clause t.2) second) := by
    intro clauses
    induction clauses with
    | nil => exact fun _ _ alike => alike
    | cons clause rest ih => exact fun first second alike => ih _ _ (sets clause _ _ alike.2)
  exact each clauses _ _ ⟨rfl, related⟩

variable {call : List (RouteMapIndex Rule Clause) → σ → RouteMapResult × σ}
  {call' : List (RouteMapIndex Rule Clause) → τ → RouteMapResult × τ}

/-- The call is made by both or by neither. -/
theorem applyAction_simulates
    (sets : ∀ clause s t, Related s t → Alike Related (applySet clause s) (applySet' clause t))
    (calls : ∀ map s t, Related s t → Alike Related (call map s) (call' map t))
    (index : RouteMapIndex Rule Clause) (related : Related s t) :
    Alike Related (applyAction routeMapLookupByName applySet call index s)
      (applyAction routeMapLookupByName applySet' call' index t) := by
  have set := applySets_simulates sets index.setList related
  unfold applyAction
  cases index.nextrm.bind routeMapLookupByName with
  | none => exact set
  | some nextrm => exact calls nextrm _ _ set.2

theorem applyIndexes_simulates
    (matches_ : ∀ rule s t, Related s t → applyMatch rule s = applyMatch' rule t)
    (sets : ∀ clause s t, Related s t → Alike Related (applySet clause s) (applySet' clause t))
    (calls : ∀ map s t, Related s t → Alike Related (call map s) (call' map t))
    (jump : Option (Nat × RouteMapResult)) (map : List (RouteMapIndex Rule Clause))
    (related : Related s t) :
    Alike Related (applyIndexes routeMapLookupByName applyMatch applySet call jump map s)
      (applyIndexes routeMapLookupByName applyMatch' applySet' call' jump map t) := by
  induction map generalizing jump s t with
  | nil =>
    cases jump with
    | none => exact ⟨rfl, related⟩
    | some target => exact ⟨rfl, related⟩
  | cons index rest ih =>
    simp only [applyIndexes_cons]
    by_cases skipped : (jump.any fun target => index.pref < target.1) = true
    · rw [if_pos skipped, if_pos skipped]
      exact ih jump related
    · rw [if_neg skipped, if_neg skipped, applyMatch_simulates matches_ related]
      by_cases other : routeMapApplyMatch applyMatch' t index.matchList ≠ .matched
      · rw [if_pos other, if_pos other]
        exact ih none related
      · rw [if_neg other, if_neg other]
        cases index.type with
        | deny => exact ⟨rfl, related⟩
        | permit =>
          obtain ⟨same, after⟩ :=
            applyAction_simulates routeMapLookupByName sets calls index related
          dsimp only
          rw [same]
          split
          · exact ⟨same, after⟩
          · cases index.exitpolicy with
            | exit => exact ⟨same, after⟩
            | next => exact ih none after
            | goto => exact ih _ after

/-- Objects that match alike and that the set clauses keep related come out of a
map related, and with the same result. -/
theorem routeMapApply_simulates
    (matches_ : ∀ rule s t, Related s t → applyMatch rule s = applyMatch' rule t)
    (sets : ∀ clause s t, Related s t → Alike Related (applySet clause s) (applySet' clause t))
    (left : Nat) (map : Option (List (RouteMapIndex Rule Clause))) (related : Related s t) :
    Alike Related (routeMapApply routeMapLookupByName applyMatch applySet left map s)
      (routeMapApply routeMapLookupByName applyMatch' applySet' left map t) := by
  induction left generalizing map s t with
  | zero => exact ⟨rfl, related⟩
  | succ left ih =>
    cases map with
    | none => exact ⟨rfl, related⟩
    | some map =>
      exact applyIndexes_simulates routeMapLookupByName matches_ sets
        (fun nextrm _ _ related => ih (some nextrm) related) none map related

/-- What every set clause keeps, a map keeps. -/
theorem routeMapApply_preserves {Kept : σ → Prop}
    (sets : ∀ clause s, Kept s → Kept (applySet clause s).2) (left : Nat)
    (map : Option (List (RouteMapIndex Rule Clause))) (kept : Kept s) :
    Kept (routeMapApply routeMapLookupByName applyMatch applySet left map s).2 := by
  -- a map against itself, on equal objects that are kept
  let Related : σ → σ → Prop := fun s t => s = t ∧ Kept s
  have matches_ : ∀ rule s t, Related s t → applyMatch rule s = applyMatch rule t :=
    fun rule _ _ related => congrArg (applyMatch rule) related.1
  have each :
      ∀ clause s t, Related s t → Alike Related (applySet clause s) (applySet clause t) := by
    rintro clause s _ ⟨rfl, kept⟩
    exact ⟨rfl, rfl, sets clause s kept⟩
  exact (routeMapApply_simulates routeMapLookupByName matches_ each left map ⟨rfl, kept⟩).2.2

end Simulation

end Bgpd.RouteMap
