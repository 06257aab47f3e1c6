import Bgpd.RouteMapWalk

/-!
# The recursion counter of route maps

`route_map_apply` keeps a static counter of the calls that are under way, and denies the
route where it is past a limit. There it also sets the counter to zero, while each of the
calls that are under way takes one off it again when it returns.

The applications here carry the counter, and note how deep they nest. They run on fuel,
which stands for the calls that may still be made, and give no result where it runs out.
-/

namespace Bgpd.RouteMapRecursion

open RouteMap RouteMapWalk

/-- What an application is given and leaves: its result, the object, the static counter, and
how deep applications were nested in it, itself included. -/
structure Applied (σ : Type) where
  ret : RouteMapResult
  object : σ
  recursion : Int
  depth : Nat

section Apply

variable {Rule Clause σ : Type}
  (routeMapLookupByName : String → Option (List (RouteMapIndex Rule Clause)))
  (applyMatch : Rule → σ → RouteMapResult) (applySet : Clause → σ → RouteMapResult × σ)

/-- What a matched index that permits does. The counter is one higher during its call. -/
def act (call : List (RouteMapIndex Rule Clause) → Applied σ → Option (Applied σ))
    (index : RouteMapIndex Rule Clause) (a : Applied σ) : Option (Applied σ) :=
  let set := applySets applySet index.setList a.object
  match index.nextrm.bind routeMapLookupByName with
  | none => some { a with ret := set.1, object := set.2 }
  | some nextrm =>
    (call nextrm { a with object := set.2, recursion := a.recursion + 1 }).map fun a' =>
      { a' with recursion := a'.recursion - 1, depth := max a.depth (a'.depth + 1) }

/-- The loop of `route_map_apply` over the indexes. -/
def indexes (call : List (RouteMapIndex Rule Clause) → Applied σ → Option (Applied σ)) :
    Option (Nat × RouteMapResult) → List (RouteMapIndex Rule Clause) → Applied σ →
      Option (Applied σ)
  | none, [], a => some { a with ret := .denyMatch }
  | some (_, ret), [], a => some { a with ret }
  | jump, index :: rest, a =>
    if (jump.any fun target => index.pref < target.1) then indexes call jump rest a
    else if routeMapApplyMatch applyMatch a.object index.matchList ≠ .matched then
      indexes call none rest a
    else
      match index.type with
      | .deny => some { a with ret := .denyMatch }
      | .permit =>
        (act routeMapLookupByName applySet call index a).bind fun a =>
          if index.nextrm.isSome ∧ a.ret = .denyMatch then some a
          else
            match index.exitpolicy with
            | .exit => some a
            | .next => indexes call none rest a
            | .goto => indexes call (some (index.nextpref, a.ret)) rest a

/-- `route_map_apply`. -/
def routeMapApply :
    Nat → Option (List (RouteMapIndex Rule Clause)) → Applied σ → Option (Applied σ)
  | 0, _, _ => none
  | fuel + 1, map, a =>
    if a.recursion > rmapRecursionLimit then
      some { a with ret := .denyMatch, recursion := 0, depth := 1 }
    else
      match map with
      | none => some { a with ret := .denyMatch, depth := 1 }
      | some map =>
        indexes routeMapLookupByName applyMatch applySet
          (fun nextrm => routeMapApply fuel (some nextrm)) none map { a with depth := 1 }

/-- What the maps say without a limit, where applications nest at most so deep. -/
def unlimited : Nat → Option (List (RouteMapIndex Rule Clause)) → Applied σ → Option (Applied σ)
  | 0, _, _ => none
  | _ + 1, none, a => some { a with ret := .denyMatch, depth := 1 }
  | levels + 1, some map, a =>
    indexes routeMapLookupByName applyMatch applySet
      (fun nextrm => unlimited levels (some nextrm)) none map { a with depth := 1 }

end Apply

/-! ## One application -/

/-- How an application ends that starts with the counter so high: within the levels that are
left, with the counter as it was, or past the limit, with the route denied and the counter
short of what it was. -/
inductive Ends {σ : Type} (recursion : Int) (levels : Nat)
    (meant result : Option (Applied σ)) : Prop
  | within (a : Applied σ) (same : result = some a) (agrees : meant = some a)
      (counter : a.recursion = recursion) (depth : a.depth ≤ levels)
  | past (a : Applied σ) (same : result = some a) (deeper : meant = none)
      (denied : a.ret = .denyMatch) (counter : a.recursion = recursion - (rmapRecursionLimit + 1))
      (depth : a.depth = levels + 1)

section Ends

variable {Rule Clause σ : Type}
  (routeMapLookupByName : String → Option (List (RouteMapIndex Rule Clause)))
  (applyMatch : Rule → σ → RouteMapResult) (applySet : Clause → σ → RouteMapResult × σ)
  {call meant : List (RouteMapIndex Rule Clause) → Applied σ → Option (Applied σ)}
  {recursion : Int} {levels : Nat}
variable {a : Applied σ}

/-- An action ends the way its call does. -/
theorem act_ends (calls : ∀ nextrm a, a.recursion = recursion + 1 →
      Ends (recursion + 1) levels (meant nextrm a) (call nextrm a))
    (index : RouteMapIndex Rule Clause) (counter : a.recursion = recursion)
    (depth : a.depth ≤ levels + 1) :
    Ends recursion (levels + 1) (act routeMapLookupByName applySet meant index a)
      (act routeMapLookupByName applySet call index a) ∧
    (index.nextrm = none → ∃ a', act routeMapLookupByName applySet call index a = some a' ∧
      act routeMapLookupByName applySet meant index a = some a') := by
  unfold act
  cases named : index.nextrm.bind routeMapLookupByName with
  | none => exact ⟨.within _ rfl rfl counter depth, fun _ => ⟨_, rfl, rfl⟩⟩
  | some nextrm =>
    refine ⟨?_, fun unnamed => ?_⟩
    · dsimp only
      obtain ⟨a', same, agrees, counter', depth'⟩ | ⟨a', same, deeper, denied, counter', depth'⟩ :=
        calls nextrm { a with object := (applySets applySet index.setList a.object).2,
                              recursion := a.recursion + 1 } (by rw [counter])
      · rw [same, agrees]
        refine .within _ rfl rfl ?_ ?_
        · change a'.recursion - 1 = recursion
          omega
        · exact max_le depth (Nat.succ_le_succ depth')
      · rw [same, deeper]
        refine .past _ rfl rfl denied ?_ ?_
        · change a'.recursion - 1 = recursion - (rmapRecursionLimit + 1)
          omega
        · change max a.depth (a'.depth + 1) = levels + 1 + 1
          omega
    · rw [unnamed] at named
      cases named

/-- The loop ends the way the calls do: where one goes past the limit, its denial ends the
loop. -/
theorem indexes_ends (calls : ∀ nextrm a, a.recursion = recursion + 1 →
      Ends (recursion + 1) levels (meant nextrm a) (call nextrm a))
    (jump : Option (Nat × RouteMapResult)) (rest : List (RouteMapIndex Rule Clause))
    (counter : a.recursion = recursion) (depth : a.depth ≤ levels + 1) :
    Ends recursion (levels + 1)
      (indexes routeMapLookupByName applyMatch applySet meant jump rest a)
      (indexes routeMapLookupByName applyMatch applySet call jump rest a) := by
  induction rest generalizing jump a with
  | nil =>
    cases jump with
    | none => exact .within _ rfl rfl counter depth
    | some target => exact .within _ rfl rfl counter depth
  | cons index rest ih =>
    rw [indexes, indexes]
    split
    · exact ih jump counter depth
    · split
      · exact ih none counter depth
      · cases index.type with
        | deny => exact .within _ rfl rfl counter depth
        | permit =>
          dsimp only
          obtain ⟨ends, silent⟩ := act_ends routeMapLookupByName applySet calls index counter depth
          obtain ⟨a', same, agrees, counter', depth'⟩ | ⟨a', same, deeper, denied, counter',
            depth'⟩ := ends
          · rw [same, agrees, Option.bind_some, Option.bind_some]
            split
            · exact .within a' rfl rfl counter' depth'
            · cases index.exitpolicy with
              | exit => exact .within a' rfl rfl counter' depth'
              | next => exact ih none counter' depth'
              | goto => exact ih _ counter' depth'
          · have named : index.nextrm.isSome = true := by
              cases unnamed : index.nextrm with
              | none =>
                obtain ⟨_, _, agrees⟩ := silent unnamed
                rw [deeper] at agrees
                cases agrees
              | some name => rfl
            rw [same, deeper, Option.bind_some, Option.bind_none, if_pos ⟨named, denied⟩]
            exact .past a' rfl rfl denied counter' depth'

/-- An application that starts with so many levels below the limit ends with any fuel that
goes beyond them. -/
theorem routeMapApply_ends (levels fuel : Nat) (enough : levels < fuel)
    (map : Option (List (RouteMapIndex Rule Clause))) (a : Applied σ)
    (left : a.recursion + levels = rmapRecursionLimit + 1) :
    Ends a.recursion levels (unlimited routeMapLookupByName applyMatch applySet levels map a)
      (routeMapApply routeMapLookupByName applyMatch applySet fuel map a) := by
  induction levels generalizing fuel map a with
  | zero =>
    obtain ⟨fuel, rfl⟩ := Nat.exists_eq_add_of_le' (Nat.one_le_of_lt enough)
    have beyond : a.recursion > rmapRecursionLimit := by omega
    unfold routeMapApply
    rw [if_pos beyond]
    refine .past _ rfl rfl rfl ?_ rfl
    change 0 = a.recursion - (rmapRecursionLimit + 1)
    omega
  | succ levels ih =>
    obtain ⟨fuel, rfl⟩ := Nat.exists_eq_add_of_le' (Nat.one_le_of_lt enough)
    have under : ¬ a.recursion > rmapRecursionLimit := by omega
    unfold routeMapApply
    rw [if_neg under]
    cases map with
    | none => exact .within _ rfl rfl rfl (Nat.succ_le_succ (Nat.zero_le _))
    | some map =>
      refine indexes_ends routeMapLookupByName applyMatch applySet (fun nextrm a' counter =>
        ?_) none map rfl
        (Nat.succ_le_succ (Nat.zero_le _))
      rw [← counter]
      refine ih fuel (Nat.lt_of_succ_lt_succ enough) (some nextrm) a' ?_
      omega

variable {a' : Applied σ}

/-- A loop ends with more fuel as it does with less. -/
theorem indexes_mono {call' : List (RouteMapIndex Rule Clause) → Applied σ → Option (Applied σ)}
    (calls : ∀ nextrm a a', call nextrm a = some a' → call' nextrm a = some a')
    (jump : Option (Nat × RouteMapResult)) (rest : List (RouteMapIndex Rule Clause))
    (done : indexes routeMapLookupByName applyMatch applySet call jump rest a = some a') :
    indexes routeMapLookupByName applyMatch applySet call' jump rest a = some a' := by
  have acts : ∀ index (a acted : Applied σ),
    act routeMapLookupByName applySet call index a = some acted →
      act routeMapLookupByName applySet call' index a = some acted := by
    intro index a acted ran
    unfold act at ran ⊢
    cases named : index.nextrm.bind routeMapLookupByName with
    | none =>
      rw [named] at ran
      exact ran
    | some nextrm =>
      rw [named] at ran
      dsimp only at ran ⊢
      obtain ⟨inner, ran, same⟩ := Option.map_eq_some_iff.mp ran
      rw [calls nextrm _ inner ran, Option.map_some, same]
  induction rest generalizing jump a with
  | nil =>
    cases jump with
    | none => exact done
    | some target => exact done
  | cons index rest ih =>
    rw [indexes] at done ⊢
    split_ifs at done ⊢
    · exact ih jump done
    · exact ih none done
    · cases type : index.type with
      | deny =>
        rw [type] at done
        exact done
      | permit =>
        rw [type] at done
        obtain ⟨acted, ran, goes⟩ := Option.bind_eq_some_iff.mp done
        rw [acts index a acted ran, Option.bind_some]
        split_ifs at goes ⊢
        · exact goes
        · cases policy : index.exitpolicy with
          | exit =>
            rw [policy] at goes
            exact goes
          | next =>
            rw [policy] at goes
            exact ih none goes
          | goto =>
            rw [policy] at goes
            exact ih _ goes

theorem routeMapApply_mono {fuel fuel' : Nat} (more : fuel ≤ fuel')
    (map : Option (List (RouteMapIndex Rule Clause)))
    (done : routeMapApply routeMapLookupByName applyMatch applySet fuel map a = some a') :
    routeMapApply routeMapLookupByName applyMatch applySet fuel' map a = some a' := by
  induction fuel generalizing fuel' map a a' with
  | zero => cases done
  | succ fuel ih =>
    obtain ⟨fuel', rfl⟩ := Nat.exists_eq_add_of_le' (Nat.one_le_of_lt more)
    unfold routeMapApply at done ⊢
    split_ifs at done ⊢
    · exact done
    · cases map with
      | none => exact done
      | some map =>
        exact indexes_mono routeMapLookupByName applyMatch applySet
          (fun nextrm a a' ran => ih (Nat.le_of_succ_le_succ more) (some nextrm) ran) none map done

/-- Where the calls give what those of `RouteMap` give, the loop does. -/
theorem indexes_value {plain : List (RouteMapIndex Rule Clause) → σ → RouteMapResult × σ}
    (calls : ∀ nextrm a a', call nextrm a = some a' → plain nextrm a.object = (a'.ret, a'.object))
    (jump : Option (Nat × RouteMapResult)) (rest : List (RouteMapIndex Rule Clause))
    (done : indexes routeMapLookupByName applyMatch applySet call jump rest a = some a') :
    applyIndexes routeMapLookupByName applyMatch applySet plain jump rest a.object =
      (a'.ret, a'.object) := by
  have acts : ∀ index (a acted : Applied σ),
    act routeMapLookupByName applySet call index a = some acted →
      applyAction routeMapLookupByName applySet plain index a.object =
        (acted.ret, acted.object) := by
    intro index a acted ran
    unfold act at ran
    unfold applyAction
    cases named : index.nextrm.bind routeMapLookupByName with
    | none =>
      rw [named] at ran
      cases ran
      rfl
    | some nextrm =>
      rw [named] at ran
      obtain ⟨inner, called, rfl⟩ := Option.map_eq_some_iff.mp ran
      exact calls nextrm _ inner called
  induction rest generalizing jump a with
  | nil =>
    cases jump with
    | none => cases done; rfl
    | some target => cases done; rfl
  | cons index rest ih =>
    rw [indexes] at done
    rw [applyIndexes_cons]
    split_ifs at done ⊢
    · exact ih jump done
    · exact ih none done
    · cases type : index.type with
      | deny =>
        rw [type] at done
        cases done
        rfl
      | permit =>
        rw [type] at done
        obtain ⟨acted, ran, goes⟩ := Option.bind_eq_some_iff.mp done
        dsimp only
        rw [acts index a acted ran]
        split_ifs at goes ⊢
        · cases goes
          rfl
        · cases policy : index.exitpolicy with
          | exit =>
            rw [policy] at goes
            cases goes
            rfl
          | next =>
            rw [policy] at goes
            exact ih none goes
          | goto =>
            rw [policy] at goes
            exact ih _ goes

/-- The value that an application has without the limit is the one of `RouteMap`. -/
theorem unlimited_value {levels : Nat} (map : Option (List (RouteMapIndex Rule Clause)))
    (done : unlimited routeMapLookupByName applyMatch applySet levels map a = some a') :
    RouteMap.routeMapApply routeMapLookupByName applyMatch applySet levels map a.object =
      (a'.ret, a'.object) := by
  induction levels generalizing map a a' with
  | zero => cases done
  | succ levels ih =>
    cases map with
    | none =>
      cases done
      rfl
    | some map =>
      exact indexes_value routeMapLookupByName applyMatch applySet (a := { a with depth := 1 })
        (fun nextrm a a' ran => ih (some nextrm) ran) none map done

end Ends

/-! ## Applications from outside -/

/-- A call of `route_map_apply` from outside, with the maps as they are then. -/
structure Call (Rule Clause σ : Type) where
  routeMapLookupByName : String → Option (List (RouteMapIndex Rule Clause))
  map : Option (List (RouteMapIndex Rule Clause))
  object : σ

section Calls

variable {Rule Clause σ : Type} (applyMatch : Rule → σ → RouteMapResult)
  (applySet : Clause → σ → RouteMapResult × σ)

/-- What an application starts with. -/
def Call.start (call : Call Rule Clause σ) (recursion : Int) : Applied σ :=
  ⟨.matched, call.object, recursion, 0⟩

/-- The application ends so. -/
def Returns (call : Call Rule Clause σ) (recursion : Int) (a : Applied σ) : Prop :=
  ∃ fuel, routeMapApply call.routeMapLookupByName applyMatch applySet fuel call.map
    (call.start recursion) = some a

/-- Each application ends, nests no deeper than it may, and leaves the counter at zero. -/
def Bounded (recursion : Int) : List (Call Rule Clause σ) → Prop
  | [] => recursion = 0
  | call :: later => recursion = 0 ∧ ∃ a, Returns applyMatch applySet call recursion a ∧
      a.depth ≤ rmapRecursionLimit + 2 ∧ Bounded a.recursion later

/-- Without the limit the application would end, and nest no deeper than the limit lets it. -/
def Shallow (call : Call Rule Clause σ) : Prop :=
  (unlimited call.routeMapLookupByName applyMatch applySet (rmapRecursionLimit + 1) call.map
    (call.start 0)).isSome = true

/-- Every application ends, however high the counter is. -/
theorem returns (call : Call Rule Clause σ) (recursion : Int) :
    ∃ a, Returns applyMatch applySet call recursion a := by
  by_cases beyond : recursion > rmapRecursionLimit
  · exact ⟨_, 1, if_pos beyond⟩
  · have left :
        recursion + (rmapRecursionLimit + 1 - recursion).toNat = rmapRecursionLimit + 1 := by
      omega
    obtain ⟨a, same, -⟩ | ⟨a, same, -⟩ := routeMapApply_ends call.routeMapLookupByName applyMatch
      applySet _ _ (Nat.lt_succ_self _) call.map (call.start recursion) left
    · exact ⟨a, _, same⟩
    · exact ⟨a, _, same⟩

/-- An application from the counter at zero leaves it there if it stays within the limit, with
the value that `RouteMap` gives it, and else below zero. -/
theorem returns_from_zero {call : Call Rule Clause σ} {a : Applied σ}
    (ended : Returns applyMatch applySet call 0 a) :
    a.depth ≤ rmapRecursionLimit + 2 ∧ (Shallow applyMatch applySet call ∧ a.recursion = 0 ∧
        RouteMap.routeMapApply call.routeMapLookupByName applyMatch applySet
          (rmapRecursionLimit + 1) call.map call.object = (a.ret, a.object) ∨
      ¬ Shallow applyMatch applySet call ∧ a.recursion < 0) := by
  obtain ⟨fuel, done⟩ := ended
  have more := routeMapApply_mono call.routeMapLookupByName applyMatch applySet
    (Nat.le_add_right fuel (rmapRecursionLimit + 2)) call.map done
  unfold Shallow
  obtain ⟨a', same, agrees, counter, depth⟩ | ⟨a', same, deeper, -, counter, depth⟩ :=
    routeMapApply_ends call.routeMapLookupByName applyMatch applySet (rmapRecursionLimit + 1)
      (fuel + (rmapRecursionLimit + 2)) (by omega) call.map (call.start 0) (by rfl)
  · obtain rfl := Option.some.inj (more.symm.trans same)
    refine ⟨Nat.le_succ_of_le depth, Or.inl ⟨?_, counter, unlimited_value _ _ _ _ agrees⟩⟩
    rw [agrees]
    rfl
  · obtain rfl := Option.some.inj (more.symm.trans same)
    refine ⟨depth.le, Or.inr ⟨?_, ?_⟩⟩
    · rw [deeper]
      exact Bool.false_ne_true
    · rw [counter]
      change (0 : Int) - (rmapRecursionLimit + 1) < 0
      decide

/-- Every application ends; and all of a sequence nest no deeper than they may and leave the
counter at zero, if and only if none of them runs into the limit. -/
theorem bounded_iff_shallow :
    (∀ (call : Call Rule Clause σ) (recursion : Int), ∃ a,
      Returns applyMatch applySet call recursion a) ∧
    ∀ calls : List (Call Rule Clause σ),
      Bounded applyMatch applySet 0 calls ↔ ∀ call ∈ calls, Shallow applyMatch applySet call := by
  refine ⟨returns applyMatch applySet, fun calls => ?_⟩
  induction calls with
  | nil => exact ⟨fun _ _ member => absurd member List.not_mem_nil, fun _ => rfl⟩
  | cons call later ih =>
    rw [List.forall_mem_cons, ← ih]
    constructor
    · rintro ⟨-, a, ended, -, rest⟩
      obtain ⟨-, ⟨shallow, counter, -⟩ | ⟨-, counter⟩⟩ :=
        returns_from_zero applyMatch applySet ended
      · rw [counter] at rest
        exact ⟨shallow, rest⟩
      · have zero : a.recursion = 0 := by
          cases later with
          | nil => exact rest
          | cons next later => exact rest.1
        rw [zero] at counter
        exact absurd counter (lt_irrefl 0)
    · rintro ⟨shallow, rest⟩
      obtain ⟨a, ended⟩ := returns applyMatch applySet call 0
      obtain ⟨depth, ⟨-, counter, -⟩ | ⟨deep, -⟩⟩ := returns_from_zero applyMatch applySet ended
      · exact ⟨rfl, a, ended, depth, counter ▸ rest⟩
      · exact absurd shallow deep

end Calls

/-- A map that calls itself for every route. -/
def callsItself : Call Unit Unit Unit where
  routeMapLookupByName := fun _ => some
    [⟨10, .permit, [], [], some "again", .exit, 0⟩]
  map := some [⟨10, .permit, [], [], some "again", .exit, 0⟩]
  object := ()

/-- The first application leaves the counter at eleven below zero, so the next one nests
twice as deep. -/
theorem counter_left_negative :
    Returns (fun _ _ => .matched) (fun _ _ => (.okay, ())) callsItself 0 ⟨.denyMatch, (), -11, 12⟩ ∧
    Returns (fun _ _ => .matched) (fun _ _ => (.okay, ())) callsItself (-11)
      ⟨.denyMatch, (), -22, 23⟩ ∧
    ¬ Bounded (fun _ _ => .matched) (fun _ _ => (.okay, ())) 0 [callsItself] := by
  refine ⟨⟨12, rfl⟩, ⟨23, rfl⟩, fun bounded => ?_⟩
  have shallow :=
    (bounded_iff_shallow _ _).2 [callsItself] |>.mp bounded callsItself List.mem_cons_self
  exact absurd shallow (by unfold Shallow; decide)

end Bgpd.RouteMapRecursion
