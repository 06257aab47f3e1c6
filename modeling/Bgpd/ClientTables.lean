import Bgpd.References

/-!
# Calls on one node

A call that announces or withdraws a route of a kind finds the kind's route in one node
and removes it, changes it, or adds one. What it comes to is what that node shows then;
the other nodes' routes of the kind stand. The calls on a client's table touch nothing
but its node.
-/

namespace Bgpd.ClientTables

open Rib Updates Processing Evolution Primitives Steps Outcome Standing Reaping References

variable (env : Env)

/-- The routes of one neighbour, protocol and source. -/
def exactly (peer : Nat) (type : RouteType) (subType : SubType) : Kind :=
  fun peer' type' subType' => peer' = peer ∧ type' = type ∧ subType' = subType

section Find

variable {peer : Nat} {type : RouteType} {subType : SubType} {s : State} {rn : Node}
  {shown : Option BgpInfo}

/-- The route a call finds is what the node shows. -/
theorem findInfo_shows (shows : Shows (exactly peer type subType) s rn shown) {ri : BgpInfo}
    (found : findInfo s rn peer type subType = some ri) :
    ri ∈ s.infos rn ∧ shown = some (core ri) := by
  have held := List.mem_of_find?_eq_some found
  have known := List.find?_some found
  simp only [decide_eq_true_eq] at known
  exact ⟨held, shows.only ri held known⟩

/-- Where it finds none, the node shows none. -/
theorem findInfo_none (shows : Shows (exactly peer type subType) s rn shown)
    (absent : findInfo s rn peer type subType = none) : shown = none := by
  cases shown with
  | none => rfl
  | some c =>
    obtain ⟨ri, held, mine, -⟩ := shows.held c rfl
    have other := List.find?_eq_none.mp absent ri held
    simp only [decide_eq_true_eq] at other
    exact absurd mine other

end Find

/-- What a call on one node comes to. -/
structure Moved (kind : Kind) (rn : Node) (s s' : State) (shown' : Option BgpInfo) : Prop where
  evolves : Evolves lax s s'
  apart : ∀ rn', rn' ≠ rn → Stands kind rn' s s'
  shows : Shows kind s' rn shown'
  swept : Swept kind s rn → Swept kind s' rn

section Moved

variable {kind : Kind} {rn : Node} {s s' s'' : State} {shown shown' : Option BgpInfo}

/-- Nothing but the nodes' list has changed. -/
theorem Moved.of_infos (shows : Shows kind s rn shown) (evolves : Evolves lax s s')
    (same : ∀ rn', s'.infos rn' = s.infos rn') : Moved kind rn s s' shown where
  evolves := evolves
  apart := fun rn' _ => .of_infos (same rn')
  shows := shows.of_infos (same rn)
  swept := fun swept => swept.stands evolves (.of_infos (same rn))

theorem Moved.trans (first : Moved kind rn s s' shown) (second : Moved kind rn s' s'' shown') :
    Moved kind rn s s'' shown' where
  evolves := first.evolves.trans second.evolves
  apart := fun rn' other => (first.apart rn' other).trans (second.apart rn' other)
  shows := second.shows
  swept := fun swept => second.swept (first.swept swept)

/-- The node is made where it is missing. -/
theorem bgpNodeGet_moved (shows : Shows kind s rn shown) :
    Moved kind rn s (bgpNodeGet s rn) shown :=
  .of_infos shows (bgpNodeGet_evolves s rn) fun rn' => by rw [bgpNodeGet_infos]

/-- A call that ends with the node in a queue. -/
theorem bgpProcess_moved (evolves : Evolves lax s s')
    (apart : ∀ rn', rn' ≠ rn → Stands kind rn' s s')
    (shows : Shows kind s' rn shown') : Moved kind rn s (bgpProcess s' rn) shown' := by
  have queues : Evolves lax s' (bgpProcess s' rn) := bgpProcess_evolves s' rn fun _ => trivial
  exact
    { evolves := evolves.trans queues
      apart := fun rn' other => (apart rn' other).trans (bgpProcess_stands s' rn)
      shows := shows.of_infos (by rw [bgpProcess_infos])
      swept := fun swept => swept.of_waits (evolves.trans queues) (bgpProcess_waits s' rn) }

variable {rn' : Node}

/-- What the other nodes show stays. -/
theorem Moved.elsewhere (moved : Moved kind rn s s' shown') (other : rn' ≠ rn)
    (shows : Shows kind s rn' shown) : Shows kind s' rn' shown :=
  shows.evolves (moved.apart rn' other) moved.evolves

theorem Moved.swept_elsewhere (moved : Moved kind rn s s' shown') (other : rn' ≠ rn)
    (swept : Swept kind s rn') : Swept kind s' rn' :=
  swept.stands moved.evolves (moved.apart rn' other)

end Moved

section Client

variable {kind : Kind} {rn : Node} {s : State}
variable {ri : BgpInfo}

/-- The shown route is removed. -/
theorem deleted_moved (sound : Sound s) (shows : Shows kind s rn (some (core ri))) :
    ∃ c, Moved kind rn s (bgpProcess (bgpInfoDelete env s rn ri.id) rn) (some c) ∧
      c.flags.removed = true ∧ c.attr = ri.attr := by
  have deletes : Evolves lax s (bgpInfoDelete env s rn ri.id) :=
    bgpInfoDelete_evolves env s rn ri.id fun _ => trivial
  have marked := shows.putFlag env sound .removed true
  have marks : Evolves lax s (bgpInfoSetFlag env s rn ri.id .removed) :=
    setMark_evolves env s rn ri.id .removed (fun _ => trivial) (Or.inr rfl)
  refine ⟨core ((core ((core ri).put .removed true)).put .valid false), ?_, rfl, rfl⟩
  refine bgpProcess_moved deletes
    (fun rn' other => .of_infos (bgpInfoDelete_apart env s rn ri.id rn' other)) ?_
  refine marked.modify (marks.sound sound) fun other same => ⟨?_, ?_⟩
  · obtain ⟨before, -, mine, same'⟩ := marked.held _ rfl
    exact (core_of kind (same.trans same'.symm)).mpr mine
  · rw [← same]
    rfl

/-- A route as it is once it was restored, where it was removed. -/
def restored (ri : BgpInfo) : BgpInfo :=
  if ri.flags.removed then (ri.put .removed false).put .valid true else ri

theorem restored_removed (ri : BgpInfo) : (restored ri).flags.removed = false := by
  unfold restored
  split
  · rfl
  · rename_i present
    simpa using present

/-- Calls that touch one route of one node, whatever its flags, its attributes and its
extra part become. -/
structure Touches (rn : Node) (s s' : State) : Prop where
  evolves : Evolves lax s s'
  apart : ∀ rn', rn' ≠ rn → s'.infos rn' = s.infos rn'

namespace Touches

variable {s' s'' : State}

theorem refl (s : State) : Touches rn s s := ⟨.refl s, fun _ _ => rfl⟩

theorem trans (left : Touches rn s s') (right : Touches rn s' s'') : Touches rn s s'' :=
  ⟨left.evolves.trans right.evolves, fun rn' other =>
    (right.apart rn' other).trans (left.apart rn' other)⟩

end Touches

theorem mark_touches (id : Nat) (flag : InfoFlag) (marks : flag = .attrChanged ∨ flag = .removed) :
    Touches rn s (bgpInfoSetFlag env s rn id flag) :=
  ⟨setMark_evolves env s rn id flag (fun _ => trivial) marks,
    fun rn' other => bgpInfoPutFlag_apart env s rn id flag true rn' other⟩

theorem restore_touches (id : Nat) : Touches rn s (bgpInfoRestore env s rn id) :=
  ⟨bgpInfoRestore_evolves env s rn id (fun _ => trivial) trivial,
    fun rn' other => (modify_apart _ rn id _ rn' other).trans
      (bgpInfoPutFlag_apart env s rn id .removed false rn' other)⟩

/-- The shown route is restored, where it was removed. -/
theorem restored_shows (sound : Sound s) (shows : Shows kind s rn (some (core ri))) :
    let s' := if ri.flags.removed then bgpInfoRestore env s rn ri.id else s
    Touches rn s s' ∧ Shows kind s' rn (some (core (restored ri))) := by
  unfold restored
  split
  · refine ⟨restore_touches env ri.id, ?_⟩
    have cleared : Shows kind (bgpInfoUnsetFlag env s rn ri.id .removed) rn
        (some (core (ri.put .removed false))) := shows.putFlag env sound .removed false
    have clears : Evolves lax s (bgpInfoUnsetFlag env s rn ri.id .removed) :=
      putFlag_evolves env s rn ri.id .removed false (fun _ => trivial) fun other _ _ =>
        kin_bgpInfoPut env s _ rn other .removed false
          (kin_exempt _ rn other .removed false (Or.inr rfl) trivial)
    refine cleared.modify (clears.sound sound) fun other same => ⟨?_, ?_⟩
    · obtain ⟨before, -, mine, same'⟩ := cleared.held _ rfl
      exact (core_of kind (same.trans same'.symm)).mpr mine
    · exact (core_congr (fun other => core (other.put .valid true)) same :)
  · exact ⟨.refl s, shows⟩

end Client

end Bgpd.ClientTables
