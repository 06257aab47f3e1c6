import Bgpd.Reaping

/-!
# A change told to the members of a group

The table of a route-server client may belong to a group. Processing a node of it
tells the members one after the other, and asks before each of them whether there
is anything to do. The first member that is told clears the mark this question
reads.
-/

namespace Bgpd.GroupAnnounce

open Rib Selection Processing Evolution Primitives Outcome Actions Runs Propagation

variable (env : Env)

/-- A call of `bgp_process_announce_selected`: the neighbour, and the selection it is
handed. -/
structure Call where
  peer : Nat
  selected : Option Nat
  deriving DecidableEq, Repr

/-- The loop of `bgp_process_rsclient` over the members, with the calls it makes. -/
def groupLoop (rn : Node) (old new : Option Nat) : List Nat → State → State × List Call
  | [], s => (s, [])
  | rsclient :: later, s =>
    if unchanged s rn old new then groupLoop rn old new later s
    else
      let s := markSelected env s rn old new
      let s := bgpProcessAnnounceSelected env s rsclient (new.bind (s.info? rn)) rn
      let (s, calls) := groupLoop rn old new later s
      (s, ⟨rsclient, new⟩ :: calls)

/-- The tables when the selection is done. -/
def selectedState (s : State) (rn : Node) : State :=
  { s with infos := replace s.infos rn (bgpBestSelection env (s.infos rn)).infos }

/-- The group that owns the node's table, by its members. -/
def groupOf (rn : Node) : Option (List Nat) := rn.table.owner.bind env.group

theorem groupLoop_foldl (rn : Node) (old new : Option Nat) (members : List Nat) (s : State) :
    (groupLoop env rn old new members s).1 = members.foldl (fun s peer =>
      if unchanged s rn old new then s
      else
        let s := markSelected env s rn old new
        bgpProcessAnnounceSelected env s peer (new.bind (s.info? rn)) rn) s := by
  induction members generalizing s with
  | nil => rfl
  | cons rsclient later ih =>
    rw [groupLoop, List.foldl_cons]
    split
    · exact ih s
    · exact ih _

/-- On a node of a group, `bgp_process_rsclient` does what the loop does. -/
theorem bgpProcessRsclient_group (s : State) (rn : Node) {members : List Nat}
    (owned : groupOf env rn = some members) :
    let selected := bgpBestSelection env (s.infos rn)
    bgpProcessRsclient env s rn = reapRemoved (groupLoop env rn selected.old selected.new members
      (selectedState env s rn)).1 rn selected.old := by
  obtain ⟨owner, mine, group⟩ := Option.bind_eq_some_iff.mp owned
  simp only [bgpProcessRsclient, mine, group, groupLoop_foldl]
  rfl

/-- The calls of one run of `bgp_process_rsclient` on a node of a group. -/
def groupCalls (s : State) (rn : Node) : List Call :=
  let selected := bgpBestSelection env (s.infos rn)
  match groupOf env rn with
  | some members =>
    (groupLoop env rn selected.old selected.new members (selectedState env s rn)).2
  | none => []

/-- The best route of the node changes: another route is selected, or the attributes of
the selected one changed. -/
def BestChanges (s : State) (rn : Node) : Prop :=
  let selected := bgpBestSelection env (s.infos rn)
  selected.old ≠ selected.new ∨
    ∃ ri, selected.old.bind ((selectedState env s rn).info? rn) = some ri ∧
      ri.flags.attrChanged = true

/-- Every member is told of the new selection. -/
def EveryMemberTold (members : List Nat) (s : State) (rn : Node) : Prop :=
  groupCalls env s rn =
    members.map fun rsclient => ⟨rsclient, (bgpBestSelection env (s.infos rn)).new⟩

/-! ## One member -/

section Loop

variable {s : State} {rn : Node} {old new : Option Nat}

/-- A route of the node after the marks were moved. -/
theorem markSelected_info? (id : Nat) :
    (markSelected env s rn old new).info? rn id = (s.info? rn id).map (marked old new) := by
  rw [markSelected_eq]
  unfold State.info?
  dsimp only
  rw [replace_same, List.find?_map]
  congr 2
  funext ri
  simp [marked_id]

theorem unchanged_announce (peer : Nat) (selected : Option BgpInfo) :
    unchanged (bgpProcessAnnounceSelected env s peer selected rn) rn old new =
      unchanged s rn old new := by
  rw [announce_eq]
  rfl

/-- Where the selection is another one, there is always something to do. -/
theorem unchanged_of_ne (other : old ≠ new) : unchanged s rn old new = false := by
  unfold unchanged
  split
  · simp [other]
  · rfl

variable {ri : BgpInfo}

/-- Once the marks were moved nothing is left to do for a selection that stays. -/
theorem unchanged_marked (found : new.bind (s.info? rn) = some ri) :
    unchanged (markSelected env s rn new new) rn new new = true := by
  obtain ⟨id, rfl, held⟩ := Option.bind_eq_some_iff.mp found
  have named := (info?_mem held).2
  unfold unchanged
  rw [Option.bind_some, markSelected_info?, held, Option.map_some]
  simp [marked, named, BgpInfo.put, InfoFlags.put]

/-! ## The members -/

theorem groupLoop_other (other : old ≠ new) (members : List Nat) :
    (groupLoop env rn old new members s).2 = members.map fun rsclient => ⟨rsclient, new⟩ := by
  induction members generalizing s with
  | nil => rfl
  | cons rsclient later ih =>
    rw [groupLoop, if_neg (by simp [unchanged_of_ne other])]
    dsimp only
    rw [ih, List.map_cons]

theorem groupLoop_unchanged (same : unchanged s rn old new = true) (members : List Nat) :
    groupLoop env rn old new members s = (s, []) := by
  induction members with
  | nil => rfl
  | cons rsclient later ih => rw [groupLoop, if_pos same, ih]

/-- Other attributes of the same selection are told to the first member. -/
theorem groupLoop_attrChanged (found : new.bind (s.info? rn) = some ri)
    (changed : ri.flags.attrChanged = true) (rsclient : Nat) (later : List Nat) :
    (groupLoop env rn new new (rsclient :: later) s).2 = [⟨rsclient, new⟩] := by
  have todo : unchanged s rn new new = false := by
    unfold unchanged
    rw [found]
    simp [changed]
  rw [groupLoop, if_neg (by simp [todo])]
  dsimp only
  rw [groupLoop_unchanged]
  rw [unchanged_announce]
  exact unchanged_marked env found

end Loop

/-- Every member hears of a change exactly if another route is selected, or there is no
second member. Where the same route is selected, the first member that is told takes the
mark of the change, and there is nothing to do for the others. -/
theorem every_member_told_exactly (members : List Nat) (s : State) (rn : Node)
    (group : groupOf env rn = some members) (changes : BestChanges env s rn) :
    EveryMemberTold env members s rn ↔
      (bgpBestSelection env (s.infos rn)).old ≠ (bgpBestSelection env (s.infos rn)).new ∨
        members.length ≤ 1 := by
  unfold BestChanges at changes
  unfold EveryMemberTold groupCalls
  rw [group]
  dsimp only at *
  generalize selectedState env s rn = s₁ at *
  generalize bgpBestSelection env (s.infos rn) = selected at *
  by_cases other : selected.old = selected.new
  · obtain ⟨ri, found, changed⟩ := changes.resolve_left (not_not_intro other)
    rw [other] at found ⊢
    rw [or_iff_right (not_not_intro rfl)]
    cases members with
    | nil => simp [groupLoop]
    | cons rsclient later =>
      rw [groupLoop_attrChanged env found changed]
      constructor
      · intro told
        have lengths := congrArg List.length told
        simp only [List.length_map, List.length_cons, List.length_nil] at lengths ⊢
        omega
      · intro short
        have alone : later = [] := List.eq_nil_of_length_eq_zero (by simpa using short)
        rw [alone]
        rfl
  · exact iff_of_true (groupLoop_other env other members) (Or.inl other)

/-! ## A group of two -/

/-- An instance with a route-server group, whose template is 7 and whose members are 2
and 3. -/
def groupEnv : Env :=
  { plainEnv [1, 2, 3] with
    rsclients := [7]
    group := fun owner => if owner = 7 then some [2, 3] else none
    config := fun peer =>
      { (plainEnv [1, 2, 3]).config peer with
        afFlags := fun _ _ => { rserverClient := peer = 7 } }
    config_id := fun _ => rfl }

/-- Neighbour 1 sends 10.0.0.0/8, which is processed, and sends it again with another
MED. -/
def resent : State :=
  run (step groupEnv) .empty [offer 0 10, .runRsclient, offer 1 20]

/-- The node in the table of the group. -/
def groupNode : Node := nodeOf (.rsclient 7) .unicast tenSlashEight none

theorem every_member_told_exactly_of_two :
    EveryMemberTold groupEnv [2, 3] (step groupEnv .empty (offer 0 10)) groupNode :=
  (every_member_told_exactly groupEnv [2, 3] (step groupEnv .empty (offer 0 10)) groupNode rfl
    (Or.inl (by decide))).mpr (Or.inl (by decide))

/-- The new attributes are told to one of the two. -/
theorem second_member_untold :
    groupNode ∈ resent.rsclientQueue ∧ groupOf groupEnv groupNode = some [2, 3] ∧
      BestChanges groupEnv resent groupNode ∧
      groupCalls groupEnv resent groupNode = [⟨2, some 1⟩] ∧
      ¬ EveryMemberTold groupEnv [2, 3] resent groupNode := by
  have changes : BestChanges groupEnv resent groupNode := Or.inr ⟨_, rfl, by decide⟩
  refine ⟨by decide, rfl, changes, by decide, ?_⟩
  unfold EveryMemberTold
  decide

end Bgpd.GroupAnnounce
