import Bgpd.Outcome

/-!
# What processing writes

Everything a step hands to the outside is an entry of the log. Processing a node of
the main type tells the neighbours of the instance and zebra; processing a node of
a route-server client's table tells the owner of the table, or the members of the
group that owns it.
-/

namespace Bgpd.Writes

open Prefixes Attributes Neighbors Rib Selection Processing Damping Aggregation Evolution Primitives
  Choice Outcome

variable (env : Env)

/-- All that a step adds to the log is allowed. -/
def Adds (allowed : Effect → Prop) (s s' : State) : Prop :=
  ∃ extra, s'.log = extra ++ s.log ∧ ∀ effect ∈ extra, allowed effect

namespace Adds

variable {allowed wider : Effect → Prop} {s s' s'' : State}

theorem of_same (same : s'.log = s.log) : Adds allowed s s' := ⟨[], same, by simp⟩

theorem refl (s : State) : Adds allowed s s := of_same rfl

theorem trans (left : Adds allowed s s') (right : Adds allowed s' s'') : Adds allowed s s'' := by
  obtain ⟨extra, grown, each⟩ := left
  obtain ⟨extra', grown', each'⟩ := right
  refine ⟨extra' ++ extra, by rw [grown', grown, List.append_assoc], fun effect member => ?_⟩
  exact (List.mem_append.mp member).elim (each' effect) (each effect)

theorem widen (within : ∀ effect, allowed effect → wider effect) (adds : Adds allowed s s') :
    Adds wider s s' := by
  obtain ⟨extra, grown, each⟩ := adds
  exact ⟨extra, grown, fun effect member => within effect (each effect member)⟩

theorem foldl {α : Type} (step : State → α → State) (items : List α)
    (each : ∀ s item, item ∈ items → Adds allowed s (step s item)) (s : State) :
    Adds allowed s (items.foldl step s) :=
  items.foldlRecOn step (refl s) fun _ before item member => before.trans (each _ item member)

/-- A log of allowed entries stays one. -/
theorem all (adds : Adds allowed s s') (before : ∀ effect ∈ s.log, allowed effect) :
    ∀ effect ∈ s'.log, allowed effect := by
  obtain ⟨extra, grown, each⟩ := adds
  intro effect member
  rw [grown] at member
  exact (List.mem_append.mp member).elim (each effect) (before effect)

end Adds

/-- An entry for a neighbour about a node. A main table's route only goes to a
neighbour that is no route-server client. -/
def Told (rn : Node) (peer : Nat) : Effect → Prop
  | .adjOutSet rn' peer' _ => rn' = rn ∧ peer' = peer ∧
    (rn.table.type = .main → ((env.config peer).afFlags rn.afi rn.safi).rserverClient = false)
  | .adjOutUnset rn' peer' => rn' = rn ∧ peer' = peer
  | _ => False

theorem bgpAnnounceCheck_server (bgp : Bgp) (ri : Announce.RouteView) (peer : Peer)
    (defaultOriginate : Bool) (p : Prefix) (safi : Safi) (attr : Attr)
    (checked : Announce.bgpAnnounceCheck bgp ri peer defaultOriginate p safi = some attr) :
    (peer.afFlags p.family safi).rserverClient = false := by
  have passes := (Announce.bgpAnnounceCheck_some bgp ri peer defaultOriginate p safi attr checked).1
  unfold Announce.announceable at passes
  simp only [Bool.and_eq_true] at passes
  simpa using passes.1.1.1.1.1.1.1.1.1.1

theorem announce_told (s : State) (peer : Nat) (new : Option BgpInfo) (rn : Node) :
    Adds (Told env rn peer) s (bgpProcessAnnounceSelected env s peer new rn) := by
  unfold bgpProcessAnnounceSelected
  split
  · split
    · rename_i attr checked
      obtain ⟨ri, -, checked⟩ := Option.bind_eq_some_iff.mp checked
      refine ⟨[.adjOutSet rn peer attr], rfl, fun effect member => ?_⟩
      rw [List.mem_singleton.mp member]
      refine ⟨rfl, rfl, fun main => ?_⟩
      unfold announceCheck at checked
      rw [main] at checked
      exact bgpAnnounceCheck_server _ _ _ _ _ _ attr checked
    · refine ⟨[.adjOutUnset rn peer], rfl, fun effect member => ?_⟩
      rw [List.mem_singleton.mp member]
      exact ⟨rfl, rfl⟩
  · exact .refl s

/-! ## The main tables -/

/-- A message to zebra that the source sends for a node: where the routes of the
node go to zebra, or a route of it was found to have another IGP metric. -/
def Forwarded (s : State) (rn : Node) (effect : Effect) : Prop :=
  ToZebra rn effect ∧ (fibNode env rn = true ∨ ∃ ri ∈ s.infos rn, ri.flags.igpChanged = true)

theorem markSelected_log (s : State) (rn : Node) (old new : Option Nat) :
    (markSelected env s rn old new).log = s.log := by
  rw [markSelected_eq]

theorem fibUpdate_adds (s s' : State) (rn : Node) (old new : Option BgpInfo) :
    Adds (Forwarded env s rn) s' (fibUpdate env s' rn old new) := by
  rw [fibUpdate_eq]
  refine ⟨_, rfl, fun effect member => ?_⟩
  refine ⟨fibMessages_toZebra env rn old new effect member, ?_⟩
  unfold fibMessages fibUpdate at member
  split at member
  · rename_i sends
    exact Or.inl sends
  · exact absurd member List.not_mem_nil

theorem bgpProcessMain_adds (s : State) (rn : Node) :
    Adds (fun effect => (∃ peer ∈ env.peers, Told env rn peer effect) ∨ Forwarded env s rn effect) s
      (bgpProcessMain env s rn) := by
  have selects := bgpBestSelection_selects env (s.infos rn)
  unfold bgpProcessMain
  dsimp only
  generalize bgpBestSelection env (s.infos rn) = selected at *
  have start : Adds (fun effect => (∃ peer ∈ env.peers, Told env rn peer effect) ∨
      Forwarded env s rn effect) s { s with infos := replace s.infos rn selected.infos } :=
    .of_same rfl
  apply start.trans
  split
  · split
    · rename_i ri found
      split
      · rename_i changed
        rw [bgpZebraAnnounce_eq]
        refine ⟨_, rfl,
          fun effect member => Or.inr ⟨announceMessages_toZebra env rn ri effect member, ?_⟩⟩
        obtain ⟨id, -, found⟩ := Option.bind_eq_some_iff.mp found
        have held := (info?_mem found).1
        dsimp only at held
        rw [replace_same] at held
        obtain ⟨before, held', check, group, rfl⟩ := selects.origin ri held
        exact Or.inr ⟨before, held', changed⟩
      · exact .refl _
    · exact .refl _
  · refine Adds.trans ?_ (.of_same (reapRemoved_log _ rn _))
    refine Adds.trans ?_ ((fibUpdate_adds env s _ rn _ _).widen fun _ => Or.inr)
    apply (Adds.of_same (markSelected_log env _ rn _ _)).trans
    apply Adds.foldl
    intro s' peer listed
    exact (announce_told env s' peer _ rn).widen fun effect told => Or.inl ⟨peer, listed, told⟩

/-! ## The tables of route-server clients -/

/-- Whom the routes of a route-server client's table go to. -/
def audience (rn : Node) : List Nat :=
  match rn.table.owner with
  | none => []
  | some owner => (env.group owner).getD [owner]

theorem bgpProcessRsclient_adds (s : State) (rn : Node) :
    Adds (fun effect => ∃ peer ∈ audience env rn, Told env rn peer effect) s
      (bgpProcessRsclient env s rn) := by
  apply bgpProcessRsclient_induct env
    (P := Adds (fun effect => ∃ peer ∈ audience env rn, Told env rn peer effect) s) rfl
    (.of_same rfl)
  · intro s' peer owner owned member adds
    have listed : peer ∈ audience env rn := by rwa [audience, owned]
    apply (adds.trans (.of_same (markSelected_log env s' rn _ _))).trans
    exact (announce_told env _ peer _ rn).widen fun effect told => ⟨peer, listed, told⟩
  · exact fun s' adds => adds.trans (.of_same (reapRemoved_log s' rn _))

end Bgpd.Writes
