import Bgpd.Propagation
import Bgpd.Standing

/-!
# What a processed node has left

The selection takes out the removed routes that are not selected, and the end of the
processing the one that was. So a node of sound tables in which one route at most is
selected has no removed route left, and it stays a node in which one at most is
selected.
-/

namespace Bgpd.Reaping

open Rib Processing Selection Evolution Primitives Choice Outcome Propagation Standing

variable (env : Env)

/-- Names the routes of a list do not share with the one selected before. -/
def Unnamed (old : Option Nat) (infos : List BgpInfo) : Prop :=
  ∀ id, old = some id → id ∉ infos.map BgpInfo.id

theorem selectLoop_removed (infos : List BgpInfo) (old : Option Nat) (new : Option BgpInfo)
    (distinct : (infos.map BgpInfo.id).Nodup) (unnamed : Unnamed old infos) :
    ∀ ri ∈ (selectLoop env infos old new).infos, ri.flags.removed = true →
      ri.flags.selected = true := by
  induction infos generalizing old new with
  | nil => exact fun ri held => absurd held List.not_mem_nil
  | cons first later ih =>
    rw [List.map_cons, List.nodup_cons] at distinct
    generalize sofar : (if first.flags.selected then some first.id else old) = old'
    rw [selectLoop_cons env first later old old' new sofar]
    have unnamed' : Unnamed old' later := by
      intro id same
      rw [← sofar] at same
      split at same
      · obtain rfl := Option.some.inj same
        exact distinct.1
      · exact fun inside => unnamed id same (List.mem_cons_of_mem _ inside)
    have rest := fun new => ih old' new distinct.2 unnamed'
    intro ri held removed
    split at held
    · split at held
      · exact rest _ ri held removed
      · rename_i stays
        rcases List.mem_cons.mp held with rfl | later
        · -- It stays because it is the one selected so far, which no earlier one can be.
          by_contra other
          rw [if_neg other] at sofar
          have named : old' = some ri.id := by
            by_contra apart
            exact stays ⟨removed, apart⟩
          exact unnamed ri.id (sofar.trans named) List.mem_cons_self
        · exact rest _ ri later removed
    · rename_i usable
      have present : first.flags.removed = false := by
        simp only [BgpInfo.holddown, Bool.or_eq_true, not_or, Bool.not_eq_true] at usable
        exact usable.2
      split at held
      · rcases List.mem_cons.mp held with rfl | later
        · exact absurd (present.symm.trans removed) Bool.false_ne_true
        · exact rest _ ri later removed
      · rcases List.mem_cons.mp held with rfl | later
        · exact absurd (present.symm.trans removed) Bool.false_ne_true
        · exact rest _ ri later removed

theorem bgpBestSelection_removed (infos : List BgpInfo) (distinct : (infos.map BgpInfo.id).Nodup) :
    ∀ ri ∈ (bgpBestSelection env infos).infos, ri.flags.removed = true →
      ri.flags.selected = true := by
  have unnamed : ∀ infos, Unnamed none infos := fun _ _ none => by cases none
  unfold bgpBestSelection
  split
  · obtain ⟨change, passed, remarked⟩ := dmedPass_remarked env (infos.map BgpInfo.id) infos
    have names : (infos.map change).map BgpInfo.id = infos.map BgpInfo.id := by
      rw [List.map_map]
      exact List.map_congr_left fun ri _ => (remarked ri).id
    rw [passed]
    exact selectLoop_removed env _ none none (by rw [names]; exact distinct) (unnamed _)
  · exact selectLoop_removed env infos none none distinct (unnamed _)

/-- A node without a removed route, with one selected at most. -/
structure Reaped (s : State) (rn : Node) : Prop where
  single : Single s rn
  present : ∀ ri ∈ s.infos rn, ri.flags.removed = false

section Process

variable {s s₁ : State} {rn : Node} {selected : Selected}

/-- What is removed when the selection is done is the old selection. -/
theorem elected_removed (sound : Sound s) (elected : Elected s s₁ rn selected)
    (picked : selected = bgpBestSelection env (s.infos rn)) :
    ∀ ri ∈ s₁.infos rn, ri.flags.removed = true → selected.old = some ri.id := by
  intro ri held removed
  rw [elected.infos] at held
  refine elected.stale ri held ?_
  rw [picked] at held
  exact bgpBestSelection_removed env _ (sound.distinct rn) ri held removed

/-- The end of the processing takes the old selection out, whatever marks were moved. -/
theorem reapRemoved_present {s₂ : State} (sound : Sound s₂)
    (origin : ∀ ri' ∈ s₂.infos rn, ∃ ri ∈ s₁.infos rn, Reflagged ri ri')
    (old : ∀ ri ∈ s₁.infos rn, ri.flags.removed = true → selected.old = some ri.id) :
    ∀ ri ∈ (reapRemoved s₂ rn selected.old).infos rn, ri.flags.removed = false := by
  intro ri' member
  obtain ⟨held, stays⟩ := (mem_reapRemoved sound rn selected.old ri').mp member
  obtain ⟨ri, before, same⟩ := origin ri' held
  by_contra removed
  have removed' : ri'.flags.removed = true := by simpa using removed
  have same' := Reflagged.core same
  refine stays ⟨?_, removed'⟩
  rw [old ri before ((core_removed same').symm.trans removed'), core_id same']

end Process

theorem bgpProcessMain_reaped (s : State) (rn : Node) (sound : Sound s) (single : Single s rn) :
    Reaped (bgpProcessMain env s rn) rn := by
  refine ⟨(bgpProcessMain_settles env s rn sound single).2.1, ?_⟩
  have elected := bgpBestSelection_elected env s rn sound single
  have old := elected_removed env sound elected rfl
  unfold bgpProcessMain
  dsimp only
  generalize bgpBestSelection env (s.infos rn) = selected at *
  generalize { s with infos := replace s.infos rn selected.infos } = s₁ at *
  split
  · rename_i same
    obtain ⟨c, c', -, after, remarked, -, present, found, -⟩ := unchanged_kept elected same
    have present' : ∀ ri ∈ s₁.infos rn, ri.flags.removed = false := by
      intro ri held
      by_contra removed
      have removed' : ri.flags.removed = true := by simpa using removed
      rw [old ri held removed', Option.bind_some, elected.sound.named held] at found
      obtain rfl := Option.some.inj found
      obtain ⟨check, group, rfl⟩ := remarked
      exact absurd (present.symm.trans removed') Bool.false_ne_true
    rw [found]
    dsimp only
    split
    · rw [bgpZebraAnnounce_eq]
      exact present'
    · exact present'
  · have marks := markSelected_processed env s₁ rn selected.old selected.new
    have sound₂ := marks.sound elected.sound
    generalize markSelected env s₁ rn selected.old selected.new = m at *
    rw [announceAll_eq, fibUpdate_eq]
    exact reapRemoved_present ⟨sound₂.bounded, sound₂.distinct, sound₂.listed⟩ marks.origin old

/-- While the members of a group are told, the selected routes are the old and the new
selection at most, and one of them at a time. -/
structure Marking (old new : Option Nat) (s : State) (rn : Node) : Prop where
  single : Single s rn
  either : ∀ ri ∈ s.infos rn, ri.flags.selected = true → old = some ri.id ∨ new = some ri.id

variable {s : State}
variable {rn : Node}

theorem markSelected_marking {old new : Option Nat} (marking : Marking old new s rn) :
    Marking old new (markSelected env s rn old new) rn := by
  have only : ∀ ri ∈ (markSelected env s rn old new).infos rn, ri.flags.selected = true →
      new = some ri.id := by
    intro ri held selected
    rw [markSelected_eq] at held
    dsimp only at held
    rw [replace_same] at held
    obtain ⟨before, member, rfl⟩ := List.mem_map.mp held
    rw [marked_id]
    rcases marked_selected _ _ before selected with picked | ⟨stale, apart⟩
    · exact picked
    · exact (marking.either before member stale).resolve_left apart
  exact ⟨fun ri held ri' held' selected selected' => Option.some.inj
    ((only ri' held' selected').symm.trans (only ri held selected)),
    fun ri held selected => Or.inr (only ri held selected)⟩

theorem bgpProcessRsclient_reaped (s : State) (rn : Node) (sound : Sound s) (single : Single s rn) :
    Reaped (bgpProcessRsclient env s rn) rn := by
  have elected := bgpBestSelection_elected env s rn sound single
  have removed := elected_removed env sound elected rfl
  generalize choice : bgpBestSelection env (s.infos rn) = selected at *
  -- What is told moves the marks and writes, and nothing else.
  apply bgpProcessRsclient_induct env choice (P := fun s' =>
    Processed rn { s with infos := replace s.infos rn selected.infos } s' ∧
      Marking selected.old selected.new s' rn) (Q := (Reaped · rn))
  · exact ⟨.refl rn _, elected.single,
      fun ri held marked => Or.inl (elected.stale ri (elected.infos ▸ held) marked)⟩
  · rintro s' peer - - - ⟨processed, marking⟩
    have marks := markSelected_processed env s' rn selected.old selected.new
    refine ⟨(processed.trans marks).trans (announce_processed env _ peer _ rn), ?_⟩
    have marking' := markSelected_marking env marking
    rw [announce_eq]
    exact ⟨marking'.single, marking'.either⟩
  · rintro s₂ ⟨processed, marking⟩
    have sound₂ := processed.sound elected.sound
    refine ⟨?_, reapRemoved_present sound₂ processed.origin removed⟩
    intro ri held ri' held'
    exact marking.single ri ((mem_reapRemoved sound₂ rn selected.old ri).mp held).1 ri'
      ((mem_reapRemoved sound₂ rn selected.old ri').mp held').1

/-! ## The queues -/

/-- The node waits in one of the queues. -/
def Waits (s : State) (rn : Node) : Prop := rn ∈ s.mainQueue ∨ rn ∈ s.rsclientQueue

/-- The node's removed routes of the kind wait for it to be processed, and no two of its
routes are selected. -/
structure Swept (kind : Kind) (s : State) (rn : Node) : Prop where
  single : Single s rn
  queued : ∀ ri ∈ s.infos rn, kind.Of ri → ri.flags.removed = true → Waits s rn

theorem bgpProcess_waits (s : State) (rn : Node) : Waits (bgpProcess s rn) rn := by
  unfold bgpProcess Waits
  split
  · exact Or.inl (List.mem_append_right _ List.mem_cons_self)
  · exact Or.inr (List.mem_append_right _ List.mem_cons_self)

/-- The queues only grow. -/
theorem Waits.evolves {scope : Scope} {s' : State} (waits : Waits s rn)
    (evolves : Evolves scope s s') : Waits s' rn := by
  obtain ⟨main, same, -⟩ := evolves.mainQueue
  obtain ⟨rsclient, same', -⟩ := evolves.rsclientQueue
  unfold Waits
  rw [same, same']
  exact waits.imp (List.mem_append_left _) (List.mem_append_left _)

namespace Swept

variable {kind : Kind} {s s' : State} {rn : Node}
variable {scope : Scope}

/-- A call under which the routes of the kind stand. -/
theorem stands (swept : Swept kind s rn) (evolves : Evolves scope s s')
    (stands : Stands kind rn s s') : Swept kind s' rn where
  single := evolves_single evolves swept.single
  queued := by
    intro ri held mine removed
    obtain ⟨before, member, same⟩ := stands.origin ri held mine
    exact (swept.queued before member ((core_of kind same).mp mine)
      ((core_removed same).symm.trans removed)).evolves evolves

/-- A call that ends with the node in a queue. -/
theorem of_waits (swept : Swept kind s rn) (evolves : Evolves scope s s') (waits : Waits s' rn) :
    Swept kind s' rn :=
  ⟨evolves_single evolves swept.single, fun _ _ _ _ => waits⟩

theorem of_reaped (reaped : Reaped s rn) : Swept kind s rn := by
  refine ⟨reaped.single, fun ri held _ removed => ?_⟩
  rw [reaped.present ri held] at removed
  exact absurd removed Bool.false_ne_true

/-- Where the queues are empty no removed route of the kind is left. -/
theorem present (swept : Swept kind s rn) (main : s.mainQueue = [])
    (rsclient : s.rsclientQueue = []) :
    ∀ ri ∈ s.infos rn, kind.Of ri → ri.flags.removed = false := by
  intro ri held mine
  by_contra removed
  have queued := swept.queued ri held mine (by simpa using removed)
  unfold Waits at queued
  rw [main, rsclient] at queued
  exact queued.elim List.not_mem_nil List.not_mem_nil

/-- A node is taken out of its queue and processed. -/
theorem processed {at' : Node} {s₁ : State} (swept : ∀ rn, Swept kind s rn)
    (reaped : Reaped s' at') (processed : Processed at' s₁ s') (infos : s₁.infos = s.infos)
    (left : ∀ rn, rn ≠ at' → Waits s rn → Waits s₁ rn) (rn : Node) : Swept kind s' rn := by
  by_cases here : rn = at'
  · subst here
    exact of_reaped reaped
  · have same := (processed.apart rn here).trans (congrFun infos rn)
    refine ⟨?_, fun ri held mine removed => ?_⟩
    · unfold Single
      rw [same]
      exact (swept rn).single
    · rw [same] at held
      unfold Waits
      rw [processed.mainQueue, processed.rsclientQueue]
      exact left rn here ((swept rn).queued ri held mine removed)

end Swept

variable {kind : Kind}

theorem runMainQueue_swept (sound : Sound s) (swept : ∀ rn, Swept kind s rn) (rn : Node) :
    Swept kind (runMainQueue env s) rn := by
  unfold runMainQueue
  split
  · exact swept rn
  · rename_i at' later queue
    have sound' : Sound { s with mainQueue := later } := sound.queues later s.rsclientQueue
    refine Swept.processed swept (bgpProcessMain_reaped env _ at' sound' (swept at').single)
      (bgpProcessMain_processed env _ at') rfl (fun rn other => Or.imp_left fun member => ?_) rn
    rw [queue] at member
    exact (List.mem_cons.mp member).resolve_left other

theorem runRsclientQueue_swept (sound : Sound s) (swept : ∀ rn, Swept kind s rn) (rn : Node) :
    Swept kind (runRsclientQueue env s) rn := by
  unfold runRsclientQueue
  split
  · exact swept rn
  · rename_i at' later queue
    have sound' : Sound { s with rsclientQueue := later } := sound.queues s.mainQueue later
    refine Swept.processed swept (bgpProcessRsclient_reaped env _ at' sound' (swept at').single)
      (bgpProcessRsclient_processed env _ at') rfl
      (fun rn other => Or.imp_right fun member => ?_) rn
    rw [queue] at member
    exact (List.mem_cons.mp member).resolve_left other

end Bgpd.Reaping
