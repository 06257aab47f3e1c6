import Bgpd.Choice
import Bgpd.Processing
import Bgpd.Steps

/-!
# What processing a node comes to

Processing touches the routes of one node and writes about that node only. Where
the selection and the marks on the selected route ask for nothing, the routes stay
as they are. Otherwise the chosen route goes to every neighbour and to zebra, and
is the only selected one and unmarked afterwards.
-/

namespace Bgpd.Outcome

open Rib Selection Processing Damping Aggregation Evolution Primitives Choice

variable (env : Env)

/-! ## The node a step is about -/

/-- The node an entry of the log is about. -/
def node? : Effect → Option Node
  | .adjOutSet rn _ _ | .adjOutUnset rn _ | .zebraAdd rn _ | .zebraDelete rn _ | .prefixCount rn _
  | .zeroCount rn _ =>
    some rn
  | .cease _ => none

/-- Only the marks of the processing may differ. -/
def Reflagged (ri ri' : BgpInfo) : Prop :=
  ∃ selected attrChanged dmedCheck dmedSelected,
    ri' = { ri with flags := { ri.flags with selected, attrChanged, dmedCheck, dmedSelected } }

theorem Reflagged.refl (ri : BgpInfo) : Reflagged ri ri := ⟨_, _, _, _, rfl⟩

variable {first second third : BgpInfo}

theorem Reflagged.trans (left : Reflagged first second) (right : Reflagged second third) :
    Reflagged first third := by
  obtain ⟨_, _, _, _, rfl⟩ := left
  obtain ⟨selected, attrChanged, dmedCheck, dmedSelected, rfl⟩ := right
  exact ⟨selected, attrChanged, dmedCheck, dmedSelected, rfl⟩

variable {ri : BgpInfo}
variable {ri' : BgpInfo}

theorem Remarked.reflagged (remarked : Remarked ri ri') : Reflagged ri ri' := by
  obtain ⟨check, group, rfl⟩ := remarked
  exact ⟨ri.flags.selected, ri.flags.attrChanged, check, group, rfl⟩

/-- A step of the processing of a node: the routes of the node may go but none
comes, and all it writes is about the node. -/
structure Processed (rn : Node) (s s' : State) : Prop where
  apart : ∀ other, other ≠ rn → s'.infos other = s.infos other
  names : ((s'.infos rn).map BgpInfo.id).Sublist ((s.infos rn).map BgpInfo.id)
  origin : ∀ ri' ∈ s'.infos rn, ∃ ri ∈ s.infos rn, Reflagged ri ri'
  nodes : s'.nodes = s.nodes
  nextId : s'.nextId = s.nextId
  mainQueue : s'.mainQueue = s.mainQueue
  rsclientQueue : s'.rsclientQueue = s.rsclientQueue
  defaultOriginate : s'.defaultOriginate = s.defaultOriginate
  log : ∃ extra, s'.log = extra ++ s.log ∧ ∀ effect ∈ extra, node? effect = some rn

namespace Processed

variable {rn : Node} {s s' s'' : State}

theorem refl (rn : Node) (s : State) : Processed rn s s :=
  ⟨fun _ _ => rfl, List.Sublist.refl _, fun ri held => ⟨ri, held, .refl ri⟩, rfl, rfl,
    rfl, rfl, rfl,
    [], rfl, by simp⟩

theorem trans (left : Processed rn s s') (right : Processed rn s' s'') : Processed rn s s'' where
  apart := fun other apart => (right.apart other apart).trans (left.apart other apart)
  names := right.names.trans left.names
  origin := by
    intro third held
    obtain ⟨second, held', later⟩ := right.origin third held
    obtain ⟨first, held'', earlier⟩ := left.origin second held'
    exact ⟨first, held'', earlier.trans later⟩
  nodes := right.nodes.trans left.nodes
  nextId := right.nextId.trans left.nextId
  mainQueue := right.mainQueue.trans left.mainQueue
  rsclientQueue := right.rsclientQueue.trans left.rsclientQueue
  defaultOriginate := right.defaultOriginate.trans left.defaultOriginate
  log := by
    obtain ⟨extra, grown, about⟩ := left.log
    obtain ⟨extra', grown', about'⟩ := right.log
    refine ⟨extra' ++ extra, by rw [grown', grown, List.append_assoc], fun effect member => ?_⟩
    exact (List.mem_append.mp member).elim (about' effect) (about effect)

/-- Other routes of the node, under names it has already. -/
theorem routes (infos : List BgpInfo)
    (names : (infos.map BgpInfo.id).Sublist ((s.infos rn).map BgpInfo.id))
    (origin : ∀ ri' ∈ infos, ∃ ri ∈ s.infos rn, Reflagged ri ri') :
    Processed rn s { s with infos := replace s.infos rn infos } where
  apart := fun other apart => replace_ne _ _ _ _ apart
  names := by
    dsimp only
    rw [replace_same]
    exact names
  origin := by
    dsimp only
    rw [replace_same]
    exact origin
  nodes := rfl
  nextId := rfl
  mainQueue := rfl
  rsclientQueue := rfl
  defaultOriginate := rfl
  log := ⟨[], rfl, by simp⟩

/-- Entries of the log about the node. -/
theorem write (extra : List Effect) (about : ∀ effect ∈ extra, node? effect = some rn) :
    Processed rn s { s with log := extra ++ s.log } :=
  ⟨fun _ _ => rfl, List.Sublist.refl _, fun ri held => ⟨ri, held, .refl ri⟩, rfl, rfl,
    rfl, rfl, rfl,
    extra, rfl, about⟩

/-- The tables stay sound. -/
theorem sound (processed : Processed rn s s') (before : Sound s) : Sound s' where
  bounded := by
    intro other ri member
    rw [processed.nextId]
    by_cases here : other = rn
    · subst here
      have name := processed.names.subset (List.mem_map_of_mem member)
      obtain ⟨old, held, same⟩ := List.mem_map.mp name
      rw [← same]
      exact before.bounded other old held
    · rw [processed.apart other here] at member
      exact before.bounded other ri member
  distinct := by
    intro other
    by_cases here : other = rn
    · subst here
      exact (before.distinct other).sublist processed.names
    · rw [processed.apart other here]
      exact before.distinct other
  listed := by
    intro other held
    rw [processed.nodes]
    apply before.listed other
    by_cases here : other = rn
    · subst here
      intro none
      have names := processed.names
      rw [none, List.map_nil, List.sublist_nil, List.map_eq_nil_iff] at names
      exact held names
    · rw [← processed.apart other here]
      exact held

end Processed

variable (s : State) (rn : Node) (old new : Option Nat)

/-! ## Marks -/

/-- A flag that no count depends on is only put. -/
theorem putPlain_eq (id : Nat) (flag : InfoFlag) (on : Bool) (plain : flag.usability = false) :
    bgpInfoPutFlag env s rn id flag on = s.modify rn id (·.put flag on) := by
  unfold bgpInfoPutFlag
  split
  · rename_i absent
    have same := changed_absent (s.infos rn) id (·.put flag on) absent
    unfold changed at same
    unfold State.modify
    rw [same, replace_self]
  · unfold bgpInfoPut
    rw [plain]
    rfl

/-- What a route becomes when the old and the new selection change places. -/
def marked (old new : Option Nat) (ri : BgpInfo) : BgpInfo :=
  if some ri.id = new then (ri.put .selected true).put .attrChanged false
  else if some ri.id = old then ri.put .selected false
  else ri

theorem marked_id (ri : BgpInfo) : (marked old new ri).id = ri.id := by
  unfold marked
  split
  · rfl
  · split <;> rfl

theorem marked_reflagged (ri : BgpInfo) : Reflagged ri (marked old new ri) := by
  unfold marked
  split
  · exact ⟨true, false, ri.flags.dmedCheck, ri.flags.dmedSelected, rfl⟩
  · split
    · exact ⟨false, ri.flags.attrChanged, ri.flags.dmedCheck, ri.flags.dmedSelected, rfl⟩
    · exact .refl ri

theorem markSelected_eq :
    markSelected env s rn old new =
      { s with infos := replace s.infos rn ((s.infos rn).map (marked old new)) } := by
  have double : ∀ (f : Node → List BgpInfo) (first second : List BgpInfo),
      replace (replace f rn first) rn second = replace f rn second := by
    intro f first second
    funext other
    unfold replace
    split <;> rfl
  unfold markSelected bgpInfoUnsetFlag bgpInfoSetFlag
  cases old with
  | none =>
    cases new with
    | none =>
      have same : marked none none = id := by
        funext ri
        simp [marked]
      simp [same]
    | some new =>
      dsimp only
      rw [putPlain_eq env _ rn new .selected true rfl,
        putPlain_eq env _ rn new .attrChanged false rfl]
      unfold State.modify
      simp only [replace_same, List.map_map, double]
      congr 2
      apply List.map_congr_left
      intro ri _
      by_cases here : ri.id = new <;> simp [marked, here]
  | some old =>
    cases new with
    | none =>
      dsimp only
      rw [putPlain_eq env _ rn old .selected false rfl]
      unfold State.modify
      congr 2
      apply List.map_congr_left
      intro ri _
      by_cases here : ri.id = old <;> simp [marked, here]
    | some new =>
      dsimp only
      rw [putPlain_eq env _ rn old .selected false rfl, putPlain_eq env _ rn new .selected true rfl,
        putPlain_eq env _ rn new .attrChanged false rfl]
      unfold State.modify
      simp only [replace_same, List.map_map, double]
      congr 2
      apply List.map_congr_left
      intro ri _
      by_cases there : ri.id = new
      · subst there
        by_cases here : ri.id = old
        · simp only [marked, Function.comp_apply, here, if_true, put_id]
          rfl
        · simp [marked, here]
      · by_cases here : ri.id = old
        · subst here
          simp [marked, there]
        · simp [marked, here, there]

/-! ## What is written -/

/-- The entry of the log for one neighbour. -/
def announcement (s : State) (rn : Node) (new : Option BgpInfo) (peer : Nat) : Option Effect :=
  if receives env peer rn.afi rn.safi then
    some
      (match new.bind (announceCheck env s peer rn) with
        | some attr => .adjOutSet rn peer attr
        | none => .adjOutUnset rn peer)
  else none

theorem announce_eq (peer : Nat) (new : Option BgpInfo) (rn : Node) :
    bgpProcessAnnounceSelected env s peer new rn =
      { s with log := (announcement env s rn new peer).toList ++ s.log } := by
  unfold bgpProcessAnnounceSelected announcement
  split
  · cases new.bind (announceCheck env s peer rn) <;> rfl
  · rfl

theorem announceAll_eq (peers : List Nat) (s : State) (new : Option BgpInfo) (rn : Node) :
    peers.foldl (fun s peer => bgpProcessAnnounceSelected env s peer new rn) s =
      { s with log := (peers.filterMap (announcement env s rn new)).reverse ++ s.log } := by
  induction peers generalizing s with
  | nil => rfl
  | cons peer later ih =>
    rw [List.foldl_cons, announce_eq, ih]
    have same :
      announcement env { s with log := (announcement env s rn new peer).toList ++ s.log } rn
        new = announcement env s rn new := rfl
    rw [same]
    cases told : announcement env s rn new peer with
    | none => simp [told]
    | some effect => simp [told]

/-- The messages to zebra for an announcement. -/
def announceMessages (rn : Node) (ri : BgpInfo) : List Effect :=
  (bgpZebraAnnounce env .empty rn ri).log

theorem bgpZebraAnnounce_eq (ri : BgpInfo) :
    bgpZebraAnnounce env s rn ri = { s with log := announceMessages env rn ri ++ s.log } := by
  unfold announceMessages bgpZebraAnnounce
  split
  · rfl
  · split <;> rfl

/-- The messages to zebra for a withdrawal. -/
def withdrawMessages (rn : Node) (ri : BgpInfo) : List Effect :=
  (bgpZebraWithdraw env .empty rn ri).log

theorem bgpZebraWithdraw_eq (ri : BgpInfo) :
    bgpZebraWithdraw env s rn ri = { s with log := withdrawMessages env rn ri ++ s.log } := by
  unfold withdrawMessages bgpZebraWithdraw
  split
  · rfl
  · split <;> rfl

/-- The messages to zebra for a node that is processed. -/
def fibMessages (rn : Node) (old new : Option BgpInfo) : List Effect :=
  (fibUpdate env .empty rn old new).log

theorem fibUpdate_eq (old new : Option BgpInfo) :
    fibUpdate env s rn old new = { s with log := fibMessages env rn old new ++ s.log } := by
  unfold fibMessages fibUpdate
  simp only [bgpZebraAnnounce_eq env s, bgpZebraAnnounce_eq env .empty, bgpZebraWithdraw_eq env s,
    bgpZebraWithdraw_eq env .empty]
  split
  · split
    · simp [State.empty]
    · split
      · simp [State.empty]
      · rfl
  · rfl

/-- A message to zebra about the node. -/
def ToZebra (rn : Node) : Effect → Prop
  | .zebraAdd rn' _ | .zebraDelete rn' _ => rn' = rn
  | _ => False

theorem ToZebra.about {rn : Node} {effect : Effect} (message : ToZebra rn effect) :
    node? effect = some rn := by
  cases effect with
  | zebraAdd rn' route => exact congrArg some message
  | zebraDelete rn' route => exact congrArg some message
  | _ => exact message.elim

theorem announceMessages_toZebra (ri : BgpInfo) :
    ∀ effect ∈ announceMessages env rn ri, ToZebra rn effect := by
  unfold announceMessages bgpZebraAnnounce
  split
  · simp [State.empty]
  · split
    · simp [State.empty]
    · simp [State.empty, ToZebra]

theorem withdrawMessages_toZebra (ri : BgpInfo) :
    ∀ effect ∈ withdrawMessages env rn ri, ToZebra rn effect := by
  unfold withdrawMessages bgpZebraWithdraw
  split
  · simp [State.empty]
  · split
    · simp [State.empty]
    · simp [State.empty, ToZebra]

theorem fibMessages_toZebra (old new : Option BgpInfo) :
    ∀ effect ∈ fibMessages env rn old new, ToZebra rn effect := by
  unfold fibMessages fibUpdate
  split
  · split
    · exact announceMessages_toZebra env rn _
    · split
      · exact withdrawMessages_toZebra env rn _
      · simp [State.empty]
  · simp [State.empty]

/-! ## Steps of the processing -/

theorem markSelected_processed :
    Processed rn s (markSelected env s rn old new) := by
  rw [markSelected_eq]
  apply Processed.routes
  · rw [List.map_map]
    exact (List.map_congr_left fun ri _ => marked_id old new ri) ▸ List.Sublist.refl _
  · intro ri' member
    obtain ⟨ri, held, rfl⟩ := List.mem_map.mp member
    exact ⟨ri, held, marked_reflagged old new ri⟩

theorem announce_processed (peer : Nat) (new : Option BgpInfo) (rn : Node) :
    Processed rn s (bgpProcessAnnounceSelected env s peer new rn) := by
  rw [announce_eq]
  apply Processed.write
  intro effect member
  unfold announcement at member
  split at member
  · rw [Option.toList_some, List.mem_singleton] at member
    subst member
    split <;> rfl
  · exact absurd member List.not_mem_nil

theorem reapRemoved_processed (old : Option Nat) : Processed rn s (reapRemoved s rn old) := by
  unfold reapRemoved
  split
  · split
    · exact Processed.routes _ (List.filter_sublist.map _) fun ri member =>
        ⟨ri, (List.mem_filter.mp member).1, .refl ri⟩
    · exact .refl rn s
  · exact .refl rn s

theorem selection_processed :
    Processed rn s
      { s with infos := replace s.infos rn (bgpBestSelection env (s.infos rn)).infos } :=
  Processed.routes _ (bgpBestSelection_selects env (s.infos rn)).names fun ri' member => by
    obtain ⟨ri, held, remarked⟩ := (bgpBestSelection_selects env (s.infos rn)).origin ri' member
    exact ⟨ri, held, Remarked.reflagged remarked⟩

theorem bgpZebraAnnounce_processed (ri : BgpInfo) :
    Processed rn s (bgpZebraAnnounce env s rn ri) := by
  rw [bgpZebraAnnounce_eq]
  exact Processed.write _ fun effect member =>
    (announceMessages_toZebra env rn ri effect member).about

theorem fibUpdate_processed (old new : Option BgpInfo) :
    Processed rn s (fibUpdate env s rn old new) := by
  rw [fibUpdate_eq]
  exact Processed.write _ fun effect member =>
    (fibMessages_toZebra env rn old new effect member).about

theorem bgpProcessMain_processed :
    Processed rn s (bgpProcessMain env s rn) := by
  apply bgpProcessMain_induct env (selection_processed env s rn)
  · exact fun _ old new sofar => sofar.trans (markSelected_processed env _ rn old new)
  · exact fun _ peer new sofar => sofar.trans (announce_processed env _ peer new rn)
  · exact fun _ ri sofar => sofar.trans (bgpZebraAnnounce_processed env _ rn ri)
  · exact fun _ old new sofar => sofar.trans (fibUpdate_processed env _ rn old new)
  · exact fun _ old sofar => sofar.trans (reapRemoved_processed _ rn old)

theorem bgpProcessRsclient_processed :
    Processed rn s (bgpProcessRsclient env s rn) := by
  apply bgpProcessRsclient_induct env rfl (selection_processed env s rn)
  · intro s' peer _ _ _ sofar
    exact (sofar.trans (markSelected_processed env s' rn _ _)).trans
      (announce_processed env _ peer _ rn)
  · exact fun s' sofar => sofar.trans (reapRemoved_processed s' rn _)

/-! ## The chosen route -/

/-- The selected route of a node. -/
def chosen (s : State) (rn : Node) : Option BgpInfo := (s.infos rn).find? (·.flags.selected)

/-- No two routes of the node are selected. -/
def Single (s : State) (rn : Node) : Prop :=
  ∀ ri ∈ s.infos rn, ∀ ri' ∈ s.infos rn, ri.flags.selected = true → ri'.flags.selected = true →
    ri'.id = ri.id

theorem chosen_mem {s : State} {rn : Node} (found : chosen s rn = some ri) :
    ri ∈ s.infos rn ∧ ri.flags.selected = true :=
  ⟨List.mem_of_find?_eq_some found, by simpa using List.find?_some found⟩

theorem chosen_eq {s : State} {rn : Node} (sound : Sound s) (single : Single s rn)
    (held : ri ∈ s.infos rn) (marked : ri.flags.selected = true) : chosen s rn = some ri := by
  cases found : chosen s rn with
  | none =>
    have none := List.find?_eq_none.mp found ri held
    exact absurd marked none
  | some other =>
    obtain ⟨held', marked'⟩ := chosen_mem found
    rw [sound.unique held held' (single ri held other held' marked marked')]

theorem Processed.chosen {s s' : State} {rn other : Node} (processed : Processed rn s s')
    (apart : other ≠ rn) : chosen s' other = chosen s other := by
  unfold Outcome.chosen
  rw [processed.apart other apart]

theorem chosen_none {s : State} {rn : Node} :
    chosen s rn = none ↔ ∀ ri ∈ s.infos rn, ri.flags.selected = false := by
  unfold chosen
  rw [List.find?_eq_none]
  exact forall₂_congr fun ri _ => by rw [Bool.not_eq_true]

theorem marked_selected (ri : BgpInfo) (selected : (marked old new ri).flags.selected = true) :
    new = some ri.id ∨ ri.flags.selected = true ∧ old ≠ some ri.id := by
  unfold marked at selected
  by_cases picked : some ri.id = new
  · exact Or.inl picked.symm
  · rw [if_neg picked] at selected
    by_cases before : some ri.id = old
    · rw [if_pos before] at selected
      exact absurd selected Bool.false_ne_true
    · rw [if_neg before] at selected
      exact Or.inr ⟨selected, fun same => before same.symm⟩

/-- The route that is picked is selected and unmarked afterwards, and otherwise as it
was. -/
theorem marked_new (old : Option Nat) (ri : BgpInfo) :
    (marked old (some ri.id) ri).flags.selected = true ∧
      (marked old (some ri.id) ri).flags.attrChanged = false ∧
      (marked old (some ri.id) ri).holddown = ri.holddown ∧
      (marked old (some ri.id) ri).flags.removed = ri.flags.removed := by
  unfold marked
  rw [if_pos rfl]
  exact ⟨rfl, rfl, rfl, rfl⟩

/-- The part of a route that processing leaves as it is. -/
structure SameRoute (ri ri' : BgpInfo) : Prop where
  id : ri'.id = ri.id
  peer : ri'.peer = ri.peer
  type : ri'.type = ri.type
  subType : ri'.subType = ri.subType
  attr : ri'.attr = ri.attr
  extra : ri'.extra = ri.extra

theorem Remarked.sameRoute (remarked : Remarked ri ri') : SameRoute ri ri' := by
  obtain ⟨check, group, rfl⟩ := remarked
  exact ⟨rfl, rfl, rfl, rfl, rfl, rfl⟩

theorem marked_sameRoute (ri : BgpInfo) : SameRoute ri (marked old new ri) := by
  unfold marked
  split
  · exact ⟨rfl, rfl, rfl, rfl, rfl, rfl⟩
  · split <;> exact ⟨rfl, rfl, rfl, rfl, rfl, rfl⟩

theorem SameRoute.trans (left : SameRoute first second) (right : SameRoute second third) :
    SameRoute first third :=
  ⟨right.id.trans left.id, right.peer.trans left.peer, right.type.trans left.type,
    right.subType.trans left.subType, right.attr.trans left.attr, right.extra.trans left.extra⟩

/-- A node that is processed keeps its choice, which has no mark, or has made a new
one and told everybody. -/
inductive Settles (s s' : State) (rn : Node) : Prop
  | kept (c c' : BgpInfo) (before : chosen s rn = some c) (after : chosen s' rn = some c')
      (remarked : Remarked c c') (unmarked : c.flags.attrChanged = false)
      (present : c.flags.removed = false)
      (log : s'.log = (if c'.flags.igpChanged then announceMessages env rn c' else []) ++ s.log)
  | told (old : Option BgpInfo)
      (same : ∀ c, chosen s rn = some c → ∃ c', old = some c' ∧ SameRoute c c')
      (none : chosen s rn = none → old = none)
      (log : s'.log = fibMessages env rn old (chosen s' rn) ++
        ((env.peers.filterMap (announcement env s rn (chosen s' rn))).reverse ++ s.log))

/-- The chosen route is the one the selection picked of the routes there were. -/
structure Picks (infos : List BgpInfo) (new : Option Nat) (after : Option BgpInfo) : Prop where
  named : after.map BgpInfo.id = new
  origin : ∀ c, after = some c → ∃ ri ∈ infos, SameRoute ri c

theorem announcement_congr {s s' : State} (same : s'.defaultOriginate = s.defaultOriginate)
    (rn : Node) : announcement env s' rn = announcement env s rn := by
  funext new peer
  unfold announcement announceCheck
  rw [same]

/-- The routes of the node that stay. -/
theorem mem_reapRemoved {s : State} (sound : Sound s) (rn : Node) (old : Option Nat)
    (ri : BgpInfo) :
    ri ∈ (reapRemoved s rn old).infos rn ↔
      ri ∈ s.infos rn ∧ ¬ (old = some ri.id ∧ ri.flags.removed = true) := by
  unfold reapRemoved
  split
  · rename_i gone found
    obtain ⟨id, rfl, found⟩ := Option.bind_eq_some_iff.mp found
    obtain ⟨held, rfl⟩ := info?_mem found
    split
    · rename_i removed
      simp only [bgpInfoReap, replace_same, List.mem_filter, decide_eq_true_eq, ne_eq,
        Option.some.injEq, not_and, Bool.not_eq_true]
      refine and_congr_right fun member => ⟨fun apart same => absurd same.symm apart, ?_⟩
      intro stays same
      obtain rfl := sound.unique held member same
      rw [removed] at stays
      exact absurd (stays rfl) Bool.noConfusion
    · rename_i stays
      refine ⟨fun member => ⟨member, fun both => stays ?_⟩, And.left⟩
      obtain ⟨same, removed⟩ := both
      rw [← sound.unique held member (Option.some.inj same).symm]
      exact removed
  · rename_i absent
    refine ⟨fun member => ⟨member, fun both => ?_⟩, And.left⟩
    rw [both.1, Option.bind_some, sound.named member] at absent
    exact absurd absent (by simp)

@[simp] theorem reapRemoved_log (old : Option Nat) : (reapRemoved s rn old).log = s.log := by
  unfold reapRemoved
  split
  · split <;> rfl
  · rfl

/-- The selection of a node, and what is known of it in a state that has its routes. -/
structure Elected (s s₁ : State) (rn : Node) (selected : Selected) : Prop where
  sound : Sound s₁
  single : Single s₁ rn
  infos : s₁.infos rn = selected.infos
  log : s₁.log = s.log
  defaultOriginate : s₁.defaultOriginate = s.defaultOriginate
  old : ∀ c, chosen s rn = some c →
    selected.old = some c.id ∧ ∃ c' ∈ selected.infos, Remarked c c'
  none : chosen s rn = none → selected.old = none
  new : ∀ id, selected.new = some id → ∃ ri ∈ selected.infos, ri.id = id ∧ ri.holddown = false
  origin : ∀ ri' ∈ selected.infos, ∃ ri ∈ s.infos rn, Remarked ri ri'
  stale : ∀ ri ∈ selected.infos, ri.flags.selected = true → selected.old = some ri.id

theorem bgpBestSelection_elected (sound : Sound s) (single : Single s rn) :
    Elected s { s with infos := replace s.infos rn (bgpBestSelection env (s.infos rn)).infos } rn
      (bgpBestSelection env (s.infos rn)) := by
  have selects := bgpBestSelection_selects env (s.infos rn)
  have picks := bgpBestSelection_new env (s.infos rn)
  have sound' := (selection_processed env s rn).sound sound
  generalize bgpBestSelection env (s.infos rn) = selected at *
  have old : ∀ c, chosen s rn = some c → selected.old = some c.id := by
    intro c found
    obtain ⟨held, marked⟩ := chosen_mem found
    rcases selects.old with ⟨ri, held', marked', same⟩ | ⟨none, -⟩
    · rw [same, single c held ri held' marked marked']
    · rw [none c held] at marked
      exact absurd marked Bool.false_ne_true
  refine ⟨sound', ?_, replace_same _ _ _, rfl,
    rfl, ?_, ?_, picks, selects.origin, ?_⟩
  · intro ri held ri' held' marked marked'
    dsimp only at held held'
    rw [replace_same] at held held'
    obtain ⟨before, inBefore, remarked⟩ := selects.origin ri held
    obtain ⟨before', inBefore', remarked'⟩ := selects.origin ri' held'
    rw [remarked.id, remarked'.id]
    exact single before inBefore before' inBefore' (remarked.selected ▸ marked)
      (remarked'.selected ▸ marked')
  · intro c found
    obtain ⟨held, marked⟩ := chosen_mem found
    exact ⟨old c found, selects.kept c held marked⟩
  · intro absent
    rcases selects.old with ⟨ri, held', marked', same⟩ | ⟨-, same⟩
    · rw [chosen_none.mp absent ri held'] at marked'
      exact absurd marked' Bool.false_ne_true
    · exact same
  · intro ri held marked
    obtain ⟨before, inBefore, remarked⟩ := selects.origin ri held
    rw [remarked.selected] at marked
    rw [remarked.id]
    exact old before (chosen_eq sound single inBefore marked)

variable {s₁ : State} {selected : Selected}

/-- Where nothing is to be done, the chosen route stays. -/
theorem unchanged_kept {s : State} {rn : Node} (elected : Elected s s₁ rn selected)
    (same : unchanged s₁ rn selected.old selected.new = true) :
    ∃ c c', chosen s rn = some c ∧ chosen s₁ rn = some c' ∧ Remarked c c' ∧
      c.flags.attrChanged = false ∧ c.flags.removed = false ∧
      selected.old.bind (s₁.info? rn) = some c' ∧ selected.new = some c'.id := by
  unfold unchanged at same
  split at same
  · rename_i ri found
    obtain ⟨id, old, found'⟩ := Option.bind_eq_some_iff.mp found
    obtain ⟨held, rfl⟩ := info?_mem found'
    simp only [Bool.and_eq_true, decide_eq_true_eq, Bool.not_eq_true'] at same
    cases before : chosen s rn with
    | none =>
      rw [elected.none before] at old
      exact absurd old (by simp)
    | some c =>
      obtain ⟨old', c', member, remarked⟩ := elected.old c before
      have name : ri.id = c'.id := by
        rw [old, Option.some.injEq] at old'
        exact old'.trans remarked.id.symm
      obtain rfl : ri = c' := elected.sound.unique (elected.infos ▸ member) held name
      obtain ⟨picked, member', named, usable⟩ := elected.new ri.id (same.1 ▸ old)
      obtain rfl : picked = ri := elected.sound.unique held (elected.infos ▸ member') named
      have marked := (chosen_mem before).2
      refine ⟨c, picked, rfl, ?_, remarked, ?_, ?_, found, same.1 ▸ old⟩
      · exact chosen_eq elected.sound elected.single held (remarked.selected.trans marked)
      · obtain ⟨check, group, rfl⟩ := remarked
        exact same.2
      · obtain ⟨check, group, rfl⟩ := remarked
        simp only [BgpInfo.holddown, Bool.or_eq_false_iff] at usable
        exact usable.2
  · exact absurd same Bool.false_ne_true

/-- Once the old and the new selection have changed places, only the new one is
selected. -/
theorem markSelected_only {s : State} {rn : Node} (elected : Elected s s₁ rn selected)
    (member : ri ∈ (markSelected env s₁ rn selected.old selected.new).infos rn)
    (marked : ri.flags.selected = true) : selected.new = some ri.id := by
  rw [markSelected_eq] at member
  dsimp only at member
  rw [replace_same, elected.infos] at member
  obtain ⟨before, held, rfl⟩ := List.mem_map.mp member
  rw [marked_id]
  rcases marked_selected _ _ before marked with new | ⟨stale, apart⟩
  · exact new
  · exact absurd (elected.stale before held stale) apart

/-- The new selection is found, selected, and not about to go. -/
theorem markSelected_new {s : State} {rn : Node} (elected : Elected s s₁ rn selected) (id : Nat)
    (picked : selected.new = some id) :
    ∃ ri, (markSelected env s₁ rn selected.old selected.new).info? rn id = some ri ∧
      ri.flags.selected = true ∧ ri.flags.removed = false := by
  have sound := (markSelected_processed env s₁ rn selected.old selected.new).sound elected.sound
  obtain ⟨ri, held, rfl, usable⟩ := elected.new id picked
  obtain ⟨selected', -, -, removed⟩ := marked_new selected.old ri
  have member : marked selected.old selected.new ri ∈
      (markSelected env s₁ rn selected.old selected.new).infos rn := by
    rw [markSelected_eq]
    dsimp only
    rw [replace_same, elected.infos]
    exact List.mem_map_of_mem held
  have found := sound.named member
  rw [marked_id] at found
  refine ⟨_, found, ?_, ?_⟩
  · rw [picked]
    exact selected'
  · rw [picked, removed]
    simp only [BgpInfo.holddown, Bool.or_eq_false_iff] at usable
    exact usable.2

/-- The old selection is found as it was. -/
theorem markSelected_old {s : State} {rn : Node} (elected : Elected s s₁ rn selected) {c : BgpInfo}
    (before : chosen s rn = some c) :
    ∃ c',
      selected.old.bind ((markSelected env s₁ rn selected.old selected.new).info? rn) = some c' ∧
      SameRoute c c' := by
  have sound := (markSelected_processed env s₁ rn selected.old selected.new).sound elected.sound
  obtain ⟨old, ri, held, remarked⟩ := elected.old c before
  have member : marked selected.old selected.new ri ∈
      (markSelected env s₁ rn selected.old selected.new).infos rn := by
    rw [markSelected_eq]
    dsimp only
    rw [replace_same, elected.infos]
    exact List.mem_map_of_mem held
  have found := sound.named member
  rw [marked_id, remarked.id] at found
  refine ⟨marked selected.old selected.new ri, ?_, ?_⟩
  · rw [old] at found ⊢
    exact found
  · exact (Remarked.sameRoute remarked).trans (marked_sameRoute _ _ ri)

/-- The last part of the processing takes the old selection out. What is chosen then
is what was announced. -/
theorem reapRemoved_chosen {s s₂ : State} {rn : Node} (elected : Elected s s₁ rn selected)
    (sound : Sound s₂)
    (infos : s₂.infos = (markSelected env s₁ rn selected.old selected.new).infos) :
    Single (reapRemoved s₂ rn selected.old) rn ∧
      chosen (reapRemoved s₂ rn selected.old) rn =
        selected.new.bind ((markSelected env s₁ rn selected.old selected.new).info? rn) := by
  have members := mem_reapRemoved sound rn selected.old
  have sound' := (reapRemoved_processed s₂ rn selected.old).sound sound
  have only : ∀ ri ∈ (reapRemoved s₂ rn selected.old).infos rn, ri.flags.selected = true →
      selected.new = some ri.id := by
    intro ri member marked
    have held := ((members ri).mp member).1
    rw [infos] at held
    exact markSelected_only env elected held marked
  have single : Single (reapRemoved s₂ rn selected.old) rn := by
    intro ri held ri' held' marked marked'
    have same := (only ri' held' marked').symm.trans (only ri held marked)
    exact Option.some.inj same
  refine ⟨single, ?_⟩
  cases picked : selected.new with
  | none =>
    refine chosen_none.mpr fun ri held => ?_
    cases marked : ri.flags.selected with
    | false => rfl
    | true => exact absurd (picked.symm.trans (only ri held marked)) (by simp)
  | some id =>
    obtain ⟨ri, found, marked, present⟩ := markSelected_new env elected id picked
    obtain ⟨held, -⟩ := info?_mem found
    rw [← picked, picked, Option.bind_some]
    rw [picked] at found
    rw [found]
    apply chosen_eq sound' single _ marked
    apply (members ri).mpr ⟨by rw [infos]; exact held, fun ⟨_, gone⟩ => ?_⟩
    rw [present] at gone
    exact absurd gone Bool.false_ne_true

/-- What the marks are put on is a route there was. -/
theorem markSelected_picks {s : State} {rn : Node} (elected : Elected s s₁ rn selected) :
    Picks (s.infos rn) selected.new
      (selected.new.bind ((markSelected env s₁ rn selected.old selected.new).info? rn)) where
  named := by
    cases picked : selected.new with
    | none => rfl
    | some id =>
      obtain ⟨ri, found, -, -⟩ := markSelected_new env elected id picked
      rw [picked] at found
      rw [Option.bind_some, found, Option.map_some, (info?_mem found).2]
  origin := by
    intro c found
    obtain ⟨id, picked, found⟩ := Option.bind_eq_some_iff.mp found
    obtain ⟨held, -⟩ := info?_mem found
    rw [markSelected_eq] at held
    dsimp only at held
    rw [replace_same, elected.infos] at held
    obtain ⟨ri', member, rfl⟩ := List.mem_map.mp held
    obtain ⟨ri, before, remarked⟩ := elected.origin ri' member
    exact ⟨ri, before, (Remarked.sameRoute remarked).trans (marked_sameRoute _ _ ri')⟩

/-- Processing a node of sound tables settles it. -/
theorem bgpProcessMain_settles (sound : Sound s) (single : Single s rn) :
    Settles env s (bgpProcessMain env s rn) rn ∧ Single (bgpProcessMain env s rn) rn ∧
      Picks (s.infos rn) (bgpBestSelection env (s.infos rn)).new
        (chosen (bgpProcessMain env s rn) rn) := by
  have elected := bgpBestSelection_elected env s rn sound single
  unfold bgpProcessMain
  dsimp only
  generalize bgpBestSelection env (s.infos rn) = selected at *
  generalize { s with infos := replace s.infos rn selected.infos } = s₁ at *
  split
  · rename_i same
    obtain ⟨c, c', before, after, remarked, unmarked, present, found, picked⟩ :=
      unchanged_kept elected same
    have picks : Picks (s.infos rn) selected.new (chosen s₁ rn) := by
      refine ⟨by rw [after, picked]; rfl, fun other chosen => ?_⟩
      obtain rfl := Option.some.inj (after.symm.trans chosen)
      exact ⟨c, (chosen_mem before).1, Remarked.sameRoute remarked⟩
    rw [found]
    dsimp only
    split
    · rename_i changed
      refine ⟨.kept c c' before ?_ remarked unmarked present ?_, ?_, ?_⟩
      · rw [bgpZebraAnnounce_eq]
        exact after
      · rw [bgpZebraAnnounce_eq, if_pos changed]
        exact congrArg _ elected.log
      · rw [bgpZebraAnnounce_eq]
        exact elected.single
      · rw [bgpZebraAnnounce_eq]
        exact picks
    · rename_i quiet
      refine ⟨.kept c c' before after remarked unmarked present ?_, elected.single, picks⟩
      rw [if_neg quiet]
      exact elected.log
  · have marks := markSelected_processed env s₁ rn selected.old selected.new
    have originate := marks.defaultOriginate.trans elected.defaultOriginate
    have start : (markSelected env s₁ rn selected.old selected.new).log = s.log := by
      rw [markSelected_eq]
      exact elected.log
    have same : ∀ c, chosen s rn = some c → _ := fun _ before => markSelected_old env elected before
    have reaped : ∀ s₂, Sound s₂ → _ → _ := fun _ sound infos =>
      reapRemoved_chosen env elected sound infos
    have picks := markSelected_picks env elected
    generalize markSelected env s₁ rn selected.old selected.new = m at *
    have finish : ∀ s₂ : State, s₂.infos = m.infos → Sound s₂ →
        s₂.log = fibMessages env rn (selected.old.bind (m.info? rn))
          (selected.new.bind (m.info? rn)) ++
          ((env.peers.filterMap (announcement env s rn (selected.new.bind (m.info? rn)))).reverse
            ++ s.log) →
        Settles env s (reapRemoved s₂ rn selected.old) rn ∧
          Single (reapRemoved s₂ rn selected.old) rn ∧
          Picks (s.infos rn) selected.new (chosen (reapRemoved s₂ rn selected.old) rn) := by
      intro s₂ infos sound₂ log
      obtain ⟨single', chosen'⟩ := reaped s₂ sound₂ infos
      refine ⟨.told _ same (fun absent => ?_) ?_, single', ?_⟩
      · rw [elected.none absent, Option.bind_none]
      · rw [chosen', reapRemoved_log, log]
      · rw [chosen']
        exact picks
    rw [announceAll_eq, fibUpdate_eq]
    have sound₂ := marks.sound elected.sound
    apply finish
    · rfl
    · exact ⟨sound₂.bounded, sound₂.distinct, sound₂.listed⟩
    · dsimp only
      rw [announcement_congr env originate, start]

end Bgpd.Outcome
