import Bgpd.EntryCounts

/-!
# What a call does to a share

Whether a route can be used after an update is known before: its penalty has been let
decay, the next hop of the new attributes answers, and a route that is removed is restored.
A call raises a count by one at most for each table, and only by a route that comes to be
used. Withdrawals raise none.
-/

namespace Bgpd.EntryCalls

open Octets Attributes Admission RsclientPolicy Rib Damping Aggregation Updates Evolution Primitives
  PrefixCounts QuietSteps EntryCounts

variable (env : Env) (w : World)

/-! ## Routes that come to be used -/

/-- The penalty damping looks at when a route changes: what is left of its own, or that of
the flap which the change is. -/
def changePenalty (now : Nat) (ri : BgpInfo) : Option Nat :=
  if ri.flags.history then
    (BgpInfo.dampInfo ri).map fun bdi => bgpDampDecay env (now - bdi.tUpdated) bdi.penalty
  else some (flapPenalty env now true (BgpInfo.dampInfo ri))

/-- The route is damped then. -/
def changeDamped (now : Nat) (ri : BgpInfo) : Bool :=
  ri.flags.damped ||
    !ri.flags.history && env.damp.suppressValue ≤ flapPenalty env now true (BgpInfo.dampInfo ri)

/-- A route that changes can be used. -/
def usableChanged (rn : Node) (ri : BgpInfo) (attr : Attr) : Bool :=
  let reaches := reachable env w rn { ri with attr }
  if env.damps ri.peer rn.afi rn.safi then
    match changePenalty env w.now ri with
    | none => false
    | some penalty =>
      let damped := changeDamped env w.now ri
      releases env penalty damped &&
        match updateStatus env damped penalty with
        | .used => reaches
        | .suppressed => ri.flags.removed || ri.flags.valid
  else !ri.flags.history && !ri.flags.damped && reaches

/-- A route of history whose attributes come in again can be used. -/
def usableAgain (rn : Node) (ri : BgpInfo) : Bool :=
  env.damps ri.peer rn.afi rn.safi && ri.flags.history && ri.flags.valid && !ri.flags.removed &&
    (BgpInfo.dampInfo ri).any fun bdi =>
      releases env (bgpDampDecay env (w.now - bdi.tUpdated) bdi.penalty) ri.flags.damped

/-- An accepted route of the main table can be used, or is not looked at. -/
def usableAfter (rn : Node) (ri : BgpInfo) (attr : Attr) : Bool :=
  if !ri.flags.removed ∧ attrhashCmp ri.attr attr then usableAgain env w rn ri
  else usableChanged env w rn ri attr

/-- A route of a client's table can be used after an update that is accepted for it. -/
def usableClient (ri : BgpInfo) (attr : Attr) : Bool :=
  !(!ri.flags.removed && attrhashCmp ri.attr attr) && (!ri.flags.history && !ri.flags.damped)

/-- The call is about the neighbour and the family. -/
def Watched.hits (t : Watched) (call : UpdateCall) : Bool :=
  call.peer = t.peer && call.p.family = t.afi && call.safi = t.safi

/-- A route comes into a count where it can be used and was not in the count. -/
def raises (t : Watched) (s : State) (usable : Bool) (ri : BgpInfo) : Bool :=
  usable && !(ri.flags.counted && t.count s ≠ 0)

/-- An update raises the count by its route of the main table. A new route is looked at
after it was counted, but for a VPN. -/
def mainRaises (t : Watched) (s : State) (call : UpdateCall) : Bool :=
  match admitMain env.bgp (w.connected call.p.family) (env.config call.peer) call.p call.attr
      call.safi, findInfo s (call.node .main) call.peer call.type call.subType with
  | some changed,
      some ri => raises t s (usableAfter env w (call.node .main) ri (w.intern changed)) ri
  | some _, none => call.safi = .mplsVpn
  | none, _ => false

/-- It raises it by its route of a client's table. -/
def clientRaises (t : Watched) (s : State) (call : UpdateCall) (rsclient : Nat) : Bool :=
  call.peer ≠ rsclient &&
    match admitRsclient (env.config rsclient) (env.config call.peer) call.p call.attr call.safi,
        findInfo s (call.node (.rsclient rsclient)) call.peer call.type call.subType with
    | some changed, some ri => raises t s (usableClient ri (w.intern changed)) ri
    | some _, none => true
    | none, _ => false

/-- The attributes of a new route of the main table. -/
def newRoute (s : State) (call : UpdateCall) : Option Attr :=
  match admitMain env.bgp (w.connected call.p.family) (env.config call.peer) call.p call.attr
      call.safi, findInfo s (call.node .main) call.peer call.type call.subType with
  | some changed, none => some (w.intern changed)
  | _, _ => none

/-- The tables where `bgp_update_main` looks at the count for a new route. -/
def countedState (s : State) (rn : Node) (call : UpdateCall) (attr : Attr) : State :=
  let (s, ri) := bgpInfoNew s call.peer call.type call.subType attr
  let (s, ri) := freshValid env w s rn (withTag rn.safi call.tag ri)
  addCounted env s rn ri

/-- By how much an update raises the count without a look at it. Nested tables count for all
of their owners. -/
def raised (t : Watched) (s : State) (call : UpdateCall) : Nat :=
  (mainRaises env w t s call).toNat +
    if call.safi = .mplsVpn then
      (clientsOf env call.p.family call.safi).countP (clientRaises env w t s call)
    else 0

variable {env w} {t : Watched} {rn : Node} {id peer b n : Nat} {s₀ s s' s'' : State} {v : View}

/-! ## Calls on one node -/

/-- A call on one node raises the count by so much at most, from any bound on what it is and
was, and leaves the other nodes of a VPN table alone. -/
structure Raises (t : Watched) (rn : Node) (s₀ s s' : State) (n : Nat) : Prop where
  count : ∀ m, t.count s ≤ m → t.count s₀ ≤ m → t.count s' ≤ m + n
  exceeded : t.exceeded s' = t.exceeded s
  apart : rn.safi = .mplsVpn → ∀ other, other ≠ rn → s'.infos other = s.infos other

theorem Raises.of_idle (idle : Idle t rn id s s') : Raises t rn s₀ s s' n where
  count := fun _ before _ => (idle.quiet.count.trans before).trans (Nat.le_add_right _ _)
  exceeded := idle.quiet.exceeded
  apart := idle.apart

/-- What comes before a call may be idle. -/
theorem Raises.after (raises : Raises t rn s₀ s' s'' n) (idle : Idle t rn id s s') :
    Raises t rn s₀ s s'' n where
  count := fun m before least => raises.count m (idle.quiet.count.trans before) least
  exceeded := raises.exceeded.trans idle.quiet.exceeded
  apart := fun vpn other away => (raises.apart vpn other away).trans (idle.apart vpn other away)

/-- What comes behind it may be quiet. -/
theorem Raises.quiet (raises : Raises t rn s₀ s s' n) (quiet : Quiet t s' s'')
    (apart : rn.safi = .mplsVpn → ∀ other, other ≠ rn → s''.infos other = s'.infos other) :
    Raises t rn s₀ s s'' n where
  count := fun m before least => quiet.count.trans (raises.count m before least)
  exceeded := quiet.exceeded.trans raises.exceeded
  apart := fun vpn other away => (apart vpn other away).trans (raises.apart vpn other away)

theorem Raises.idle (raises : Raises t rn s₀ s s' n) (idle : Idle t rn id s' s'') :
    Raises t rn s₀ s s'' n := raises.quiet idle.quiet idle.apart

/-- A route comes into its node. -/
theorem Raises.add (raises : Raises t rn s₀ s s' n) (ri : BgpInfo) :
    Raises t rn s₀ s (bgpInfoAdd s' rn ri) n where
  count := raises.count
  exceeded := raises.exceeded
  apart := fun vpn other away => (replace_ne _ _ _ _ away).trans (raises.apart vpn other away)

variable {ri : BgpInfo}

/-- A route as a call finds it. -/
theorem entry_found (found : s.info? rn ri.id = some ri)
    (within : t.count s ≤ b + Watched.share t rn ri) : Entry t rn ri.id ri.peer s s (view ri) b :=
  ⟨⟨ri, found, rfl, rfl, within⟩, rfl, fun _ _ _ => rfl⟩

/-- A route that is settled in the end raises the count where it comes to be used. -/
theorem Raises.of_settled {usable : Bool} (each : ∀ b, t.count s ≤ b + Watched.share t rn ri →
      ∃ v, v.holddown = !usable ∧ Settled t rn ri.id ri.peer s s' v b) :
    Raises t rn s₀ s s'
      (if Watched.covers t rn ri.peer ∧ raises t s₀ usable ri = true then 1 else 0) := by
  have bounds : ∀ b, t.count s ≤ b + Watched.share t rn ri →
      t.count s' ≤ b + if Watched.covers t rn ri.peer ∧ usable = true then 1 else 0 := by
    intro b within
    obtain ⟨v, down, settled⟩ := each b within
    have bound := settled.count_le
    simpa only [down, Bool.not_eq_false'] using bound
  obtain ⟨v, -, settled⟩ := each (t.count s) (Nat.le_add_right _ _)
  refine ⟨fun m before least => ?_, settled.exceeded, settled.apart⟩
  unfold raises
  by_cases counts : Watched.covers t rn ri.peer = true ∧ ri.flags.counted = true ∧ t.count s₀ ≠ 0
  · -- the route is in the count, so that the others have one less
    obtain ⟨covers, marked, some⟩ := counts
    have share : Watched.share t rn ri = 1 := if_pos ⟨covers, marked⟩
    have others := bounds (m - 1) (by omega)
    split at others <;> split <;> omega
  · have whole := bounds m (before.trans (Nat.le_add_right _ _))
    by_cases covers : Watched.covers t rn ri.peer = true
    · have out : (ri.flags.counted && decide (t.count s₀ ≠ 0)) = false := by
        simpa [covers] using counts
      rw [out, Bool.not_false, Bool.and_true]
      exact whole
    · rw [if_neg fun both => covers both.1] at whole ⊢
      exact whole

theorem bgpRibRemove_raises (s : State) (rn : Node) (id : Nat) :
    Raises t rn s₀ s (bgpRibRemove env s rn id) n where
  count := fun _ before _ => ((bgpRibRemove_quiet env s rn id).count.trans before).trans
    (Nat.le_add_right _ _)
  exceeded := (bgpRibRemove_quiet env s rn id).exceeded
  apart := by
    intro vpn other away
    have out : Idle t rn id s (bgpAggregateDecrement env s rn id) :=
      bgpAggregateDecrement_idle env s
    unfold bgpRibRemove
    rw [bgpProcess_infos]
    split
    · exact out.apart vpn other away
    · rw [bgpInfoDelete_apart env _ rn id other away]
      exact out.apart vpn other away

/-- No other calls concern the count. -/
theorem hits_of_covers {call : UpdateCall} {owner : Owner}
    (covers : Watched.covers t (call.node owner) call.peer = true) :
    Watched.hits t call = true := by
  simp only [Watched.covers, countsIn, Bool.and_eq_true, decide_eq_true_eq] at covers
  simp only [Watched.hits, Bool.and_eq_true, decide_eq_true_eq]
  exact ⟨⟨covers.2, covers.1.2.1⟩, covers.1.2.2⟩

section Foreign

variable (foreign : t.peer ≠ env.self)

include foreign

variable {ri : BgpInfo}

/-! ## The same attributes -/

theorem updateDuplicate_raises (found : s.info? rn ri.id = some ri) :
    Raises t rn s₀ s (updateDuplicate env w s rn ri)
      (if Watched.covers t rn ri.peer ∧ raises t s₀ (usableAgain env w rn ri) ri = true then 1
        else 0) := by
  have unmarked : Idle t rn ri.id s (bgpInfoUnsetFlag env s rn ri.id .attrChanged) :=
    putFlag_idle env s .attrChanged false rfl (by decide)
  unfold updateDuplicate
  by_cases again : env.damps ri.peer rn.afi rn.safi = true ∧ ri.flags.history = true
  · rw [if_pos again]
    have finishes : ∀ s, Idle t rn ri.id s (bgpProcess (aggregateIncrement env s rn ri.id) rn) :=
      fun s => (aggregateIncrement_idle env s).trans (bgpProcess_idle _ rn)
    cases known : BgpInfo.dampInfo ri with
    | none =>
      have entry := (entry_found found (Nat.le_add_right (t.count s) _)).idle unmarked
      rw [bgpDampUpdate_unknown entry known w.now]
      exact .of_idle (unmarked.trans (finishes _))
    | some bdi =>
      apply Raises.of_settled
      intro b within
      have entry := (entry_found found within).idle unmarked
      obtain ⟨-, info, settled⟩ := bgpDampUpdate_settles foreign entry w.now known
      have down : (View.holddown
          { view ri with
            history := false
            damped :=
              !releases env (bgpDampDecay env (w.now - bdi.tUpdated) bdi.penalty) ri.flags.damped
            dampInfo := info }) = !usableAgain env w rn ri := by
        simp only [View.holddown, usableAgain, again.1, again.2, known, Option.any_some, view]
        cases ri.flags.valid <;> cases ri.flags.removed <;> simp
      refine ⟨_, down, ?_⟩
      generalize bgpDampUpdate env (bgpInfoUnsetFlag env s rn ri.id .attrChanged) rn ri.id w.now =
        result at settled ⊢
      obtain ⟨s', status⟩ := result
      cases status with
      | suppressed => exact settled
      | used => exact settled.idle (finishes s')
  · rw [if_neg again]
    split
    · have unstale : Idle t rn ri.id _
          (bgpInfoUnsetFlag env (bgpInfoUnsetFlag env s rn ri.id .attrChanged) rn ri.id .stale) :=
        putFlag_idle env _ .stale false rfl (by decide)
      exact .of_idle ((unmarked.trans unstale).trans (bgpProcess_idle _ rn))
    · exact .of_idle unmarked

/-! ## A change -/

/-- The route is restored, where it was removed. -/
theorem restored_entry (found : s.info? rn ri.id = some ri)
    (within : t.count s ≤ b + Watched.share t rn ri) :
    Entry t rn ri.id ri.peer s (if ri.flags.removed then bgpInfoRestore env s rn ri.id else s)
      { view ri with removed := false, valid := ri.flags.removed || ri.flags.valid } b := by
  have start := entry_found found within
  by_cases removed : ri.flags.removed = true
  · rw [if_pos removed, removed, Bool.true_or]
    have put := putFlag_settles foreign start .removed false rfl
    apply put.toEntry.modify (·.put .valid true) (fun _ => rfl) (fun _ => rfl) fun _ => rfl
    intro ri' same
    rw [view_put, same]
    rfl
  · have present : ri.flags.removed = false := (Bool.not_eq_true _).mp removed
    have same : { view ri with removed := false, valid := ri.flags.removed || ri.flags.valid } =
        view ri := by
      rw [present, Bool.false_or, ← present]
      rfl
    rw [if_neg removed, same]
    exact start

theorem beginChange_entry (found : s.info? rn ri.id = some ri)
    (within : t.count s ≤ b + Watched.share t rn ri) :
    Entry t rn ri.id ri.peer s (beginChange env s rn ri)
      { view ri with removed := false, valid := ri.flags.removed || ri.flags.valid } b := by
  have restored := restored_entry foreign found within
  unfold beginChange
  generalize (if ri.flags.removed then bgpInfoRestore env s rn ri.id else s) = s₁ at restored ⊢
  have unstale : Idle t rn ri.id s₁
      (if ri.flags.stale then bgpInfoUnsetFlag env s₁ rn ri.id .stale else s₁) := by
    split
    · exact putFlag_idle env s₁ .stale false rfl nofun
    · exact .refl s₁
  have marked : ∀ s, Idle t rn ri.id s (bgpInfoSetFlag env s rn ri.id .attrChanged) := fun s =>
    putFlag_idle env s .attrChanged true rfl nofun
  exact restored.idle ((unstale.trans (marked _)).trans (bgpAggregateDecrement_idle env _))

/-- It has the new attributes, and the implicit withdrawal is a flap. -/
theorem applyChange_entry {s₁ : State} (attr : Attr) (tag : List U8)
    (entry : Entry t rn ri.id ri.peer s s₁
      { view ri with removed := false, valid := ri.flags.removed || ri.flags.valid } b) :
    ∃ v, Entry t rn ri.id ri.peer s (applyChange env w s₁ rn ri attr tag) v b ∧
      v.removed = false ∧ v.valid = (ri.flags.removed || ri.flags.valid) ∧ v.attr = attr ∧
      (env.damps ri.peer rn.afi rn.safi = false →
        v.history = ri.flags.history ∧ v.damped = ri.flags.damped) ∧
      (env.damps ri.peer rn.afi rn.safi = true →
        v.damped = changeDamped env w.now ri ∧
        (changePenalty env w.now ri = none → v.history = true ∧ v.dampInfo = none) ∧
        ∀ penalty, changePenalty env w.now ri = some penalty → ∃ bdi, v.dampInfo = some bdi ∧
          bgpDampDecay env (w.now - bdi.tUpdated) bdi.penalty = penalty) := by
  unfold applyChange
  by_cases flap : env.damps ri.peer rn.afi rn.safi = true ∧ (!ri.flags.history) = true
  · rw [if_pos flap]
    obtain ⟨bdi, updated, penalty, settled⟩ := bgpDampWithdraw_settles foreign entry w.now true
    have fresh : ri.flags.history = false := by simpa using flap.2
    refine ⟨_, settled.toEntry.replaceAttr attr tag, rfl, rfl, rfl, fun off => ?_,
      fun _ => ⟨?_, ?_, ?_⟩⟩
    · rw [flap.1] at off
      exact absurd off.symm Bool.false_ne_true
    · simp [changeDamped, fresh, view]
    · simp [changePenalty, fresh]
    · intro p same
      simp only [changePenalty, fresh, Bool.false_eq_true, if_false, Option.some.injEq] at same
      refine ⟨bdi, rfl, ?_⟩
      rw [updated, penalty, Nat.sub_self, ← same]
      simp [bgpDampDecay, view]
  · rw [if_neg flap]
    refine ⟨_, entry.replaceAttr attr tag, rfl, rfl, rfl, fun _ => ⟨rfl, rfl⟩, fun on => ?_⟩
    have old : ri.flags.history = true := by simpa [on] using flap
    refine ⟨?_, fun none => ⟨old, ?_⟩, fun penalty same => ?_⟩
    · simp [changeDamped, old, view]
    · simp only [changePenalty, old, if_true, Option.map_eq_none_iff] at none
      exact none
    · simp only [changePenalty, old, if_true, Option.map_eq_some_iff] at same
      exact same

theorem updateChanged_raises (found : s.info? rn ri.id = some ri) (attr : Attr) (tag : List U8) :
    Raises t rn s₀ s (updateChanged env w s rn ri attr tag)
      (if Watched.covers t rn ri.peer ∧
        raises t s₀ (usableChanged env w rn ri attr) ri = true then 1
        else 0) := by
  apply Raises.of_settled
  intro b within
  obtain ⟨v, entry, removed, valid, same, undamped, damped⟩ :=
    applyChange_entry foreign (w := w) attr tag (beginChange_entry foreign found within)
  unfold updateChanged usableChanged
  generalize applyChange env w (beginChange env s rn ri) rn ri attr tag = s₁ at entry ⊢
  have finished : ∀ {s₂ : State} {v : View}, Entry t rn ri.id ri.peer s s₂ v b → v.attr = attr →
      Settled t rn ri.id ri.peer s (finishChange env w s₂ rn ri)
        { v with valid := reachable env w rn { ri with attr } } b := by
    intro s₂ v entry same
    have settled : Settled t rn ri.id ri.peer s (refreshValid env w s₂ rn ri.id ri.peer)
        { v with valid := reachable env w rn { ri with attr } } b :=
      refreshValid_settles w foreign entry rfl same.symm
    exact settled.idle ((aggregateIncrement_idle env _).trans (bgpProcess_idle _ rn))
  by_cases damps : env.damps ri.peer rn.afi rn.safi = true
  · rw [if_pos damps, if_pos damps]
    obtain ⟨set, unknown, known⟩ := damped damps
    cases found' : changePenalty env w.now ri with
    | none =>
      obtain ⟨history, none⟩ := unknown found'
      rw [bgpDampUpdate_unknown entry none w.now]
      refine ⟨_, ?_, finished entry same⟩
      simp [View.holddown, history]
    | some penalty =>
      obtain ⟨bdi, info, left⟩ := known penalty found'
      obtain ⟨answer, info', settled⟩ := bgpDampUpdate_settles foreign entry w.now info
      rw [left, set] at answer settled
      generalize bgpDampUpdate env s₁ rn ri.id w.now = result at answer settled
      obtain ⟨s₂, status⟩ := result
      dsimp only at answer settled ⊢
      rw [← answer]
      cases status with
      | suppressed =>
        refine ⟨_, ?_, settled⟩
        simp [View.holddown, removed, valid, Bool.or_comm, Bool.and_comm]
      | used =>
        refine ⟨_, ?_, finished settled.toEntry same⟩
        simp [View.holddown, removed, Bool.or_comm]
  · rw [if_neg damps, if_neg damps]
    obtain ⟨history, set⟩ := undamped ((Bool.not_eq_true _).mp damps)
    refine ⟨_, ?_, finished entry same⟩
    simp only [View.holddown, removed, history, set]
    cases ri.flags.history <;> cases ri.flags.damped <;> simp

/-! ## Tables of clients -/

/-- A route of a client's table changes. -/
theorem changeRsclient_raises (found : s.info? rn ri.id = some ri) (attr : Attr) (tag : List U8) :
    Raises t rn s₀ s (changeRsclient env s rn ri attr tag)
      (if Watched.covers t rn ri.peer ∧
        raises t s₀ (!ri.flags.history && !ri.flags.damped) ri = true
        then 1 else 0) := by
  apply Raises.of_settled
  intro b within
  have restored := restored_entry foreign found within
  unfold changeRsclient
  generalize (if ri.flags.removed then bgpInfoRestore env s rn ri.id else s) = s₁ at restored ⊢
  have marked := restored.idle (putFlag_idle env s₁ .attrChanged true rfl nofun)
  have put := putFlag_settles foreign (marked.replaceAttr attr tag) .valid true rfl
  refine ⟨_, ?_, put.idle (bgpProcess_idle _ rn)⟩
  simp [View.holddown, View.write, view]

/-- A new route in hand raises the count by its own share. -/
theorem bgpInfoPut_raises (s : State) (rn : Node) (ri : BgpInfo) (on : Bool)
    (uncounted : ri.flags.counted = false) :
    Raises t rn s₀ s (bgpInfoPut env s rn ri .valid on).1
      (if Watched.covers t rn ri.peer then 1 else 0) := by
  obtain ⟨pcount, log, same, -⟩ := bgpInfoPut_eq env s rn ri .valid on
  refine ⟨fun m before _ => ?_, by rw [same]; rfl, fun _ _ _ => by rw [same]⟩
  have none : Watched.share t rn (ri.put .valid on) = 0 :=
    if_neg fun both => Bool.false_ne_true (uncounted.symm.trans both.2)
  have bound := (bgpPcountAdjust_settles foreign s rn (ri.put .valid on)
    (none.symm ▸ before : t.count s ≤ m + Watched.share t rn (ri.put .valid on))).1
  apply bound.trans
  apply Nat.add_le_add_left
  obtain ⟨pcount, log, counted, whole, -⟩ := bgpPcountAdjust_eq env s rn (ri.put .valid on)
  have mine : (bgpPcountAdjust env s rn (ri.put .valid on)).2.peer = ri.peer := by
    rw [whole]
    rfl
  unfold Watched.share
  rw [mine]
  split_ifs <;> simp_all

omit foreign in
/-- An address is taken. -/
theorem issue_idle (s : State) : Idle t rn id s { s with nextId := s.nextId + 1 } :=
  .of_infos (.of_eq rfl rfl) rfl

theorem bgpUpdateRsclient_raises (sound : Sound s₀) {rsclient : Nat} {call : UpdateCall}
    (same : s.infos (call.node (.rsclient rsclient)) = s₀.infos (call.node (.rsclient rsclient))) :
    Raises t (call.node (.rsclient rsclient)) s₀ s (bgpUpdateRsclient env w s rsclient call)
      (if Watched.covers t (call.node (.rsclient rsclient)) call.peer ∧
          clientRaises env w t s₀ call rsclient = true then 1 else 0) := by
  unfold bgpUpdateRsclient clientRaises
  by_cases own : call.peer = rsclient
  · rw [if_pos own]
    exact .of_idle (.refl s : Idle t _ 0 s s)
  rw [if_neg own, decide_eq_true own, Bool.true_and]
  dsimp only
  have got :
      Idle t (call.node (.rsclient rsclient)) 0 s (bgpNodeGet s (call.node (.rsclient rsclient))) :=
    bgpNodeGet_idle s _
  have found :
    findInfo (bgpNodeGet s (call.node (.rsclient rsclient))) (call.node (.rsclient rsclient))
      call.peer call.type call.subType =
        findInfo s₀ (call.node (.rsclient rsclient)) call.peer call.type call.subType :=
    Calls.findInfo_congr ((congrFun (bgpNodeGet_infos s _) _).trans same) ..
  have named : ∀ ri, findInfo s₀ (call.node (.rsclient rsclient)) call.peer call.type call.subType =
      some ri → (bgpNodeGet s (call.node (.rsclient rsclient))).info?
        (call.node (.rsclient rsclient)) ri.id = some ri ∧ ri.peer = call.peer := by
    intro ri known
    rw [← found] at known
    have held := List.mem_of_find?_eq_some known
    have kind := List.find?_some known
    simp only [decide_eq_true_eq] at kind
    rw [bgpNodeGet_infos, same] at held
    refine ⟨?_, kind.1⟩
    unfold State.info?
    rw [bgpNodeGet_infos, same]
    exact sound.named held
  rw [found]
  generalize bgpNodeGet s (call.node (.rsclient rsclient)) = s₁ at got named ⊢
  cases admitRsclient (env.config rsclient) (env.config call.peer) call.p call.attr call.safi with
  | none =>
    cases findInfo s₀ (call.node (.rsclient rsclient)) call.peer call.type call.subType with
    | none => exact .of_idle got
    | some ri => exact (bgpRibRemove_raises s₁ _ ri.id).after got
  | some changed =>
    cases known : findInfo s₀ (call.node (.rsclient rsclient)) call.peer call.type call.subType with
    | none =>
      unfold bgpInfoNew
      dsimp only
      have level := withTag_level (call.node (.rsclient rsclient)).safi call.tag
        { id := s₁.nextId, peer := call.peer, type := call.type, subType := call.subType,
          attr := w.intern changed, extra := none, flags := {} }
      generalize withTag (call.node (.rsclient rsclient)).safi call.tag
        { id := s₁.nextId, peer := call.peer, type := call.type, subType := call.subType,
          attr := w.intern changed, extra := none, flags := {} } = ri at level ⊢
      have mine : ri.peer = call.peer := level.2.1
      have put :
          Raises t (call.node (.rsclient rsclient)) s₀ { s₁ with nextId := s₁.nextId + 1 } _ _ :=
        bgpInfoPut_raises foreign _ _ ri true (by rw [level.2.2.1])
      rw [mine] at put
      have issued :
          Idle t (call.node (.rsclient rsclient)) 0 s₁ { s₁ with nextId := s₁.nextId + 1 } :=
        issue_idle s₁
      simpa only [and_true] using (((put.after issued).after got).add _).idle
        (bgpProcess_idle _ _ : Idle t (call.node (.rsclient rsclient)) 0 _ _)
    | some ri =>
      obtain ⟨here, mine⟩ := named ri known
      dsimp only
      rw [← mine]
      by_cases again : (!ri.flags.removed) = true ∧ attrhashCmp ri.attr (w.intern changed) = true
      · rw [if_pos again]
        exact (Raises.of_idle (putFlag_idle env s₁ .attrChanged false rfl nofun)).after got
      · have usable :
            usableClient ri (w.intern changed) = (!ri.flags.history && !ri.flags.damped) := by
          have differs : (!ri.flags.removed && attrhashCmp ri.attr (w.intern changed)) = false := by
            rw [← Bool.not_eq_true, Bool.and_eq_true]
            exact again
          rw [usableClient, differs, Bool.not_false, Bool.true_and]
        rw [if_neg again]
        simp only [usable]
        exact (changeRsclient_raises foreign here (w.intern changed) call.tag).after got

/-- The clients' routes of a VPN each raise the count by one at most. -/
theorem clients_raise (sound : Sound s₀) (call : UpdateCall) (vpn : call.safi = .mplsVpn)
    (clients : List Nat) (distinct : clients.Nodup)
    (same : ∀ rsclient ∈ clients, s.infos (call.node (.rsclient rsclient)) =
      s₀.infos (call.node (.rsclient rsclient))) (m : Nat) (before : t.count s ≤ m)
    (least : t.count s₀ ≤ m) :
    t.count (clients.foldl (fun s rsclient => bgpUpdateRsclient env w s rsclient call) s) ≤
        m + (if Watched.hits t call then clients.countP (clientRaises env w t s₀ call) else 0) ∧
      t.exceeded (clients.foldl (fun s rsclient => bgpUpdateRsclient env w s rsclient call) s) =
        t.exceeded s := by
  induction clients generalizing s m with
  | nil => exact ⟨before.trans (Nat.le_add_right _ _), rfl⟩
  | cons rsclient later ih =>
    obtain ⟨outside, distinct'⟩ := List.nodup_cons.mp distinct
    have first : Raises t _ s₀ s (bgpUpdateRsclient env w s rsclient call) _ :=
      bgpUpdateRsclient_raises foreign sound (same rsclient List.mem_cons_self)
    have rest : ∀ other ∈ later,
        (bgpUpdateRsclient env w s rsclient call).infos (call.node (.rsclient other)) =
          s₀.infos (call.node (.rsclient other)) := by
      intro other member
      rw [first.apart vpn _ ?_]
      · exact same other (List.mem_cons_of_mem _ member)
      · intro again
        have owners : Owner.rsclient other = .rsclient rsclient := congrArg Node.owner again
        exact outside (Owner.rsclient.inj owners ▸ member)
    have counted := first.count m before least
    obtain ⟨bound, exceeded⟩ := ih distinct' rest _ counted (least.trans (Nat.le_add_right _ _))
    refine ⟨bound.trans ?_, exceeded.trans first.exceeded⟩
    by_cases hits : Watched.hits t call = true
    · rw [if_pos hits, if_pos hits, List.countP_cons]
      split_ifs <;> simp_all
      omega
    · rw [if_neg hits, if_neg hits, if_neg fun both => hits (hits_of_covers both.1)]

/-! ## The main table -/

/-- A route that is not new raises the count where it comes to be used. -/
theorem bgpUpdateMain_raises (sound : Sound s) (call : UpdateCall)
    (old : newRoute env w s call = none) :
    Raises t (call.node .main) s s (bgpUpdateMain env w s call)
      (if Watched.covers t (call.node .main) call.peer ∧ mainRaises env w t s call = true then 1
        else 0) := by
  have got : Idle t (call.node .main) 0 s (bgpNodeGet s (call.node .main)) := bgpNodeGet_idle s _
  unfold newRoute at old
  unfold bgpUpdateMain mainRaises
  dsimp only
  rw [Calls.findInfo_got]
  cases known : findInfo s (call.node .main) call.peer call.type call.subType with
  | none =>
    rw [known] at old
    cases admitted : admitMain env.bgp (w.connected call.p.family) (env.config call.peer) call.p
        call.attr call.safi with
    | none => exact .of_idle got
    | some changed =>
      rw [admitted] at old
      exact nomatch old
  | some ri =>
    have held := List.mem_of_find?_eq_some known
    have kind := List.find?_some known
    simp only [decide_eq_true_eq] at kind
    have named : (bgpNodeGet s (call.node .main)).info? (call.node .main) ri.id = some ri := by
      unfold State.info?
      rw [bgpNodeGet_infos]
      exact sound.named held
    generalize bgpNodeGet s (call.node .main) = s₁ at got named ⊢
    cases admitMain env.bgp (w.connected call.p.family) (env.config call.peer) call.p call.attr
        call.safi with
    | none => exact (bgpRibRemove_raises s₁ _ ri.id).after got
    | some changed =>
      dsimp only
      rw [← kind.1]
      by_cases again : (!ri.flags.removed) = true ∧ attrhashCmp ri.attr (w.intern changed) = true
      · have usable : usableAfter env w (call.node .main) ri (w.intern changed) =
            usableAgain env w (call.node .main) ri := if_pos again
        rw [if_pos again]
        simp only [usable]
        exact (updateDuplicate_raises foreign named).after got
      · have usable : usableAfter env w (call.node .main) ri (w.intern changed) =
            usableChanged env w (call.node .main) ri (w.intern changed) := if_neg again
        rw [if_neg again]
        simp only [usable]
        exact (updateChanged_raises foreign named (w.intern changed) call.tag).after got

/-- A new route is counted before it is looked at. -/
theorem countedState_raises (s : State) (rn : Node) (call : UpdateCall) (attr : Attr) :
    Raises t rn s₀ s (countedState env w s rn call attr)
      (if Watched.covers t rn call.peer then 1 else 0) := by
  have level := withTag_level rn.safi call.tag
    { id := s.nextId, peer := call.peer, type := call.type, subType := call.subType, attr,
      extra := none, flags := {} }
  unfold countedState bgpInfoNew
  dsimp only
  generalize withTag rn.safi call.tag
    { id := s.nextId, peer := call.peer, type := call.type, subType := call.subType, attr,
      extra := none, flags := {} } = ri at level ⊢
  have issued : Idle t rn 0 s { s with nextId := s.nextId + 1 } := issue_idle s
  have put : Raises t rn s₀ s (freshValid env w { s with nextId := s.nextId + 1 } rn ri).1
      (if Watched.covers t rn call.peer then 1 else 0) := by
    unfold freshValid
    split
    · have looked := bgpNexthopLookup_level w rn.afi ri
      have mine : (bgpNexthopLookup w rn.afi ri).2.peer = call.peer := looked.2.1.trans level.2.1
      have put : Raises t rn s₀ { s with nextId := s.nextId + 1 } _ _ :=
        bgpInfoPut_raises foreign { s with nextId := s.nextId + 1 } rn
          (bgpNexthopLookup w rn.afi ri).2 (bgpNexthopLookup w rn.afi ri).1.valid
          (by rw [looked.2.2.1, level.2.2.1])
      rw [mine] at put
      exact put.after issued
    · have put : Raises t rn s₀ { s with nextId := s.nextId + 1 } _ _ :=
        bgpInfoPut_raises foreign { s with nextId := s.nextId + 1 } rn ri true
          (by rw [level.2.2.1])
      rw [show ri.peer = call.peer from level.2.1] at put
      exact put.after issued
  generalize freshValid env w { s with nextId := s.nextId + 1 } rn ri = fresh at put ⊢
  obtain ⟨s₁, ri⟩ := fresh
  have counts :
      Raises t rn s₀ s (bgpAggregateIncrement env s₁ rn.afi rn.safi rn.p (.fresh ri)).1 _ :=
    put.quiet (bgpAggregateIncrement_quiet env s₁ rn.afi rn.safi rn.p (.fresh ri))
        fun vpn other _ => by
      rw [Increments.bgpAggregateIncrement_eq, if_pos (Or.inl vpn)]
  unfold addCounted
  generalize bgpAggregateIncrement env s₁ rn.afi rn.safi rn.p (.fresh ri) = built at counts
  obtain ⟨s₂, subject⟩ := built
  cases subject with
  | fresh ri => exact counts.add ri
  | listed rn id => exact counts

end Foreign

end Bgpd.EntryCalls
