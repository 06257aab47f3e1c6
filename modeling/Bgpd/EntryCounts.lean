import Bgpd.QuietSteps
import Bgpd.PrefixCounts

/-!
# The share of one route

A call works on one route of one node. What a neighbour's count is without that route does
not change meanwhile, so the count stays below that and the route's share; and where the
flags are put through the functions for that, the route has a share just when it can be used.
What the flags come to is followed through restoration, damping and the check of the next hop.
-/

namespace Bgpd.EntryCounts

open Octets Prefixes Attributes Rib Damping Aggregation Updates Primitives Rebuild Increments
  PrefixCounts QuietSteps

/-! ## What is followed -/

/-- What of a route its use depends on. -/
structure View where
  valid : Bool
  history : Bool
  damped : Bool
  removed : Bool
  attr : Attr
  dampInfo : Option DampInfo

/-- The view of a route. -/
def view (ri : BgpInfo) : View where
  valid := ri.flags.valid
  history := ri.flags.history
  damped := ri.flags.damped
  removed := ri.flags.removed
  attr := ri.attr
  dampInfo := BgpInfo.dampInfo ri

/-- `BGP_INFO_HOLDDOWN`. -/
def View.holddown (v : View) : Bool := !v.valid || v.history || v.damped || v.removed

/-- A flag that usability depends on is written. -/
def View.write (v : View) (flag : InfoFlag) (on : Bool) : View :=
  match flag with
  | .valid => { v with valid := on }
  | .history => { v with history := on }
  | .damped => { v with damped := on }
  | .removed => { v with removed := on }
  | _ => v

theorem view_put (ri : BgpInfo) (flag : InfoFlag) (on : Bool) :
    view (ri.put flag on) = (view ri).write flag on := by
  cases flag <;> rfl

/-- The routes of the neighbour at the node are in the count. -/
def Watched.covers (t : Watched) (rn : Node) (peer : Nat) : Bool :=
  countsIn rn t.afi t.safi && peer = t.peer

/-- What a route has in the count. -/
def Watched.share (t : Watched) (rn : Node) (ri : BgpInfo) : Nat :=
  if Watched.covers t rn ri.peer ∧ ri.flags.counted then 1 else 0

/-- A route of a call, with the view and the bound that the others' part of the count has.
Where the call began is kept for what it leaves alone. -/
structure Entry (t : Watched) (rn : Node) (id peer : Nat) (s₀ s : State) (v : View) (b : Nat) :
    Prop where
  route : ∃ ri, s.info? rn id = some ri ∧ ri.peer = peer ∧ view ri = v ∧
    t.count s ≤ b + Watched.share t rn ri
  exceeded : t.exceeded s = t.exceeded s₀
  apart : rn.safi = .mplsVpn → ∀ other, other ≠ rn → s.infos other = s₀.infos other

/-- Its share is what its flags say. -/
structure Settled (t : Watched) (rn : Node) (id peer : Nat) (s₀ s : State) (v : View) (b : Nat) :
    Prop extends Entry t rn id peer s₀ s v b where
  tidy : ∀ ri, s.info? rn id = some ri → Watched.covers t rn ri.peer = true →
    ri.flags.counted = !ri.holddown

variable {t : Watched} {rn : Node} {id peer b : Nat} {s₀ s s' : State} {v : View}

/-- A settled route bounds the count. -/
theorem Settled.count_le (settled : Settled t rn id peer s₀ s v b) :
    t.count s ≤ b + if Watched.covers t rn peer ∧ v.holddown = false then 1 else 0 := by
  obtain ⟨ri, found, mine, same, within⟩ := settled.route
  apply within.trans
  apply Nat.add_le_add_left
  unfold Watched.share
  split
  · rename_i shares
    have marked := settled.tidy ri found shares.1
    have usable : v.holddown = false := by
      rw [shares.2] at marked
      rw [← same]
      exact (Bool.not_eq_true' _).mp marked.symm
    rw [if_pos ⟨mine ▸ shares.1, usable⟩]
  · exact Nat.zero_le _

/-! ## Steps that leave the route as it is -/

/-- A step that leaves the route of a name as it is, but for what its use does not depend
on. -/
structure Idle (t : Watched) (rn : Node) (id : Nat) (s s' : State) : Prop where
  quiet : Quiet t s s'
  route : ∀ ri, s.info? rn id = some ri → ∃ ri', s'.info? rn id = some ri' ∧ ri'.peer = ri.peer ∧
    view ri' = view ri ∧ ri'.flags.counted = ri.flags.counted
  apart : rn.safi = .mplsVpn → ∀ other, other ≠ rn → s'.infos other = s.infos other

theorem Idle.refl (s : State) : Idle t rn id s s :=
  ⟨.refl s, fun ri found => ⟨ri, found, rfl, rfl, rfl⟩, fun _ _ _ => rfl⟩

theorem Idle.trans {s'' : State} (first : Idle t rn id s s') (second : Idle t rn id s' s'') :
    Idle t rn id s s'' where
  quiet := first.quiet.trans second.quiet
  route := by
    intro ri found
    obtain ⟨ri', found', peer, same, counted⟩ := first.route ri found
    obtain ⟨ri'', found'', peer', same', counted'⟩ := second.route ri' found'
    exact ⟨ri'', found'', peer'.trans peer, same'.trans same, counted'.trans counted⟩
  apart := fun vpn other away => (second.apart vpn other away).trans (first.apart vpn other away)

/-- Nothing happens to the routes. -/
theorem Idle.of_infos (quiet : Quiet t s s') (infos : s'.infos = s.infos) :
    Idle t rn id s s' where
  quiet := quiet
  route := by
    intro ri found
    refine ⟨ri, ?_, rfl, rfl, rfl⟩
    rw [State.info?, infos]
    exact found
  apart := fun _ other _ => congrFun infos other

/-- What an aggregate does is idle for the routes below. -/
theorem Idle.of_touched (quiet : Quiet t s s')
    (touches : ∃ change, s'.infos rn = (s.infos rn).map change ∧ ∀ ri, Touched ri (change ri))
    (vpn : rn.safi = .mplsVpn → s' = s) : Idle t rn id s s' where
  quiet := quiet
  route := by
    obtain ⟨change, infos, touched⟩ := touches
    intro ri found
    refine ⟨change ri, ?_, (touched ri).peer, ?_, ?_⟩
    · rw [info?_map infos (fun ri => (touched ri).id) id, found, Option.map_some]
    · unfold view
      rw [(touched ri).attr, (touched ri).dampInfo]
      rcases (touched ri).flags with same | marked
      · rw [same]
      · rw [marked]
        rfl
    · rcases (touched ri).flags with same | marked
      · rw [same]
      · rw [marked]
        rfl
  apart := fun family other _ => by rw [vpn family]

variable (env : Env)

theorem bgpAggregateDecrement_idle (s : State) :
    Idle t rn id s (bgpAggregateDecrement env s rn id) := by
  apply Idle.of_touched (bgpAggregateDecrement_quiet env s rn id) (decrement_touches env s rn id)
  intro vpn
  rw [bgpAggregateDecrement_eq, if_pos (Or.inl vpn)]

theorem aggregateIncrement_idle (s : State) : Idle t rn id s (aggregateIncrement env s rn id) := by
  apply Idle.of_touched _ (increment_touches env s rn id)
  · intro vpn
    unfold aggregateIncrement
    rw [bgpAggregateIncrement_eq, if_pos (Or.inl vpn)]
  · exact bgpAggregateIncrement_quiet env s rn.afi rn.safi rn.p (.listed rn id)

theorem bgpProcess_idle (s : State) (rn' : Node) : Idle t rn id s (bgpProcess s rn') :=
  .of_infos (bgpProcess_quiet s rn') (by simp)

theorem bgpNodeGet_idle (s : State) (rn' : Node) : Idle t rn id s (bgpNodeGet s rn') :=
  .of_infos (bgpNodeGet_quiet s rn') (by simp)

/-- A change of the route that its use does not depend on. -/
theorem modify_idle (s : State) (change : BgpInfo → BgpInfo) (named : ∀ ri, (change ri).id = ri.id)
    (level : ∀ ri, (change ri).peer = ri.peer ∧ view (change ri) = view ri ∧
      (change ri).flags.counted = ri.flags.counted) : Idle t rn id s (s.modify rn id change) where
  quiet := .of_eq rfl rfl
  route := by
    intro ri found
    refine ⟨change ri, ?_, level ri⟩
    rw [info?_modify _ _ _ named, found, Option.map_some]
  apart := fun _ other away => modify_apart s rn id change other away

/-- So is a flag that usability does not depend on. -/
theorem putFlag_idle (s : State) (flag : InfoFlag) (on : Bool) (idle : flag.usability = false)
    (other : flag ≠ .counted) : Idle t rn id s (bgpInfoPutFlag env s rn id flag on) := by
  unfold bgpInfoPutFlag
  split
  · exact .refl s
  · have same : ∀ ri, bgpInfoPut env s rn ri flag on = (s, ri.put flag on) := by
      intro ri
      simp [bgpInfoPut, idle]
    simp only [same]
    apply modify_idle s (·.put flag on) fun _ => rfl
    intro ri
    cases flag <;>
      first | exact ⟨rfl, rfl, rfl⟩ | exact absurd idle (by decide) | exact absurd rfl other

theorem Entry.idle (entry : Entry t rn id peer s₀ s v b) (idle : Idle t rn id s s') :
    Entry t rn id peer s₀ s' v b where
  route := by
    obtain ⟨ri, found, mine, same, within⟩ := entry.route
    obtain ⟨ri', found', peer, same', counted⟩ := idle.route ri found
    refine ⟨ri', found', peer.trans mine, same'.trans same, ?_⟩
    have share : Watched.share t rn ri' = Watched.share t rn ri := by
      unfold Watched.share
      rw [peer, counted]
    rw [share]
    exact idle.quiet.count.trans within
  exceeded := idle.quiet.exceeded.trans entry.exceeded
  apart := fun vpn other away => (idle.apart vpn other away).trans (entry.apart vpn other away)

theorem Settled.idle (settled : Settled t rn id peer s₀ s v b) (idle : Idle t rn id s s') :
    Settled t rn id peer s₀ s' v b where
  toEntry := settled.toEntry.idle idle
  tidy := by
    intro ri' found' covers
    obtain ⟨ri, found, -⟩ := settled.route
    obtain ⟨ri'', found'', peer, same, counted⟩ := idle.route ri found
    obtain rfl : ri'' = ri' := Option.some.inj (found''.symm.trans found')
    have down : ri''.holddown = ri.holddown := congrArg View.holddown same
    rw [counted, down]
    exact settled.tidy ri found (peer ▸ covers)

/-! ## Steps on the route -/

section Foreign

variable {env} (foreign : t.peer ≠ env.self)

include foreign

omit foreign in
/-- The count that is adjusted is the watched one where the routes are in it. -/
theorem covers_iff (rn : Node) (peer : Nat) :
    Watched.covers t rn peer = true ↔ rn.table.type = .main ∧ t.peer = peer ∧
      t.afi = rn.table.afi ∧ t.safi = rn.table.safi := by
  have family : rn.table.afi = rn.afi ∧ rn.table.safi = rn.safi := by
    unfold Node.table
    split <;> exact ⟨rfl, rfl⟩
  rw [family.1, family.2]
  simp only [Watched.covers, countsIn, Bool.and_eq_true, decide_eq_true_eq]
  tauto

/-- A route that is adjusted keeps within the bound, and its share is what its flags say. -/
theorem bgpPcountAdjust_settles (s : State) (rn : Node) (ri : BgpInfo)
    (within : t.count s ≤ b + Watched.share t rn ri) :
    t.count (bgpPcountAdjust env s rn ri).1 ≤
        b + Watched.share t rn (bgpPcountAdjust env s rn ri).2 ∧
      (Watched.covers t rn ri.peer = true →
        (bgpPcountAdjust env s rn ri).2.flags.counted = !ri.holddown) := by
  have key := @covers_iff t rn ri.peer
  unfold Watched.share at within
  unfold bgpPcountAdjust
  by_cases own : rn.table.type ≠ .main ∨ ri.peer = env.self
  · rw [if_pos own]
    refine ⟨within, fun covers => ?_⟩
    obtain ⟨main, mine, -⟩ := key.mp covers
    exact (own.elim (fun client => client main) fun self => foreign (mine.trans self)).elim
  rw [if_neg own]
  by_cases out : ri.holddown ∧ ri.flags.counted
  · -- the share goes, unless the count is zero already
    rw [if_pos out]
    have shares : Watched.share t rn (ri.put .counted false) = 0 :=
      if_neg fun both => nomatch both.2
    refine ⟨?_, fun _ => by simp [BgpInfo.put, InfoFlags.put, out.1]⟩
    simp only [shares]
    by_cases covers : Watched.covers t rn ri.peer = true
    · rw [if_pos ⟨covers, out.2⟩] at within
      obtain ⟨-, mine, afi, safi⟩ := key.mp covers
      simp only [Watched.count, mine, afi, safi] at within ⊢
      split
      · simp only [replaceAf, and_self, if_true]
        omega
      · dsimp only
        omega
    · rw [if_neg fun both => covers both.1] at within
      split
      · simp only [Watched.count, replaceAf] at within ⊢
        rw [if_neg fun same => covers (key.mpr ⟨by simpa using (not_or.mp own).1, same⟩)]
        exact within
      · exact within
  rw [if_neg out]
  by_cases into : (!ri.holddown) = true ∧ (!ri.flags.counted) = true
  · rw [if_pos into]
    have uncounted : ri.flags.counted = false := by simpa using into.2
    rw [if_neg fun both => Bool.false_ne_true (uncounted.symm.trans both.2)] at within
    refine ⟨?_, fun _ => by simpa [BgpInfo.put, InfoFlags.put] using into.1⟩
    by_cases covers : Watched.covers t rn ri.peer = true
    · have shares : Watched.share t rn (ri.put .counted true) = 1 := if_pos ⟨covers, rfl⟩
      obtain ⟨-, mine, afi, safi⟩ := key.mp covers
      simp only [shares, Watched.count, mine, afi, safi, replaceAf, and_self, if_true] at within ⊢
      omega
    · simp only [Watched.count, replaceAf] at within ⊢
      rw [if_neg fun same => covers (key.mpr ⟨by simpa using (not_or.mp own).1, same⟩)]
      omega
  · rw [if_neg into]
    refine ⟨within, fun _ => ?_⟩
    cases marked : ri.flags.counted <;> cases down : ri.holddown <;> simp_all

/-- A flag that usability depends on is put with the share. -/
theorem putFlag_settles (entry : Entry t rn id peer s₀ s v b) (flag : InfoFlag) (on : Bool)
    (usability : flag.usability = true) :
    Settled t rn id peer s₀ (bgpInfoPutFlag env s rn id flag on) (v.write flag on) b := by
  obtain ⟨ri, found, mine, same, within⟩ := entry.route
  have put : bgpInfoPut env s rn ri flag on = bgpPcountAdjust env s rn (ri.put flag on) :=
    if_pos usability
  have shares : Watched.share t rn (ri.put flag on) = Watched.share t rn ri := by
    cases flag <;> first | rfl | exact absurd usability (by decide)
  have adjusts := bgpPcountAdjust_settles foreign s rn (ri.put flag on) (shares.symm ▸ within)
  obtain ⟨pcount, log, counted, whole, -⟩ := bgpPcountAdjust_eq env s rn (ri.put flag on)
  have named : ∀ ri, (bgpInfoPut env s rn ri flag on).2.id = ri.id := by
    intro ri
    obtain ⟨counted, same⟩ := bgpInfoPut_route env s rn ri flag on
    rw [same]
    rfl
  have result : bgpInfoPutFlag env s rn id flag on =
      (bgpInfoPut env s rn ri flag on).1.modify rn id fun ri =>
          (bgpInfoPut env s rn ri flag on).2 := by
    unfold bgpInfoPutFlag
    rw [found]
  have first : (bgpInfoPut env s rn ri flag on).1 = { s with pcount, log } := by rw [put, whole]
  have info : (bgpInfoPutFlag env s rn id flag on).info? rn id =
      some (bgpInfoPut env s rn ri flag on).2 := by
    rw [result, info?_modify _ _ _ named, first]
    exact congrArg (Option.map _) found
  have route : (bgpInfoPut env s rn ri flag on).2 = (ri.put flag on).put .counted counted := by
    rw [put, whole]
  refine ⟨⟨⟨_, info, ?_, ?_, ?_⟩, ?_, ?_⟩, ?_⟩
  · rw [route]
    exact mine
  · rw [route, view_put, view_put, same]
    rfl
  · rw [result]
    rw [← put] at adjusts
    exact adjusts.1
  · rw [result, first]
    exact entry.exceeded
  · intro vpn other away
    rw [bgpInfoPutFlag_apart env s rn id flag on other away]
    exact entry.apart vpn other away
  · intro ri' found' covers
    obtain rfl := Option.some.inj (info.symm.trans found')
    rw [route] at covers
    have marked := adjusts.2 covers
    rw [← put] at marked
    rw [marked, route]
    rfl

end Foreign

variable {v' : View}

/-- A change of the route past its share. -/
theorem Entry.modify (entry : Entry t rn id peer s₀ s v b) (change : BgpInfo → BgpInfo)
    (named : ∀ ri, (change ri).id = ri.id) (mine : ∀ ri, (change ri).peer = ri.peer)
    (counted : ∀ ri, (change ri).flags.counted = ri.flags.counted)
    (same : ∀ ri, view ri = v → view (change ri) = v') :
    Entry t rn id peer s₀ (s.modify rn id change) v' b where
  route := by
    obtain ⟨ri, found, own, viewed, within⟩ := entry.route
    refine ⟨change ri, ?_, (mine ri).trans own, same ri viewed, ?_⟩
    · rw [info?_modify _ _ _ named, found, Option.map_some]
    · have share : Watched.share t rn (change ri) = Watched.share t rn ri := by
        unfold Watched.share
        rw [mine, counted]
      rw [share]
      exact within
  exceeded := entry.exceeded
  apart := fun vpn other away => (modify_apart s rn id change other away).trans
    (entry.apart vpn other away)

/-- The share is kept in order where the use of the route does not change. -/
theorem Settled.modify (settled : Settled t rn id peer s₀ s v b) (change : BgpInfo → BgpInfo)
    (named : ∀ ri, (change ri).id = ri.id) (mine : ∀ ri, (change ri).peer = ri.peer)
    (flags : ∀ ri, (change ri).flags = ri.flags)
    (same : ∀ ri, view ri = v → view (change ri) = v') :
    Settled t rn id peer s₀ (s.modify rn id change) v' b where
  toEntry := settled.toEntry.modify change named mine (fun ri => by rw [flags]) same
  tidy := by
    intro ri' found' covers
    obtain ⟨ri, found, -⟩ := settled.route
    rw [info?_modify _ _ _ named, found, Option.map_some] at found'
    obtain rfl := Option.some.inj found'
    have tidy := settled.tidy ri found (mine ri ▸ covers)
    unfold BgpInfo.holddown at tidy ⊢
    rw [flags]
    exact tidy

/-! ## Damping -/

/-- Damping lets a route go with the penalty. -/
def releases (penalty : Nat) (damped : Bool) : Bool :=
  !damped || penalty < env.damp.reuseLimit || 2 * penalty ≤ env.damp.reuseLimit

section Damping

variable {env} (foreign : t.peer ≠ env.self)

theorem setDampInfo_view (ri : BgpInfo) (bdi : Option DampInfo) :
    view (BgpInfo.setDampInfo ri bdi) = { view ri with dampInfo := bdi } := rfl

theorem Entry.setDampInfo (entry : Entry t rn id peer s₀ s v b) (bdi : Option DampInfo) :
    Entry t rn id peer s₀ (s.modify rn id (BgpInfo.setDampInfo · bdi))
    { v with dampInfo := bdi } b := by
  apply entry.modify (BgpInfo.setDampInfo · bdi) (fun _ => rfl) (fun _ => rfl) fun _ => rfl
  intro ri same
  rw [setDampInfo_view, same]

theorem Settled.setDampInfo (settled : Settled t rn id peer s₀ s v b) (bdi : Option DampInfo) :
    Settled t rn id peer s₀ (s.modify rn id (BgpInfo.setDampInfo · bdi))
      { v with dampInfo := bdi } b := by
  apply settled.modify (BgpInfo.setDampInfo · bdi) (fun _ => rfl) (fun _ => rfl) fun _ => rfl
  intro ri same
  rw [setDampInfo_view, same]

include foreign

theorem bgpDampInfoFree_settles (entry : Entry t rn id peer s₀ s v b) (bdi : DampInfo) :
    Settled t rn id peer s₀ (bgpDampInfoFree env s rn id bdi false)
      { v with history := false, damped := false, dampInfo := none } b := by
  have cleared := putFlag_settles foreign (entry.setDampInfo none) .history false rfl
  have freed := putFlag_settles foreign cleared.toEntry .damped false rfl
  unfold bgpDampInfoFree
  rw [if_neg fun both => nomatch both.2]
  exact freed

/-- A flap makes the route history, and damps it where the penalty is high. -/
theorem bgpDampWithdraw_settles (entry : Entry t rn id peer s₀ s v b) (now : Nat)
    (attrChange : Bool) :
    ∃ bdi : DampInfo, bdi.tUpdated = now ∧
      bdi.penalty = flapPenalty env now attrChange v.dampInfo ∧
      Settled t rn id peer s₀ (bgpDampWithdraw env s rn id now attrChange).1
        { v with
          history := true
          damped := v.damped || env.damp.suppressValue ≤ flapPenalty env now attrChange v.dampInfo
          dampInfo := some bdi } b := by
  obtain ⟨ri, found, -, rfl, -⟩ := entry.route
  have noted := fun bdi => putFlag_settles foreign (entry.setDampInfo bdi) .history true rfl
  let bdi : DampInfo :=
    ⟨flapPenalty env now attrChange (BgpInfo.dampInfo ri), now,
      ((BgpInfo.dampInfo ri).map DampInfo.suppressTime).getD 0, .withdraw⟩
  unfold bgpDampWithdraw
  rw [found]
  dsimp only
  by_cases damped : ri.flags.damped = true
  · rw [if_pos damped]
    refine ⟨bdi, rfl, rfl, ?_⟩
    have same : ((view ri).damped ||
        (env.damp.suppressValue ≤ flapPenalty env now attrChange (view ri).dampInfo : Bool)) =
        (view ri).damped := by
      rw [show (view ri).damped = true from damped, Bool.true_or]
    rw [same]
    exact noted (some bdi)
  rw [if_neg damped]
  by_cases high : env.damp.suppressValue ≤ flapPenalty env now attrChange (BgpInfo.dampInfo ri)
  · rw [if_pos high]
    have put := putFlag_settles foreign (noted (some bdi)).toEntry .damped true rfl
    refine ⟨{ bdi with suppressTime := now }, rfl, rfl, ?_⟩
    have same :
      decide (env.damp.suppressValue ≤ flapPenalty env now attrChange (view ri).dampInfo) =
        true := decide_eq_true high
    rw [same, Bool.or_true]
    exact put.setDampInfo _
  · rw [if_neg high]
    refine ⟨bdi, rfl, rfl, ?_⟩
    have same :
      decide (env.damp.suppressValue ≤ flapPenalty env now attrChange (view ri).dampInfo) =
        false := decide_eq_false high
    rw [same, Bool.or_false]
    exact noted (some bdi)

omit foreign in
/-- Damping knows nothing of the route. -/
theorem bgpDampUpdate_unknown (entry : Entry t rn id peer s₀ s v b) (unknown : v.dampInfo = none)
    (now : Nat) : bgpDampUpdate env s rn id now = (s, .used) := by
  obtain ⟨ri, found, -, rfl, -⟩ := entry.route
  unfold bgpDampUpdate
  rw [found]
  dsimp only
  rw [show BgpInfo.dampInfo ri = none from unknown]

/-- The route is no history any more, and let go or not. -/
theorem bgpDampUpdate_settles (entry : Entry t rn id peer s₀ s v b) (now : Nat) {bdi : DampInfo}
    (known : v.dampInfo = some bdi) :
    (bgpDampUpdate env s rn id now).2 =
        updateStatus env v.damped (bgpDampDecay env (now - bdi.tUpdated) bdi.penalty) ∧
      ∃ info, Settled t rn id peer s₀ (bgpDampUpdate env s rn id now).1
        { v with
          history := false
          damped := !releases env (bgpDampDecay env (now - bdi.tUpdated) bdi.penalty) v.damped
          dampInfo := info } b := by
  obtain ⟨ri, found, -, rfl, -⟩ := entry.route
  have cleared := putFlag_settles foreign entry .history false rfl
  have info : BgpInfo.dampInfo ri = some bdi := known
  unfold bgpDampUpdate
  rw [found]
  dsimp only
  rw [info]
  dsimp only
  generalize bgpDampDecay env (now - bdi.tUpdated) bdi.penalty = penalty
  let left : DampInfo :=
    ⟨penalty, bdi.tUpdated,
      if ri.flags.damped = true ∧ penalty < env.damp.reuseLimit then 0
      else bdi.suppressTime, .update⟩
  have lifted : Settled t rn id peer s₀
      (if ri.flags.damped = true ∧ penalty < env.damp.reuseLimit then
          bgpInfoUnsetFlag env (bgpInfoUnsetFlag env s rn id .history) rn id .damped
        else bgpInfoUnsetFlag env s rn id .history)
      { view ri with
        history := false
        damped := (view ri).damped && !(penalty < env.damp.reuseLimit : Bool) } b := by
    by_cases reused : ri.flags.damped = true ∧ penalty < env.damp.reuseLimit
    · rw [if_pos reused]
      have put := putFlag_settles foreign cleared.toEntry .damped false rfl
      rw [decide_eq_true reused.2, Bool.not_true, Bool.and_false]
      exact put
    · rw [if_neg reused]
      have same :
          ((view ri).damped && !(penalty < env.damp.reuseLimit : Bool)) = (view ri).damped := by
        have apart : ¬ (ri.flags.damped = true ∧ penalty < env.damp.reuseLimit) := reused
        cases damped : ri.flags.damped with
        | false => simp [view, damped]
        | true => simpa [view, damped] using apart
      rw [same]
      exact cleared
  by_cases high : env.damp.reuseLimit < 2 * penalty
  · rw [if_pos high]
    refine ⟨rfl, some { left with tUpdated := now }, ?_⟩
    have kept : (!releases env penalty (view ri).damped) =
        ((view ri).damped && !(penalty < env.damp.reuseLimit : Bool)) := by
      unfold releases
      rw [decide_eq_false (Nat.not_le.mpr high), Bool.or_false, Bool.not_or, Bool.not_not]
    rw [kept]
    exact lifted.setDampInfo _
  · rw [if_neg high]
    refine ⟨rfl, none, ?_⟩
    have freed : (!releases env penalty (view ri).damped) = false := by
      unfold releases
      rw [decide_eq_true (Nat.not_lt.mp high), Bool.or_true, Bool.not_true]
    rw [freed]
    exact bgpDampInfoFree_settles foreign (lifted.toEntry.setDampInfo (some left)) left

end Damping

/-! ## The next hop -/

variable (w : World)

/-- The check of the next hop lets the route be valid. -/
def reachable (rn : Node) (ri : BgpInfo) : Bool :=
  !looksUp env ri.peer rn.safi || (bgpNexthopLookup w rn.afi ri).1.valid

/-- The answer about a next hop depends on the attributes alone. -/
theorem bgpNexthopLookup_answer (afi : Afi) {ri ri' : BgpInfo} (same : ri.attr = ri'.attr) :
    (bgpNexthopLookup w afi ri).1 = (bgpNexthopLookup w afi ri').1 := by
  unfold bgpNexthopLookup
  rw [same]
  dsimp only
  split_ifs <;> rfl

theorem bgpNexthopLookup_level (afi : Afi) (ri : BgpInfo) :
    (bgpNexthopLookup w afi ri).2.id = ri.id ∧ (bgpNexthopLookup w afi ri).2.peer = ri.peer ∧
      (bgpNexthopLookup w afi ri).2.flags = ri.flags ∧
      view (bgpNexthopLookup w afi ri).2 = view ri := by
  obtain ⟨id, peer, type, subType, attr, extra, flags⟩ := ri
  unfold bgpNexthopLookup
  dsimp only
  cases extra <;> split_ifs <;> exact ⟨rfl, rfl, rfl, rfl⟩

theorem withTag_level (safi : Safi) (tag : List U8) (ri : BgpInfo) :
    (withTag safi tag ri).id = ri.id ∧ (withTag safi tag ri).peer = ri.peer ∧
      (withTag safi tag ri).flags = ri.flags ∧ view (withTag safi tag ri) = view ri := by
  obtain ⟨id, peer, type, subType, attr, extra, flags⟩ := ri
  unfold withTag
  cases extra <;> split_ifs <;> exact ⟨rfl, rfl, rfl, rfl⟩

/-- The attributes and the label of a route are replaced. -/
theorem Entry.replaceAttr (entry : Entry t rn id peer s₀ s v b) (attr : Attr) (tag : List U8) :
    Entry t rn id peer s₀ (s.modify rn id fun ri => withTag rn.safi tag { ri with attr })
      { v with attr } b := by
  apply entry.modify
  · exact fun ri => (withTag_level rn.safi tag { ri with attr }).1
  · exact fun ri => (withTag_level rn.safi tag { ri with attr }).2.1
  · exact fun ri => by rw [(withTag_level rn.safi tag { ri with attr }).2.2.1]
  · rintro ri' rfl
    exact (withTag_level rn.safi tag { ri' with attr }).2.2.2

/-- The flag that says so is put. -/
theorem refreshValid_settles {env : Env} (foreign : t.peer ≠ env.self)
    (entry : Entry t rn id peer s₀ s v b) {ri : BgpInfo} (mine : ri.peer = peer)
    (attr : ri.attr = v.attr) :
    Settled t rn id peer s₀ (refreshValid env w s rn id peer)
    { v with valid := reachable env w rn ri }
      b := by
  obtain ⟨held, found, -, rfl, -⟩ := entry.route
  unfold refreshValid reachable
  rw [mine]
  by_cases looks : looksUp env peer rn.safi = true
  · rw [if_pos looks, looks, Bool.not_true, Bool.false_or, bgpNexthopLookup_answer w rn.afi attr]
    have looked := entry.modify (fun ri => (bgpNexthopLookup w rn.afi ri).2)
      (fun ri => (bgpNexthopLookup_level w rn.afi ri).1)
      (fun ri => (bgpNexthopLookup_level w rn.afi ri).2.1)
      (fun ri => by rw [(bgpNexthopLookup_level w rn.afi ri).2.2.1])
      (fun ri same => (bgpNexthopLookup_level w rn.afi ri).2.2.2.trans same)
    have answer : ((s.info? rn id).any fun ri => (bgpNexthopLookup w rn.afi ri).1.valid) =
        (bgpNexthopLookup w rn.afi held).1.valid := by rw [found, Option.any_some]
    rw [answer]
    exact putFlag_settles foreign looked .valid _ rfl
  · rw [if_neg looks, (Bool.not_eq_true _).mp looks, Bool.not_false, Bool.true_or]
    exact putFlag_settles foreign entry .valid true rfl

end Bgpd.EntryCounts
