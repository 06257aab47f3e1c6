import Bgpd.Rib

/-!
# Route flap damping

A route that goes away or changes collects a penalty that decays with time. Above
one bound the route is set aside, and below another it is used again. A withdrawn
route that is damped stays in its node as history.

The decay is a table of the configuration. Which route the reuse timer comes to is
a matter of its lists; here it is told.
-/

namespace Bgpd.Damping

open Rib

/-- `BGP_DAMP_*`, the answers of the damping functions. -/
inductive DampStatus
  | used
  | suppressed
  deriving DecidableEq, Repr

/-- `DEFAULT_PENALTY`. -/
def defaultPenalty : Nat := 1000

/-- `DELTA_T`, the seconds of one entry of the decay array. -/
def deltaT : Nat := 5

variable (env : Env)

/-- `bgp_damp_decay`. -/
def bgpDampDecay (tdiff penalty : Nat) : Nat :=
  let i := tdiff / deltaT
  if i = 0 then penalty
  else if env.damp.decayArraySize ≤ i then 0
  else env.damp.decayed i penalty

/-- The stability history of a route. -/
def BgpInfo.dampInfo (ri : BgpInfo) : Option DampInfo := ri.extra.bind InfoExtra.dampInfo

/-- Write the stability history of a route. -/
def BgpInfo.setDampInfo (ri : BgpInfo) (bdi : Option DampInfo) : BgpInfo :=
  ri.withExtra fun extra => { extra with dampInfo := bdi }

/-- `bgp_damp_info_free`. The two flags are cleared one after the other, which comes
to the same count. -/
def bgpDampInfoFree (s : State) (rn : Node) (id : Nat) (bdi : DampInfo) (withdraw : Bool) : State :=
  let s := s.modify rn id (BgpInfo.setDampInfo · none)
  let s := bgpInfoUnsetFlag env s rn id .history
  let s := bgpInfoUnsetFlag env s rn id .damped
  if bdi.lastrecord = .withdraw ∧ withdraw then bgpInfoDelete env s rn id else s

/-- The penalty a withdrawal or a change leaves. -/
def flapPenalty (now : Nat) (attrChange : Bool) : Option DampInfo → Nat
  | none => if attrChange then defaultPenalty / 2 else defaultPenalty
  | some bdi =>
    min env.damp.ceiling
      (bgpDampDecay env (now - bdi.tUpdated) bdi.penalty
        + (if attrChange then defaultPenalty / 2 else defaultPenalty))

/-- `bgp_damp_withdraw`. The history flag is set whatever the answer is. -/
def bgpDampWithdraw (s : State) (rn : Node) (id : Nat) (now : Nat) (attrChange : Bool) :
    State × DampStatus :=
  match s.info? rn id with
  | none => (s, .used)
  | some ri =>
    let penalty := flapPenalty env now attrChange (BgpInfo.dampInfo ri)
    let suppressTime := ((BgpInfo.dampInfo ri).map DampInfo.suppressTime).getD 0
    let bdi : DampInfo := ⟨penalty, now, suppressTime, .withdraw⟩
    let s := s.modify rn id (BgpInfo.setDampInfo · (some bdi))
    let s := bgpInfoSetFlag env s rn id .history
    if ri.flags.damped then (s, .suppressed)
    else if env.damp.suppressValue ≤ penalty then
      let s := bgpInfoSetFlag env s rn id .damped
      (s.modify rn id (BgpInfo.setDampInfo · (some { bdi with suppressTime := now })), .used)
    else (s, .used)

/-- The answer of `bgp_damp_update` to a decayed penalty. -/
def updateStatus (damped : Bool) (penalty : Nat) : DampStatus :=
  if !damped ∧ penalty < env.damp.suppressValue then .used
  else if damped ∧ penalty < env.damp.reuseLimit then .used
  else .suppressed

/-- `bgp_damp_update`. -/
def bgpDampUpdate (s : State) (rn : Node) (id : Nat) (now : Nat) : State × DampStatus :=
  match s.info? rn id with
  | none => (s, .used)
  | some ri =>
    match BgpInfo.dampInfo ri with
    | none => (s, .used)
    | some bdi =>
      let s := bgpInfoUnsetFlag env s rn id .history
      let penalty := bgpDampDecay env (now - bdi.tUpdated) bdi.penalty
      let reused := ri.flags.damped ∧ penalty < env.damp.reuseLimit
      let s := if reused then bgpInfoUnsetFlag env s rn id .damped else s
      let bdi : DampInfo :=
        ⟨penalty, bdi.tUpdated, if reused then 0 else bdi.suppressTime, .update⟩
      let status := updateStatus env ri.flags.damped penalty
      if env.damp.reuseLimit < 2 * penalty then
        (s.modify rn id (BgpInfo.setDampInfo · (some { bdi with tUpdated := now })), status)
      else (bgpDampInfoFree env (s.modify rn id (BgpInfo.setDampInfo · (some bdi))) rn id bdi false,
        status)

/-- `bgp_damp_scan`. The answer says that the route can be used again. -/
def bgpDampScan (s : State) (rn : Node) (id : Nat) (now : Nat) : State × Bool :=
  match s.info? rn id with
  | none => (s, false)
  | some ri =>
    match BgpInfo.dampInfo ri with
    | none => (s, false)
    | some bdi =>
      if ri.flags.damped then
        if env.damp.maxSuppressTime ≤ now - bdi.suppressTime then
          let s := bgpInfoUnsetFlag env s rn id .damped
          let bdi : DampInfo := ⟨env.damp.reuseLimit, now, 0, bdi.lastrecord⟩
          (s.modify rn id (BgpInfo.setDampInfo · (some bdi)), bdi.lastrecord = .update)
        else (s, false)
      else
        let penalty := bgpDampDecay env (now - bdi.tUpdated) bdi.penalty
        if 2 * penalty ≤ env.damp.reuseLimit then
          (bgpDampInfoFree env s rn id bdi true, false)
        else
          (s.modify rn id (BgpInfo.setDampInfo · (some { bdi with penalty, tUpdated := now })),
            false)

end Bgpd.Damping
