import Bgpd.Damping
import Bgpd.IntrusiveLists

/-!
# The lists of route flap damping

Every stability history is on a list: a route that is set aside on one of the reuse
lists, which the reuse timer comes to one after the other, and any other on the list
without reuse. The pointers are inside the histories, and which list a history is on
is told by its route's flag and its own index.

The timer detaches the list it comes to and lets go of its histories one by one. One
whose penalty is so low that it is freed has already lost its flag, and is taken out
of the list without reuse, where it is not: the pointers of that list are overwritten
with those of the detached one. Everything else keeps every history on its list.
-/

namespace Bgpd.DampLists

open Damping Rib IntrusiveLists

/-! ## State -/

/-- What of `struct bgp_damp_config` the lists depend on. `bucket` is the entry of the
reuse index array for a penalty, less the first one, and `decay` is `bgp_damp_decay`;
both are tables the configuration computes. -/
structure Config where
  suppressValue : Nat
  reuseLimit : Nat
  maxSuppressTime : Int
  ceiling : Nat
  reuseListSize : Nat
  sized : 0 < reuseListSize
  bucket : Nat → Int
  decay : Int → Nat → Nat

/-- The lists. -/
inductive Slot
  | noReuse
  | reuse (index : Int)
  deriving DecidableEq, Repr

/-- `struct bgp_damp_info` without its pointers. -/
structure History where
  binfo : Nat
  penalty : Nat
  flap : Nat
  startTime : Int
  tUpdated : Int
  suppressTime : Int
  index : Int
  lastrecord : LastRecord
  deriving DecidableEq, Repr

/-- The histories in memory with their pointers, the first element of each list, and
what of the routes the damping functions read and write: their flags and their
histories. `processed` is history: the routes that were made usable again. -/
structure State where
  links : Links Nat := fun _ => none
  infos : Nat → Option History := fun _ => none
  heads : Slot → Option Nat := fun _ => none
  next : Nat := 0
  reuseOffset : Int := 0
  damped : Nat → Bool := fun _ => false
  history : Nat → Bool := fun _ => false
  removed : Nat → Bool := fun _ => false
  dampInfo : Nat → Option Nat := fun _ => none
  processed : List Nat := []

/-- No route ever flapped. -/
def start : State := {}

namespace State

/-- The list that a history belongs on. -/
def slotOf (s : State) (info : History) : Slot :=
  if s.damped info.binfo then .reuse info.index else .noReuse

/-- The place of every history there is. -/
def place (s : State) (bdi : Nat) : Option Slot := (s.infos bdi).map s.slotOf

/-- Write a history. -/
def setInfo (s : State) (bdi : Nat) (info : History) : State :=
  { s with infos := Function.update s.infos bdi (some info) }

/-- Write the flag that a route is set aside. -/
def setDamped (s : State) (route : Nat) (on : Bool) : State :=
  { s with damped := Function.update s.damped route on }

/-- Write the flag that a route is only history. -/
def setHistory (s : State) (route : Nat) (on : Bool) : State :=
  { s with history := Function.update s.history route on }

end State

/-- Every history is on the list it belongs on and on no other, the lists are properly
linked, and they hold nothing that was freed. -/
def WellFormed (s : State) : Prop := ∃ lists, Filed s.links s.heads s.place lists

/-! ## Lists -/

/-- `BGP_INFO_ADD` for a list of histories. -/
def bgpInfoAdd (s : State) (slot : Slot) (bdi : Nat) : Option State := do
  let (links, head) ← pushFront s.links (s.heads slot) bdi
  return { s with links, heads := Function.update s.heads slot head }

/-- `BGP_INFO_DEL` for a list of histories. -/
def bgpInfoDel (s : State) (slot : Slot) (bdi : Nat) : Option State := do
  let (links, head) ← unlink s.links (s.heads slot) bdi
  return { s with links, heads := Function.update s.heads slot head }

variable (cfg : Config)

/-- `bgp_reuse_index`. The sum is taken without a sign before it wraps around. -/
def bgpReuseIndex (s : State) (penalty : Nat) : Int :=
  (s.reuseOffset + cfg.bucket penalty) % 2 ^ 32 % cfg.reuseListSize

/-- `bgp_reuse_list_add`. -/
def bgpReuseListAdd (s : State) (bdi : Nat) : Option State := do
  let info ← s.infos bdi
  let index := bgpReuseIndex cfg s info.penalty
  bgpInfoAdd (s.setInfo bdi { info with index }) (.reuse index) bdi

/-- An index of the array of lists. -/
def InArray (index : Int) : Prop := 0 ≤ index ∧ index < cfg.reuseListSize

instance (index : Int) : Decidable (InArray cfg index) :=
  inferInstanceAs (Decidable (0 ≤ index ∧ index < cfg.reuseListSize))

/-- `bgp_reuse_list_delete`. -/
def bgpReuseListDelete (s : State) (bdi : Nat) : Option State := do
  let info ← s.infos bdi
  if InArray cfg info.index then bgpInfoDel s (.reuse info.index) bdi else none

/-! ## Operations -/

/-- A history is taken out of the list that its flag tells. -/
def takeOff (s : State) (bdi : Nat) (route : Nat) : Option State :=
  if s.damped route then bgpReuseListDelete cfg s bdi else bgpInfoDel s .noReuse bdi

/-- `bgp_damp_info_free`. -/
def bgpDampInfoFree (s : State) (bdi : Nat) (withdraw : Bool) : Option State := do
  let info ← s.infos bdi
  let s ← takeOff cfg { s with dampInfo := Function.update s.dampInfo info.binfo none } bdi
    info.binfo
  let s := (s.setHistory info.binfo false).setDamped info.binfo false
  let s := if info.lastrecord = .withdraw ∧ withdraw then
      { s with removed := Function.update s.removed info.binfo true } else s
  return { s with
    links := Function.update s.links bdi none
    infos := Function.update s.infos bdi none }

/-- What a flap adds to a penalty. -/
def flapCost (attrChange : Bool) : Nat :=
  if attrChange then defaultPenalty / 2 else defaultPenalty

/-- A new history, on the list without reuse. -/
def newHistory (s : State) (route : Nat) (attrChange : Bool) (now : Int) :
    Option (State × Nat) := do
  let bdi := s.next
  let info : History :=
    { binfo := route, penalty := flapCost attrChange, flap := 1, startTime := now, tUpdated := now
      suppressTime := 0, index := -1, lastrecord := .withdraw }
  let s := { s.setInfo bdi info with
    links := Function.update s.links bdi (some ⟨none, none⟩)
    next := s.next + 1
    dampInfo := Function.update s.dampInfo route (some bdi) }
  let s ← bgpInfoAdd s .noReuse bdi
  return (s, bdi)

/-- One more flap of a route that has a history. -/
def flapAgain (info : History) (attrChange : Bool) (now : Int) : History :=
  { info with
    penalty := min cfg.ceiling (cfg.decay (now - info.tUpdated) info.penalty + flapCost attrChange)
    flap := info.flap + 1 }

/-- What becomes of a route that was withdrawn: one that is set aside is put on the
list of its new penalty, and one that has collected enough is set aside. -/
def judged (s : State) (bdi : Nat) (info : History) (lastPenalty : Nat) (now : Int) :
    Option (State × DampStatus) :=
  if s.damped info.binfo then
    if info.penalty ≠ lastPenalty then do
      let s ← bgpReuseListDelete cfg s bdi
      let s ← bgpReuseListAdd cfg s bdi
      return (s, .suppressed)
    else some (s, .suppressed)
  else if cfg.suppressValue ≤ info.penalty then do
    let s := s.setDamped info.binfo true
    let s := s.setInfo bdi { info with suppressTime := now }
    let s ← bgpInfoDel s .noReuse bdi
    let s ← bgpReuseListAdd cfg s bdi
    return (s, .used)
  else some (s, .used)

/-- The part of `bgp_damp_withdraw` that is the same for old and new histories. -/
def withdrawn (s : State) (route bdi : Nat) (lastPenalty : Nat) (now : Int) :
    Option (State × DampStatus) := do
  let info ← s.infos bdi
  if info.binfo = route then
    let info := { info with lastrecord := .withdraw, tUpdated := now }
    judged cfg ((s.setInfo bdi info).setHistory route true) bdi info lastPenalty now
  else none

/-- `bgp_damp_withdraw`. -/
def bgpDampWithdraw (s : State) (route : Nat) (attrChange : Bool) (now : Int) :
    Option (State × DampStatus) :=
  match s.dampInfo route with
  | none => do
    let (s, bdi) ← newHistory s route attrChange now
    withdrawn cfg s route bdi 0 now
  | some bdi => do
    let info ← s.infos bdi
    withdrawn cfg (s.setInfo bdi (flapAgain cfg info attrChange now)) route bdi info.penalty now

/-- The part of `bgp_damp_update` that decides whether the route is used, behind the
decay. -/
def updated (s : State) (route bdi : Nat) (info : History) :
    Option (State × History × DampStatus) :=
  if !s.damped info.binfo ∧ info.penalty < cfg.suppressValue then some (s, info, .used)
  else if s.damped info.binfo ∧ info.penalty < cfg.reuseLimit then do
    let s ← bgpReuseListDelete cfg (s.setDamped route false) bdi
    let s ← bgpInfoAdd s .noReuse bdi
    return (s.setInfo bdi { info with suppressTime := 0 }, { info with suppressTime := 0 }, .used)
  else some (s, info, .suppressed)

/-- `bgp_damp_update`. -/
def bgpDampUpdate (s : State) (route : Nat) (now : Int) : Option (State × DampStatus) :=
  match s.dampInfo route with
  | none => some (s, .used)
  | some bdi => do
    let info ← s.infos bdi
    let penalty := cfg.decay (now - info.tUpdated) info.penalty
    let info := { info with lastrecord := .update, penalty }
    let (s, info, status) ← updated cfg ((s.setHistory route false).setInfo bdi info) route bdi info
    if cfg.reuseLimit < 2 * penalty then
      return (s.setInfo bdi { info with tUpdated := now }, status)
    else
      let s ← bgpDampInfoFree cfg s bdi false
      return (s, status)

/-- `bgp_damp_scan`. The answer says that the route can be used again. -/
def bgpDampScan (s : State) (route : Nat) (now : Int) : Option (State × Bool) := do
  let bdi ← s.dampInfo route
  let info ← s.infos bdi
  if s.damped route then
    if cfg.maxSuppressTime ≤ now - info.suppressTime then
      let s ← bgpReuseListDelete cfg (s.setDamped info.binfo false) bdi
      let s ← bgpInfoAdd s .noReuse bdi
      let s := s.setInfo bdi
        { info with penalty := cfg.reuseLimit, suppressTime := 0, tUpdated := now }
      return (s, info.lastrecord = .update)
    else return (s, false)
  else
    let penalty := cfg.decay (now - info.tUpdated) info.penalty
    let s := s.setInfo bdi { info with penalty }
    if 2 * penalty ≤ cfg.reuseLimit then
      let s ← bgpDampInfoFree cfg s bdi true
      return (s, false)
    else return (s.setInfo bdi { info with penalty, tUpdated := now }, false)

/-- A route that the reuse timer lets go of is usable again. -/
def reused (s : State) (bdi : Nat) (info : History) : State :=
  let s := (s.setDamped info.binfo false).setInfo bdi { info with suppressTime := 0 }
  if info.lastrecord = .update then
    { s.setHistory info.binfo false with processed := s.processed ++ [info.binfo] }
  else s

/-- One turn of the loop of `bgp_reuse_timer`. -/
def reuseOne (s : State) (bdi : Nat) (now : Int) : Option State := do
  let info ← s.infos bdi
  let info := { info with penalty := cfg.decay (now - info.tUpdated) info.penalty, tUpdated := now }
  let s := s.setInfo bdi info
  if info.penalty < cfg.reuseLimit then
    let s := reused s bdi info
    if 2 * info.penalty ≤ cfg.reuseLimit then bgpDampInfoFree cfg s bdi true
    else bgpInfoAdd s .noReuse bdi
  else bgpReuseListAdd cfg s bdi

/-- A loop over a list that reads where to go on before it takes its turn. There is no
value if it does not come to an end within the fuel. -/
def followed (turn : State → Nat → Option State) : Nat → Option Nat → State → Option State
  | _, none, s => some s
  | 0, some _, _ => none
  | fuel + 1, some bdi, s => do
    let link ← s.links bdi
    let s ← turn s bdi
    followed turn fuel link.next s

/-- `bgp_reuse_timer`. -/
def bgpReuseTimer (s : State) (now : Int) : Option State :=
  let first := s.heads (.reuse s.reuseOffset)
  let s := { s with
    heads := Function.update s.heads (.reuse s.reuseOffset) none
    reuseOffset := (s.reuseOffset + 1) % cfg.reuseListSize }
  followed (fun s bdi => reuseOne cfg s bdi now) s.next first s

/-- The histories of one list are freed, and the list is empty. -/
def cleanSlot (s : State) (slot : Slot) : Option State := do
  let s ← followed (fun s bdi => bgpDampInfoFree cfg s bdi true) s.next (s.heads slot) s
  return { s with heads := Function.update s.heads slot none }

/-- `bgp_damp_info_clean`. -/
def bgpDampInfoClean (s : State) : Option State := do
  let s ← (List.range cfg.reuseListSize).foldlM (fun s (i : Nat) => cleanSlot cfg s (.reuse i))
    { s with reuseOffset := 0 }
  cleanSlot cfg s .noReuse

/-! ## The damping of one route -/

/-- The bounds and the decay of the tables are those of the lists. -/
structure Matches (cfg : Config) (env : Env) : Prop where
  suppressValue : env.damp.suppressValue = cfg.suppressValue
  reuseLimit : env.damp.reuseLimit = cfg.reuseLimit
  maxSuppressTime : (env.damp.maxSuppressTime : Int) = cfg.maxSuppressTime
  ceiling : env.damp.ceiling = cfg.ceiling
  decay (tdiff penalty : Nat) : bgpDampDecay env tdiff penalty = cfg.decay tdiff penalty

/-- The history that the lists have of a route is what the tables keep of it. -/
structure Mirrors (s : State) (bdi : Nat) (info : History) (ri : BgpInfo) (kept : DampInfo) :
    Prop where
  known : s.dampInfo info.binfo = some bdi
  found : s.infos bdi = some info
  damped : ri.flags.damped = s.damped info.binfo
  dampInfo : BgpInfo.dampInfo ri = some kept
  penalty : kept.penalty = info.penalty
  tUpdated : (kept.tUpdated : Int) = info.tUpdated
  suppressTime : (kept.suppressTime : Int) = info.suppressTime
  lastrecord : kept.lastrecord = info.lastrecord

section Answers

variable {cfg : Config} {env : Env} {s after : State} {bdi : Nat} {info : History} {t : Rib.State}
  {rn : Rib.Node} {ri : BgpInfo} {kept : DampInfo} {id now : Nat}

theorem Mirrors.decays (mirrors : Mirrors s bdi info ri kept) (same : Matches cfg env)
    (past : kept.tUpdated ≤ now) :
    bgpDampDecay env (now - kept.tUpdated) kept.penalty =
      cfg.decay (now - info.tUpdated) info.penalty := by
  rw [same.decay, mirrors.penalty, Nat.cast_sub past, mirrors.tUpdated]

/-- A flap costs the same. -/
theorem flapAgain_penalty (mirrors : Mirrors s bdi info ri kept) (same : Matches cfg env)
    (past : kept.tUpdated ≤ now) (attrChange : Bool) :
    flapPenalty env now attrChange (BgpInfo.dampInfo ri) =
      (flapAgain cfg info attrChange now).penalty := by
  rw [mirrors.dampInfo, flapPenalty, mirrors.decays same past, same.ceiling]
  rfl

theorem updated_status (same : Matches cfg env) {route : Nat}
    {result : State × History × DampStatus}
    (done : updated cfg s route bdi info = some result) :
    result.2.2 = updateStatus env (s.damped info.binfo) info.penalty := by
  rw [updateStatus, same.suppressValue, same.reuseLimit]
  simp only [updated, Option.bind_eq_bind, Option.pure_def] at done
  grind [Option.bind_eq_some_iff]

/-- The lists and the tables answer the same when the route is announced again. -/
theorem bgpDampUpdate_status (mirrors : Mirrors s bdi info ri kept) (same : Matches cfg env)
    (past : kept.tUpdated ≤ now) (here : t.info? rn id = some ri) {status : DampStatus}
    (done : bgpDampUpdate cfg s info.binfo now = some (after, status)) :
    (Damping.bgpDampUpdate env t rn id now).2 = status := by
  have tables : (Damping.bgpDampUpdate env t rn id now).2 =
      updateStatus env ri.flags.damped (cfg.decay (now - info.tUpdated) info.penalty) := by
    simp only [Damping.bgpDampUpdate, here, mirrors.dampInfo, mirrors.decays same past]
    split <;> rfl
  simp only [bgpDampUpdate, mirrors.known, mirrors.found, Option.bind_eq_bind,
    Option.bind_some, Option.pure_def] at done
  obtain ⟨⟨s', info', answer⟩, decided, done⟩ := Option.bind_eq_some_iff.mp done
  rw [tables, mirrors.damped]
  refine (updated_status same decided).symm.trans ?_
  grind [Option.bind_eq_some_iff]

/-- And when the route is scanned. -/
theorem bgpDampScan_answer (mirrors : Mirrors s bdi info ri kept) (same : Matches cfg env)
    (past : kept.suppressTime ≤ now) (here : t.info? rn id = some ri) {usable : Bool}
    (done : bgpDampScan cfg s info.binfo now = some (after, usable)) :
    (Damping.bgpDampScan env t rn id now).2 = usable := by
  have waited : env.damp.maxSuppressTime ≤ now - kept.suppressTime ↔
      cfg.maxSuppressTime ≤ now - info.suppressTime := by
    have := same.maxSuppressTime
    have := mirrors.suppressTime
    omega
  simp only [bgpDampScan, mirrors.known, mirrors.found, Option.bind_eq_bind,
    Option.bind_some, Option.pure_def] at done
  simp only [Damping.bgpDampScan, here, mirrors.dampInfo, mirrors.damped, waited,
    mirrors.lastrecord]
  grind [Option.bind_eq_some_iff]

end Answers

/-! ## Runs -/

/-- What the daemon does with the histories. A route that has none is not scanned, and
freeing the history of one does nothing. -/
inductive Action
  | withdraw (route : Nat) (attrChange : Bool) (now : Int)
  | update (route : Nat) (now : Int)
  | scan (route : Nat) (now : Int)
  | reuseTimer (now : Int)
  | free (route : Nat) (withdraw : Bool)
  | clean
  deriving DecidableEq, Repr

/-- One step. It has no value if it follows a pointer to what was freed. -/
def step (s : State) : Action → Option State
  | .withdraw route attrChange now => (bgpDampWithdraw cfg s route attrChange now).map Prod.fst
  | .update route now => (bgpDampUpdate cfg s route now).map Prod.fst
  | .scan route now =>
    if (s.dampInfo route).isSome then (bgpDampScan cfg s route now).map Prod.fst else some s
  | .reuseTimer now => bgpReuseTimer cfg s now
  | .free route withdraw =>
    match s.dampInfo route with
    | none => some s
    | some bdi => bgpDampInfoFree cfg s bdi withdraw
  | .clean => bgpDampInfoClean cfg s

end Bgpd.DampLists
