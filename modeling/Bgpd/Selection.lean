import Bgpd.Rib

/-!
# Best-path selection

The comparison of two routes puts the MED first. The selection goes over the
routes of a node once, after a pass that leaves one candidate for each neighbouring
AS where MEDs are compared deterministically. It finds the route selected so far
and the one to select now, and takes out routes that were removed and are not
selected.
-/

namespace Bgpd.Selection

open Octets AsPath Attributes Neighbors Rib

/-- The first member of a segment, which the daemon reads without asking for the
length. -/
def firstAs (seg : Assegment) : U32 := seg.as.headD 0

/-- `aspath_cmp_left`: both paths start, confederation segments apart, with the
same AS. -/
def aspathCmpLeft (aspath1 aspath2 : Aspath) : Bool :=
  match aspath1.segments.dropWhile Assegment.confed,
      aspath2.segments.dropWhile Assegment.confed with
  | seg1 :: _, seg2 :: _ =>
    seg1.type = .asSequence && seg2.type = .asSequence && firstAs seg1 = firstAs seg2
  | _, _ => false

/-- `aspath_cmp_left_confed`. -/
def aspathCmpLeftConfed (aspath1 aspath2 : Aspath) : Bool :=
  match aspath1.segments, aspath2.segments with
  | seg1 :: _, seg2 :: _ =>
    seg1.type = .asConfedSequence && seg2.type = .asConfedSequence && firstAs seg1 = firstAs seg2
  | _, _ => false

/-- The AS path of a route. -/
def BgpInfo.aspath (ri : BgpInfo) : Aspath := ri.attr.aspath.getD aspathEmpty

variable (env : Env)

/-- `bgp_med_value`. -/
def bgpMedValue (attr : Attr) : U32 :=
  if attr.has .multiExitDisc then attr.med
  else if env.bestPath.medMissingAsWorst then 0xFFFFFFFF
  else 0

/-- The MEDs of the two routes are to be compared. -/
def medsCompare (new exist : BgpInfo) : Bool :=
  let newPath := BgpInfo.aspath new
  let existPath := BgpInfo.aspath exist
  let internal := aspathCountHops newPath = 0 ∧ aspathCountHops existPath = 0
  let confed :=
    aspathCountConfeds newPath > 0 ∧ aspathCountConfeds existPath > 0 ∧ internal
  env.bestPath.alwaysCompareMed ∨ (env.bestPath.medConfed ∧ confed)
    ∨ aspathCmpLeft newPath existPath ∨ aspathCmpLeftConfed newPath existPath ∨ internal

/-- A test that decides where the two sides differ: the lower one wins. -/
def lower (new exist : Nat) : Option Bool :=
  if new < exist then some true else if exist < new then some false else none

/-- A test that decides where one side has a property: the new route is asked
first. -/
def having (new exist : Bool) : Option Bool :=
  if new then some true else if exist then some false else none

/-- The weight of a route. -/
def weightOf (ri : BgpInfo) : Nat := (ri.attr.extra.getD .zero).weight.toNat

/-- The preference of a route. -/
def prefOf (ri : BgpInfo) : Nat :=
  (if ri.attr.has .localPref then ri.attr.localPref else env.bgp.defaultLocalPref).toNat

/-- The length of a route's AS path. -/
def hopsOf (ri : BgpInfo) : Nat :=
  aspathCountHops (BgpInfo.aspath ri)
    + if env.bestPath.aspathConfed then aspathCountConfeds (BgpInfo.aspath ri) else 0

/-- The identifier a route is compared by. -/
def routerIdOf (ri : BgpInfo) : Nat :=
  (if ri.attr.has .originatorId then (ri.attr.extra.getD .zero).originatorId
    else (env.config ri.peer).remoteId).toNat

/-- The length of a route's cluster list. -/
def clusterOf (ri : BgpInfo) : Nat :=
  if ri.attr.has .clusterList then 4 * ((ri.attr.extra.getD .zero).cluster.getD []).length else 0

/-- The external route against the internal one. -/
def peerTypes (new exist : BgpInfo) : Option Bool :=
  let inner (peer : Nat) : Bool :=
    peerSort env.bgp (env.config peer) = .ibgp ∨ peerSort env.bgp (env.config peer) = .confed
  if env.external new.peer ∧ inner exist.peer then some true
  else if inner new.peer ∧ env.external exist.peer then some false
  else none

/-- The tests of `bgp_info_cmp` in their order, each of which may decide. The last
one asks for the address of the neighbour. -/
def comparisons (new exist : BgpInfo) : List (Option Bool) :=
  [ if medsCompare env new exist then
      lower (bgpMedValue env new.attr).toNat (bgpMedValue env exist.attr).toNat
    else none,
    lower (weightOf exist) (weightOf new),
    lower (prefOf env exist) (prefOf env new),
    having (new.subType = .static) (exist.subType = .static),
    having (new.subType = .redistribute) (exist.subType = .redistribute),
    having (new.subType = .aggregate) (exist.subType = .aggregate),
    if env.bestPath.aspathIgnore then none else lower (hopsOf env new) (hopsOf env exist),
    lower new.attr.origin.toNat exist.attr.origin.toNat,
    peerTypes env new exist,
    lower ((new.extra.map InfoExtra.igpmetric).getD 0).toNat
      ((exist.extra.map InfoExtra.igpmetric).getD 0).toNat,
    if !env.bestPath.compareRouterId ∧ env.external new.peer ∧ env.external exist.peer then
      having new.flags.selected exist.flags.selected
    else none,
    lower (routerIdOf env new) (routerIdOf env exist),
    lower (clusterOf new) (clusterOf exist),
    if (env.config new.peer).suRemote.after (env.config exist.peer).suRemote then some false
    else none ]

/-- `bgp_info_cmp`: the new route is preferable. It is also where nothing decides. -/
def bgpInfoCmp (new : BgpInfo) : Option BgpInfo → Bool
  | none => true
  | some exist => ((comparisons env new exist).findSome? id).getD true

/-! ## Deterministic MED -/

/-- Change one route of a list. -/
def changeIn (infos : List BgpInfo) (id : Nat) (change : BgpInfo → BgpInfo) : List BgpInfo :=
  infos.map fun ri => if ri.id = id then change ri else ri

/-- The inner loop: the best route among those of the same neighbouring AS. -/
def dmedGroup (ri1 : BgpInfo) : List Nat → List BgpInfo → Nat → List BgpInfo × Nat
  | [], infos, best => (infos, best)
  | id :: later, infos, best =>
    match infos.find? fun ri => ri.id = id with
    | none => dmedGroup ri1 later infos best
    | some ri2 =>
      if ri2.flags.dmedCheck || ri2.holddown then dmedGroup ri1 later infos best
      else if aspathCmpLeft (BgpInfo.aspath ri1) (BgpInfo.aspath ri2)
          || aspathCmpLeftConfed (BgpInfo.aspath ri1) (BgpInfo.aspath ri2) then
        let better := bgpInfoCmp env ri2 (infos.find? fun ri => ri.id = best)
        let infos := if better then changeIn infos best (·.put .dmedSelected false) else infos
        dmedGroup ri1 later (changeIn infos id (·.put .dmedCheck true))
          (if better then id else best)
      else dmedGroup ri1 later infos best

/-- The outer loop: every route that was not looked at starts a group. -/
def dmedPass : List Nat → List BgpInfo → List BgpInfo
  | [], infos => infos
  | id :: later, infos =>
    match infos.find? fun ri => ri.id = id with
    | none => dmedPass later infos
    | some ri1 =>
      if ri1.flags.dmedCheck || ri1.holddown then dmedPass later infos
      else
        let (infos, best) := dmedGroup env ri1 later infos id
        dmedPass later (changeIn infos best fun ri =>
          (ri.put .dmedCheck true).put .dmedSelected true)

/-! ## The selection -/

/-- What the selection finds: the routes that stay, the one selected so far and
the one to select. -/
structure Selected where
  infos : List BgpInfo
  old : Option Nat
  new : Option Nat
  deriving DecidableEq, Repr

/-- The main loop of `bgp_best_selection`. -/
def selectLoop : List BgpInfo → Option Nat → Option BgpInfo → Selected
  | [], old, new => ⟨[], old, new.map BgpInfo.id⟩
  | ri :: later, old, new =>
    let old := if ri.flags.selected then some ri.id else old
    if ri.holddown then
      let rest := selectLoop later old new
      if ri.flags.removed ∧ old ≠ some ri.id then rest else { rest with infos := ri :: rest.infos }
    else if env.bestPath.deterministicMed ∧ !ri.flags.dmedSelected then
      let rest := selectLoop later old new
      { rest with infos := ri.put .dmedCheck false :: rest.infos }
    else
      let ri := (ri.put .dmedCheck false).put .dmedSelected false
      let rest := selectLoop later old (if bgpInfoCmp env ri new then some ri else new)
      { rest with infos := ri :: rest.infos }

/-- `bgp_best_selection`. -/
def bgpBestSelection (infos : List BgpInfo) : Selected :=
  let infos :=
    if env.bestPath.deterministicMed then dmedPass env (infos.map BgpInfo.id) infos else infos
  selectLoop env infos none none

end Bgpd.Selection
