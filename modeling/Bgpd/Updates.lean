import Bgpd.RsclientPolicy
import Bgpd.Damping
import Bgpd.Aggregation

/-!
# Routes come and go

Updates and withdrawals from neighbours, network statements, redistributed routes,
the next-hop scan and the reuse timer: everything that changes the routes of the
tables apart from the queued processing. Each function puts its calls for
aggregates and damping around its changes of flags in an order of its own.

A call happens at a time and sees the interfaces, the answers about next hops and
the intern table as they are then; together these are the world of the call.
-/

namespace Bgpd.Updates

open Octets Prefixes Attributes Neighbors AttrParse Admission RsclientPolicy Rib Damping Aggregation

/-- What is known about a next hop. -/
structure NexthopAnswer where
  valid : Bool
  metric : U32
  changed : Bool
  deriving DecidableEq, Repr

/-- What a call sees beside the tables. -/
structure World where
  now : Nat
  connected : Afi → Connected
  /-- Next-hop lookups are enabled. -/
  lookupUp : Bool
  lookup : Afi → Attr → NexthopAnswer
  /-- `bgp_attr_intern` may return an attribute set that was there already. -/
  intern : Attr → Attr
  intern_cmp : ∀ attr, attrhashCmp (intern attr) attr = true

/-- An announcement or a withdrawal of one route. -/
structure UpdateCall where
  peer : Nat
  p : Prefix
  attr : Attr
  safi : Safi
  type : RouteType
  subType : SubType
  prd : Option (BitVec 64)
  tag : List U8

/-- The node of a call in the table of an owner. -/
def UpdateCall.node (call : UpdateCall) (owner : Owner) : Node :=
  nodeOf owner call.safi call.p call.prd

/-- The route of a node from the same neighbour and of the same kind. -/
def findInfo (s : State) (rn : Node) (peer : Nat) (type : RouteType) (subType : SubType) :
    Option BgpInfo :=
  (s.infos rn).find? fun ri => ri.peer = peer ∧ ri.type = type ∧ ri.subType = subType

variable (env : Env) (w : World)

/-- `bgp_nexthop_lookup` of a route: the answer, and the route with its metric. -/
def bgpNexthopLookup (afi : Afi) (ri : BgpInfo) : NexthopAnswer × BgpInfo :=
  let forget := { ri with extra := ri.extra.map fun extra => { extra with igpmetric := 0 } }
  let extra := ri.attr.extra.getD .zero
  if !w.lookupUp then (⟨true, 0, false⟩, forget)
  else if afi = .ip6 ∧ (extra.mpNexthopLen ≠ 16 ∨ in6IsAddrLinklocal extra.mpNexthopGlobal) then
    (⟨true, 0, false⟩, ri)
  else
    let answer := w.lookup afi ri.attr
    if answer.valid ∧ answer.metric ≠ 0 then
      (answer, ri.withExtra fun extra => { extra with igpmetric := answer.metric })
    else (answer, forget)

/-- The next hops of the neighbour's routes are looked up. -/
def looksUp (peer : Nat) (safi : Safi) : Bool :=
  let sort := peerSort env.bgp (env.config peer)
  safi = .unicast
    ∧ (sort = .ibgp ∨ sort = .confed ∨ (sort = .ebgp ∧ (env.config peer).ttl ≠ 1)
      ∨ (env.config peer).disableConnectedCheck)

/-- The check of the next hop in `bgp_update_main`, for a route of a node. -/
def refreshValid (s : State) (rn : Node) (id peer : Nat) : State :=
  if looksUp env peer rn.safi then
    let valid := (s.info? rn id).any fun ri => (bgpNexthopLookup w rn.afi ri).1.valid
    bgpInfoPutFlag env (s.modify rn id fun ri =>
      (bgpNexthopLookup w rn.afi ri).2) rn id .valid valid
  else bgpInfoSetFlag env s rn id .valid

/-- The same for a route in hand. -/
def freshValid (s : State) (rn : Node) (ri : BgpInfo) : State × BgpInfo :=
  if looksUp env ri.peer rn.safi then
    let (answer, ri) := bgpNexthopLookup w rn.afi ri
    bgpInfoPut env s rn ri .valid answer.valid
  else bgpInfoPut env s rn ri .valid true

/-- The label of a VPN route. -/
def withTag (safi : Safi) (tag : List U8) (ri : BgpInfo) : BgpInfo :=
  if safi = .mplsVpn then ri.withExtra fun extra => { extra with tag } else ri

/-- A new route is counted by the aggregates above it, and then added. -/
def addCounted (s : State) (rn : Node) (ri : BgpInfo) : State :=
  match bgpAggregateIncrement env s rn.afi rn.safi rn.p (.fresh ri) with
  | (s, .fresh ri) => bgpInfoAdd s rn ri
  | (s, .listed _ _) => s

/-- `bgp_maximum_prefix_overflow`. The answer says that the session is being
closed. -/
def bgpMaximumPrefixOverflow (s : State) (peer : Nat) (afi : Afi) (safi : Safi) (always : Bool) :
    State × Bool :=
  let flags := (env.config peer).afFlags afi safi
  if !flags.maxPrefix then (s, false)
  else if (env.config peer).pmax afi safi < s.pcount peer afi safi then
    if s.prefixLimit peer afi safi ∧ !always then (s, false)
    else
      let s := { s with prefixLimit := replaceAf s.prefixLimit peer afi safi true }
      if flags.maxPrefixWarning then (s, false)
      else ({ s with log := .cease peer :: s.log }, true)
  else ({ s with prefixLimit := replaceAf s.prefixLimit peer afi safi false }, false)

/-- `bgp_rib_remove`. -/
def bgpRibRemove (s : State) (rn : Node) (id : Nat) : State :=
  let s := bgpAggregateDecrement env s rn id
  let s := if (s.info? rn id).any (·.flags.history) then s else bgpInfoDelete env s rn id
  bgpProcess s rn

/-- `bgp_rib_withdraw`. -/
def bgpRibWithdraw (s : State) (rn : Node) (id peer : Nat) : State :=
  if env.damps peer rn.afi rn.safi then
    match bgpDampWithdraw env s rn id w.now false with
    | (s, .suppressed) => bgpAggregateDecrement env s rn id
    | (s, .used) => bgpRibRemove env s rn id
  else bgpRibRemove env s rn id

/-! ## Updates of the main table -/

/-- `bgp_update_main` where the same attributes come in again. -/
def updateDuplicate (s : State) (rn : Node) (ri : BgpInfo) : State :=
  let s := bgpInfoUnsetFlag env s rn ri.id .attrChanged
  if env.damps ri.peer rn.afi rn.safi ∧ ri.flags.history then
    match bgpDampUpdate env s rn ri.id w.now with
    | (s, .suppressed) => s
    | (s, .used) => bgpProcess (aggregateIncrement env s rn ri.id) rn
  else if ri.flags.stale then bgpProcess (bgpInfoUnsetFlag env s rn ri.id .stale) rn
  else s

/-- `bgp_update_main` where a route changes, up to where it is taken from the
aggregates. -/
def beginChange (s : State) (rn : Node) (ri : BgpInfo) : State :=
  let s := if ri.flags.removed then bgpInfoRestore env s rn ri.id else s
  let s := if ri.flags.stale then bgpInfoUnsetFlag env s rn ri.id .stale else s
  bgpAggregateDecrement env (bgpInfoSetFlag env s rn ri.id .attrChanged) rn ri.id

/-- The change itself. An implicit withdrawal is a flap. -/
def applyChange (s : State) (rn : Node) (ri : BgpInfo) (attr : Attr) (tag : List U8) : State :=
  let s :=
    if env.damps ri.peer rn.afi rn.safi ∧ !ri.flags.history then
      (bgpDampWithdraw env s rn ri.id w.now true).1
    else s
  s.modify rn ri.id fun ri => withTag rn.safi tag { ri with attr }

/-- The rest, for a route that may be used. -/
def finishChange (s : State) (rn : Node) (ri : BgpInfo) : State :=
  bgpProcess (aggregateIncrement env (refreshValid env w s rn ri.id ri.peer) rn ri.id) rn

/-- `bgp_update_main` where a route changes. -/
def updateChanged (s : State) (rn : Node) (ri : BgpInfo) (attr : Attr) (tag : List U8) : State :=
  let s := applyChange env w (beginChange env s rn ri) rn ri attr tag
  if env.damps ri.peer rn.afi rn.safi then
    match bgpDampUpdate env s rn ri.id w.now with
    | (s, .suppressed) => s
    | (s, .used) => finishChange env w s rn ri
  else finishChange env w s rn ri

/-- `bgp_update_main` for a new route. -/
def updateFresh (s : State) (rn : Node) (call : UpdateCall) (attr : Attr) : State :=
  let (s, ri) := bgpInfoNew s call.peer call.type call.subType attr
  let (s, ri) := freshValid env w s rn (withTag rn.safi call.tag ri)
  match bgpMaximumPrefixOverflow env (addCounted env s rn ri) call.peer rn.afi rn.safi false with
  | (s, true) => s
  | (s, false) => bgpProcess s rn

/-- `bgp_update_main`. -/
def bgpUpdateMain (s : State) (call : UpdateCall) : State :=
  let rn := call.node .main
  let s := bgpNodeGet s rn
  let ri := findInfo s rn call.peer call.type call.subType
  match admitMain env.bgp (w.connected call.p.family) (env.config call.peer) call.p call.attr
      call.safi, ri with
  | none, none => s
  | none, some ri => bgpRibRemove env s rn ri.id
  | some changed, none => updateFresh env w s rn call (w.intern changed)
  | some changed, some ri =>
    if !ri.flags.removed ∧ attrhashCmp ri.attr (w.intern changed) then updateDuplicate env w s rn ri
    else updateChanged env w s rn ri (w.intern changed) call.tag

/-! ## Updates of a route-server client's table -/

/-- `bgp_update_rsclient` where a route changes. -/
def changeRsclient (s : State) (rn : Node) (ri : BgpInfo) (attr : Attr) (tag : List U8) : State :=
  let s := if ri.flags.removed then bgpInfoRestore env s rn ri.id else s
  let s := bgpInfoSetFlag env s rn ri.id .attrChanged
  let s := s.modify rn ri.id fun ri => withTag rn.safi tag { ri with attr }
  bgpProcess (bgpInfoSetFlag env s rn ri.id .valid) rn

/-- `bgp_update_rsclient`. -/
def bgpUpdateRsclient (s : State) (rsclient : Nat) (call : UpdateCall) : State :=
  if call.peer = rsclient then s
  else
    let rn := call.node (.rsclient rsclient)
    let s := bgpNodeGet s rn
    let ri := findInfo s rn call.peer call.type call.subType
    match admitRsclient (env.config rsclient) (env.config call.peer) call.p call.attr call.safi,
        ri with
    | none, none => s
    | none, some ri => bgpRibRemove env s rn ri.id
    | some changed, none =>
      let (s, ri) := bgpInfoNew s call.peer call.type call.subType (w.intern changed)
      let (s, ri) := bgpInfoPut env s rn (withTag rn.safi call.tag ri) .valid true
      bgpProcess (bgpInfoAdd s rn ri) rn
    | some changed, some ri =>
      if !ri.flags.removed ∧ attrhashCmp ri.attr (w.intern changed) then
        bgpInfoUnsetFlag env s rn ri.id .attrChanged
      else changeRsclient env s rn ri (w.intern changed) call.tag

/-- The route-server clients that have a table for the family. -/
def clientsOf (afi : Afi) (safi : Safi) : List Nat :=
  env.rsclients.filter fun rsclient => ((env.config rsclient).afFlags afi safi).rserverClient

/-- `bgp_update`. -/
def bgpUpdate (s : State) (call : UpdateCall) : State :=
  (clientsOf env call.p.family call.safi).foldl
    (fun s rsclient => bgpUpdateRsclient env w s rsclient call) (bgpUpdateMain env w s call)

/-! ## Withdrawals -/

/-- The common part of `bgp_withdraw_rsclient` and `bgp_withdraw`: a route that is
not history already is withdrawn. -/
def withdrawFrom (s : State) (owner : Owner) (call : UpdateCall) : State :=
  let rn := call.node owner
  let s := bgpNodeGet s rn
  match findInfo s rn call.peer call.type call.subType with
  | none => s
  | some ri => if ri.flags.history then s else bgpRibWithdraw env w s rn ri.id call.peer

/-- `bgp_withdraw_rsclient`. -/
def bgpWithdrawRsclient (s : State) (rsclient : Nat) (call : UpdateCall) : State :=
  if call.peer = rsclient then s else withdrawFrom env w s (.rsclient rsclient) call

/-- `bgp_withdraw`. -/
def bgpWithdraw (s : State) (call : UpdateCall) : State :=
  withdrawFrom env w
    ((clientsOf env call.p.family call.safi).foldl
      (fun s rsclient => bgpWithdrawRsclient env w s rsclient call) s)
    .main call

/-! ## Local routes -/

/-- A change of a local route of the main table, or a new one. -/
def installLocal (s : State) (rn : Node) (ri : Option BgpInfo) (type : RouteType)
    (subType : SubType) (attr : Attr) : State :=
  match ri with
  | some ri =>
    if attrhashCmp ri.attr attr ∧ !ri.flags.removed then s
    else
      let s := bgpInfoSetFlag env s rn ri.id .attrChanged
      let s :=
        if ri.flags.removed then bgpInfoRestore env s rn ri.id
        else bgpAggregateDecrement env s rn ri.id
      let s := s.modify rn ri.id fun ri => { ri with attr }
      bgpProcess (aggregateIncrement env s rn ri.id) rn
  | none =>
    let (s, ri) := bgpInfoNew s env.self type subType attr
    bgpProcess (addCounted env s rn (ri.put .valid true)) rn

/-- A local route of the main table goes. -/
def removeLocal (s : State) (rn : Node) (ri : Option BgpInfo) : State :=
  match ri with
  | some ri => bgpProcess (bgpInfoDelete env (bgpAggregateDecrement env s rn ri.id) rn ri.id) rn
  | none => s

/-- `struct bgp_static`, as far as routes are made of it. The route map also sees
for whom the route is made. -/
structure BgpStatic where
  igpnexthop : U32
  igpmetric : U32
  atomic : Bool
  rmap : Option (Nat → Prefix → Attr → Option Attr)

/-- The attributes of a network statement. -/
def BgpStatic.attr (bgpStatic : BgpStatic) : Attr :=
  let attr : Attr :=
    { bgpAttrDefaultSet bgpOriginIgp with
      nexthop := bgpStatic.igpnexthop, med := bgpStatic.igpmetric }
  let attr := attr.mark .multiExitDisc
  if bgpStatic.atomic then attr.mark .atomicAggregate else attr

/-- The route of a network statement. -/
def findStatic (s : State) (rn : Node) : Option BgpInfo := findInfo s rn env.self .bgp .static

/-- `bgp_static_withdraw`, and with a distinguisher `bgp_static_withdraw_vpnv4`. -/
def bgpStaticWithdraw (s : State) (p : Prefix) (safi : Safi) (prd : Option (BitVec 64)) : State :=
  let rn := nodeOf .main safi p prd
  let s := bgpNodeGet s rn
  removeLocal env s rn (findStatic env s rn)

/-- `bgp_static_update_main`. -/
def bgpStaticUpdateMain (s : State) (bgpStatic : BgpStatic) (p : Prefix) (safi : Safi) : State :=
  let rn := nodeOf .main safi p none
  let s := bgpNodeGet s rn
  match applyMap (bgpStatic.rmap.map fun map => map env.self) p bgpStatic.attr with
  | none => bgpStaticWithdraw env s p safi none
  | some attr => installLocal env s rn (findStatic env s rn) .bgp .static (w.intern attr)

/-- `bgp_static_withdraw_rsclient`. -/
def bgpStaticWithdrawRsclient (s : State) (rsclient : Nat) (p : Prefix) (safi : Safi) : State :=
  let rn := nodeOf (.rsclient rsclient) safi p none
  let s := bgpNodeGet s rn
  match findStatic env s rn with
  | some ri => bgpProcess (bgpInfoDelete env s rn ri.id) rn
  | none => s

/-- `bgp_static_update_rsclient`. -/
def bgpStaticUpdateRsclient (s : State) (rsclient : Nat) (bgpStatic : BgpStatic) (p : Prefix)
    (safi : Safi) : State :=
  let rn := nodeOf (.rsclient rsclient) safi p none
  let s := bgpNodeGet s rn
  let mapped := applyMap (bgpStatic.rmap.map fun map => map rsclient) p bgpStatic.attr
  match mapped.bind fun attr =>
      bgpImportModifier (env.config rsclient) (env.config env.self) p (w.intern attr) safi with
  | none => bgpStaticWithdrawRsclient env s rsclient p safi
  | some attr =>
    match findStatic env s rn with
    | some ri =>
      if attrhashCmp ri.attr (w.intern attr) ∧ !ri.flags.removed then s
      else
        let s := bgpInfoSetFlag env s rn ri.id .attrChanged
        let s := if ri.flags.removed then bgpInfoRestore env s rn ri.id else s
        bgpProcess (s.modify rn ri.id fun ri => { ri with attr := w.intern attr }) rn
    | none =>
      let (s, ri) := bgpInfoNew s env.self .bgp .static (w.intern attr)
      bgpProcess (bgpInfoAdd s rn (ri.put .valid true)) rn

/-- `bgp_static_update`. -/
def bgpStaticUpdate (s : State) (bgpStatic : BgpStatic) (p : Prefix) (safi : Safi) : State :=
  (clientsOf env p.family safi).foldl
    (fun s rsclient => bgpStaticUpdateRsclient env w s rsclient bgpStatic p safi)
    (bgpStaticUpdateMain env w s bgpStatic p safi)

/-- `bgp_static_update_vpnv4`: a new route each time. -/
def bgpStaticUpdateVpnv4 (s : State) (p : Prefix) (prd : BitVec 64) (tag : List U8) : State :=
  let rn := nodeOf .main .mplsVpn p (some prd)
  let (s, ri) := bgpInfoNew (bgpNodeGet s rn) env.self .bgp .static
    (w.intern (bgpAttrDefaultSet bgpOriginIgp))
  bgpProcess (addCounted env s rn (withTag .mplsVpn tag (ri.put .valid true))) rn

/-- A route another protocol offers, and what the instance makes of it: a metric
of its own, and a route map. -/
structure Redistribution where
  code : U8
  nexthop : U32
  metric : U32
  redistMetric : Option U32
  rmap : Option (Prefix → Attr → Option Attr)

/-- The attributes of a redistributed route before the route map. -/
def Redistribution.attr (redist : Redistribution) : Attr :=
  let attr : Attr :=
    { bgpAttrDefaultSet bgpOriginIncomplete with
      nexthop := redist.nexthop, med := redist.redistMetric.getD redist.metric }
  attr.mark .multiExitDisc

/-- `bgp_redistribute_delete`, which finds the route by its protocol. -/
def bgpRedistributeDelete (s : State) (p : Prefix) (code : U8) : State :=
  let rn := nodeOf .main .unicast p none
  let s := bgpNodeGet s rn
  removeLocal env s rn
    ((s.infos rn).find? fun ri => ri.peer = env.self ∧ ri.type = .other code)

/-- `bgp_redistribute_add`, which finds the route by its kind. -/
def bgpRedistributeAdd (s : State) (p : Prefix) (redist : Redistribution) : State :=
  match applyMap redist.rmap p redist.attr with
  | none => bgpRedistributeDelete env s p redist.code
  | some attr =>
    let rn := nodeOf .main .unicast p none
    let s := bgpNodeGet s rn
    installLocal env s rn
      ((s.infos rn).find? fun ri => ri.peer = env.self ∧ ri.subType = .redistribute)
      (.other redist.code) .redistribute (w.intern attr)

/-! ## Timers -/

/-- The reuse timer comes to a damped route. -/
def bgpReuse (s : State) (rn : Node) (id : Nat) (now : Nat) : State :=
  match s.info? rn id with
  | none => s
  | some ri =>
    match BgpInfo.dampInfo ri with
    | none => s
    | some bdi =>
      if !ri.flags.damped then s
      else
        let penalty := bgpDampDecay env (now - bdi.tUpdated) bdi.penalty
        let bdi := { bdi with penalty, tUpdated := now }
        if penalty < env.damp.reuseLimit then
          let bdi := { bdi with suppressTime := 0 }
          let s := s.modify rn id (BgpInfo.setDampInfo · (some bdi))
          let s := bgpInfoUnsetFlag env s rn id .damped
          let s :=
            if bdi.lastrecord = .update then
              bgpProcess (aggregateIncrement env (bgpInfoUnsetFlag env s rn id .history) rn id) rn
            else s
          if 2 * penalty ≤ env.damp.reuseLimit then bgpDampInfoFree env s rn id bdi true else s
        else s.modify rn id (BgpInfo.setDampInfo · (some bdi))

/-- What the scan does for one route. -/
def scanInfo (s : State) (rn : Node) (id : Nat) : State :=
  match s.info? rn id with
  | none => s
  | some ri =>
    if ri.type = .bgp ∧ ri.subType = .normal then
      let direct := env.external ri.peer ∧ (env.config ri.peer).ttl = 1
      let answer : NexthopAnswer × BgpInfo :=
        if direct then (⟨(w.connected rn.afi).nexthopCheckEbgp ri.attr, 0, false⟩, ri)
        else bgpNexthopLookup w rn.afi ri
      let s :=
        s.modify rn id fun ri =>
          (if direct then ri else (bgpNexthopLookup w rn.afi ri).2).put .igpChanged answer.1.changed
      let s :=
        if answer.1.valid = ri.flags.valid then s
        else if ri.flags.valid then
          bgpInfoUnsetFlag env (bgpAggregateDecrement env s rn id) rn id .valid
        else aggregateIncrement env (bgpInfoSetFlag env s rn id .valid) rn id
      if env.damping rn.afi .unicast ∧ (BgpInfo.dampInfo ri).isSome then
        match bgpDampScan env s rn id w.now with
        | (s, true) => aggregateIncrement env s rn id
        | (s, false) => s
      else s
    else s

/-- What the scan does for one node. -/
def scanNode (s : State) (rn : Node) : State :=
  bgpProcess (((s.infos rn).map BgpInfo.id).foldl (fun s id => scanInfo env w s rn id) s) rn

/-- The families of an address family, in the order in which their prefix counts
are checked. -/
def scannedSafis : List Safi := [.unicast, .multicast, .mplsVpn]

/-- The check of the prefix counts in the scan. -/
def scanLimits (s : State) (afi : Afi) : State :=
  env.peers.foldl
    (fun s peer =>
      if (env.session peer).established then
        scannedSafis.foldl
          (fun s safi =>
            if (env.config peer).afc afi safi then
              (bgpMaximumPrefixOverflow env s peer afi safi true).1
            else s)
          s
      else s)
    s

/-- `bgp_scan`. -/
def bgpScan (s : State) (afi : Afi) : State :=
  if env.isDefault then
    let s := scanLimits env s afi
    (s.nodes.filter fun rn => rn.owner = .main ∧ rn.afi = afi ∧ rn.safi = .unicast).foldl
      (fun s rn => scanNode env w s rn) s
  else s

end Bgpd.Updates
