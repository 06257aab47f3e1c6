import Bgpd.Neighbors

/-!
# The configuration of neighbours and peer groups

A peer group has a template, and a list of the neighbours that are its members in some
family. When a neighbour joins a group in a family the template is copied to it; what is
set on the template later is copied to the members by each command on its own.

The sessions that a command resets are not here. Of a name bound to a list or a map only
the name is here, not what it is resolved to.
-/

namespace Bgpd.PeerConfig

open Octets Prefixes Neighbors

/-! ## What is configured -/

/-- `PEER_FLAG_*` of a neighbour. -/
inductive PeerFlag
  | passive
  | shutdown
  | dontCapability
  | overrideCapability
  | strictCapMatch
  | dynamicCapability
  | disableConnectedCheck
  | localAsNoPrepend
  deriving DecidableEq, Repr

/-- `PEER_FLAG_*` of a neighbour in a family. -/
inductive AfFlag
  | sendCommunity
  | sendExtCommunity
  | nexthopSelf
  | reflectorClient
  | rserverClient
  | softReconfig
  | asPathUnchanged
  | nexthopUnchanged
  | medUnchanged
  | defaultOriginate
  | removePrivateAs
  | allowasIn
  | orfPrefixSm
  | orfPrefixRm
  | maxPrefix
  | maxPrefixWarning
  | nexthopLocalUnchanged
  deriving DecidableEq, Repr

/-- `PEER_CONFIG_*`. -/
inductive ConfigFlag
  | weight
  | timer
  | connect
  | routeadv
  deriving DecidableEq, Repr

/-- `FILTER_IN` and `FILTER_OUT`. -/
inductive Direct
  | filterIn
  | filterOut
  deriving DecidableEq, Repr

/-- `RMAP_IN`, `RMAP_OUT`, `RMAP_IMPORT` and `RMAP_EXPORT`. -/
inductive MapSlot
  | rmapIn
  | rmapOut
  | rmapImport
  | rmapExport
  deriving DecidableEq, Repr

/-- The configuration of a neighbour in a family. -/
structure AfConf where
  afc : Bool := false
  afGroup : Bool := false
  afFlags : AfFlag → Bool := fun _ => false
  allowasIn : Nat := 0
  pmax : Nat := 0
  pmaxThreshold : Nat := 0
  pmaxRestart : Nat := 0
  dlist : Direct → Option String := fun _ => none
  plist : Direct → Option String := fun _ => none
  aslist : Direct → Option String := fun _ => none
  map : MapSlot → Option String := fun _ => none
  usmap : Option String := none
  defaultRmap : Option String := none
  /-- The table of a route-server client. -/
  rib : Option Nat := none

/-- The configuration of a neighbour, `struct peer`. -/
structure Conf where
  as : U32
  localAs : U32
  changeLocalAs : U32 := 0
  ttl : Nat
  gtsmHops : Nat := 0
  weight : Nat := 0
  flags : PeerFlag → Bool := fun _ => false
  config : ConfigFlag → Bool := fun _ => false
  holdtime : Nat := 0
  keepalive : Nat := 0
  connect : Nat := 0
  routeadv : Nat := 0
  vConnect : Nat
  vRouteadv : Nat
  password : Option String := none
  updateSource : Option SockUnion := none
  updateIf : Option String := none
  group : Option String := none
  af : Afi → Safi → AfConf

/-- `struct peer_group`, with the members in the order of the list. -/
structure Group where
  conf : Conf
  peer : List SockUnion

/-- Whom a command is about: a neighbour or the template of a group. -/
inductive Target
  | peer (su : SockUnion)
  | group (name : String)
  deriving DecidableEq

/-- The configuration of an instance. -/
structure Config where
  bgp : Bgp
  /-- `BGP_OPT_CONFIG_CISCO`. -/
  configCisco : Bool
  /-- `BGP_FLAG_NO_DEFAULT_IPV4`. -/
  noDefaultIpv4 : Bool
  peer : SockUnion → Option Conf
  group : String → Option Group
  rsclient : List Target
  /-- The tables made so far. -/
  tables : Nat

/-- `BGP_ERR_*`. -/
inductive Error
  | invalidValue
  | invalidFlag
  | peerGroupMember
  | peerGroupMemberExists
  | peerBelongsToGroup
  | peerGroupAfUnconfigured
  | peerGroupNoRemoteAs
  | peerGroupCantChange
  | peerGroupMismatch
  | peerGroupPeerTypeDifferent
  | peerInactive
  | invalidForPeerGroupMember
  | peerGroupHasTheFlag
  | peerFlagConflict
  | peerGroupShutdown
  | peerFilterConflict
  | notInternalPeer
  | removePrivateAs
  | noEbgpMultihopWithTtlhack
  | noIbgpWithTtlhack
  deriving DecidableEq, Repr

/-- What a command leaves, and the error it returns. -/
abbrev Outcome := Config × Option Error

/-- `MAXTTL`. -/
def maxttl : Nat := 255

/-! ## Reading and changing it -/

/-- The configuration in one family is changed. -/
def Conf.setAf (conf : Conf) (afi : Afi) (safi : Safi) (change : AfConf → AfConf) : Conf :=
  { conf with
    af := fun afi' safi' =>
      if afi' = afi ∧ safi' = safi then change (conf.af afi' safi') else conf.af afi' safi' }

namespace Config

variable (c : Config)

/-- The configuration of a neighbour or of a template. -/
def conf : Target → Option Conf
  | .peer su => c.peer su
  | .group name => (c.group name).map Group.conf

/-- The configuration of a neighbour or of a template is changed. -/
def modify (t : Target) (change : Conf → Conf) : Config :=
  match t with
  | .peer su => { c with peer := fun su' =>
      if su' = su then (c.peer su').map change else c.peer su' }
  | .group name =>
    { c with
      group := fun name' =>
        if name' = name then (c.group name').map fun group =>
          { group with conf := change group.conf }
        else c.group name' }

/-- The members of a group. -/
def members (name : String) : List SockUnion := ((c.group name).map Group.peer).getD []

/-- The loop over the members of a group; each of them is in the list once. -/
def eachMember (name : String) (change : Conf → Conf) : Config :=
  { c with
    peer := fun su => if su ∈ c.members name then (c.peer su).map change else c.peer su }

end Config

/-- `peer_sort` of a neighbour. -/
def sortOf (bgp : Bgp) (conf : Conf) : PeerSort := peerSort bgp (.plain 0 conf.as conf.localAs)

/-- `peer_sort` of a neighbour or a template with the given configuration. A template
without an AS number is of the sort of the first member. -/
def confSort (c : Config) (t : Target) (conf : Conf) : PeerSort :=
  match t with
  | .peer _ => sortOf c.bgp conf
  | .group name =>
    if conf.as ≠ 0 then if c.bgp.as = conf.as then .ibgp else .ebgp
    else
      match (c.members name).head?.bind c.peer with
      | some first => if first.localAs = first.as then .ibgp else .ebgp
      | none => .internal

/-- `peer_group_active`. -/
def peerGroupActive (conf : Conf) : Bool :=
  (conf.af .ip .unicast).afGroup || (conf.af .ip .multicast).afGroup ||
    (conf.af .ip .mplsVpn).afGroup
    || (conf.af .ip6 .unicast).afGroup || (conf.af .ip6 .multicast).afGroup

/-- The families. -/
def families : List (Afi × Safi) :=
  [(.ip, .unicast), (.ip, .multicast), (.ip, .mplsVpn), (.ip6, .unicast), (.ip6, .multicast),
    (.ip6, .mplsVpn)]

/-- `peer_rsclient_active`. -/
def peerRsclientActive (conf : Conf) : Bool :=
  families.any fun family =>
    (conf.af family.1 family.2).afFlags .rserverClient && !(conf.af family.1 family.2).afGroup

/-! ## Neighbours come and go -/

/-- The flags of a family that are set unless the options of Cisco are in force. -/
def defaultAfFlags (configCisco : Bool) : AfFlag → Bool
  | .sendCommunity | .sendExtCommunity => !configCisco
  | _ => false

/-- `peer_new`. -/
def peerNew (configCisco : Bool) : Conf where
  as := 0
  localAs := 0
  ttl := 0
  vConnect := 120
  vRouteadv := 0
  af := fun _ _ => { afFlags := defaultAfFlags configCisco }

/-- `BGP_DEFAULT_IBGP_ROUTEADV` and `BGP_DEFAULT_EBGP_ROUTEADV`. -/
def defaultRouteadv (sort : PeerSort) : Nat := if sort = .ibgp then 5 else 30

/-- The default TTL. -/
def defaultTtl (sort : PeerSort) : Nat := if sort = .ibgp then 255 else 1

/-- `peer_create`. -/
def peerCreate (c : Config) (localAs remoteAs : U32) (family : Option (Afi × Safi)) : Conf :=
  let conf := { peerNew c.configCisco with localAs := localAs, as := remoteAs }
  let sort := sortOf c.bgp conf
  let conf := { conf with vRouteadv := defaultRouteadv sort, ttl := defaultTtl sort }
  match family with
  | none => conf
  | some (afi, safi) => conf.setAf afi safi fun af => { af with afc := true }

/-- A neighbour is added. -/
def addPeer (c : Config) (su : SockUnion) (conf : Conf) : Config :=
  { c with peer := fun su' => if su' = su then some conf else c.peer su' }

/-- The template of a new group. -/
def newTemplate (c : Config) (name : String) : Conf :=
  let conf := { peerNew c.configCisco with ttl := 1, vRouteadv := 30, group := some name }
  if c.noDefaultIpv4 then conf else conf.setAf .ip .unicast fun af => { af with afc := true }

/-- `peer_group_get`. -/
def peerGroupGet (c : Config) (name : String) : Config :=
  match c.group name with
  | some _ => c
  | none =>
    { c with
      group := fun name' => if name' = name then some ⟨newTemplate c name, []⟩ else c.group name' }

/-- `peer_af_flag_reset`. -/
def peerAfFlagReset (configCisco : Bool) (af : AfConf) : AfConf :=
  { af with
    dlist := fun _ => none
    plist := fun _ => none
    aslist := fun _ => none
    map := fun _ => none
    usmap := none
    afFlags := defaultAfFlags configCisco
    defaultRmap := none
    pmax := 0
    pmaxThreshold := 75 }

/-- `peer_global_config_reset`. -/
def peerGlobalConfigReset (bgp : Bgp) (conf : Conf) : Conf :=
  let sort := sortOf bgp conf
  { conf with
    weight := 0
    changeLocalAs := 0
    ttl := defaultTtl sort
    updateSource := none
    updateIf := none
    vRouteadv := defaultRouteadv sort
    flags := fun _ => false
    config := fun _ => false
    holdtime := 0
    keepalive := 0
    connect := 0
    vConnect := 120 }

/-- `peer_delete` of a neighbour. -/
def peerDelete (c : Config) (su : SockUnion) : Config :=
  match c.peer su with
  | none => c
  | some conf =>
    { c with
      peer := fun su' => if su' = su then none else c.peer su'
      group := fun name =>
        if conf.group = some name then
          (c.group name).map fun group => { group with peer := group.peer.erase su }
        else c.group name
      rsclient := if peerRsclientActive conf then c.rsclient.erase (.peer su) else c.rsclient }

/-- `peer_group_delete`. -/
def peerGroupDelete (c : Config) (name : String) : Config :=
  match c.group name with
  | none => c
  | some group =>
    let c := group.peer.foldl (fun c su =>
      peerDelete (c.modify (.peer su) fun conf => { conf with group := none }) su) c
    { c with
      group := fun name' => if name' = name then none else c.group name'
      rsclient :=
        if peerRsclientActive group.conf then c.rsclient.erase (.group name) else c.rsclient }

/-- `peer_group_remote_as_delete`. -/
def peerGroupRemoteAsDelete (c : Config) (name : String) : Config :=
  match c.group name with
  | none => c
  | some group =>
    if group.conf.as = 0 then c
    else
      let c := group.peer.foldl (fun c su =>
        peerDelete (c.modify (.peer su) fun conf => { conf with group := none }) su) c
      { c with
        group := fun name' =>
          if name' = name then some ⟨{ group.conf with as := 0 }, []⟩ else c.group name' }

/-! ## AS numbers -/

/-- The families in which `peer_as_change` resets the reflector client. -/
def resetsReflector : Afi → Safi → Bool
  | .ip6, .mplsVpn => false
  | _, _ => true

/-- The AS number a neighbour sees: within a confederation that of the confederation, but
for its members. -/
def localAsFor (bgp : Bgp) (as : U32) : U32 :=
  if bgp.confederation ∧ as ∉ bgp.confedPeers ∧ bgp.as ≠ as then bgp.confedId else bgp.as

/-- A neighbour gets another AS number. -/
def renumber (bgp : Bgp) (as : U32) (conf : Conf) : Conf :=
  { conf with as, localAs := localAsFor bgp as }

/-- A neighbour that is not internal is no client of the reflector. -/
def resetReflectors (conf : Conf) : Conf :=
  { conf with
    af := fun afi safi =>
      { conf.af afi safi with
        afFlags := fun flag =>
          if flag = .reflectorClient ∧ resetsReflector afi safi then false
          else (conf.af afi safi).afFlags flag } }

/-- The flag against prepending the local AS number goes. -/
def prependLocalAs (conf : Conf) : Conf :=
  { conf with flags := fun flag => if flag = .localAsNoPrepend then false else conf.flags flag }

/-- `peer_as_change` of a neighbour or a template with the given configuration. -/
def peerAsChange (c : Config) (t : Target) (conf : Conf) (as : U32) : Conf :=
  let type := confSort c t conf
  let conf := renumber c.bgp as conf
  let sort := confSort c t conf
  let conf :=
    { conf with
      vRouteadv := defaultRouteadv sort
      ttl := if sort = .ibgp then 255 else if type = .ibgp then 1 else conf.ttl }
  let conf := if sort ≠ .ibgp then resetReflectors conf else conf
  if sort ≠ .ebgp then { prependLocalAs conf with changeLocalAs := 0 } else conf

/-- `peer_remote_as`. -/
def peerRemoteAs (c : Config) (su : SockUnion) (as : U32) (afi : Afi) (safi : Safi) : Outcome :=
  match c.peer su with
  | some conf =>
    let refused : Option Error :=
      match conf.group.bind c.group with
      | none => none
      | some group =>
        if group.conf.as ≠ 0 then some .peerGroupMember
        else if confSort c (.group (conf.group.getD "")) group.conf = .ibgp then
          if c.bgp.as ≠ as then some .peerGroupPeerTypeDifferent else none
        else if c.bgp.as = as then some .peerGroupPeerTypeDifferent else none
    match refused with
    | some error => (c, some error)
    | none =>
      if conf.as ≠ as then (c.modify (.peer su) fun conf => peerAsChange c (.peer su) conf as, none)
      else (c, none)
  | none =>
    let family := if c.noDefaultIpv4 ∧ afi = .ip ∧ safi = .unicast then none else some (afi, safi)
    (addPeer c su (peerCreate c (localAsFor c.bgp as) as family), none)

/-- `peer_group_remote_as`. -/
def peerGroupRemoteAs (c : Config) (name : String) (as : U32) : Config :=
  match c.group name with
  | none => c
  | some group =>
    if group.conf.as = as then c
    else
      let c := c.modify (.group name) fun conf => peerAsChange c (.group name) conf as
      { c with
        peer := fun su =>
          if su ∈ c.members name then
            (c.peer su).map fun conf => if conf.as ≠
              as then peerAsChange c (.peer su) conf as else conf
          else c.peer su }

/-! ## Families -/

/-- `peer_activate`. -/
def peerActivate (c : Config) (t : Target) (afi : Afi) (safi : Safi) : Config :=
  c.modify t fun conf => conf.setAf afi safi fun af => { af with afc := true }

/-- The errors of `peer_deactivate`. -/
def peerDeactivateRefused (c : Config) (t : Target) (conf : Conf) (afi : Afi) (safi : Safi) :
    Option Error :=
  match t with
  | .group name =>
    if (c.members name).any fun su => (c.peer su).any fun conf => (conf.af afi safi).afGroup then
      some .peerGroupMemberExists
    else none
  | .peer _ => if (conf.af afi safi).afGroup then some .peerBelongsToGroup else none

/-- `peer_deactivate`. -/
def peerDeactivate (c : Config) (t : Target) (afi : Afi) (safi : Safi) : Outcome :=
  match c.conf t with
  | none => (c, none)
  | some conf =>
    match peerDeactivateRefused c t conf afi safi with
    | some error => (c, some error)
    | none =>
      if !(conf.af afi safi).afc then (c, none)
      else
        (c.modify t fun conf => conf.setAf afi safi fun af =>
          peerAfFlagReset c.configCisco { af with afc := false }, none)

/-! ## Groups -/

/-- `peer_group2peer_config_copy`. -/
def peerGroup2peerConfigCopy (bgp : Bgp) (conf peer : Conf) (afi : Afi) (safi : Safi) : Conf :=
  let g := conf.af afi safi
  let as := if conf.as ≠ 0 then conf.as else peer.as
  let source : Option SockUnion × Option String :=
    match conf.updateSource, conf.updateIf with
    | some updateSource, _ => (some updateSource, none)
    | none, some updateIf => (none, some updateIf)
    | none, none => (peer.updateSource, peer.updateIf)
  let peer :=
    { peer with
      as
      changeLocalAs := if conf.changeLocalAs ≠ 0 then conf.changeLocalAs else peer.changeLocalAs
      ttl := conf.ttl
      gtsmHops := conf.gtsmHops
      weight := conf.weight
      flags := conf.flags
      config := conf.config
      holdtime := conf.holdtime
      keepalive := conf.keepalive
      connect := conf.connect
      vConnect := if conf.config .connect then conf.connect else 120
      vRouteadv := defaultRouteadv (sortOf bgp { peer with as })
      password := conf.password
      updateSource := source.1
      updateIf := source.2 }
  peer.setAf afi safi fun p =>
    { p with
      afFlags := g.afFlags
      pmax := g.pmax
      pmaxThreshold := g.pmaxThreshold
      pmaxRestart := g.pmaxRestart
      allowasIn := g.allowasIn
      rib := if g.afFlags .rserverClient then g.rib else p.rib
      defaultRmap := g.defaultRmap.orElse fun _ => p.defaultRmap
      -- what comes in and is exported is taken where the neighbour has nothing of its own
      dlist := fun
        | .filterIn => (p.dlist .filterIn).orElse fun _ => g.dlist .filterIn
        | .filterOut => g.dlist .filterOut
      plist := fun
        | .filterIn => (p.plist .filterIn).orElse fun _ => g.plist .filterIn
        | .filterOut => g.plist .filterOut
      aslist := fun
        | .filterIn => (p.aslist .filterIn).orElse fun _ => g.aslist .filterIn
        | .filterOut => g.aslist .filterOut
      map := fun
        | .rmapIn => (p.map .rmapIn).orElse fun _ => g.map .rmapIn
        | .rmapOut => g.map .rmapOut
        | .rmapImport => g.map .rmapImport
        | .rmapExport => (p.map .rmapExport).orElse fun _ => g.map .rmapExport
      usmap := g.usmap }

/-- A neighbour is put at the end of a group's list. -/
def Config.join (c : Config) (name : String) (su : SockUnion) : Config :=
  { c with
    group := fun name' =>
      if name' = name then (c.group name').map fun group =>
        { group with peer := group.peer ++ [su] }
      else c.group name' }

/-- A neighbour is taken from a group's list. -/
def Config.leave (c : Config) (name : String) (su : SockUnion) : Config :=
  { c with
    group := fun name' =>
      if name' = name then (c.group name').map fun group =>
        { group with peer := group.peer.erase su }
      else c.group name' }

/-- What the first member makes of a template without an AS number. -/
def firstMember (sort : PeerSort) (conf : Conf) : Conf :=
  { conf with
    vRouteadv := defaultRouteadv sort
    ttl := if sort = .ibgp then 255 else conf.ttl
    changeLocalAs := if sort ≠ .ebgp then 0 else conf.changeLocalAs }

/-- A route-server client that becomes a member gives up its own table. -/
def giveUpTable (serves : Bool) (af : AfConf) : AfConf :=
  if af.afFlags .rserverClient then
    { af with
      rib := none
      map := fun
        | .rmapImport => none
        | .rmapExport => if serves then af.map .rmapExport else none
        | slot => af.map slot }
  else af

/-- `peer_group_bind` of a neighbour that is there, once nothing speaks against it. -/
def bindPeer (c : Config) (su : SockUnion) (conf : Conf) (name : String) (group : Group) (afi : Afi)
    (safi : Safi) : Config :=
  let bgp := c.bgp
  let first := group.conf.as = 0 ∧ confSort c (.group name) group.conf = .internal
  let c := if conf.group = none then c.join name su else c
  let conf :=
    { conf.setAf afi safi fun af => { af with afGroup := true, afc := true } with
      group := some (conf.group.getD name) }
  let c := c.modify (.peer su) fun _ => conf
  let sort := confSort c (.group name) group.conf
  let c := if first then c.modify (.group name) (firstMember sort) else c
  let conf := if first ∧ sort ≠ .ebgp then prependLocalAs conf else conf
  let leaves := (conf.af afi safi).afFlags .rserverClient ∧ !peerRsclientActive conf
  let c := if leaves then { c with rsclient := c.rsclient.erase (.peer su) } else c
  let conf := conf.setAf afi safi (giveUpTable ((group.conf.af afi safi).afFlags .rserverClient))
  let template := if first then firstMember sort group.conf else group.conf
  c.modify (.peer su) fun _ => peerGroup2peerConfigCopy bgp template conf afi safi

/-- `peer_group_bind`. -/
def peerGroupBind (c : Config) (su : SockUnion) (name : String) (afi : Afi) (safi : Safi) :
    Outcome :=
  match c.group name with
  | none => (c, none)
  | some group =>
    if !(group.conf.af afi safi).afc then (c, some .peerGroupAfUnconfigured)
    else
      match c.peer su with
      | none =>
        if group.conf.as = 0 then (c, some .peerGroupNoRemoteAs)
        else
          let conf := peerCreate c c.bgp.as group.conf.as (some (afi, safi))
          let conf :=
            { conf.setAf afi safi fun af => { af with afGroup := true } with group := some name }
          (addPeer (c.join name su) su (peerGroup2peerConfigCopy c.bgp group.conf conf afi safi),
            none)
      | some conf =>
        let sort := confSort c (.group name) group.conf
        if (conf.af afi safi).afGroup then
          (c, if conf.group = some name then none else some .peerGroupCantChange)
        else if peerGroupActive conf ∧ conf.group ≠ some name then (c, some .peerGroupMismatch)
        else if group.conf.as = 0 ∧ sort ≠ .internal ∧ sort ≠ sortOf c.bgp conf then
          (c, some .peerGroupPeerTypeDifferent)
        else (bindPeer c su conf name group afi safi, none)

/-- What a neighbour keeps of a family in which it leaves its group. -/
def leaveFamily (configCisco : Bool) (afi : Afi) (safi : Safi) (conf : Conf) : Conf :=
  conf.setAf afi safi fun af =>
    { peerAfFlagReset configCisco { af with afGroup := false, afc := false } with rib := none }

/-- `peer_group_unbind`. -/
def peerGroupUnbind (c : Config) (su : SockUnion) (name : String) (afi : Afi) (safi : Safi) :
    Outcome :=
  match c.peer su, c.group name with
  | some conf, some group =>
    if !(conf.af afi safi).afGroup then (c, none)
    else if conf.group ≠ some name then (c, some .peerGroupMismatch)
    else
      let conf := leaveFamily c.configCisco afi safi conf
      let c := c.modify (.peer su) fun _ => conf
      if peerGroupActive conf then (c, none)
      else
        let c := (c.leave name su).modify (.peer su) fun conf => { conf with group := none }
        if group.conf.as ≠ 0 then (peerDelete c su, none)
        else (c.modify (.peer su) (peerGlobalConfigReset c.bgp), none)
  | _, _ => (c, none)

end Bgpd.PeerConfig
