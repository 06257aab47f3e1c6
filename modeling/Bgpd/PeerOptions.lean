import Bgpd.PeerConfig

/-!
# Setting and unsetting options

Each option is set on a neighbour, or on the template of a group and then on its members.
What a member may not set on its own, and what it may not unset while the group has it, is
checked on the member only when the command is about the member.
-/

namespace Bgpd.PeerOptions

open Octets Prefixes Neighbors PeerConfig

/-! ## A template and its members -/

/-- A neighbour is changed, or a template and then, in the loop over the list, each of
the members. -/
def spread (c : Config) (t : Target) (own members : Conf → Conf) : Config :=
  match t with
  | .peer _ => c.modify t own
  | .group name => (c.modify t own).eachMember name members

/-- The loop leaves out members that are not bound in the family. -/
def ifBound (afi : Afi) (safi : Safi) (change : Conf → Conf) (conf : Conf) : Conf :=
  if (conf.af afi safi).afGroup then change conf else conf

/-- The loop leaves out internal members. -/
def ifExternal (bgp : Bgp) (change : Conf → Conf) (conf : Conf) : Conf :=
  if sortOf bgp conf = .ibgp then conf else change conf

/-- Whether one of the members that are not internal has some property. -/
def anyExternal (c : Config) (name : String) (has : Conf → Bool) : Bool :=
  (c.members name).any fun su => (c.peer su).any fun conf => sortOf c.bgp conf ≠ .ibgp && has conf

/-- A neighbour, or a template or one of the members that are not internal, has some
property. -/
def anyOf (c : Config) (t : Target) (conf : Conf) (has : Conf → Bool) : Bool :=
  has conf ||
    match t with
    | .group name => anyExternal c name has
    | .peer _ => false

/-- The template of a neighbour's group. -/
def groupConf (c : Config) (conf : Conf) : Option Conf := (conf.group.bind c.group).map Group.conf

/-! ## Flags -/

/-- A mask is set or unset in a word of flags. -/
def putFlags {Flag : Type} [DecidableEq Flag] (mask : List Flag) (set : Bool)
    (flags : Flag → Bool) :
    Flag → Bool := fun flag => if flag ∈ mask then set else flags flag

/-- The flags of `peer_flag_action_list`. -/
def peerFlagAction : PeerFlag → Bool
  | .localAsNoPrepend => false
  | _ => true

/-- The errors of `peer_flag_modify`. -/
def peerFlagRefused (c : Config) (conf : Conf) (mask : List PeerFlag) (set : Bool) : Option Error :=
  if !mask.any peerFlagAction then some .invalidFlag
  else if !set ∧ peerGroupActive conf ∧
    (groupConf c conf).any (fun group => mask.any group.flags) then
    some (if mask = [.shutdown] then .peerGroupShutdown else .peerGroupHasTheFlag)
  else if set ∧ putFlags mask true conf.flags .strictCapMatch ∧
      putFlags mask true conf.flags .overrideCapability then
    some .peerFlagConflict
  else none

/-- `peer_flag_modify`. -/
def peerFlagModify (c : Config) (t : Target) (mask : List PeerFlag) (set : Bool) : Outcome :=
  match c.conf t with
  | none => (c, none)
  | some conf =>
    match peerFlagRefused c conf mask set with
    | some error => (c, some error)
    | none =>
      let change (conf : Conf) : Conf := { conf with flags := putFlags mask set conf.flags }
      (spread c t change change, none)

/-- The flags of `peer_af_flag_action_list`. -/
def peerAfFlagAction : AfFlag → Bool
  | .defaultOriginate | .maxPrefix | .maxPrefixWarning => false
  | _ => true

/-- The flags of `peer_af_flag_action_list` that are not for members. -/
def notForMember : AfFlag → Bool
  | .softReconfig | .allowasIn | .nexthopLocalUnchanged => false
  | flag => peerAfFlagAction flag

/-- The flags of a family are changed. -/
def putAfFlags (afi : Afi) (safi : Safi) (mask : List AfFlag) (set : Bool) (conf : Conf) : Conf :=
  conf.setAf afi safi fun af => { af with afFlags := putFlags mask set af.afFlags }

/-- The errors of `peer_af_flag_modify`. -/
def peerAfFlagRefused (c : Config) (t : Target) (conf : Conf) (afi : Afi) (safi : Safi)
    (mask : List AfFlag) (set : Bool) : Option Error :=
  let af := conf.af afi safi
  if !mask.any peerAfFlagAction then some .invalidFlag
  else if !af.afc then some .peerInactive
  else if mask.any notForMember ∧ af.afGroup then some .invalidForPeerGroupMember
  else if .reflectorClient ∈ mask ∧ confSort c t conf ≠ .ibgp then some .notInternalPeer
  else if .removePrivateAs ∈ mask ∧ confSort c t conf = .ibgp then some .removePrivateAs
  else if !set ∧ af.afGroup ∧
      (groupConf c conf).any (fun group => mask.any (group.af afi safi).afFlags) then
    some .peerGroupHasTheFlag
  else none

/-- `peer_af_flag_modify`. -/
def peerAfFlagModify (c : Config) (t : Target) (afi : Afi) (safi : Safi) (mask : List AfFlag)
    (set : Bool) : Outcome :=
  match c.conf t with
  | none => (c, none)
  | some conf =>
    match peerAfFlagRefused c t conf afi safi mask set with
    | some error => (c, some error)
    | none =>
      let change := putAfFlags afi safi mask set
      (spread c t change (ifBound afi safi change), none)

/-! ## The number of hops -/

/-- `peer_ebgp_multihop_set`. -/
def peerEbgpMultihopSet (c : Config) (t : Target) (ttl : Nat) : Outcome :=
  match c.conf t with
  | none => (c, none)
  | some conf =>
    if confSort c t conf = .ibgp then (c, none)
    else
      if ttl ≠ maxttl ∧ anyOf c t conf fun conf => conf.gtsmHops ≠ 0 then
        (c, some .noEbgpMultihopWithTtlhack)
      else
        let change (conf : Conf) : Conf := { conf with ttl }
        (spread c t change (ifExternal c.bgp change), none)

/-- `peer_ebgp_multihop_unset`. -/
def peerEbgpMultihopUnset (c : Config) (t : Target) : Outcome :=
  match c.conf t with
  | none => (c, none)
  | some conf =>
    if confSort c t conf = .ibgp then (c, none)
    else if conf.gtsmHops ≠ 0 ∧ conf.ttl ≠ maxttl then (c, some .noEbgpMultihopWithTtlhack)
    else
      let ttl :=
        if peerGroupActive conf then ((groupConf c conf).map Conf.ttl).getD 1 else 1
      (spread c t (fun conf => { conf with ttl }) (ifExternal c.bgp fun conf =>
        { conf with ttl := 1 }), none)

/-- `peer_ttl_security_hops_set`. -/
def peerTtlSecurityHopsSet (c : Config) (t : Target) (gtsmHops : Nat) : Outcome :=
  match c.conf t with
  | none => (c, none)
  | some conf =>
    if confSort c t conf = .ibgp then (c, some .noIbgpWithTtlhack)
    else
      let prepared : Outcome :=
        if conf.gtsmHops = 0 then
          if anyOf c t conf fun conf => conf.ttl ≠ 1 then (c, some .noEbgpMultihopWithTtlhack)
          else peerEbgpMultihopSet c t maxttl
        else (c, none)
      match prepared with
      | (c, some error) => (c, some error)
      | (c, none) =>
        let change (conf : Conf) : Conf := { conf with gtsmHops }
        (spread c t change (ifExternal c.bgp change), none)

/-- `peer_ttl_security_hops_unset`. -/
def peerTtlSecurityHopsUnset (c : Config) (t : Target) : Outcome :=
  match c.conf t with
  | none => (c, none)
  | some conf =>
    if confSort c t conf = .ibgp then (c, none)
    else
      let gtsmHops :=
        if peerGroupActive conf then ((groupConf c conf).map Conf.gtsmHops).getD 0 else 0
      peerEbgpMultihopUnset (spread c t (fun conf => { conf with gtsmHops })
        (ifExternal c.bgp fun conf => { conf with gtsmHops := 0 })) t

/-! ## The local AS number in paths that come in -/

/-- A number of times is allowed where another one was. -/
def allowAsIn (afi : Afi) (safi : Safi) (allowNum : Nat) (conf : Conf) : Conf :=
  conf.setAf afi safi fun af =>
    if af.allowasIn ≠ allowNum then
      { af with allowasIn := allowNum, afFlags := putFlags [.allowasIn] true af.afFlags }
    else af

/-- `peer_allowas_in_set`. -/
def peerAllowasInSet (c : Config) (t : Target) (afi : Afi) (safi : Safi) (allowNum : Nat) :
    Outcome :=
  if allowNum < 1 ∨ 10 < allowNum then (c, some .invalidValue)
  else (spread c t (allowAsIn afi safi allowNum) (allowAsIn afi safi allowNum), none)

/-- The number goes where the flag is set, and then the flag, unless that is refused. -/
def disallowAsIn (c : Config) (t : Target) (afi : Afi) (safi : Safi) : Config :=
  if (c.conf t).any fun conf => (conf.af afi safi).afFlags .allowasIn then
    let c := c.modify t fun conf => conf.setAf afi safi fun af => { af with allowasIn := 0 }
    (peerAfFlagModify c t afi safi [.allowasIn] false).1
  else c

/-- `peer_allowas_in_unset`. -/
def peerAllowasInUnset (c : Config) (t : Target) (afi : Afi) (safi : Safi) : Config :=
  let c := disallowAsIn c t afi safi
  match t with
  | .peer _ => c
  | .group name => (c.members name).foldl (fun c su => disallowAsIn c (.peer su) afi safi) c

/-! ## Lists -/

/-- The lists that filter by prefix. -/
inductive FilterKind
  | dlist
  | plist
  deriving DecidableEq, Repr

/-- The other one of the two. -/
def FilterKind.other : FilterKind → FilterKind
  | .dlist => .plist
  | .plist => .dlist

/-- The list of a kind in a direction. -/
def filterOf (af : AfConf) : FilterKind → Direct → Option String
  | .dlist => af.dlist
  | .plist => af.plist

/-- A list is bound, or unbound. -/
def putFilter (kind : FilterKind) (direct : Direct) (name : Option String) (af : AfConf) : AfConf :=
  match kind with
  | .dlist => { af with dlist := fun direct' =>
      if direct' = direct then name else af.dlist direct' }
  | .plist => { af with plist := fun direct' =>
      if direct' = direct then name else af.plist direct' }

/-- A list is bound on a neighbour or a template, and on the members of the group in the
family. -/
def bindFilter (c : Config) (t : Target) (afi : Afi) (safi : Safi) (kind : FilterKind)
    (direct : Direct) (name : Option String) : Config :=
  let change (conf : Conf) := conf.setAf afi safi (putFilter kind direct name)
  spread c t change (ifBound afi safi change)

/-- `peer_distribute_set` and `peer_prefix_list_set`. -/
def peerFilterSet (kind : FilterKind) (c : Config) (t : Target) (afi : Afi) (safi : Safi)
    (direct : Direct) (name : String) : Outcome :=
  match c.conf t with
  | none => (c, none)
  | some conf =>
    let af := conf.af afi safi
    if !af.afc then (c, some .peerInactive)
    else if direct = .filterOut ∧ af.afGroup then (c, some .invalidForPeerGroupMember)
    else if (filterOf af kind.other direct).isSome then (c, some .peerFilterConflict)
    else (bindFilter c t afi safi kind direct (some name), none)

/-- `peer_distribute_unset` and `peer_prefix_list_unset`. -/
def peerFilterUnset (kind : FilterKind) (c : Config) (t : Target) (afi : Afi) (safi : Safi)
    (direct : Direct) : Outcome :=
  match c.conf t with
  | none => (c, none)
  | some conf =>
    let af := conf.af afi safi
    if !af.afc then (c, some .peerInactive)
    else if direct = .filterOut ∧ af.afGroup then (c, some .invalidForPeerGroupMember)
    else
      -- a member gets the list of its group back
      let ofGroup := if af.afGroup then
        (groupConf c conf).bind fun group => filterOf (group.af afi safi) kind direct else none
      match ofGroup with
      | some name =>
        (c.modify t fun conf => conf.setAf afi safi (putFilter kind direct (some name)), none)
      | none => (bindFilter c t afi safi kind direct none, none)

/-- `peer_distribute_set`. -/
def peerDistributeSet := peerFilterSet .dlist

/-- `peer_distribute_unset`. -/
def peerDistributeUnset := peerFilterUnset .dlist

/-- `peer_prefix_list_set`. -/
def peerPrefixListSet := peerFilterSet .plist

/-- `peer_prefix_list_unset`. -/
def peerPrefixListUnset := peerFilterUnset .plist

/-! ## Commands -/

/-- A command on the configuration. -/
inductive Command
  | peerGroup (name : String)
  | remoteAs (su : SockUnion) (as : U32) (afi : Afi) (safi : Safi)
  | groupRemoteAs (name : String) (as : U32)
  | noGroupRemoteAs (name : String)
  | noPeer (su : SockUnion)
  | noPeerGroup (name : String)
  | activate (t : Target) (afi : Afi) (safi : Safi)
  | deactivate (t : Target) (afi : Afi) (safi : Safi)
  | bind (su : SockUnion) (name : String) (afi : Afi) (safi : Safi)
  | unbind (su : SockUnion) (name : String) (afi : Afi) (safi : Safi)
  | flag (t : Target) (mask : List PeerFlag) (set : Bool)
  | afFlag (t : Target) (afi : Afi) (safi : Safi) (mask : List AfFlag) (set : Bool)
  | multihop (t : Target) (ttl : Nat)
  | noMultihop (t : Target)
  | ttlSecurity (t : Target) (gtsmHops : Nat)
  | noTtlSecurity (t : Target)
  | allowasIn (t : Target) (afi : Afi) (safi : Safi) (allowNum : Nat)
  | noAllowasIn (t : Target) (afi : Afi) (safi : Safi)
  | distribute (t : Target) (afi : Afi) (safi : Safi) (direct : Direct) (name : String)
  | noDistribute (t : Target) (afi : Afi) (safi : Safi) (direct : Direct)
  | prefixList (t : Target) (afi : Afi) (safi : Safi) (direct : Direct) (name : String)
  | noPrefixList (t : Target) (afi : Afi) (safi : Safi) (direct : Direct)

/-- What a command leaves. -/
def step (c : Config) : Command → Config
  | .peerGroup name => peerGroupGet c name
  | .remoteAs su as afi safi => (peerRemoteAs c su as afi safi).1
  | .groupRemoteAs name as => peerGroupRemoteAs c name as
  | .noGroupRemoteAs name => peerGroupRemoteAsDelete c name
  | .noPeer su => peerDelete c su
  | .noPeerGroup name => peerGroupDelete c name
  | .activate t afi safi => peerActivate c t afi safi
  | .deactivate t afi safi => (peerDeactivate c t afi safi).1
  | .bind su name afi safi => (peerGroupBind c su name afi safi).1
  | .unbind su name afi safi => (peerGroupUnbind c su name afi safi).1
  | .flag t mask set => (peerFlagModify c t mask set).1
  | .afFlag t afi safi mask set => (peerAfFlagModify c t afi safi mask set).1
  | .multihop t ttl => (peerEbgpMultihopSet c t ttl).1
  | .noMultihop t => (peerEbgpMultihopUnset c t).1
  | .ttlSecurity t gtsmHops => (peerTtlSecurityHopsSet c t gtsmHops).1
  | .noTtlSecurity t => (peerTtlSecurityHopsUnset c t).1
  | .allowasIn t afi safi allowNum => (peerAllowasInSet c t afi safi allowNum).1
  | .noAllowasIn t afi safi => peerAllowasInUnset c t afi safi
  | .distribute t afi safi direct name => (peerDistributeSet c t afi safi direct name).1
  | .noDistribute t afi safi direct => (peerDistributeUnset c t afi safi direct).1
  | .prefixList t afi safi direct name => (peerPrefixListSet c t afi safi direct name).1
  | .noPrefixList t afi safi direct => (peerPrefixListUnset c t afi safi direct).1

end Bgpd.PeerOptions
