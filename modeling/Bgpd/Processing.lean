import Bgpd.RsclientPolicy
import Bgpd.Selection

/-!
# Processing a queued node

A queued node is processed by the best-path selection. Where the selection or the
selected route's attributes changed, the new route goes to every neighbour, or to
the owner of a route-server client's table, and from the main unicast tables of
the default instance to zebra. A route that was removed is taken out here.

The interface a message to zebra names beside its next hop is left out.
-/

namespace Bgpd.Processing

open Prefixes Attributes Neighbors Announce RsclientPolicy Rib Selection

variable (env : Env)

/-- What the announcement checks read of a route. -/
def view (ri : BgpInfo) : RouteView := ⟨env.config ri.peer, ri.attr, ri.suppressed⟩

/-- The neighbour has a session for the family, and its first update is not put
off. -/
def receives (peer : Nat) (afi : Afi) (safi : Safi) : Bool :=
  (env.session peer).established && (env.session peer).afcNego afi safi
    && !(env.session peer).orfWaitRefresh afi safi

/-- The announcement check for the type of a node's table. -/
def announceCheck (s : State) (peer : Nat) (rn : Node) (ri : BgpInfo) : Option Attr :=
  let defaultOriginate := s.defaultOriginate peer rn.afi rn.safi
  match rn.table.type with
  | .main => bgpAnnounceCheck env.bgp (view env ri) (env.config peer) defaultOriginate rn.p rn.safi
  | .rsclient =>
    bgpAnnounceCheckRsclient env.bgp (view env ri) (env.config peer) defaultOriginate rn.p rn.safi

/-- `bgp_process_announce_selected`. -/
def bgpProcessAnnounceSelected (s : State) (peer : Nat) (selected : Option BgpInfo) (rn : Node) :
    State :=
  if receives env peer rn.afi rn.safi then
    match selected.bind (announceCheck env s peer rn) with
    | some attr => { s with log := .adjOutSet rn peer attr :: s.log }
    | none => { s with log := .adjOutUnset rn peer :: s.log }
  else s

/-! ## Messages to zebra -/

/-- The route is not on a connected network. -/
def distant (peer : Nat) : Bool :=
  (env.external peer && (env.config peer).ttl ≠ 1) || (env.config peer).disableConnectedCheck

/-- The flags of an announcement. -/
def announceFlags (peer : Nat) : ZebraFlags :=
  let inner : Bool :=
    peerSort env.bgp (env.config peer) = .ibgp ∨ peerSort env.bgp (env.config peer) = .confed
  ⟨inner, inner || distant env peer⟩

/-- The flags of a withdrawal, which tell routes of the confederation apart from
internal ones. -/
def withdrawFlags (peer : Nat) : ZebraFlags :=
  let inner : Bool := peerSort env.bgp (env.config peer) = .ibgp
  ⟨inner, inner || distant env peer⟩

/-- The next hop of an announcement. -/
def announcedNexthop (p : Prefix) (ri : BgpInfo) : Option ZebraNexthop :=
  let extra := ri.attr.extra.getD .zero
  match p.family with
  | .ip => some (.inet ri.attr.nexthop)
  | .ip6 =>
    if extra.mpNexthopLen = 16 then some (.inet6 extra.mpNexthopGlobal)
    else if extra.mpNexthopLen = 32 then
      match (env.config ri.peer).suRemote with
      | .inet6 address =>
        some (.inet6 (if extra.mpNexthopGlobal = 0 then address else extra.mpNexthopLocal))
      | .inet _ => some (.inet6 extra.mpNexthopLocal)
    else none

/-- The next hop of a withdrawal. -/
def withdrawnNexthop (p : Prefix) (ri : BgpInfo) : Option ZebraNexthop :=
  let extra := ri.attr.extra.getD .zero
  match p.family with
  | .ip => some (.inet ri.attr.nexthop)
  | .ip6 =>
    if extra.mpNexthopLen = 16 then some (.inet6 extra.mpNexthopGlobal)
    else if extra.mpNexthopLen = 32 then some (.inet6 extra.mpNexthopLocal)
    else none

/-- `bgp_zebra_announce`. Only IPv4 routes carry a distance. -/
def bgpZebraAnnounce (s : State) (rn : Node) (ri : BgpInfo) : State :=
  if !env.zebraUp then s
  else
    match announcedNexthop env rn.p ri with
    | none => s
    | some nexthop =>
      let distance := env.distance rn.p ri
      let distance := if rn.p.family = .ip ∧ distance ≠ 0 then some distance else none
      { s with
        log := .zebraAdd rn ⟨announceFlags env ri.peer, nexthop, ri.attr.med, distance⟩ :: s.log }

/-- `bgp_zebra_withdraw`: the next hop is that of the route as it is now. -/
def bgpZebraWithdraw (s : State) (rn : Node) (ri : BgpInfo) : State :=
  if !env.zebraUp then s
  else
    match withdrawnNexthop rn.p ri with
    | none => s
    | some nexthop =>
      { s with
        log := .zebraDelete rn ⟨withdrawFlags env ri.peer, nexthop, ri.attr.med, none⟩ :: s.log }

/-- A route learned from a neighbour, which is what goes to zebra. -/
def BgpInfo.learned (ri : BgpInfo) : Bool := ri.type = .bgp && ri.subType = .normal

/-- Routes of the node go to zebra. -/
def fibNode (rn : Node) : Bool := rn.safi = .unicast && !env.bgp.named && !env.noFib

/-- The FIB part of `bgp_process_main`. -/
def fibUpdate (s : State) (rn : Node) (old new : Option BgpInfo) : State :=
  if fibNode env rn then
    match new.filter BgpInfo.learned with
    | some ri => bgpZebraAnnounce env s rn ri
    | none =>
      match old.filter BgpInfo.learned with
      | some ri => bgpZebraWithdraw env s rn ri
      | none => s
  else s

/-! ## The queues -/

/-- The flags of the old and the new selection change places. -/
def markSelected (s : State) (rn : Node) (old new : Option Nat) : State :=
  let s :=
    match old with
    | some id => bgpInfoUnsetFlag env s rn id .selected
    | none => s
  match new with
  | some id => bgpInfoUnsetFlag env (bgpInfoSetFlag env s rn id .selected) rn id .attrChanged
  | none => s

/-- The old selection is taken out if it was removed. -/
def reapRemoved (s : State) (rn : Node) (old : Option Nat) : State :=
  match old.bind (s.info? rn) with
  | some ri => if ri.flags.removed then bgpInfoReap s rn ri.id else s
  | none => s

/-- The selection is what it was, and its attributes too. -/
def unchanged (s : State) (rn : Node) (old new : Option Nat) : Bool :=
  match old.bind (s.info? rn) with
  | some ri => old = new && !ri.flags.attrChanged
  | none => false

/-- `bgp_process_main`. -/
def bgpProcessMain (s : State) (rn : Node) : State :=
  let selected := bgpBestSelection env (s.infos rn)
  let s := { s with infos := replace s.infos rn selected.infos }
  if unchanged s rn selected.old selected.new then
    match selected.old.bind (s.info? rn) with
    | some ri => if ri.flags.igpChanged then bgpZebraAnnounce env s rn ri else s
    | none => s
  else
    let s := markSelected env s rn selected.old selected.new
    let old := selected.old.bind (s.info? rn)
    let new := selected.new.bind (s.info? rn)
    let s := env.peers.foldl (fun s peer => bgpProcessAnnounceSelected env s peer new rn) s
    let s := fibUpdate env s rn old new
    reapRemoved s rn selected.old

/-- `bgp_process_rsclient`. For a group, every member after the first finds the
changed flag cleared. -/
def bgpProcessRsclient (s : State) (rn : Node) : State :=
  let selected := bgpBestSelection env (s.infos rn)
  let s := { s with infos := replace s.infos rn selected.infos }
  let announce (s : State) (peer : Nat) : State :=
    let s := markSelected env s rn selected.old selected.new
    bgpProcessAnnounceSelected env s peer (selected.new.bind (s.info? rn)) rn
  let s :=
    match rn.table.owner with
    | none => s
    | some owner =>
      match env.group owner with
      | some members =>
        members.foldl
          (fun s peer => if unchanged s rn selected.old selected.new then s else announce s peer) s
      | none => announce s owner
  reapRemoved s rn selected.old

/-! ## What a turn keeps -/

section Turn

variable {P Q : State → Prop} {s : State} {rn : Node}

/-- What the selection and every step behind it keep holds when `bgp_process_main`
returns. -/
theorem bgpProcessMain_induct
    (start : P { s with infos := replace s.infos rn (bgpBestSelection env (s.infos rn)).infos })
    (marked : ∀ s old new, P s → P (markSelected env s rn old new))
    (told : ∀ s peer new, P s → P (bgpProcessAnnounceSelected env s peer new rn))
    (zebra : ∀ s ri, P s → P (bgpZebraAnnounce env s rn ri))
    (fib : ∀ s old new, P s → P (fibUpdate env s rn old new))
    (reaped : ∀ s old, P s → P (reapRemoved s rn old)) :
    P (bgpProcessMain env s rn) := by
  unfold bgpProcessMain
  dsimp only
  split
  · split
    · split
      · exact zebra _ _ start
      · exact start
    · exact start
  · apply reaped
    apply fib
    exact List.foldlRecOn _ _ (marked _ _ _ start) fun s kept peer _ => told s peer _ kept

/-- For `bgp_process_rsclient`: what the marks and the announcement to each client keep
holds of the state in which the old selection is taken out. -/
theorem bgpProcessRsclient_induct {selected : Selected}
    (choice : bgpBestSelection env (s.infos rn) = selected)
    (start : P { s with infos := replace s.infos rn selected.infos })
    (told : ∀ s peer owner, rn.table.owner = some owner →
      peer ∈ (env.group owner).getD [owner] → P s →
        P (bgpProcessAnnounceSelected env (markSelected env s rn selected.old selected.new) peer
          (selected.new.bind ((markSelected env s rn selected.old selected.new).info? rn)) rn))
    (reaped : ∀ s, P s → Q (reapRemoved s rn selected.old)) :
    Q (bgpProcessRsclient env s rn) := by
  subst choice
  apply reaped
  split
  · exact start
  · rename_i owner owned
    split
    · rename_i members grouped
      refine List.foldlRecOn members _ start fun s kept peer member => ?_
      split
      · exact kept
      · exact told s peer owner owned (by rwa [grouped]) kept
    · rename_i alone
      exact told _ owner owner owned (by simp [alone]) start

end Turn
/-! ## Turns of the queues -/

/-- The next node of the main queue is processed. -/
def runMainQueue (s : State) : State :=
  match s.mainQueue with
  | [] => s
  | rn :: later => bgpProcessMain env { s with mainQueue := later } rn

/-- The next node of the queue of the route-server clients is processed. -/
def runRsclientQueue (s : State) : State :=
  match s.rsclientQueue with
  | [] => s
  | rn :: later => bgpProcessRsclient env { s with rsclientQueue := later } rn

end Bgpd.Processing
