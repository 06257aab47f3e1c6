import Bgpd.Processing
import Bgpd.Updates

/-!
# What happens to the tables

Messages, configuration, timers and the queues all end in a call of one function
on the tables. A run is any sequence of such calls.
-/

namespace Bgpd.Actions

open Octets Prefixes Attributes Rib Aggregation Updates Processing

/-- A route as it comes in a message: every caller of `bgp_update` and `bgp_withdraw`
names it a normal BGP route. -/
structure Received extends UpdateCall where
  bgp : type = .bgp
  normal : subType = .normal

/-- The calls. -/
inductive Action
  | update (w : World) (call : Received)
  | withdraw (w : World) (call : Received)
  | networkSet (w : World) (bgpStatic : BgpStatic) (p : Prefix) (safi : Safi)
  | networkUnset (p : Prefix) (safi : Safi)
  | vpnSet (w : World) (p : Prefix) (prd : BitVec 64) (tag : List U8)
  | vpnUnset (p : Prefix) (prd : BitVec 64)
  | redistributeAdd (w : World) (p : Prefix) (redist : Redistribution)
  | redistributeDelete (p : Prefix) (code : U8)
  | aggregateSet (p : Prefix) (safi : Safi) (summaryOnly asSet : Bool)
  | aggregateUnset (p : Prefix) (safi : Safi)
  | reuse (rn : Node) (id now : Nat)
  | scan (w : World) (afi : Afi)
  | runMain
  | runRsclient

variable (env : Env)

/-- One call. -/
def step (s : State) : Action → State
  | .update w call => bgpUpdate env w s call.toUpdateCall
  | .withdraw w call => bgpWithdraw env w s call.toUpdateCall
  | .networkSet w bgpStatic p safi => bgpStaticUpdate env w s bgpStatic p safi
  | .networkUnset p safi => bgpStaticWithdraw env s p safi none
  | .vpnSet w p prd tag => bgpStaticUpdateVpnv4 env w s p prd tag
  | .vpnUnset p prd => bgpStaticWithdraw env s p .mplsVpn (some prd)
  | .redistributeAdd w p redist => bgpRedistributeAdd env w s p redist
  | .redistributeDelete p code => bgpRedistributeDelete env s p code
  | .aggregateSet p safi summaryOnly asSet =>
    bgpAggregateSet env s p.family safi p summaryOnly asSet
  | .aggregateUnset p safi => bgpAggregateUnset env s p.family safi p
  | .reuse rn id now => bgpReuse env s rn id now
  | .scan w afi => bgpScan env w s afi
  | .runMain => runMainQueue env s
  | .runRsclient => runRsclientQueue env s

/-- Tables without routes, before anything was written. -/
structure Initial (s : State) : Prop where
  infos : ∀ rn, s.infos rn = []
  mainQueue : s.mainQueue = []
  rsclientQueue : s.rsclientQueue = []
  log : s.log = []

theorem initial_empty : Initial State.empty := ⟨fun _ => rfl, rfl, rfl, rfl⟩

/-! ## A plain instance -/

theorem attrhashCmp_refl (attr : Attr) : attrhashCmp attr attr = true := by
  unfold attrhashCmp
  cases attr.extra <;> simp

theorem attrhashCmp_trans {first second third : Attr} (left : attrhashCmp first second = true)
    (right : attrhashCmp second third = true) : attrhashCmp first third = true := by
  unfold attrhashCmp at *
  cases extra₁ : first.extra <;> cases extra₂ : second.extra <;> cases extra₃ : third.extra <;>
    simp_all

/-- An instance with every option off, and external neighbours whose sessions are up
for every family. -/
def plainEnv (peers : List Nat) : Env where
  bgp := .plain 65001 1
  isDefault := true
  bestPath := {}
  self := 0
  peers := peers
  rsclients := []
  group := fun _ => none
  config := fun peer => .plain peer (if peer = 0 then 65001 else 65001 + peer) 65001
  config_id := fun _ => rfl
  session := fun _ => ⟨true, fun _ _ => true, fun _ _ => false⟩
  damping := fun _ _ => false
  damp := ⟨2000, 750, 12000, 3600, 0, fun _ penalty => penalty⟩
  zebraUp := true
  noFib := false
  distance := fun _ _ => 0

/-- A world in which every next hop is on a connected network and nothing is looked
up. -/
def plainWorld (now : Nat) : World where
  now := now
  connected := fun _ => .everywhere
  lookupUp := false
  lookup := fun _ _ => ⟨true, 0, false⟩
  intern := id
  intern_cmp := attrhashCmp_refl

/-- An IPv4 unicast route from a neighbour. -/
def plainRoute (peer : Nat) (p : Prefix) (attr : Attr) : Received where
  peer := peer
  p := p
  attr := attr
  safi := .unicast
  type := .bgp
  subType := .normal
  prd := none
  tag := []
  bgp := rfl
  normal := rfl

/-- Attributes of a neighbour's route with the given next hop and MED. -/
def plainAttr (nexthop med : U32) : Attr :=
  { bgpAttrDefaultSet bgpOriginIgp with
    aspath := some ⟨[⟨.asSequence, [65100]⟩]⟩, nexthop := nexthop, med := med, localPref := 100 }

end Bgpd.Actions
