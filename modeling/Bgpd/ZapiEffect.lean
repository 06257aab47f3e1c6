import Bgpd.ZapiRoundTrip
import Bgpd.RibChains

/-!
# What route messages do to the table

The message that adds a route gives the manager the route that the client wrote. A
message written from the same data deletes it again if the gateway that it picks is
the one of the first next hop, and if there was at most one other route of the kind,
one that the addition replaced.

A distance of zero stands for the usual one of the kind.
-/

namespace Bgpd.Zapi

open Octets FlagWord Prefixes ZebraRib RibQueue RibRoutes

/-! ## Adding -/

/-- The route that an addition links. -/
def linkedRib (beyond : U8) (rib : Rib) : Rib :=
  kernelHops
    (if rib.distance = 0 then
      { rib with distance := defaultDistance beyond rib.type rib.flags }
    else rib)

/-- A route that an addition may replace. -/
def replaceable (rib same : Rib) : Bool :=
  !same.removed && same.type = rib.type && same.table = rib.table && same.type ≠ .connect

/-- The older routes after an addition. -/
def olderAfter (rib : Rib) (ribs : List Rib) : List Rib :=
  match ribs.findIdx? (replaceable rib) with
  | none => ribs
  | some place => ribs.modify place RibQueue.Rib.remove

theorem kernelHops_type (rib : Rib) : (kernelHops rib).type = rib.type := by
  unfold kernelHops
  split <;> rfl

theorem chain_linkReplacing (p : Prefix) (rib : Rib) (same : Option Nat) (z : Zebra) :
    chain (linkReplacing p rib same z) p =
      bare rib :: match same with
        | none => chain z p
        | some place => (chain z p).modify place RibQueue.Rib.remove := by
  unfold linkReplacing
  cases same with
  | none => exact chain_ribLink p rib z
  | some place =>
    rw [chain_ribDelnode, chain_ribLink, List.modify_succ_cons]

/-- An addition puts its route first and marks the one it replaces. -/
theorem chain_ribAddIpv4Multipath (beyond : U8) (p : Prefix) (rib : Rib) (z : Zebra) :
    chain (ribAddIpv4Multipath beyond p rib z) p =
      bare (linkedRib beyond rib) :: olderAfter rib (chain z p) := by
  have same : ∀ rib' : Rib, rib'.type = rib.type → rib'.table = rib.table →
      ((relock (· + 1) p z).nodes p).ribs.findIdx?
          (fun same => !same.removed && same.type = rib'.type && same.table = rib'.table
            && same.type ≠ .connect) =
        (chain z p).findIdx? (replaceable rib) := by
    intro rib' type table
    rw [type, table, ← chain_relock (· + 1) p z p]
    unfold chain
    rw [List.findIdx?_map]
    rfl
  unfold ribAddIpv4Multipath
  rw [chain_relock, chain_linkReplacing, same _ (by split <;> rfl) (by split <;> rfl), chain_relock]
  rfl

variable {p : Prefix}

/-- Other prefixes keep their routes. -/
theorem nodes_ribAddIpv4Multipath {other : Prefix} (apart : other ≠ p) (beyond : U8) (rib : Rib)
    (z : Zebra) : (ribAddIpv4Multipath beyond p rib z).nodes other = z.nodes other := by
  unfold ribAddIpv4Multipath linkReplacing
  dsimp only
  rw [nodes_relock _ apart]
  split
  · rw [nodes_ribLink apart, nodes_relock _ apart]
  · rw [nodes_ribDelnode apart, nodes_ribLink apart, nodes_relock _ apart]

/-! ## The routes of a kind -/

/-- A route of a kind that is not marked. -/
def live (type : RouteType) (rib : Rib) : Bool := !rib.removed && rib.type = type

theorem live_remove (type : RouteType) (rib : Rib) :
    live type (RibQueue.Rib.remove rib) = false := by
  have marked : (RibQueue.Rib.remove rib).removed = true := by
    unfold Rib.removed RibQueue.Rib.remove
    rw [check_set]
    simp [check, ribEntryRemoved]
  unfold live
  rw [marked]
  rfl

variable {type : RouteType} {rib : Rib}
variable {ribs : List Rib}

/-- Marking a live route leaves one less. -/
theorem countP_modify {place : Nat} (found : ribs[place]? = some rib)
    (alive : live type rib = true) :
    (ribs.modify place RibQueue.Rib.remove).countP (live type) + 1 = ribs.countP (live type) := by
  induction ribs generalizing place with
  | nil => cases found
  | cons head rest ih =>
    cases place with
    | zero =>
      obtain rfl : head = rib := Option.some.inj found
      simp [live_remove, alive]
    | succ place =>
      have later := ih found
      simp only [List.modify_succ_cons, List.countP_cons] at later ⊢
      omega

/-- At most one other route of the kind, which an addition replaces. -/
def Alone (table : Nat) (type : RouteType) (ribs : List Rib) : Prop :=
  ribs.countP (live type) = 0 ∨
    ribs.countP (live type) = 1 ∧ ∀ rib ∈ ribs, live type rib = true → rib.table = table

/-- None of the older routes is left. -/
theorem olderAfter_none (other : rib.type ≠ .connect) (alone : Alone rib.table rib.type ribs) :
    (olderAfter rib ribs).countP (live rib.type) = 0 := by
  unfold olderAfter
  rcases alone with none | ⟨one, table⟩
  · cases found : ribs.findIdx? (replaceable rib) with
    | none => exact none
    | some place =>
      obtain ⟨inside, suitable, _⟩ := List.findIdx?_eq_some_iff_getElem.mp found
      have alive := List.countP_eq_zero.mp none ribs[place] (List.getElem_mem inside)
      simp only [replaceable, Bool.and_eq_true] at suitable
      exact absurd (by simp [live, suitable.1.1.1, suitable.1.1.2]) alive
  · cases found : ribs.findIdx? (replaceable rib) with
    | none =>
      obtain ⟨older, member, alive⟩ :=
        List.countP_pos_iff.mp (show 0 < ribs.countP (live rib.type) by omega)
      have unsuitable := List.findIdx?_eq_none_iff.mp found older member
      have same := table older member alive
      unfold live at alive
      rw [Bool.and_eq_true, decide_eq_true_eq] at alive
      simp [replaceable, alive.1, alive.2, same, other] at unsuitable
    | some place =>
      obtain ⟨inside, suitable, _⟩ := List.findIdx?_eq_some_iff_getElem.mp found
      simp only [replaceable, Bool.and_eq_true] at suitable
      have alive : live rib.type ribs[place] = true := by
        simp [live, suitable.1.1.1, suitable.1.1.2]
      have left := countP_modify (List.getElem?_eq_getElem inside) alive
      dsimp only
      omega

/-! ## Both messages -/

/-- A next hop without the state that the manager keeps of it. -/
def bareHop (hop : Nexthop) : Nexthop := { hop with flags := 0 }

/-- The distance that a route gets from a message. A distance of zero is none. -/
def distanceOf (beyond : U8) (api : ZapiIpv4) : U8 :=
  if check api.message zapiMessageDistance ∧ api.distance ≠ 0 then api.distance
  else defaultDistance beyond api.type api.flags

/-- The route that a message asks for. -/
structure Added (beyond : U8) (table : Nat) (api : ZapiIpv4) (rib : Rib) : Prop where
  type : rib.type = api.type
  flags : rib.flags = api.flags
  hops : rib.nexthop.map bareHop = hopsOf api
  distance : rib.distance = distanceOf beyond api
  metric : rib.metric = if check api.message zapiMessageMetric then api.metric else 0
  table : rib.table = table
  unmarked : rib.removed = false

/-- The route has a next hop, and the gateway that a deletion picks is the one of the
first, or none. -/
def Deletable (api : ZapiIpv4) : Prop :=
  hopsOf api ≠ [] ∧
    (gatewayOf api = 0 ∨ (hopsOf api).head?.map (·.gate.ipv4) = some (gatewayOf api))

theorem addHops_frame (rib : Rib) (hops : List Nexthop) :
    (addHops rib hops).nexthop = rib.nexthop ++ hops ∧ (addHops rib hops).type = rib.type ∧
      (addHops rib hops).flags = rib.flags ∧ (addHops rib hops).table = rib.table ∧
      (addHops rib hops).status = rib.status := by
  induction hops generalizing rib with
  | nil => exact ⟨(List.append_nil _).symm, rfl, rfl, rfl, rfl⟩
  | cons hop hops ih =>
    obtain ⟨nexthop, type, flags, table, status⟩ := ih (nexthopAdd rib hop)
    refine ⟨?_, type, flags, table, status⟩
    rw [show addHops rib (hop :: hops) = addHops (nexthopAdd rib hop) hops from rfl, nexthop]
    exact List.append_assoc _ _ _

theorem kernelHops_frame (rib : Rib) :
    (kernelHops rib).nexthop.map bareHop = rib.nexthop.map bareHop ∧
      (kernelHops rib).flags = rib.flags ∧ (kernelHops rib).distance = rib.distance ∧
      (kernelHops rib).metric = rib.metric ∧ (kernelHops rib).table = rib.table ∧
      (kernelHops rib).status = rib.status := by
  unfold kernelHops
  split
  · refine ⟨?_, rfl, rfl, rfl, rfl, rfl⟩
    rw [List.map_map]
    rfl
  · exact ⟨rfl, rfl, rfl, rfl, rfl, rfl⟩

theorem bare_hopsOf (api : ZapiIpv4) : (hopsOf api).map bareHop = hopsOf api := by
  unfold hopsOf gatewayHops interfaceHops
  split
  · split
    · rfl
    · rw [List.map_append, List.map_map, List.map_map]
      rfl
  · rfl

/-- The route that is linked is the one that the message asks for. -/
theorem added_linkedRib (beyond : U8) (table : Nat) (api : ZapiIpv4) :
    Added beyond table api (linkedRib beyond (ribOf table api)) := by
  have start : (ribOf table api).nexthop = hopsOf api ∧ (ribOf table api).type = api.type ∧
      (ribOf table api).flags = api.flags ∧ (ribOf table api).table = table ∧
      (ribOf table api).status = 0 :=
        addHops_frame { type := api.type, flags := api.flags, table } _
  obtain ⟨nexthop, type, flags, ribTable, status⟩ := start
  have given : (ribOf table api).distance =
      if check api.message zapiMessageDistance then api.distance else 0 := rfl
  unfold linkedRib
  obtain ⟨hops, flags', distance, metric, table', status'⟩ :=
    kernelHops_frame
      (if (ribOf table api).distance = 0 then
        { ribOf table api with
          distance := defaultDistance beyond (ribOf table api).type (ribOf table api).flags }
      else ribOf table api)
  constructor
  · rw [kernelHops_type]
    split <;> exact type
  · rw [flags']
    split <;> exact flags
  · rw [hops, ← bare_hopsOf, ← nexthop]
    split <;> rfl
  · rw [distance]
    unfold distanceOf
    by_cases zero : (ribOf table api).distance = 0
    · have missing : ¬ (check api.message zapiMessageDistance ∧ api.distance ≠ 0) := by
        rintro ⟨present, nonzero⟩
        rw [given, if_pos present] at zero
        exact nonzero zero
      rw [if_pos zero, if_neg missing]
      rw [type, flags]
    · have present : check api.message zapiMessageDistance = true := by
        by_contra absent
        rw [given, if_neg absent] at zero
        exact zero rfl
      rw [given, if_pos present] at zero
      rw [if_neg (by rwa [given, if_pos present]), if_pos ⟨present, zero⟩, given, if_pos present]
  · rw [metric]
    split <;> rfl
  · rw [table']
    split <;> exact ribTable
  · unfold Rib.removed
    rw [status']
    have unmarked : check 0 ribEntryRemoved = false := by decide
    split
    · exact (congrArg (check · ribEntryRemoved) status).trans unmarked
    · exact (congrArg (check · ribEntryRemoved) status).trans unmarked

variable {table : Nat}
variable {beyond : U8} {api : ZapiIpv4}

/-- Where a prefix waits does not matter. -/
theorem added_bare {rib' : Rib} (same : bare rib = bare rib') (added : Added beyond table api rib) :
    Added beyond table api rib' := by
  have seen : Added beyond table api (bare rib) :=
    ⟨added.type, added.flags, added.hops, added.distance, added.metric, added.table, added.unmarked⟩
  rw [same] at seen
  exact ⟨seen.type, seen.flags, seen.hops, seen.distance, seen.metric, seen.table, seen.unmarked⟩

/-- A route that was just added is found by its deletion. -/
theorem viaGateway_added (added : Added beyond table api rib) (deletable : Deletable api) :
    viaGateway rib (some (gatewayOf api)) = true := by
  obtain ⟨present, gateway⟩ := deletable
  have hops := added.hops
  cases shape : rib.nexthop with
  | nil =>
    rw [shape] at hops
    exact absurd hops.symm present
  | cons hop rest =>
    have rgate : hop.rgate.ipv4 = 0 := by
      have all : ∀ hop ∈ hopsOf api, hop.rgate.ipv4 = 0 := by
        intro hop member
        unfold hopsOf gatewayHops interfaceHops at member
        split at member
        · split at member
          · obtain rfl := List.mem_singleton.mp member
            rfl
          · obtain member | member := List.mem_append.mp member
            · obtain ⟨_, _, rfl⟩ := List.mem_map.mp member
              rfl
            · obtain ⟨_, _, rfl⟩ := List.mem_map.mp member
              rfl
        · cases member
      refine all (bareHop hop) ?_
      rw [← hops, shape]
      exact List.mem_cons_self
    unfold viaGateway
    rw [shape]
    rw [← hops, shape] at gateway
    simp only [Bool.decide_or, Bool.or_eq_true, decide_eq_true_eq]
    obtain gateway | gateway := gateway
    · right
      rw [rgate, gateway]
    · left
      exact Option.some.inj gateway

variable {z : Zebra}

/-- Deleting marks the first route of a chain that has just been added. -/
theorem chain_ribDeleteIpv4 {gate : Option U32} {older : List Rib}
    (ribs : (z.nodes p).ribs = rib :: older) (unmarked : rib.removed = false)
    (kind : rib.type = type) (other : type ≠ .connect) (via : viaGateway rib gate = true)
    (ifindex : U32) :
    chain (ribDeleteIpv4 type p gate ifindex z) p = (chain z p).modify 0 RibQueue.Rib.remove := by
  have locked : ((relock (· + 1) p z).nodes p).ribs = rib :: older := by
    unfold relock
    simp [ribs]
  have found : findDeleted type gate ifindex 0 none (rib :: older) = .same 0 := by
    unfold findDeleted
    simp [unmarked, kind, other, via]
  have some : ¬ (z.nodes p).ribs.isEmpty = true := by
    rw [ribs]
    simp
  unfold ribDeleteIpv4
  rw [if_neg some]
  dsimp only
  rw [locked, found]
  rw [chain_relock, chain_ribDelnode, chain_relock]

/-- What the addition of a route leaves, and what its deletion leaves after that. -/
structure Understood (beyond : U8) (table : Nat) (z : Zebra) (p : Prefix) (api : ZapiIpv4) :
    Prop where
  added : ∃ z₁ rib older,
    zebraClientRead beyond table zebraMaxPacketSiz z (zapiIpv4Route zebraIpv4RouteAdd p api) =
      some (z₁, []) ∧
    (z₁.nodes p).ribs = rib :: older ∧ older.length = (z.nodes p).ribs.length ∧
    Added beyond table api rib ∧ ∀ other, other ≠ p → z₁.nodes other = z.nodes other
  deleted : api.type ≠ .connect → Deletable api → Alone table api.type (z.nodes p).ribs →
    ∃ z₁ z₂,
      zebraClientRead beyond table zebraMaxPacketSiz z (zapiIpv4Route zebraIpv4RouteAdd p api) =
        some (z₁, []) ∧
      zebraClientRead beyond table zebraMaxPacketSiz z₁
        (zapiIpv4Route zebraIpv4RouteDelete p api) = some (z₂, []) ∧
      ∀ rib ∈ (z₂.nodes p).ribs, rib.type = api.type → rib.removed = true

theorem chain_cons {head : Rib} {rest : List Rib} (shape : chain z p = bare head :: rest) :
    ∃ rib older, (z.nodes p).ribs = rib :: older ∧ bare rib = bare head ∧
      older.map bare = rest := by
  unfold chain at shape
  cases ribs : (z.nodes p).ribs with
  | nil =>
    rw [ribs] at shape
    cases shape
  | cons rib older =>
    rw [ribs] at shape
    obtain ⟨same, others⟩ := List.cons.inj shape
    exact ⟨rib, older, rfl, same, others⟩

theorem olderAfter_length (rib : Rib) (ribs : List Rib) :
    (olderAfter rib ribs).length = ribs.length := by
  unfold olderAfter
  split
  · rfl
  · exact List.length_modify _ _ _

/-- What lives does not depend on where the prefix waits. -/
theorem countP_bare (type : RouteType) (ribs : List Rib) :
    (ribs.map bare).countP (live type) = ribs.countP (live type) := by
  rw [List.countP_map]
  rfl

theorem Alone.chain (alone : Alone table type (z.nodes p).ribs) : Alone table type (chain z p) := by
  unfold Alone RibQueue.chain
  rw [countP_bare]
  refine alone.imp id fun ⟨one, table⟩ => ⟨one, fun _ member alive => ?_⟩
  obtain ⟨rib, inside, rfl⟩ := List.mem_map.mp member
  exact table rib inside alive

/-- The messages that a client writes are understood: an ADD is read to its end and leaves
one new rib with what was written, and a DELETE takes it away again where the gateway it is
looked up by is the one of the rib. -/
theorem zapi_understood (beyond : U8) (table : Nat) (z : Zebra) (p : Prefix) (api : ZapiIpv4)
    (ipv4 : p.family = .ip) (sendable : Sendable api)
    (fits : (zapiIpv4Route zebraIpv4RouteAdd p api).length ≤ zebraMaxPacketSiz) :
    Understood beyond table z p api := by
  have small : zebraMaxPacketSiz < 65536 := by decide
  have add (z : Zebra) :
      zebraClientRead beyond table zebraMaxPacketSiz z (zapiIpv4Route zebraIpv4RouteAdd p api) =
        some (ribAddIpv4Multipath beyond p (ribOf table api) z, []) := by
    rw [zebraClientRead_written _ _ _ _ _ _ _ fits small, if_pos rfl]
    exact zreadIpv4Add_written ipv4 sendable _ _ _
  have fits' : (zapiIpv4Route zebraIpv4RouteDelete p api).length ≤ zebraMaxPacketSiz := by
    simpa [zapiIpv4Route, zclientCreateHeader] using fits
  have delete (z : Zebra) :
      zebraClientRead beyond table zebraMaxPacketSiz z (zapiIpv4Route zebraIpv4RouteDelete p api) =
        some (ribDeleteIpv4 api.type p (some (gatewayOf api)) (interfaceOf api) z, []) := by
    rw [zebraClientRead_written _ _ _ _ _ _ _ fits' small, if_neg (by decide), if_pos rfl]
    exact zreadIpv4Delete_written ipv4 sendable _
  have shape := chain_ribAddIpv4Multipath beyond p (ribOf table api) z
  have asked := added_linkedRib beyond table api
  obtain ⟨rib, older, ribs, same, rest⟩ := chain_cons shape
  have added : Added beyond table api rib := added_bare same.symm asked
  constructor
  · refine ⟨_, rib, older, add z, ribs, ?_, added,
      fun other apart => nodes_ribAddIpv4Multipath apart _ _ _⟩
    have length := congrArg List.length rest
    rw [List.length_map, olderAfter_length] at length
    rw [length]
    exact List.length_map _
  · intro other deletable alone
    refine ⟨_, _, add z, delete _, ?_⟩
    have after := chain_ribDeleteIpv4 ribs added.unmarked added.type other
      (viaGateway_added added deletable) (interfaceOf api)
    rw [shape] at after
    have none : (olderAfter (ribOf table api) (chain z p)).countP (live api.type) = 0 := by
      have type : (ribOf table api).type = api.type :=
        (addHops_frame { type := api.type, flags := api.flags, table } _).2.1
      have table' : (ribOf table api).table = table :=
        (addHops_frame { type := api.type, flags := api.flags, table } _).2.2.2.1
      rw [← type]
      refine olderAfter_none (by rwa [type]) ?_
      rw [type, table']
      exact alone.chain
    have nothing : (chain (ribDeleteIpv4 api.type p (some (gatewayOf api)) (interfaceOf api)
        (ribAddIpv4Multipath beyond p (ribOf table api) z)) p).countP (live api.type) = 0 := by
      rw [after, List.modify_zero_cons, List.countP_cons, none, live_remove]
      rfl
    rw [chain, countP_bare] at nothing
    intro rib member type
    have dead := List.countP_eq_zero.mp nothing rib member
    unfold live at dead
    rw [type] at dead
    simpa using dead

/-- An OSPF route for `10.0.0.0/8`, with a gateway and an interface. -/
def ospfRoute : ZapiIpv4 :=
  { type := .ospf, message := 0x0d, nexthop := [0x0a000001], ifindex := [2], distance := 30,
    metric := 5 }

def tenNet : Prefix := ⟨.ip, [false, false, false, false, true, false, true, false], ten_fits⟩

theorem zapi_understood_ospf : Understood 0 0 {} tenNet ospfRoute :=
  zapi_understood 0 0 {} tenNet ospfRoute rfl ⟨by decide, by decide⟩ (by decide)

/-- The routes at the prefix after a message. -/
def routesAfter (command : U16) (api : ZapiIpv4) (z : Zebra) : Option (List Rib) :=
  (zebraClientRead 0 0 zebraMaxPacketSiz z (zapiIpv4Route command tenNet api)).map
    fun (z, _) => (z.nodes tenNet).ribs

/-- The live routes of its kind after a route was added and deleted. -/
def leftAfter (api : ZapiIpv4) (z : Zebra) : Option Nat := do
  let (z, _) ← zebraClientRead 0 0 zebraMaxPacketSiz z (zapiIpv4Route zebraIpv4RouteAdd tenNet api)
  let ribs ← routesAfter zebraIpv4RouteDelete api z
  some (ribs.countP (live api.type))

/-- A distance of zero that is given is not kept, a route through two gateways is not
deleted, and neither is an older route of its kind in another table. -/
theorem zapi_not_understood :
    (routesAfter zebraIpv4RouteAdd { type := .bgp, message := 0x05, nexthop := [1] } {}).map
        (·.map (·.distance)) = some [20] ∧
      leftAfter { type := .ospf, message := 0x01, nexthop := [1, 2] } {} = some 1 ∧
      leftAfter { type := .ospf, message := 0x01, nexthop := [1] }
        (ribLink tenNet { type := .ospf, table := 7 } {}) = some 1 := by
  refine ⟨?_, ?_, ?_⟩ <;> decide +kernel

end Bgpd.Zapi
