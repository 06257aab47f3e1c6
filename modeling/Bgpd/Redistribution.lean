import Bgpd.RouterId
import Bgpd.StaticRoutes

/-!
# Redistribution

A client of the manager asks for the routes of some protocols. When it asks it is
sent those that are selected, and later it is told whenever one is selected or
is not selected any more. What it was told last about a prefix and a protocol is
all that it knows.

The routes that are selected when a client asks are filtered by address, the later
messages are not.
-/

namespace Bgpd.Redistribution

open FlagWord Prefixes ZebraRib RibQueue StaticRoutes

variable (command : Command) (client : Client) (p : Prefix)

/-! ## Messages and clients -/

/-- `ZEBRA_IPV4_ROUTE_ADD` and `ZEBRA_IPV4_ROUTE_DELETE`, and those of IPv6. -/
inductive Command
  | routeAdd
  | routeDelete
  deriving DecidableEq, Repr

/-- What `zsend_route_multipath` is given to send. -/
structure Message where
  command : Command
  p : Prefix
  rib : Rib
  deriving DecidableEq, Repr

/-- `struct zserv`, with what the client has asked for and not cancelled, and what it
was sent, the newest last. -/
structure Client where
  redist : RouteType → Bool := fun _ => false
  redistDefault : Bool := false
  asked : RouteType → Bool := fun _ => false
  received : List Message := []

/-- `zsend_route_multipath`. -/
def zsendRouteMultipath (command : Command) (client : Client) (p : Prefix) (rib : Rib) : Client :=
  { client with received := client.received ++ [{ command, p, rib }] }

/-- The message tells of a route of the kind at the prefix. -/
def Message.about (message : Message) (type : RouteType) (p : Prefix) : Bool :=
  message.rib.type = type ∧ message.p = p

/-- The last message of the kind about the prefix is an addition. -/
def Client.told (client : Client) (type : RouteType) (p : Prefix) : Bool :=
  (client.received.filter (·.about type p)).getLast?.any (·.command = .routeAdd)

/-! ## Prefixes -/

/-- The address of a prefix, its host bits zero. -/
def addressOf (p : Prefix) : RouterId.Address :=
  let bits := BitVec.ofBoolListBE (p.bits.rightpad p.family.bits false)
  match p.family with
  | .ip => .inet (bits.setWidth 32) p.prefixlen
  | .ip6 => .inet6 (bits.setWidth 128) p.prefixlen

/-- `zebra_check_addr`. -/
def zebraCheckAddr (p : Prefix) : Bool := RouterId.zebraCheckAddr (addressOf p)

/-- `is_default`. -/
def isDefault (p : Prefix) : Bool := p.family = .ip ∧ p.addressZero ∧ p.prefixlen = 0

/-! ## The table as a whole -/

/-- The route is sent to a client that asks for its kind. -/
def shown (rib : Rib) : Bool := rib.selected ∧ rib.distance ≠ distanceInfinity

/-- `zebra_redistribute_default`, which looks at the default routes of both families. -/
def zebraRedistributeDefault (z : Zebra) (client : Client) : Client :=
  [Prefix.default .ip, Prefix.default .ip6].foldl
    (fun client p =>
      (z.nodes p).ribs.foldl
        (fun client newrib =>
          if shown newrib then zsendRouteMultipath .routeAdd client p newrib else client)
        client)
    client

/-- `zebra_redistribute`, on the nodes in the order of its walk over the tables. -/
def zebraRedistribute (walk : List Prefix) (z : Zebra) (client : Client) (type : RouteType) :
    Client :=
  walk.foldl
    (fun client p =>
      (z.nodes p).ribs.foldl
        (fun client newrib =>
          if shown newrib ∧ newrib.type = type ∧ zebraCheckAddr p then
            zsendRouteMultipath .routeAdd client p newrib
          else client)
        client)
    client

/-! ## One route -/

/-- The client is told of a route at the prefix. -/
def Client.hears (client : Client) (p : Prefix) (rib : Rib) : Bool :=
  if isDefault p then client.redistDefault || client.redist rib.type else client.redist rib.type

/-- `redistribute_add`. -/
def redistributeAdd (p : Prefix) (rib : Rib) (clients : List Client) : List Client :=
  clients.map fun client =>
    if client.hears p rib then zsendRouteMultipath .routeAdd client p rib else client

/-- `redistribute_delete`. -/
def redistributeDelete (p : Prefix) (rib : Rib) (clients : List Client) : List Client :=
  if rib.distance = distanceInfinity then clients
  else
    clients.map fun client =>
      if client.hears p rib then zsendRouteMultipath .routeDelete client p rib else client

/-- What is done at a prefix is told to the clients. -/
def tell (p : Prefix) (effects : List Effect) (clients : List Client) : List Client :=
  effects.foldl
    (fun clients effect =>
      match effect with
      | .redistributeAdd rib => redistributeAdd p rib clients
      | .redistributeDelete rib => redistributeDelete p rib clients
      | .kernelAdd _ => clients
      | .kernelDelete _ => clients
      | .unlink _ => clients)
    clients

/-! ## Requests -/

/-- The kinds that a client can ask for, those in the switch of
`zebra_redistribute_add`. -/
def served : RouteType → Bool
  | .kernel => true
  | .connect => true
  | .static => true
  | .rip => true
  | .ripng => true
  | .ospf => true
  | .ospf6 => true
  | .bgp => true
  | .system => false
  | .isis => false
  | .hsls => false

/-- `zebra_redistribute_add`. -/
def zebraRedistributeAdd (walk : List Prefix) (z : Zebra) (type : RouteType) (client : Client) :
    Client :=
  if served type then
    if client.redist type then client
    else
      zebraRedistribute walk z { client with redist := Function.update client.redist type true }
        type
  else client

/-- `zebra_redistribute_delete`. -/
def zebraRedistributeDelete (type : RouteType) (client : Client) : Client :=
  if served type then { client with redist := Function.update client.redist type false }
  else client

/-- `zebra_redistribute_default_add`. -/
def zebraRedistributeDefaultAdd (z : Zebra) (client : Client) : Client :=
  zebraRedistributeDefault z { client with redistDefault := true }

/-- `zebra_redistribute_default_delete`. -/
def zebraRedistributeDefaultDelete (client : Client) : Client :=
  { client with redistDefault := false }

/-! ## The static route that leaves the kernel -/

/-- The route that `static_uninstall_ipv4` passes to `rib_uninstall` and that is
selected. -/
def uninstalled (si : StaticRoute Ipv4Way) (ribs : List Rib) : Option Rib :=
  match findHop staticIpv4NexthopSame si ribs with
  | none => none
  | some (place, hop) =>
    if lastHop place ribs then none
    else
      ribs[place]?.filter fun rib =>
        (rib.nexthop[hop]?).any (check ·.flags nexthopFlagFib) && rib.selected

/-! ## What a message changes -/

theorem told_send (p p' : Prefix) (rib : Rib) (type : RouteType) :
    (zsendRouteMultipath command client p rib).told type p' =
      if rib.type = type ∧ p = p' then decide (command = .routeAdd) else client.told type p' := by
  unfold Client.told zsendRouteMultipath
  rw [List.filter_append]
  by_cases here : rib.type = type ∧ p = p'
  · rw [if_pos here]
    simp [Message.about, here.1, here.2]
  · rw [if_neg here]
    simp [Message.about, here]

/-! ## What a walk over the table changes -/

section Walk

variable (cond : Prefix → Rib → Prop) [∀ p rib, Decidable (cond p rib)]

/-- Whatever meets a condition at one prefix is sent. -/
def sendChain (p : Prefix) (ribs : List Rib) (client : Client) : Client :=
  ribs.foldl
    (fun client newrib =>
      if cond p newrib then zsendRouteMultipath .routeAdd client p newrib else client)
    client

/-- Whatever meets a condition is sent. -/
def sendWalk (z : Zebra) (walk : List Prefix) (client : Client) : Client :=
  walk.foldl (fun client p => sendChain cond p (z.nodes p).ribs client) client

theorem sendChain_fields (p : Prefix) (ribs : List Rib) (client : Client) :
    (sendChain cond p ribs client).redist = client.redist ∧
      (sendChain cond p ribs client).asked = client.asked := by
  induction ribs generalizing client with
  | nil => exact ⟨rfl, rfl⟩
  | cons rib rest ih =>
    unfold sendChain
    rw [List.foldl_cons]
    split
    · exact ih _
    · exact ih _

theorem sendWalk_fields (z : Zebra) (walk : List Prefix) (client : Client) :
    (sendWalk cond z walk client).redist = client.redist ∧
      (sendWalk cond z walk client).asked = client.asked := by
  induction walk generalizing client with
  | nil => exact ⟨rfl, rfl⟩
  | cons p rest ih =>
    obtain ⟨redist, asked⟩ := ih (sendChain cond p (z.nodes p).ribs client)
    obtain ⟨redist', asked'⟩ := sendChain_fields cond p (z.nodes p).ribs client
    exact ⟨redist.trans redist', asked.trans asked'⟩

theorem told_sendChain (p : Prefix) (ribs : List Rib) (client : Client) (type : RouteType)
    (p' : Prefix) :
    (sendChain cond p ribs client).told type p' = true ↔
      client.told type p' = true ∨ p = p' ∧ ∃ rib ∈ ribs, cond p rib ∧ rib.type = type := by
  induction ribs generalizing client with
  | nil => simp [sendChain]
  | cons rib rest ih =>
    have next : sendChain cond p (rib :: rest) client =
        sendChain cond p rest
          (if cond p rib then zsendRouteMultipath .routeAdd client p rib else client) := rfl
    rw [next, ih]
    simp only [List.mem_cons, exists_eq_or_imp]
    by_cases sent : cond p rib
    · rw [if_pos sent, told_send]
      by_cases here : rib.type = type ∧ p = p'
      · have first : p = p' ∧ (cond p rib ∧ rib.type = type ∨
            ∃ rib ∈ rest, cond p rib ∧ rib.type = type) := ⟨here.2, Or.inl ⟨sent, here.1⟩⟩
        rw [if_pos here]
        exact iff_of_true (Or.inl rfl) (Or.inr first)
      · rw [if_neg here]
        tauto
    · rw [if_neg sent]
      tauto

/-- After a walk the client was told of whatever it was told before and of whatever
meets the condition. -/
theorem told_sendWalk (z : Zebra) (walk : List Prefix) (client : Client) (type : RouteType)
    (p' : Prefix) :
    (sendWalk cond z walk client).told type p' = true ↔
      client.told type p' = true ∨
        p' ∈ walk ∧ ∃ rib ∈ (z.nodes p').ribs, cond p' rib ∧ rib.type = type := by
  induction walk generalizing client with
  | nil => simp [sendWalk]
  | cons p rest ih =>
    have next : sendWalk cond z (p :: rest) client =
        sendWalk cond z rest (sendChain cond p (z.nodes p).ribs client) := rfl
    rw [next, ih, told_sendChain, List.mem_cons]
    constructor
    · rintro ((before | ⟨rfl, sent⟩) | ⟨inside, sent⟩)
      · exact Or.inl before
      · exact Or.inr ⟨Or.inl rfl, sent⟩
      · exact Or.inr ⟨Or.inr inside, sent⟩
    · rintro (before | ⟨rfl | inside, sent⟩)
      · exact Or.inl (Or.inl before)
      · exact Or.inl (Or.inr ⟨rfl, sent⟩)
      · exact Or.inr ⟨inside, sent⟩

end Walk

theorem zebraRedistributeDefault_eq (z : Zebra) (client : Client) :
    zebraRedistributeDefault z client =
      sendWalk (fun _ rib => shown rib = true) z [Prefix.default .ip, Prefix.default .ip6] client :=
  rfl

theorem zebraRedistribute_eq (walk : List Prefix) (z : Zebra) (client : Client) (type : RouteType) :
    zebraRedistribute walk z client type =
      sendWalk (fun p rib => shown rib ∧ rib.type = type ∧ zebraCheckAddr p) z walk client :=
  rfl

/-! ## What the effects at a prefix change -/

/-- One client hears of one effect. -/
def Client.hear (p : Prefix) (client : Client) : Effect → Client
  | .redistributeAdd rib =>
    if client.hears p rib then zsendRouteMultipath .routeAdd client p rib else client
  | .redistributeDelete rib =>
    if rib.distance = distanceInfinity then client
    else if client.hears p rib then zsendRouteMultipath .routeDelete client p rib else client
  | .kernelAdd _ => client
  | .kernelDelete _ => client
  | .unlink _ => client

/-- What a client that asks for a kind holds of it after one effect. -/
def tellOne (type : RouteType) (told : Bool) : Effect → Bool
  | .redistributeAdd rib => if rib.type = type then true else told
  | .redistributeDelete rib =>
    if rib.distance ≠ distanceInfinity ∧ rib.type = type then false else told
  | .kernelAdd _ => told
  | .kernelDelete _ => told
  | .unlink _ => told

/-- Every client hears of every effect, in their order. -/
theorem tell_eq (p : Prefix) (effects : List Effect) (clients : List Client) :
    tell p effects clients = clients.map fun client => effects.foldl (Client.hear p) client := by
  induction effects generalizing clients with
  | nil => exact (List.map_id' clients).symm
  | cons effect rest ih =>
    have next : tell p (effect :: rest) clients =
        tell p rest (clients.map fun client => client.hear p effect) := by
      unfold tell
      rw [List.foldl_cons]
      cases effect with
      | redistributeAdd rib => rfl
      | redistributeDelete rib =>
        dsimp only [redistributeDelete, Client.hear]
        split
        · rw [List.map_id']
        · rfl
      | kernelAdd rib => simp [Client.hear]
      | kernelDelete rib => simp [Client.hear]
      | unlink rib => simp [Client.hear]
    rw [next, ih, List.map_map]
    rfl

theorem hear_fields (p : Prefix) (client : Client) (effect : Effect) :
    (client.hear p effect).redist = client.redist ∧
      (client.hear p effect).asked = client.asked := by
  cases effect with
  | redistributeAdd rib =>
    dsimp only [Client.hear]
    split <;> exact ⟨rfl, rfl⟩
  | redistributeDelete rib =>
    dsimp only [Client.hear]
    split
    · exact ⟨rfl, rfl⟩
    · split <;> exact ⟨rfl, rfl⟩
  | kernelAdd rib => exact ⟨rfl, rfl⟩
  | kernelDelete rib => exact ⟨rfl, rfl⟩
  | unlink rib => exact ⟨rfl, rfl⟩

/-- Another prefix is not concerned. -/
theorem told_hear_ne {p p' : Prefix} (apart : p ≠ p') (client : Client) (effect : Effect)
    (type : RouteType) : (client.hear p effect).told type p' = client.told type p' := by
  have kept (command : Command) (rib : Rib) :
      (zsendRouteMultipath command client p rib).told type p' = client.told type p' := by
    rw [told_send, if_neg fun here => apart here.2]
  cases effect with
  | redistributeAdd rib =>
    dsimp only [Client.hear]
    split
    · exact kept _ _
    · rfl
  | redistributeDelete rib =>
    dsimp only [Client.hear]
    split
    · rfl
    · split
      · exact kept _ _
      · rfl
  | kernelAdd rib => rfl
  | kernelDelete rib => rfl
  | unlink rib => rfl

/-- A client that asks for the kind hears of every effect on a route of it. -/
theorem told_hear {client : Client} {type : RouteType} (asks : client.redist type = true)
    {p : Prefix} (ordinary : isDefault p = false) (effect : Effect) :
    (client.hear p effect).told type p = tellOne type (client.told type p) effect := by
  have heard (rib : Rib) : client.hears p rib = client.redist rib.type := by
    unfold Client.hears
    rw [if_neg (by rw [ordinary]; decide)]
  cases effect with
  | redistributeAdd rib =>
    dsimp only [Client.hear, tellOne]
    by_cases same : rib.type = type
    · rw [if_pos same, heard, same, if_pos asks, told_send, if_pos ⟨same, rfl⟩]
      rfl
    · rw [if_neg same]
      split
      · rw [told_send, if_neg fun here => same here.1]
      · rfl
  | redistributeDelete rib =>
    dsimp only [Client.hear, tellOne]
    by_cases far : rib.distance = distanceInfinity
    · have near : ¬ (rib.distance ≠ distanceInfinity ∧ rib.type = type) :=
        fun near => near.1 far
      rw [if_pos far, if_neg near]
    · rw [if_neg far]
      by_cases same : rib.type = type
      · have near : rib.distance ≠ distanceInfinity ∧ rib.type = type := ⟨far, same⟩
        rw [if_pos near, heard, same, if_pos asks, told_send, if_pos ⟨same, rfl⟩]
        rfl
      · have other : ¬ (rib.distance ≠ distanceInfinity ∧ rib.type = type) :=
          fun near => same near.2
        rw [if_neg other]
        split
        · rw [told_send, if_neg fun here => same here.1]
        · rfl
  | kernelAdd rib => rfl
  | kernelDelete rib => rfl
  | unlink rib => rfl

/-- The effects of one turn, all told. -/
theorem foldl_hear (client : Client) (p : Prefix) (effects : List Effect) :
    (effects.foldl (Client.hear p) client).redist = client.redist ∧
      (effects.foldl (Client.hear p) client).asked = client.asked ∧
      (∀ type p', p ≠ p' →
        (effects.foldl (Client.hear p) client).told type p' = client.told type p') ∧
      ∀ type, client.redist type = true → isDefault p = false →
        (effects.foldl (Client.hear p) client).told type p =
          effects.foldl (tellOne type) (client.told type p) := by
  induction effects generalizing client with
  | nil => exact ⟨rfl, rfl, fun _ _ _ => rfl, fun _ _ _ => rfl⟩
  | cons effect rest ih =>
    obtain ⟨redist, asked⟩ := hear_fields p client effect
    obtain ⟨redist', asked', others, here⟩ := ih (client.hear p effect)
    refine ⟨redist'.trans redist, asked'.trans asked, ?_, ?_⟩
    · intro type p' apart
      exact (others type p' apart).trans (told_hear_ne apart client effect type)
    · intro type asks ordinary
      have later := here type (by rw [redist]; exact asks) ordinary
      rw [told_hear asks ordinary] at later
      exact later

end Bgpd.Redistribution
