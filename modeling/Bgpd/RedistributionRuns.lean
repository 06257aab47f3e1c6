import Bgpd.RedistributionSteps

/-!
# What clients know over a run

Clients connect, ask for kinds of routes and cancel what they asked for, while routes
are added, deleted and processed in any order. Beside the tables a run keeps the
clients, with all that they were sent.

A client knows exactly the selected routes of the kinds it asks for, at every prefix
but the default one, as long as two things do not happen. A deletion from the kernel
that finds no route of the kernel takes the selected route of the prefix for the
lost one and tells nobody. And whoever asks for a kind is not sent the routes at
loopback, link-local and multicast addresses, nor is it told which of the routes that
it knew from an earlier request are gone.
-/

namespace Bgpd.Redistribution

open Octets FlagWord Prefixes ZebraRib RibQueue RibRoutes StaticRoutes
open Function (update_eq_self update_of_ne update_self)

variable {w : World}

/-! ## Runs -/

/-- What happens to the tables and the clients. -/
inductive Event
  | connect
  | request (i : Nat) (type : RouteType) (walk : List Prefix)
  | cancel (i : Nat) (type : RouteType)
  | requestDefault (i : Nat)
  | cancelDefault (i : Nat)
  | add (beyond : U8) (p : Prefix) (route : Ipv4Route)
  | addMultipath (beyond : U8) (p : Prefix) (rib : Rib)
  | delete (type : RouteType) (p : Prefix) (gate : Option U32) (ifindex : U32)
  | install (p : Prefix) (si : StaticRoute Ipv4Way)
  | uninstall (p : Prefix) (si : StaticRoute Ipv4Way)
  | update (walk : List Prefix)
  | process (s : Surroundings)

/-- The tables of the manager and its clients. -/
structure World where
  z : Zebra := {}
  clients : List Client := []

/-- A client asks for a kind. -/
def Client.request (walk : List Prefix) (z : Zebra) (type : RouteType) (client : Client) : Client :=
  zebraRedistributeAdd walk z type
    { client with asked := Function.update client.asked type true }

/-- A client cancels a kind. -/
def Client.cancel (type : RouteType) (client : Client) : Client :=
  zebraRedistributeDelete type { client with asked := Function.update client.asked type false }

/-- What the processing of the next prefix tells. -/
def tellNext (s : Surroundings) (z : Zebra) (clients : List Client) : List Client :=
  match nextNode z.mq with
  | none => clients
  | some (_, p, _) =>
    match ribProcess s (z.nodes p).ribs with
    | none => clients
    | some (_, effects) => tell p effects clients

/-- One event. Only processing can fail, by the assertion of `rib_process`. -/
def World.step (w : World) : Event → Option World
  | .connect => some { w with clients := w.clients ++ [{}] }
  | .request i type walk =>
    some { w with clients := w.clients.modify i (Client.request walk w.z type) }
  | .cancel i type => some { w with clients := w.clients.modify i (Client.cancel type) }
  | .requestDefault i =>
    some { w with clients := w.clients.modify i (zebraRedistributeDefaultAdd w.z) }
  | .cancelDefault i =>
    some { w with clients := w.clients.modify i zebraRedistributeDefaultDelete }
  | .add beyond p route => some { w with z := ribAddIpv4 beyond p route w.z }
  | .addMultipath beyond p rib => some { w with z := ribAddIpv4Multipath beyond p rib w.z }
  | .delete type p gate ifindex => some { w with z := ribDeleteIpv4 type p gate ifindex w.z }
  | .install p si => some { w with z := staticInstallIpv4 p si w.z }
  | .uninstall p si =>
    some
      { z := staticUninstallIpv4 p si w.z
        clients :=
          match uninstalled si (w.z.nodes p).ribs with
          | none => w.clients
          | some rib => redistributeDelete p rib w.clients }
  | .update walk => some { w with z := ribUpdate walk w.z }
  | .process s =>
    (metaQueueProcess s w.z).map fun z => { z, clients := tellNext s w.z w.clients }

/-- What the callers see to: a walk over the tables finds every node that has routes, and
a new route starts with its state clear and no flag at its next hops. -/
def Allowed (w : World) : Event → Prop
  | .request _ _ walk => ∀ p, (w.z.nodes p).ribs ≠ [] → p ∈ walk
  | .addMultipath _ _ rib => rib.rnStatus = 0 ∧ Unmarked rib
  | _ => True

/-- A prefix of IPv4 other than the default route. -/
def Ordinary (p : Prefix) : Prop := p.family = .ip ∧ isDefault p = false

instance (p : Prefix) : Decidable (Ordinary p) := inferInstanceAs (Decidable (_ ∧ _))

/-- A route of the kind is selected at the prefix. -/
def Stands (z : Zebra) (type : RouteType) (p : Prefix) : Prop :=
  ∃ rib ∈ (z.nodes p).ribs, rib.selected = true ∧ rib.type = type

instance (z : Zebra) (type : RouteType) (p : Prefix) : Decidable (Stands z type p) :=
  inferInstanceAs (Decidable (∃ rib ∈ (z.nodes p).ribs, rib.selected = true ∧ rib.type = type))

/-- The kind is one that is served, a route that is withheld because of its address is
known already, and what is known already is still selected. -/
def Current (z : Zebra) (type : RouteType) (client : Client) : Prop :=
  served type = true ∧
    ∀ p, Ordinary p →
      ((∃ rib ∈ (z.nodes p).ribs, shown rib = true ∧ rib.type = type) →
        zebraCheckAddr p = false → client.told type p = true) ∧
      (client.told type p = true → ∃ rib ∈ (z.nodes p).ribs, shown rib = true ∧ rib.type = type)

/-- A client that asks anew is current in the kind, and no client knows of a route that
is taken for one that the kernel lost. -/
def Announced (w : World) : Event → Prop
  | .request i type _ =>
    ∀ client, w.clients[i]? = some client → client.redist type = false → Current w.z type client
  | .delete type p gate ifindex =>
    ∀ fib, lost type gate ifindex (w.z.nodes p).ribs = some fib → Ordinary p →
      ∀ client ∈ w.clients, client.redist fib.type = true → client.told fib.type p = false
  | _ => True

/-- The states of all runs. -/
inductive Occurs : World → Prop
  | start : Occurs {}
  | step {w w' : World} (event : Event) : Occurs w → Allowed w event → w.step event = some w' →
      Occurs w'

/-- The states of the runs in which every change is announced. -/
inductive Reached : World → Prop
  | start : Reached {}
  | step {w w' : World} (event : Event) : Reached w → Allowed w event → Announced w event →
      w.step event = some w' → Reached w'

/-- Every client knows exactly of the selected routes of the kinds that it has asked
for. -/
def Right (w : World) : Prop :=
  ∀ client ∈ w.clients, ∀ type, client.asked type = true → ∀ p, Ordinary p →
    (client.told type p = true ↔ Stands w.z type p)

/-! ## What is kept -/

/-- The chains are in order, and every client is informed. -/
structure Faithful (w : World) : Prop where
  marked : Marked w.z
  sane : ∀ p, Sane (w.z.nodes p).ribs (Waits w.z p)
  asks : ∀ client ∈ w.clients, client.redist = client.asked ∧
    ∀ type, client.redist type = true → served type = true
  informed : ∀ client ∈ w.clients, ∀ type, client.redist type = true → ∀ p, Ordinary p →
    Informed (client.told type p) type (w.z.nodes p).ribs (Waits w.z p)

theorem Faithful.start : Faithful {} where
  marked p q bit := by
    simp [headStatus, check] at bit
  sane _ := ⟨Alone.nil, fun _ => Alone.nil, nofun⟩
  asks := nofun
  informed := nofun

variable {z : Zebra}

/-- An operation on the tables of which nothing is to be told. -/
theorem Faithful.pass (faithful : Faithful w) (passes : Passes w.z z) :
    Faithful { w with z } where
  marked := passes.marked faithful.marked
  sane p := passes.sane faithful.marked p (faithful.sane p)
  asks := faithful.asks
  informed client inside type asks p ordinary :=
    passes.informed faithful.marked p _ type (faithful.informed client inside type asks p ordinary)

variable {p : Prefix}

/-- One prefix is changed, and what is done there is told. -/
theorem Faithful.tell (faithful : Faithful w) (effects : List Effect) (marked : Marked z)
    (sane : ∀ p, Sane (z.nodes p).ribs (Waits z p))
    (others : ∀ p', p' ≠ p → ∀ told type, Informed told type (w.z.nodes p').ribs (Waits w.z p') →
      Informed told type (z.nodes p').ribs (Waits z p'))
    (here : ∀ told type, Informed told type (w.z.nodes p).ribs (Waits w.z p) →
      Informed (tellAll type told effects) type (z.nodes p).ribs (Waits z p)) :
    Faithful { z, clients := Redistribution.tell p effects w.clients } where
  marked := marked
  sane := sane
  asks client inside := by
    rw [tell_eq] at inside
    obtain ⟨before, there, rfl⟩ := List.mem_map.mp inside
    obtain ⟨redist, asked, _, _⟩ := foldl_hear before p effects
    rw [redist, asked]
    exact faithful.asks before there
  informed client inside type asks p' ordinary := by
    rw [tell_eq] at inside
    obtain ⟨before, there, rfl⟩ := List.mem_map.mp inside
    obtain ⟨redist, _, apart, told⟩ := foldl_hear before p effects
    rw [redist] at asks
    have informed := faithful.informed before there type asks p' ordinary
    by_cases same : p = p'
    · subst same
      rw [told type asks ordinary.2]
      exact here _ type informed
    · rw [apart type p' same]
      exact others p' (Ne.symm same) _ type informed

/-- One client is exchanged for one that is informed. -/
theorem Faithful.modify (faithful : Faithful w) (i : Nat) {f : Client → Client}
    (keeps : ∀ client ∈ w.clients, w.clients[i]? = some client →
      ((f client).redist = (f client).asked ∧ ∀ type, (f client).redist type = true →
        served type = true) ∧ ∀ type, (f client).redist type = true → ∀ p, Ordinary p →
          Informed ((f client).told type p) type (w.z.nodes p).ribs (Waits w.z p)) :
    Faithful { w with clients := w.clients.modify i f } where
  marked := faithful.marked
  sane := faithful.sane
  asks client inside := by
    obtain ⟨j, there⟩ := List.mem_iff_getElem?.mp inside
    rw [List.getElem?_modify] at there
    obtain ⟨before, found, same⟩ := Option.map_eq_some_iff.mp there
    split at same
    · rename_i here
      rw [← same]
      exact (keeps before (List.mem_of_getElem? found) (here ▸ found)).1
    · rw [← same]
      exact faithful.asks before (List.mem_of_getElem? found)
  informed client inside := by
    obtain ⟨j, there⟩ := List.mem_iff_getElem?.mp inside
    rw [List.getElem?_modify] at there
    obtain ⟨before, found, same⟩ := Option.map_eq_some_iff.mp there
    split at same
    · rename_i here
      rw [← same]
      exact (keeps before (List.mem_of_getElem? found) (here ▸ found)).2
    · rw [← same]
      exact faithful.informed before (List.mem_of_getElem? found)

/-! ## Requests -/

variable {type : RouteType}

/-- A client that asks anew is sent what the dump shows. -/
theorem request_new (walk : List Prefix) (z : Zebra) {client : Client} (serves : served type = true)
    (before : client.redist type = false) :
    (client.request walk z type).redist = Function.update client.redist type true ∧
      (client.request walk z type).asked = Function.update client.asked type true ∧
      ∀ type' p, (client.request walk z type).told type' p = true ↔
        client.told type' p = true ∨
          p ∈ walk ∧ ∃ rib ∈ (z.nodes p).ribs,
            (shown rib = true ∧ rib.type = type ∧ zebraCheckAddr p = true) ∧ rib.type = type' := by
  have walked : client.request walk z type =
      sendWalk (fun p rib => shown rib ∧ rib.type = type ∧ zebraCheckAddr p) z walk
        { client with
          asked := Function.update client.asked type true
          redist := Function.update client.redist type true } := by
    unfold Client.request zebraRedistributeAdd
    rw [serves, before, zebraRedistribute_eq]
    rfl
  rw [walked]
  obtain ⟨redist, asked⟩ := sendWalk_fields
    (fun p rib => shown rib ∧ rib.type = type ∧ zebraCheckAddr p) z walk
    { client with
      asked := Function.update client.asked type true
      redist := Function.update client.redist type true }
  exact ⟨redist, asked, fun type' p => told_sendWalk _ z walk _ type' p⟩

/-- A client asks for a kind in which it is current. -/
theorem Faithful.request (faithful : Faithful w) {i : Nat} {walk : List Prefix}
    (complete : ∀ p, (w.z.nodes p).ribs ≠ [] → p ∈ walk)
    (current : ∀ client, w.clients[i]? = some client → client.redist type = false →
      Current w.z type client) :
    Faithful { w with clients := w.clients.modify i (Client.request walk w.z type) } := by
  apply faithful.modify
  intro client inside found
  have asks := faithful.asks client inside
  have informed := faithful.informed client inside
  cases before : client.redist type with
  | true =>
    have same : Client.request walk w.z type client =
        { client with asked := Function.update client.asked type true } := by
      unfold Client.request zebraRedistributeAdd
      rw [before]
      split <;> rfl
    rw [same]
    have unchanged : Function.update client.asked type true = client.asked := by
      rw [← asks.1, ← before, update_eq_self]
    refine ⟨⟨?_, asks.2⟩, informed⟩
    rw [unchanged]
    exact asks.1
  | false =>
    obtain ⟨serves, current⟩ := current client found before
    obtain ⟨redist, asked, told⟩ := request_new walk w.z serves before
    rw [redist, asked]
    refine ⟨⟨by rw [asks.1], ?_⟩, ?_⟩
    · intro type' asks'
      by_cases here : type' = type
      · rw [here]
        exact serves
      · rw [update_of_ne here] at asks'
        exact asks.2 type' asks'
    · intro type' asks' p ordinary
      by_cases here : type' = type
      · subst here
        obtain ⟨withheld, known⟩ := current p ordinary
        constructor
        · intro held
          have source : ∃ rib ∈ (w.z.nodes p).ribs, shown rib = true ∧ rib.type = type' := by
            rcases (told type' p).mp held with before | ⟨_, rib, there, sent, kind⟩
            · exact known before
            · exact ⟨rib, there, sent.1, kind⟩
          obtain ⟨rib, there, visible, kind⟩ := source
          obtain ⟨selected, near⟩ := of_decide_eq_true visible
          exact ⟨rib, there, selected, kind, near⟩
        · intro untold rib there selected kind
          by_cases far : rib.distance = distanceInfinity
          · exact (faithful.sane p).far rib there selected far
          · have visible : shown rib = true := decide_eq_true ⟨selected, far⟩
            have sent : (Client.request walk w.z type' client).told type' p = true := by
              refine (told type' p).mpr ?_
              by_cases address : zebraCheckAddr p = true
              · exact Or.inr ⟨complete p (List.ne_nil_of_mem there), rib, there,
                  ⟨visible, kind, address⟩, kind⟩
              · exact Or.inl (withheld ⟨rib, there, visible, kind⟩
                  (Bool.eq_false_of_not_eq_true address))
            rw [sent] at untold
            cases untold
      · rw [update_of_ne here] at asks'
        have same : (Client.request walk w.z type client).told type' p = client.told type' p := by
          rw [Bool.eq_iff_iff, told]
          constructor
          · rintro (before | ⟨_, rib, _, ⟨_, kind, _⟩, kind'⟩)
            · exact before
            · exact absurd (kind'.symm.trans kind) here
          · exact Or.inl
        rw [same]
        exact informed type' asks' p ordinary

/-- A client cancels a kind. -/
theorem Faithful.cancel (faithful : Faithful w) (i : Nat) (type : RouteType) :
    Faithful { w with clients := w.clients.modify i (Client.cancel type) } := by
  apply faithful.modify
  intro client inside _
  have asks := faithful.asks client inside
  have informed := faithful.informed client inside
  have unserved (other : served type = false) :
      Function.update client.asked type false = client.asked := by
    have before : client.asked type = false := by
      rw [← asks.1]
      cases held : client.redist type with
      | false => rfl
      | true => rw [asks.2 type held] at other; cases other
    rw [← before, update_eq_self]
  unfold Client.cancel zebraRedistributeDelete
  split
  · refine ⟨⟨?_, ?_⟩, ?_⟩
    · dsimp only
      rw [asks.1]
    · intro type' asks'
      dsimp only at asks'
      by_cases here : type' = type
      · rw [here, update_self] at asks'
        cases asks'
      · rw [update_of_ne here] at asks'
        exact asks.2 type' asks'
    · intro type' asks'
      dsimp only at asks'
      by_cases here : type' = type
      · rw [here, update_self] at asks'
        cases asks'
      · rw [update_of_ne here] at asks'
        exact informed type' asks'
  · rename_i other
    rw [unserved (Bool.eq_false_of_not_eq_true other)]
    exact ⟨asks, informed⟩

/-- A client asks for the default routes. -/
theorem Faithful.requestDefault (faithful : Faithful w) (i : Nat) :
    Faithful { w with clients := w.clients.modify i (zebraRedistributeDefaultAdd w.z) } := by
  apply faithful.modify
  intro client inside _
  unfold zebraRedistributeDefaultAdd
  rw [zebraRedistributeDefault_eq]
  obtain ⟨redist, asked⟩ := sendWalk_fields (fun _ rib => shown rib = true) w.z
    [Prefix.default .ip, Prefix.default .ip6] { client with redistDefault := true }
  rw [redist, asked]
  refine ⟨faithful.asks client inside, ?_⟩
  intro type asks p ordinary
  have same : (sendWalk (fun _ rib => shown rib = true) w.z
      [Prefix.default .ip, Prefix.default .ip6] { client with redistDefault := true }).told type p =
        client.told type p := by
    rw [Bool.eq_iff_iff, told_sendWalk]
    constructor
    · rintro (before | ⟨member, _⟩)
      · exact before
      · simp only [List.mem_cons, List.not_mem_nil, or_false] at member
        rcases member with rfl | rfl
        · exact absurd ordinary.2 (by decide)
        · exact absurd ordinary.1 (by decide)
    · exact Or.inl
  rw [same]
  exact faithful.informed client inside type asks p ordinary

/-! ## Deletions and processing -/

/-- No client knows of the route that is taken for the lost one. -/
theorem Faithful.delete (faithful : Faithful w) {gate : Option U32} {ifindex : U32}
    (unknown : ∀ fib, lost type gate ifindex (w.z.nodes p).ribs = some fib → Ordinary p →
      ∀ client ∈ w.clients, client.redist fib.type = true → client.told fib.type p = false) :
    Faithful { w with z := ribDeleteIpv4 type p gate ifindex w.z } := by
  cases taken : lost type gate ifindex (w.z.nodes p).ribs with
  | none => exact faithful.pass (ribDeleteIpv4_passes taken)
  | some fib =>
    obtain ⟨place, there, shape⟩ := ribDeleteIpv4_lost taken
    have locked := faithful.pass (relock_grows (· + 1) p w.z).passes
    obtain ⟨marked, sane⟩ := modifyRib_fades (f := forgetFib) (fun _ => rfl)
      (fun rib => (forgetFib_fades rib).1) p place (relock (· + 1) p w.z)
    have forgotten : Faithful
        { w with z := modifyRib p place forgetFib (relock (· + 1) p w.z) } := by
      refine ⟨marked locked.marked, fun p' => sane p' (locked.sane p'), locked.asks, ?_⟩
      intro client inside type' asks p' ordinary
      have informed := locked.informed client inside type' asks p' ordinary
      rw [ribs_modifyRib]
      by_cases same : p' = p
      · subst same
        rw [if_pos rfl]
        refine informed.forget (?_ : _ = some fib) ?_ fun rib => (forgetFib_fades rib).1
        · rw [ribs_relock]
          exact there
        · intro kind
          have silent := unknown fib taken ordinary client inside (by rw [kind]; exact asks)
          rw [kind] at silent
          exact silent
      · rw [if_neg same]
        exact informed
    rw [shape]
    exact forgotten.pass (relock_grows (· - 1) p _).passes

/-- A static route is uninstalled. -/
theorem Faithful.uninstall (faithful : Faithful w) (p : Prefix) (si : StaticRoute Ipv4Way) :
    Faithful
      { z := staticUninstallIpv4 p si w.z
        clients :=
          match uninstalled si (w.z.nodes p).ribs with
          | none => w.clients
          | some rib => redistributeDelete p rib w.clients } := by
  cases taken : uninstalled si (w.z.nodes p).ribs with
  | none => exact faithful.pass (staticUninstallIpv4_passes taken)
  | some rib =>
    obtain ⟨place, hop, there, steady, off, shape⟩ := staticUninstallIpv4_taken taken
    have locked := faithful.pass (relock_grows (· + 1) p w.z).passes
    obtain ⟨marked, sane⟩ := modifyRib_fades (fun rib => (dropHop_fades hop rib).2)
      (fun rib => (dropHop_fades hop rib).1) p place (relock (· + 1) p w.z)
    have withdrawn := locked.tell (p := p) [.redistributeDelete rib]
      (marked locked.marked) (fun p' => sane p' (locked.sane p'))
      (by
        intro p' apart told type informed
        rw [ribs_modifyRib, if_neg apart]
        exact informed)
      (by
        intro told type informed
        rw [ribs_modifyRib, if_pos rfl]
        refine informed.withdraw (locked.sane p) ?_ steady
          (fun rib => (dropHop_fades hop rib).1) off
        rw [ribs_relock]
        exact there)
    rw [shape]
    exact withdrawn.pass
      ((ribQueueAdd_grows p _).1.trans (relock_grows (· - 1) p _)).passes

/-- The next prefix is processed. -/
theorem Faithful.process (faithful : Faithful w) {s : Surroundings}
    (done : metaQueueProcess s w.z = some z) :
    Faithful { z, clients := tellNext s w.z w.clients } := by
  unfold metaQueueProcess at done
  unfold tellNext
  rcases next : nextNode w.z.mq with _ | ⟨q, p, rest⟩
  · rw [next] at done
    obtain rfl := Option.some.inj done
    exact ⟨faithful.marked, faithful.sane, faithful.asks, faithful.informed⟩
  · rw [next] at done
    obtain ⟨z', processed, rfl⟩ := Option.map_eq_some_iff.mp done
    obtain ⟨⟨ribs, effects⟩, looped, rfl⟩ := Option.map_eq_some_iff.mp processed
    have first := nextNode_some next
    obtain ⟨_, status⟩ := ribProcess_keeps s looped
    obtain ⟨settled, tells⟩ := ribProcess_leads s looped
    have kept := keeps_markHead (unset · (ribRouteQueued q)) ribs
    have waits (q' : Fin 5) (p' : Prefix) (apart : p' ≠ p ∨ q' ≠ q) (inside : p' ∈ w.z.mq.subq q') :
        p' ∈ Function.update w.z.mq.subq q rest q' := by
      by_cases same : q' = q
      · subst same
        rw [update_self]
        rw [first] at inside
        exact (List.mem_cons.mp inside).resolve_left (apart.resolve_right fun other => other rfl)
      · rw [update_of_ne same]
        exact inside
    have longer (p' : Prefix) (apart : p' ≠ p) (waiting : Waits w.z p') :
        ∃ q', p' ∈ Function.update w.z.mq.subq q rest q' := by
      obtain ⟨q', inside⟩ := waiting
      exact ⟨q', waits q' p' (Or.inl apart) inside⟩
    dsimp only
    rw [looped]
    refine faithful.tell _ ?_ ?_ ?_ ?_
    · intro p' q' bit
      dsimp only at bit ⊢
      by_cases here : p' = p
      · subst here
        rw [update_self] at bit
        by_cases empty : ribs = []
        · rw [empty] at bit
          simp [headStatus, markHead, check] at bit
        · rw [headStatus_markHead empty, check_unset_queued, Bool.and_eq_true, status empty] at bit
          have other : q' ≠ q := fun same => of_decide_eq_true bit.2 same.symm
          exact waits q' p' (Or.inr other) (faithful.marked p' q' bit.1)
      · rw [update_of_ne here] at bit
        exact waits q' p' (Or.inl here) (faithful.marked p' q' bit)
    · intro p'
      dsimp only
      by_cases here : p' = p
      · subst here
        rw [update_self]
        exact (settled.sane _).fades (kept.imp fun _ _ kept => kept.toFades) fun waiting => waiting
      · rw [update_of_ne here]
        exact (faithful.sane p').fades ((keeps_refl _).imp fun _ _ kept => kept.toFades)
          (longer p' here)
    · intro p' apart told type informed
      dsimp only
      rw [update_of_ne apart]
      exact informed.keeps (keeps_refl _) (longer p' apart)
    · intro told type informed
      dsimp only
      rw [update_self]
      exact ((tells told type _ informed).informed settled _).keeps kept fun waiting => waiting

/-! ## Every run -/

/-- Every event of which the changes are announced keeps every client informed. -/
theorem Faithful.step {w' : World} {event : Event} (faithful : Faithful w)
    (allowed : Allowed w event) (announced : Announced w event) (next : w.step event = some w') :
    Faithful w' := by
  cases event with
  | connect =>
    obtain rfl := Option.some.inj next
    refine ⟨faithful.marked, faithful.sane, ?_, ?_⟩
    · intro client inside
      rcases List.mem_append.mp inside with inside | inside
      · exact faithful.asks client inside
      · rw [List.mem_singleton.mp inside]
        exact ⟨rfl, nofun⟩
    · intro client inside
      rcases List.mem_append.mp inside with inside | inside
      · exact faithful.informed client inside
      · rw [List.mem_singleton.mp inside]
        nofun
  | request i type walk =>
    obtain rfl := Option.some.inj next
    exact faithful.request allowed announced
  | cancel i type =>
    obtain rfl := Option.some.inj next
    exact faithful.cancel i type
  | requestDefault i =>
    obtain rfl := Option.some.inj next
    exact faithful.requestDefault i
  | cancelDefault i =>
    obtain rfl := Option.some.inj next
    exact faithful.modify i fun client inside _ =>
      ⟨faithful.asks client inside, faithful.informed client inside⟩
  | add beyond p route =>
    obtain rfl := Option.some.inj next
    exact faithful.pass (ribAddIpv4_passes beyond p route w.z)
  | addMultipath beyond p rib =>
    obtain rfl := Option.some.inj next
    exact faithful.pass (ribAddIpv4Multipath_passes beyond p allowed.1 allowed.2 w.z)
  | delete type p gate ifindex =>
    obtain rfl := Option.some.inj next
    exact faithful.delete announced
  | install p si =>
    obtain rfl := Option.some.inj next
    exact faithful.pass (staticInstallIpv4_passes p si w.z)
  | uninstall p si =>
    obtain rfl := Option.some.inj next
    exact faithful.uninstall p si
  | update walk =>
    obtain rfl := Option.some.inj next
    exact faithful.pass (ribUpdate_grows walk w.z).passes
  | process s =>
    obtain ⟨z, done, rfl⟩ := Option.map_eq_some_iff.mp next
    exact faithful.process done

theorem Reached.faithful (reached : Reached w) : Faithful w := by
  induction reached with
  | start => exact Faithful.start
  | step event _ allowed announced next ih => exact ih.step allowed announced next

/-- Every next hop is active and the kernel takes every route. -/
def lively : Surroundings where
  nexthopActiveCheck _ _ hop := { hop with flags := set hop.flags nexthopFlagActive }
  kernelAdd rib :=
    (true, rib.nexthop.map fun hop => { hop with flags := set hop.flags nexthopFlagFib })

/-- A route of BGP. -/
def learned : Ipv4Route := { type := .bgp, gate := some 0x0a000001 }

/-- In every run in which every change is announced, whenever the queue is empty, every
client knows exactly of the selected routes of the kinds that it has asked for, of which there
is one at each prefix. -/
theorem redistribution_right {w : World} (reached : Reached w) (empty : ∀ q, w.z.mq.subq q = []) :
    Right w ∧ ∀ p, Alone (fun rib => rib.selected = true) (w.z.nodes p).ribs := by
  have faithful := reached.faithful
  have still (p : Prefix) : ¬ Waits w.z p := by
    rintro ⟨q, inside⟩
    rw [empty q] at inside
    cases inside
  refine ⟨?_, fun p => (faithful.sane p).crowd (still p)⟩
  intro client inside type asked p ordinary
  rw [← (faithful.asks client inside).1] at asked
  have informed := faithful.informed client inside type asked p ordinary
  constructor
  · intro told
    obtain ⟨rib, there, selected, kind, _⟩ := informed.sound told
    exact ⟨rib, there, selected, kind⟩
  · rintro ⟨rib, there, selected, kind⟩
    by_contra untold
    exact still p (informed.complete (Bool.eq_false_of_not_eq_true untold) rib there
      selected kind).2

/-- A client asks for the routes of BGP, one is added and selected, and the client knows of
it. -/
theorem redistribution_right_learned :
    ∃ w₁ w₂ w₃ w₄, World.step {} .connect = some w₁ ∧
      w₁.step (.request 0 .bgp []) = some w₂ ∧ w₂.step (.add 0 tenNet learned) = some w₃ ∧
      w₃.step (.process lively) = some w₄ ∧ Right w₄ := by
  refine ⟨_, _, _, _, rfl, rfl, rfl, rfl, (redistribution_right ?_ (by decide)).1⟩
  have first : Reached _ := .step .connect .start trivial trivial rfl
  have second : Reached _ := .step (.request 0 .bgp []) first (fun _ filled => absurd rfl filled)
    (by
      intro client found _
      obtain rfl := Option.some.inj found
      refine ⟨rfl, fun p _ => ⟨?_, nofun⟩⟩
      rintro ⟨rib, there, _⟩
      cases there)
    rfl
  have third : Reached _ := .step (.add 0 tenNet learned) second trivial trivial rfl
  exact .step (.process lively) third trivial trivial rfl

/-- A client asks for the routes of BGP and is told of one that is selected. Then a deletion
from the kernel finds no route of the kernel at its prefix. -/
theorem redistribution_not_right :
    ∃ w, Occurs w ∧ (∀ q, w.z.mq.subq q = []) ∧ ¬ Right w := by
  have first : Occurs _ := .step .connect .start trivial rfl
  have second : Occurs _ := .step (.request 0 .bgp []) first (fun _ filled => absurd rfl filled) rfl
  have third : Occurs _ := .step (.add 0 tenNet learned) second trivial rfl
  have fourth : Occurs _ := .step (.process lively) third trivial rfl
  have fifth : Occurs _ := .step (.delete .kernel tenNet none 0) fourth trivial rfl
  refine ⟨_, fifth, by decide, fun right => ?_⟩
  have stands := (right _ List.mem_cons_self .bgp rfl tenNet (by decide)).mp (by decide)
  revert stands
  decide

end Bgpd.Redistribution
