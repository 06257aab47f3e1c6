import Bgpd.ConnectedTable

/-!
# The connected networks over a run

Beside what the daemon knows, a run keeps the addresses that were really
configured on each interface, by the messages alone. The table counts them as long
as the messages pair up: an interface goes up when it did not count before, goes
down when it did, and changes its flags in other ways only while it has no address
to count; and an address is deleted under which the daemon finds that address.
-/

namespace Bgpd.ConnectedTable

open Octets Prefixes Linklist
open Function (comp_apply update update_eq_self update_of_ne update_self)

/-! ## What is counted -/

/-- The network that an address counts for. -/
def countsFor (ifc : Connected) : Option Prefix :=
  (connectedPrefix ifc).bind fun a => if uncounted a.network then none else some a.network

/-- The addresses that count for a network. -/
def addressesIn (l : List Connected) (p : Prefix) : Nat :=
  l.countP fun ifc => countsFor ifc = some p

/-- The addresses of the interface count. -/
def counting (ifp : Interface) : Bool := ifIsOperative ifp && !ifIsLoopback ifp

/-- What an interface contributes with some addresses. -/
def contribution (l : List Connected) (ifp : Interface) (p : Prefix) : Nat :=
  if counting ifp then addressesIn l p else 0

/-- The addresses of a network on operative interfaces other than loopbacks. -/
def configured (real : List U8 → List Connected) (iflist : List Interface) (p : Prefix) : Nat :=
  (iflist.map fun ifp => contribution (real ifp.name) ifp p).sum

/-- The node of a network with a number of addresses. -/
def nodeOf (addresses : Nat) : Node :=
  ⟨if addresses = 0 then none else some addresses, addresses⟩

/-- The table counts. -/
def Counts (t : Table) (n : Prefix → Nat) : Prop := ∀ p, t p = nodeOf (n p)

/-! ## The table operations -/

variable {ifc : Connected}

theorem countsFor_some {a : Address} (is : connectedPrefix ifc = some a) :
    countsFor ifc = if uncounted a.network then none else some a.network := by
  unfold countsFor
  rw [is]
  rfl

theorem addressesIn_single (ifc : Connected) (p : Prefix) :
    addressesIn [ifc] p = if countsFor ifc = some p then 1 else 0 := by
  unfold addressesIn
  rw [List.countP_singleton]
  simp

theorem addressesIn_cons (ifc : Connected) (l : List Connected) (p : Prefix) :
    addressesIn (ifc :: l) p = addressesIn [ifc] p + addressesIn l p := by
  unfold addressesIn
  rw [← List.countP_append]
  rfl

variable {t t' : Table} {n : Prefix → Nat}

/-- A counted address adds one to its network. -/
theorem bgpConnectedAdd_counts (counts : Counts t n)
    (done : bgpConnectedAdd false ifc t = some t') :
    Counts t' fun p => n p + addressesIn [ifc] p := by
  obtain ⟨a, is, rfl⟩ := Option.map_eq_some_iff.mp done
  intro p
  dsimp only
  rw [addressesIn_single, countsFor_some is]
  by_cases skipped : uncounted a.network = true
  · rw [if_pos skipped, if_pos skipped, if_neg nofun]
    exact counts p
  · rw [if_neg skipped, if_neg skipped]
    by_cases here : p = a.network
    · subst here
      rw [update_self, if_pos rfl, counts]
      unfold nodeOf
      by_cases zero : n a.network = 0
      · simp [zero]
      · simp [zero]
    · rw [update_of_ne here, if_neg fun same => here (Option.some.inj same).symm]
      exact counts p

/-- A deleted address takes one from its network. -/
theorem bgpConnectedDelete_counts (counts : Counts t n)
    (done : bgpConnectedDelete false ifc t = some t') :
    Counts t' fun p => n p - addressesIn [ifc] p := by
  obtain ⟨a, is, rfl⟩ := Option.map_eq_some_iff.mp done
  intro p
  dsimp only
  rw [addressesIn_single, countsFor_some is]
  by_cases skipped : uncounted a.network = true
  · rw [if_pos skipped, if_pos skipped, if_neg nofun]
    exact counts p
  · rw [if_neg skipped, if_neg skipped, counts a.network]
    unfold nodeOf
    by_cases zero : n a.network = 0
    · -- there is no count to find, and nothing to subtract from
      simp only [zero, if_true]
      by_cases here : p = a.network
      · subst here
        rw [if_pos rfl, counts, zero]
        rfl
      · rw [if_neg fun same => here (Option.some.inj same).symm]
        exact counts p
    · simp only [if_neg zero]
      by_cases here : p = a.network
      · subst here
        rw [update_self, if_pos rfl]
        simp only [Node.mk.injEq, true_and]
        omega
      · rw [update_of_ne here, if_neg fun same => here (Option.some.inj same).symm]
        exact counts p

/-- On a loopback nothing is counted. -/
theorem foldl_loopback (f : Bool → Connected → Table → Option Table)
    (still : ∀ ifc t, f true ifc t = some t) (l : List Connected) (t : Table) :
    l.foldlM (fun t ifc => f true ifc t) t = some t := by
  induction l with
  | nil => rfl
  | cons ifc l ih => rw [List.foldlM_cons, still ifc t, Option.bind_eq_bind, Option.bind_some, ih]

variable {l : List Connected}

/-- What counts one address, or takes it away, does so with all addresses of an interface. -/
theorem all_counts {f : Connected → Table → Option Table} {op : Nat → Nat → Nat}
    (each : ∀ {ifc t t' n}, Counts t n → f ifc t = some t' →
      Counts t' fun p => op (n p) (addressesIn [ifc] p))
    (zero : ∀ m, op m 0 = m) (sum : ∀ m k k', op (op m k) k' = op m (k + k'))
    (counts : Counts t n) (done : l.foldlM (fun t ifc => f ifc t) t = some t') :
    Counts t' fun p => op (n p) (addressesIn l p) := by
  induction l generalizing t n with
  | nil =>
    obtain rfl := Option.some.inj done
    exact fun p => (counts p).trans (congrArg nodeOf (zero (n p)).symm)
  | cons ifc l ih =>
    rw [List.foldlM_cons] at done
    obtain ⟨between, first, rest⟩ := Option.bind_eq_some_iff.mp done
    intro p
    rw [ih (each counts first) rest p]
    dsimp only
    rw [sum, ← addressesIn_cons]

/-! ## Runs -/

/-- What the daemon knows beside the addresses that were configured on the
interfaces. -/
structure World where
  b : Networks := {}
  real : List U8 → List Connected := fun _ => []

variable (ifCmpFunc : Interface → Interface → Int)
variable {w : World} {iflist : List Interface} {l : List Connected}

/-- The addresses that are configured after a message. -/
def World.realAfter (w : World) : Message → List U8 → List Connected
  | .addressAdd ifa =>
    match ifLookupByIndex w.b.iflist ifa.ifindex with
    | none => w.real
    | some ifp => update w.real ifp.name (w.real ifp.name ++ [ifa.connected])
  | .addressDelete ifa =>
    match ifLookupByIndex w.b.iflist ifa.ifindex with
    | none => w.real
    | some ifp => update w.real ifp.name ((w.real ifp.name).erase ifa.connected)
  | _ => w.real

/-- One message. -/
def World.step (w : World) (msg : Message) : Option World :=
  (receive ifCmpFunc w.b msg).map fun b => ⟨b, w.realAfter msg⟩

/-- The interface has no address that would count. -/
def Idle (ifp : Interface) : Prop := ∀ ifc ∈ ifp.connected, countsFor ifc = none

/-- The message pairs up with those before it. -/
def Paired (w : World) : Message → Prop
  | .interfaceAdd state => ∀ ifp, ifLookupByName w.b.iflist state.name = some ifp →
      counting (state.onto ifp) = counting ifp ∨ Idle ifp
  | .interfaceUp state => ∀ ifp, ifLookupByName w.b.iflist state.name = some ifp →
      counting ifp = false ∧
          (ifIsLoopback (state.onto ifp) = true ∨ ifIsOperative (state.onto ifp) = true) ∨
        Idle ifp
  | .interfaceDown state => ∀ ifp, ifLookupByName w.b.iflist state.name = some ifp →
      counting (state.onto ifp) = false ∧
          (counting ifp = !ifIsLoopback (state.onto ifp) ∨
            counting ifp = false ∧ ∀ ifc ∈ ifp.connected, ∀ p, countsFor ifc = some p →
              (w.b.table p).refcnt = none) ∨
        Idle ifp
  | .addressAdd _ => True
  | .addressDelete ifa => ∀ ifp, ifLookupByIndex w.b.iflist ifa.ifindex = some ifp →
      ∀ ifc, ifp.connected.find? (fun ifc => connectedSamePrefix ifc.address ifa.address) =
        some ifc →
        ifc = ifa.connected

/-- The states of all runs. -/
inductive Occurs : World → Prop
  | start : Occurs {}
  | step {w w' : World} (msg : Message) : Occurs w → w.step ifCmpFunc msg = some w' → Occurs w'

/-- The states of the runs whose messages pair up. -/
inductive Reached : World → Prop
  | start : Reached {}
  | step {w w' : World} (msg : Message) : Reached w → Paired w msg →
      w.step ifCmpFunc msg = some w' → Reached w'

/-- The address is in the network. -/
def Address.inside (a : Address) (p : Prefix) : Prop := p.family = a.family ∧ p.bits <+: a.bits

/-- The table has the networks that are really connected, and accepts the next hops
that lie in them. -/
structure Right (w : World) : Prop where
  entry : ∀ p : Prefix, p.family = .ip → p.bits ≠ [] →
    ((w.b.table p).refcnt.isSome = true ↔ 0 < configured w.real w.b.iflist p)
  refcnt : ∀ p : Prefix, p.family = .ip → p.bits ≠ [] →
    ∀ count, (w.b.table p).refcnt = some count → count = configured w.real w.b.iflist p
  lock : ∀ p : Prefix, p.family = .ip → p.bits ≠ [] →
    (w.b.table p).lock = configured w.real w.b.iflist p
  accepted : ∀ nexthop : Address, nexthop.family = .ip →
    (bgpNexthopCheckEbgp true w.b.table nexthop = true ↔
      ∃ p, nexthop.inside p ∧ 0 < configured w.real w.b.iflist p)

/-! ## Every message keeps the count -/

/-- What the daemon knows is what was configured, and the table counts it. -/
structure Faithful (w : World) : Prop where
  names : (w.b.iflist.map Interface.name).Nodup
  mirrored : ∀ ifp ∈ w.b.iflist, w.real ifp.name = ifp.connected
  unknown : ∀ name, (∀ ifp ∈ w.b.iflist, ifp.name ≠ name) → w.real name = []
  counts : Counts w.b.table (configured w.real w.b.iflist)

variable {ifp : Interface}

/-- A sum over the interfaces after one of them is exchanged. -/
theorem exchange_sum (f f' : Interface → Nat) (g : Interface → Interface)
    (names : (iflist.map Interface.name).Nodup) (member : ifp ∈ iflist)
    (others : ∀ other ∈ iflist, other.name ≠ ifp.name → f' other = f other) :
    ((exchange iflist ifp.name g).map f').sum + f ifp = (iflist.map f).sum + f' (g ifp) := by
  induction iflist with
  | nil => cases member
  | cons head rest ih =>
    obtain ⟨apart, distinct⟩ := List.nodup_cons.mp names
    by_cases here : head.name = ifp.name
    · obtain rfl : ifp = head := by
        rcases List.mem_cons.mp member with same | later
        · exact same
        · exact absurd (List.mem_map.mpr ⟨ifp, later, here.symm⟩) apart
      have untouched : (exchange rest ifp.name g).map f' = rest.map f := by
        unfold exchange
        rw [List.map_map]
        refine List.map_congr_left fun other later => ?_
        have differ : other.name ≠ ifp.name := fun same =>
          apart (List.mem_map.mpr ⟨other, later, same⟩)
        rw [comp_apply, if_neg differ, others other (.tail _ later) differ]
      have split : exchange (ifp :: rest) ifp.name g = g ifp :: exchange rest ifp.name g := by
        simp [exchange]
      rw [split, List.map_cons, List.sum_cons, untouched, List.map_cons, List.sum_cons]
      omega
    · have later : ifp ∈ rest :=
        (List.mem_cons.mp member).resolve_left fun same => here (same ▸ rfl)
      have tail := ih distinct later fun other inside => others other (.tail _ inside)
      have split : exchange (head :: rest) ifp.name g = head :: exchange rest ifp.name g := by
        simp [exchange, here]
      rw [split, List.map_cons, List.sum_cons, List.map_cons, List.sum_cons,
        others head List.mem_cons_self here]
      omega

variable {name : List U8}
variable {g : Interface → Interface}

theorem mem_exchange :
    ifp ∈ exchange iflist name g ↔
      (ifp ∈ iflist ∧ ifp.name ≠ name) ∨ ∃ old ∈ iflist, old.name = name ∧ g old = ifp := by
  unfold exchange
  rw [List.mem_map]
  constructor
  · rintro ⟨old, member, rfl⟩
    by_cases here : old.name = name
    · rw [if_pos here]
      exact Or.inr ⟨old, member, here, rfl⟩
    · rw [if_neg here]
      exact Or.inl ⟨member, here⟩
  · rintro (⟨member, differ⟩ | ⟨old, member, here, rfl⟩)
    · exact ⟨ifp, member, if_neg differ⟩
    · exact ⟨old, member, if_pos here⟩

theorem exchange_names (kept : ∀ ifp, (g ifp).name = ifp.name) :
    (exchange iflist name g).map Interface.name = iflist.map Interface.name := by
  unfold exchange
  rw [List.map_map]
  refine List.map_congr_left fun ifp _ => ?_
  rw [comp_apply]
  split
  · exact kept ifp
  · rfl

/-- One interface of a name is there. -/
theorem Faithful.same_name (faithful : Faithful w) {a b : Interface} (first : a ∈ w.b.iflist)
    (second : b ∈ w.b.iflist) (same : a.name = b.name) : a = b :=
  List.inj_on_of_nodup_map faithful.names first second same

/-- One interface is exchanged, with what is configured on it, and the table follows. -/
theorem Faithful.exchange (faithful : Faithful w) (member : ifp ∈ w.b.iflist)
    (g : Interface → Interface) (kept : ∀ ifp, (g ifp).name = ifp.name) (counts : Counts t n)
    (balance : ∀ p, n p + contribution ifp.connected ifp p = configured w.real w.b.iflist p +
      contribution (g ifp).connected (g ifp) p) :
    Faithful
      ⟨⟨ConnectedTable.exchange w.b.iflist ifp.name g, t⟩,
        update w.real ifp.name (g ifp).connected⟩ where
  names := by
    rw [exchange_names kept]
    exact faithful.names
  mirrored other inside := by
    rcases mem_exchange.mp inside with ⟨before, differ⟩ | ⟨old, before, same, rfl⟩
    · dsimp only
      rw [update_of_ne differ]
      exact faithful.mirrored other before
    · obtain rfl := faithful.same_name before member same
      dsimp only
      rw [kept, update_self]
  unknown name absent := by
    have differ : name ≠ ifp.name := by
      intro same
      refine absent (g ifp) (mem_exchange.mpr (Or.inr ⟨ifp, member, rfl, rfl⟩)) ?_
      rw [kept, same]
    dsimp only
    rw [update_of_ne differ]
    refine faithful.unknown name fun other inside same => ?_
    refine absent other (mem_exchange.mpr (Or.inl ⟨inside, ?_⟩)) same
    rw [same]
    exact differ
  counts p := by
    have sum := exchange_sum (fun ifp => contribution (w.real ifp.name) ifp p)
      (fun other =>
        contribution (update w.real ifp.name (g ifp).connected other.name) other p)
      g faithful.names member fun other _ differ => by
        rw [update_of_ne differ]
    rw [faithful.mirrored ifp member, kept, update_self] at sum
    have balanced := balance p
    have same : n p = configured (update w.real ifp.name (g ifp).connected)
        (ConnectedTable.exchange w.b.iflist ifp.name g) p := by
      unfold configured at balanced ⊢
      omega
    exact (counts p).trans (congrArg nodeOf same)

/-- An interface contributes to what is configured. -/
theorem Faithful.contribution_le (faithful : Faithful w) (member : ifp ∈ w.b.iflist) (p : Prefix) :
    contribution ifp.connected ifp p ≤ configured w.real w.b.iflist p := by
  have listed : contribution ifp.connected ifp p ∈
      w.b.iflist.map fun ifp => contribution (w.real ifp.name) ifp p :=
    List.mem_map.mpr ⟨ifp, member, by rw [faithful.mirrored ifp member]⟩
  exact List.single_le_sum (fun _ _ => Nat.zero_le _) _ listed

/-- An idle interface has no address in any network. -/
theorem Idle.none (idle : Idle ifp) (p : Prefix) : addressesIn ifp.connected p = 0 := by
  unfold addressesIn
  rw [List.countP_eq_zero]
  intro ifc member
  rw [idle ifc member]
  simp

theorem lookup_name (found : ifLookupByName iflist name = some ifp) :
    ifp ∈ iflist ∧ ifp.name = name := by
  unfold ifLookupByName at found
  exact ⟨List.mem_of_find?_eq_some found, by simpa using List.find?_some found⟩

theorem lookup_index {ifindex : U32} (found : ifLookupByIndex iflist ifindex = some ifp) :
    ifp ∈ iflist :=
  List.mem_of_find?_eq_some found

/-- A message about the state of an interface leaves its addresses. -/
theorem update_same (faithful : Faithful w) (member : ifp ∈ w.b.iflist) (state : InterfaceState) :
    update w.real ifp.name (state.onto ifp).connected = w.real := by
  have same : (state.onto ifp).connected = w.real ifp.name := (faithful.mirrored ifp member).symm
  rw [same, update_eq_self]

variable {state : InterfaceState}

/-- The state of an interface is replaced, and the table follows. -/
theorem Faithful.onto (faithful : Faithful w)
    (found : ifLookupByName w.b.iflist state.name = some ifp) (counts : Counts t n)
    (balance : ∀ p, n p + contribution ifp.connected ifp p = configured w.real w.b.iflist p +
      contribution ifp.connected (state.onto ifp) p) :
    Faithful ⟨⟨ConnectedTable.exchange w.b.iflist state.name state.onto, t⟩, w.real⟩ := by
  obtain ⟨member, name⟩ := lookup_name found
  have changed := faithful.exchange member state.onto (fun _ => rfl) counts balance
  rw [update_same faithful member, name] at changed
  exact changed

theorem Faithful.interfaceAdd (faithful : Faithful w) (paired : Paired w (.interfaceAdd state)) :
    Faithful ⟨bgpInterfaceAdd ifCmpFunc w.b state, w.real⟩ := by
  unfold bgpInterfaceAdd
  cases found : ifLookupByName w.b.iflist state.name with
  | some ifp =>
    refine faithful.onto found faithful.counts fun p => ?_
    rcases paired ifp found with same | idle
    · simp only [contribution, same]
    · simp [contribution, idle.none p]
  | none =>
    have absent : ∀ ifp ∈ w.b.iflist, ifp.name ≠ state.name := by
      intro ifp member same
      have failed := List.find?_eq_none.mp found ifp member
      simp only [same, decide_true, not_true_eq_false] at failed
    have order : (listnodeAddSort ifCmpFunc w.b.iflist state.create).Perm
        (state.create :: w.b.iflist) := by
      rw [listnodeAddSort_eq]
      refine List.perm_middle.trans (List.Perm.cons _ ?_)
      rw [passed_append_kept]
    refine ⟨?_, ?_, ?_, ?_⟩
    · refine ((order.map Interface.name).nodup_iff).mpr (List.nodup_cons.mpr ⟨?_, faithful.names⟩)
      intro listed
      obtain ⟨ifp, member, same⟩ := List.mem_map.mp listed
      exact absent ifp member same
    · intro ifp member
      rcases mem_listnodeAddSort.mp member with rfl | before
      · exact faithful.unknown state.name absent
      · exact faithful.mirrored ifp before
    · intro name none
      refine faithful.unknown name fun ifp member => ?_
      exact none ifp (mem_listnodeAddSort.mpr (Or.inr member))
    · intro p
      have sum := (order.map fun ifp => contribution (w.real ifp.name) ifp p).sum_eq
      have fresh : w.real state.create.name = [] := faithful.unknown state.name absent
      have nothing : contribution [] state.create p = 0 := by
        unfold contribution
        exact ite_self 0
      rw [List.map_cons, List.sum_cons, fresh, nothing, Nat.zero_add] at sum
      have counts := faithful.counts p
      unfold configured at counts ⊢
      rw [counts, sum]

variable {b : Networks}

theorem Faithful.interfaceUp (faithful : Faithful w) (paired : Paired w (.interfaceUp state))
    (done : bgpInterfaceUp w.b state = some b) : Faithful ⟨b, w.real⟩ := by
  unfold bgpInterfaceUp at done
  cases found : ifLookupByName w.b.iflist state.name with
  | none =>
    rw [found] at done
    obtain rfl := Option.some.inj done
    exact faithful
  | some ifp =>
    rw [found] at done
    obtain ⟨t, added, rfl⟩ := Option.map_eq_some_iff.mp done
    cases loopback : ifIsLoopback (state.onto ifp) with
    | true =>
      rw [loopback, foldl_loopback bgpConnectedAdd (fun _ _ => rfl)] at added
      obtain rfl := Option.some.inj added
      refine faithful.onto found faithful.counts fun p => ?_
      have after : counting (state.onto ifp) = false := by
        unfold counting
        rw [loopback, Bool.not_true, Bool.and_false]
      rcases paired ifp found with ⟨before, _⟩ | idle
      · simp only [contribution, before, after]
      · simp [contribution, idle.none p]
    | false =>
      rw [loopback] at added
      refine faithful.onto found (all_counts bgpConnectedAdd_counts Nat.add_zero Nat.add_assoc
        faithful.counts added) fun p => ?_
      rcases paired ifp found with ⟨before, comes⟩ | idle
      · have operative := comes.resolve_left (by rw [loopback]; decide)
        have after : counting (state.onto ifp) = true := by
          unfold counting
          rw [operative, loopback]
          rfl
        simp [contribution, before, after]
      · simp [contribution, idle.none p]

theorem Faithful.interfaceDown (faithful : Faithful w) (paired : Paired w (.interfaceDown state))
    (done : bgpInterfaceDown w.b state = some b) : Faithful ⟨b, w.real⟩ := by
  unfold bgpInterfaceDown at done
  cases found : ifLookupByName w.b.iflist state.name with
  | none =>
    rw [found] at done
    obtain rfl := Option.some.inj done
    exact faithful
  | some ifp =>
    rw [found] at done
    obtain ⟨t, deleted, rfl⟩ := Option.map_eq_some_iff.mp done
    cases loopback : ifIsLoopback (state.onto ifp) with
    | true =>
      rw [loopback, foldl_loopback bgpConnectedDelete (fun _ _ => rfl)] at deleted
      obtain rfl := Option.some.inj deleted
      refine faithful.onto found faithful.counts fun p => ?_
      rcases paired ifp found with ⟨after, before | ⟨before, _⟩⟩ | idle
      · rw [loopback, Bool.not_true] at before
        simp only [contribution, before, after]
      · simp only [contribution, before, after]
      · simp [contribution, idle.none p]
    | false =>
      rw [loopback] at deleted
      refine faithful.onto found (all_counts bgpConnectedDelete_counts Nat.sub_zero Nat.sub_sub
        faithful.counts deleted) fun p => ?_
      have part := faithful.contribution_le (lookup_name found).1 p
      rcases paired ifp found with ⟨after, before | ⟨before, unlisted⟩⟩ | idle
      · rw [loopback, Bool.not_false] at before
        simp only [contribution, before, after, if_true, Bool.false_eq_true, if_false] at part ⊢
        omega
      · -- nothing that is deleted is in the table
        have none : addressesIn ifp.connected p = 0 ∨ configured w.real w.b.iflist p = 0 := by
          by_cases some_ : ∃ ifc ∈ ifp.connected, countsFor ifc = some p
          · obtain ⟨ifc, member, is⟩ := some_
            have missing := unlisted ifc member p is
            rw [faithful.counts p] at missing
            unfold nodeOf at missing
            by_contra both
            rw [if_neg (fun zero => both (Or.inr zero))] at missing
            cases missing
          · refine Or.inl (List.countP_eq_zero.mpr fun ifc member is => some_ ⟨ifc, member, ?_⟩)
            exact of_decide_eq_true is
        simp only [contribution, before, after, Bool.false_eq_true, if_false]
        omega
      · simp only [contribution, idle.none p, ite_self]
        omega

/-- An address of an interface, added to the others or taken from them. -/
theorem contribution_counting {p : Prefix} :
    contribution l ifp p = if ifIsOperative ifp = true ∧ ifIsLoopback ifp = false
      then addressesIn l p else 0 := by
  unfold contribution counting
  cases ifIsOperative ifp <;> cases ifIsLoopback ifp <;> rfl

theorem addressesIn_append (l : List Connected) (ifc : Connected) (p : Prefix) :
    addressesIn (l ++ [ifc]) p = addressesIn l p + addressesIn [ifc] p :=
  List.countP_append

theorem addressesIn_erase (member : ifc ∈ l) (p : Prefix) :
    addressesIn l p = addressesIn (l.erase ifc) p + addressesIn [ifc] p := by
  rw [Nat.add_comm, ← addressesIn_cons]
  exact (List.perm_cons_erase member).countP_eq _

theorem contribution_append (l : List Connected) (ifc : Connected) (ifp : Interface) (p : Prefix) :
    contribution (l ++ [ifc]) ifp p = contribution l ifp p + contribution [ifc] ifp p := by
  rw [contribution_counting, contribution_counting, contribution_counting]
  split
  · exact addressesIn_append l ifc p
  · rfl

theorem contribution_erase (member : ifc ∈ l) (ifp : Interface) (p : Prefix) :
    contribution l ifp p = contribution (l.erase ifc) ifp p + contribution [ifc] ifp p := by
  rw [contribution_counting, contribution_counting, contribution_counting]
  split
  · exact addressesIn_erase member p
  · rfl

/-- One address is counted, or taken from the count, where its interface counts. -/
theorem one_counts {f : Bool → Connected → Table → Option Table} {count : Nat → Nat → Nat}
    (still : ∀ ifc t, f true ifc t = some t)
    (turn : ∀ t', f false ifc t = some t' →
      Counts t' fun p => count (n p) (addressesIn [ifc] p))
    (zero : ∀ m, count m 0 = m) (counts : Counts t n) {iflist : List Interface}
    (done : (if ifIsOperative ifp then
      (f (ifIsLoopback ifp) ifc t).map fun t => ⟨iflist, t⟩ else some ⟨iflist, t⟩) = some b) :
    ∃ t', b = ⟨iflist, t'⟩ ∧ Counts t' fun p => count (n p) (contribution [ifc] ifp p) := by
  cases operative : ifIsOperative ifp with
  | false =>
    rw [operative, if_neg Bool.false_ne_true] at done
    refine ⟨t, (Option.some.inj done).symm, ?_⟩
    simpa [contribution, counting, operative, zero] using counts
  | true =>
    rw [operative, if_pos rfl] at done
    obtain ⟨t', did, rfl⟩ := Option.map_eq_some_iff.mp done
    refine ⟨t', rfl, ?_⟩
    cases loopback : ifIsLoopback ifp with
    | true =>
      rw [loopback, still] at did
      obtain rfl := Option.some.inj did
      simpa [contribution, counting, loopback, zero] using counts
    | false =>
      rw [loopback] at did
      simpa [contribution, counting, operative, loopback] using turn t' did

variable {ifa : InterfaceAddress}

theorem Faithful.addressAdd (faithful : Faithful w)
    (done : bgpInterfaceAddressAdd w.b ifa = some b) :
    Faithful ⟨b, w.realAfter (.addressAdd ifa)⟩ := by
  unfold bgpInterfaceAddressAdd at done
  cases found : ifLookupByIndex w.b.iflist ifa.ifindex with
  | none =>
    rw [found] at done
    obtain rfl := Option.some.inj done
    have real : w.realAfter (.addressAdd ifa) = w.real := by simp only [World.realAfter, found]
    rw [real]
    exact faithful
  | some ifp =>
    rw [found] at done
    have real : w.realAfter (.addressAdd ifa) =
        update w.real ifp.name (w.real ifp.name ++ [ifa.connected]) := by
      simp only [World.realAfter, found]
    rw [real]
    have member := lookup_index found
    let g (ifp : Interface) : Interface :=
      { ifp with connected := ifp.connected ++ [ifa.connected] }
    have more (p : Prefix) : contribution (g ifp).connected (g ifp) p =
        contribution ifp.connected ifp p + contribution [ifa.connected] ifp p :=
      contribution_append ifp.connected ifa.connected ifp p
    rw [faithful.mirrored ifp member]
    obtain ⟨t, rfl, counts⟩ := one_counts (fun _ _ => rfl)
      (fun _ => bgpConnectedAdd_counts faithful.counts) Nat.add_zero faithful.counts done
    refine faithful.exchange member g (fun _ => rfl) counts fun p => ?_
    rw [more p]
    omega

/-- Deleting an address that the interface does not have. -/
theorem erase_absent
    (absent : l.find? (fun ifc => connectedSamePrefix ifc.address ifa.address) = none) :
    l.erase ifa.connected = l := by
  refine List.erase_of_not_mem fun member => ?_
  have failed := List.find?_eq_none.mp absent ifa.connected member
  exact failed (decide_eq_true ⟨rfl, rfl⟩)

theorem Faithful.addressDelete (faithful : Faithful w) (paired : Paired w (.addressDelete ifa))
    (done : bgpInterfaceAddressDelete w.b ifa = some b) :
    Faithful ⟨b, w.realAfter (.addressDelete ifa)⟩ := by
  unfold bgpInterfaceAddressDelete at done
  cases found : ifLookupByIndex w.b.iflist ifa.ifindex with
  | none =>
    rw [found] at done
    obtain rfl := Option.some.inj done
    have real : w.realAfter (.addressDelete ifa) = w.real := by simp only [World.realAfter, found]
    rw [real]
    exact faithful
  | some ifp =>
    rw [found] at done
    have member := lookup_index found
    have real : w.realAfter (.addressDelete ifa) =
        update w.real ifp.name ((w.real ifp.name).erase ifa.connected) := by
      simp only [World.realAfter, found]
    rw [real]
    dsimp only at done
    rw [faithful.mirrored ifp member]
    cases first : ifp.connected.find?
        fun ifc => connectedSamePrefix ifc.address ifa.address with
    | none =>
      rw [first] at done
      obtain rfl := Option.some.inj done
      rw [erase_absent first, ← faithful.mirrored ifp member, update_eq_self]
      exact faithful
    | some ifc =>
      rw [first] at done
      obtain rfl : ifc = ifa.connected := paired ifp found ifc first
      have inside : ifa.connected ∈ ifp.connected := List.mem_of_find?_eq_some first
      let g (ifp : Interface) : Interface :=
        { ifp with connected := ifp.connected.erase ifa.connected }
      have less (p : Prefix) : contribution ifp.connected ifp p =
          contribution (g ifp).connected (g ifp) p + contribution [ifa.connected] ifp p :=
        contribution_erase inside ifp p
      obtain ⟨t, rfl, counts⟩ := one_counts (fun _ _ => rfl)
        (fun _ => bgpConnectedDelete_counts faithful.counts) Nat.sub_zero faithful.counts done
      refine faithful.exchange member g (fun _ => rfl) counts fun p => ?_
      have part := faithful.contribution_le member p
      rw [less p] at part ⊢
      omega

/-- In every run whose messages pair up the table counts what is configured. -/
theorem reached_faithful (reached : Reached ifCmpFunc w) : Faithful w := by
  induction reached with
  | start => exact ⟨List.nodup_nil, nofun, fun _ _ => rfl, fun _ => rfl⟩
  | step msg _ paired next ih =>
    obtain ⟨b, done, rfl⟩ := Option.map_eq_some_iff.mp next
    cases msg with
    | interfaceAdd state =>
      obtain rfl := Option.some.inj done
      exact ih.interfaceAdd ifCmpFunc paired
    | interfaceUp state => exact ih.interfaceUp paired done
    | interfaceDown state => exact ih.interfaceDown paired done
    | addressAdd ifa => exact ih.addressAdd done
    | addressDelete ifa => exact ih.addressDelete paired done

/-! ## What the count decides -/

theorem nodeOf_isSome (n : Nat) : (nodeOf n).refcnt.isSome = true ↔ 0 < n := by
  unfold nodeOf
  by_cases zero : n = 0
  · simp [zero]
  · simp only [if_neg zero, Option.isSome_some, true_iff]
    omega

/-- A match is found where some network with a count has the address. -/
theorem bgpNodeMatch_isSome (t : Table) (a : Address) :
    (bgpNodeMatch t a).isSome = true ↔ ∃ p, a.inside p ∧ (t p).refcnt.isSome = true := by
  unfold bgpNodeMatch
  rw [List.find?_isSome]
  constructor
  · rintro ⟨p, member, counted⟩
    obtain ⟨length, _, rfl⟩ := List.mem_map.mp member
    exact ⟨a.leading length, ⟨rfl, List.take_prefix _ _⟩, counted⟩
  · rintro ⟨⟨family, bits, fits⟩, ⟨same, leads⟩, counted⟩
    obtain rfl : family = a.family := same
    have taken : a.leading bits.length = ⟨a.family, bits, fits⟩ := by
      unfold Address.leading
      simp only [Prefix.mk.injEq, true_and]
      exact (List.prefix_iff_eq_take.mp leads).symm
    refine ⟨a.leading bits.length, List.mem_map.mpr ⟨bits.length, ?_, rfl⟩, taken ▸ counted⟩
    rw [List.mem_reverse, List.mem_range]
    omega

/-- In every run whose messages pair up the table has the networks that are really
connected. The counts follow the messages and not the interfaces, so that a second UP
counts an address again, and a DOWN takes one away that was never counted. -/
theorem connected_right {w : World} (reached : Reached ifCmpFunc w) : Right w := by
  have counts := (reached_faithful ifCmpFunc reached).counts
  refine ⟨fun p _ _ => ?_, fun p _ _ count is => ?_, fun p _ _ => ?_, fun nexthop _ => ?_⟩
  · rw [counts p]
    exact nodeOf_isSome _
  · rw [counts p] at is
    unfold nodeOf at is
    by_cases zero : configured w.real w.b.iflist p = 0
    · rw [if_pos zero] at is
      cases is
    · rw [if_neg zero] at is
      exact (Option.some.inj is).symm
  · rw [counts p]
    rfl
  · have matched := bgpNodeMatch_isSome w.b.table nexthop
    unfold bgpNexthopCheckEbgp
    simp only [Bool.not_true, Bool.false_eq_true, if_false]
    rw [matched]
    simp only [counts _, nodeOf_isSome]

/-! ## Runs that pair up and one that does not -/

/-- `10.0.0.1/8` on the interface of index two. -/
def tenAddress : InterfaceAddress where
  ifindex := 2
  flags := 0
  address := ⟨.ip, [false, false, false, false, true, false, true, false] ++ List.replicate 23 false
    ++ [true], by decide, 8⟩
  daddr := List.replicate 32 false

/-- `eth0`, up and running. -/
def ethState : InterfaceState := ⟨[101, 116, 104, 48], 2, 0, iffUp ||| iffRunning⟩

/-- Every interface is put behind the others. -/
def behind : Interface → Interface → Int := fun _ _ => 0

/-- `eth0` is shut down. -/
def ethDown : InterfaceState := { ethState with flags := 0 }

/-- An interface that gets its address, goes down, comes up again and loses its address. -/
def ethMessages : List Message :=
  [.interfaceAdd ethState, .addressAdd tenAddress, .interfaceDown ethDown, .interfaceUp ethState,
    .addressDelete tenAddress]

theorem connected_right_eth :
    ∃ w, ethMessages.foldlM (World.step behind) {} = some w ∧ Right w := by
  refine ⟨_, rfl, connected_right behind ?_⟩
  have added : Reached behind _ := .step (.interfaceAdd ethState) .start nofun rfl
  have addressed : Reached behind _ := .step (.addressAdd tenAddress) added trivial rfl
  have down : Reached behind _ := .step (.interfaceDown ethDown) addressed (fun ifp found => by
    cases found
    exact .inl ⟨by decide, .inl (by decide)⟩) rfl
  have up : Reached behind _ := .step (.interfaceUp ethState) down (fun ifp found => by
    cases found
    exact .inl ⟨by decide, .inr (by decide)⟩) rfl
  refine .step (.addressDelete tenAddress) up (fun ifp found ifc own => ?_) rfl
  cases found
  cases own
  rfl

/-- The interface is said to be up once more. -/
theorem connected_not_right : ∃ w, Occurs behind w ∧ ¬ Right w := by
  have first : Occurs behind _ := .step (.interfaceAdd ethState) .start rfl
  have second : Occurs behind _ := .step (.addressAdd tenAddress) first rfl
  have third : Occurs behind _ := .step (.interfaceUp ethState) second rfl
  refine ⟨_, third, fun right => ?_⟩
  have count := right.refcnt tenAddress.address.network rfl (by decide) 2 (by decide +kernel)
  exact absurd count (by decide +kernel)

end Bgpd.ConnectedTable
