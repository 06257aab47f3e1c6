import Bgpd.FlagWord
import Bgpd.Linklist
import Bgpd.Prefixes

/-!
# The connected networks

The daemon learns the interfaces and their addresses from messages and counts, for
each network, the addresses in it on interfaces that are up. A next hop one hop
away must lie in such a network.

The count changes when an interface goes up or down and when an address comes or
goes while it is up. Every message about an interface also replaces the flags by
which the next ones are judged.
-/

namespace Bgpd.ConnectedTable

open Octets FlagWord Prefixes Linklist

/-! ## Interfaces and their addresses -/

/-- An address with all its bits and the length of its network. -/
structure Address where
  family : Afi
  bits : List Bool
  full : bits.length = family.bits := by decide
  prefixlen : Nat
  deriving DecidableEq, Repr

/-- The first bits of an address. -/
def Address.leading (a : Address) (length : Nat) : Prefix :=
  ⟨a.family, a.bits.take length, by
    rw [← a.full, List.length_take]
    exact Nat.min_le_right _ _⟩

/-- The network of an address, by `apply_mask`. -/
def Address.network (a : Address) : Prefix := a.leading a.prefixlen

/-- `ZEBRA_IFA_PEER`. -/
def zebraIfaPeer : U8 := 2

/-- `struct connected`. -/
structure Connected where
  flags : U8
  address : Address
  destination : Option Address
  deriving DecidableEq, Repr

/-- `CONNECTED_PREFIX`, missing for a peer without a destination. -/
def connectedPrefix (ifc : Connected) : Option Address :=
  if check ifc.flags zebraIfaPeer then ifc.destination else some ifc.address

/-- `struct interface`. -/
structure Interface where
  name : List U8
  ifindex : U32
  status : U8
  flags : BitVec 64
  connected : List Connected
  deriving DecidableEq, Repr

/-- `IFF_UP`, `IFF_LOOPBACK`, `IFF_RUNNING` and `ZEBRA_INTERFACE_LINKDETECTION`. -/
def iffUp : BitVec 64 := 0x1
def iffLoopback : BitVec 64 := 0x8
def iffRunning : BitVec 64 := 0x40
def zebraInterfaceLinkdetection : U8 := 4

/-- `if_is_operative`. -/
def ifIsOperative (ifp : Interface) : Bool :=
  check ifp.flags iffUp &&
    (check ifp.flags iffRunning || !check ifp.status zebraInterfaceLinkdetection)

/-- `if_is_loopback`. -/
def ifIsLoopback (ifp : Interface) : Bool := check ifp.flags iffLoopback

/-- `if_lookup_by_name_len`. -/
def ifLookupByName (iflist : List Interface) (name : List U8) : Option Interface :=
  iflist.find? (·.name = name)

/-- `if_lookup_by_index`. -/
def ifLookupByIndex (iflist : List Interface) (ifindex : U32) : Option Interface :=
  iflist.find? (·.ifindex = ifindex)

/-- The interface of a name is exchanged. -/
def exchange (iflist : List Interface) (name : List U8) (f : Interface → Interface) :
    List Interface :=
  iflist.map fun ifp => if ifp.name = name then f ifp else ifp

/-! ## The table -/

/-- A node of the table: `struct bgp_connected_ref`, if it has one, and its
locks. -/
structure Node where
  refcnt : Option Nat := none
  lock : Nat := 0
  deriving DecidableEq, Repr

/-- `bgp_connected_table`, of both families. -/
abbrev Table := Prefix → Node

/-- The bits of the IPv6 link-local network. -/
def linkLocal : List Bool := [true, true, true, true, true, true, true, false, true, false]

/-- The networks that are not counted: the default route, and of IPv6 the
unspecified address in any length and link-local ones. The masked address is looked
at, so that the link-local bits may end in a zero behind the mask. -/
def uncounted (p : Prefix) : Bool :=
  match p.family with
  | .ip => p.bits.isEmpty
  | .ip6 => p.addressZero || linkLocal.isPrefixOf (p.bits ++ [false])

/-- `bgp_connected_add`, on an interface of the given kind. -/
def bgpConnectedAdd (loopback : Bool) (ifc : Connected) (t : Table) : Option Table :=
  if loopback then some t
  else
    (connectedPrefix ifc).map fun a =>
      let p := a.network
      if uncounted p then t
      else
        let rn := t p
        Function.update t p
          { refcnt := some (rn.refcnt.getD 0 + 1), lock := rn.lock + 1 }

/-- `bgp_connected_delete`. The lookup finds a node with a count only, and locks
it once more. -/
def bgpConnectedDelete (loopback : Bool) (ifc : Connected) (t : Table) : Option Table :=
  if loopback then some t
  else
    (connectedPrefix ifc).map fun a =>
      let p := a.network
      if uncounted p then t
      else
        match (t p).refcnt with
        | none => t
        | some refcnt =>
          Function.update t p
            { refcnt := if refcnt - 1 = 0 then none else some (refcnt - 1)
              lock := (t p).lock + 1 - 1 - 1 }

/-- `bgp_node_match`: the longest network with a count that an address is in. -/
def bgpNodeMatch (t : Table) (a : Address) : Option Prefix :=
  ((List.range (a.family.bits + 1)).reverse.map a.leading).find? fun p => (t p).refcnt.isSome

/-- `bgp_nexthop_check_ebgp` for an IPv4 next hop, given whether there is anyone to ask
for routes. -/
def bgpNexthopCheckEbgp (lookup : Bool) (t : Table) (nexthop : Address) : Bool :=
  if !lookup then true else (bgpNodeMatch t nexthop).isSome

/-! ## Messages -/

/-- What a message says about the state of an interface. -/
structure InterfaceState where
  name : List U8
  ifindex : U32
  status : U8
  flags : BitVec 64

/-- What a message says about an address, the destination being all zero if there
is none. -/
structure InterfaceAddress where
  ifindex : U32
  flags : U8
  address : Address
  daddr : List Bool
  sized : daddr.length = address.family.bits := by decide

inductive Message
  | interfaceAdd (state : InterfaceState)
  | interfaceUp (state : InterfaceState)
  | interfaceDown (state : InterfaceState)
  | addressAdd (ifa : InterfaceAddress)
  | addressDelete (ifa : InterfaceAddress)

/-- The interface as a message shows it. -/
def InterfaceState.onto (state : InterfaceState) (ifp : Interface) : Interface :=
  { ifp with ifindex := state.ifindex, status := state.status, flags := state.flags }

/-- A new interface, without addresses. -/
def InterfaceState.create (state : InterfaceState) : Interface :=
  ⟨state.name, state.ifindex, state.status, state.flags, []⟩

/-- The address that a message is about. -/
def InterfaceAddress.connected (ifa : InterfaceAddress) : Connected where
  flags := ifa.flags
  address := ifa.address
  destination :=
    if ifa.daddr.all not then none
    else some ⟨ifa.address.family, ifa.daddr, ifa.sized, ifa.address.prefixlen⟩

/-- The interfaces and the table. -/
structure Networks where
  iflist : List Interface := []
  table : Table := fun _ => {}

variable (ifCmpFunc : Interface → Interface → Int)

/-- `bgp_interface_add`. Where a new interface stands in the list is up to
`if_cmp_func`. -/
def bgpInterfaceAdd (b : Networks) (state : InterfaceState) : Networks :=
  match ifLookupByName b.iflist state.name with
  | none => { b with iflist := listnodeAddSort ifCmpFunc b.iflist state.create }
  | some _ => { b with iflist := exchange b.iflist state.name state.onto }

/-- `bgp_interface_up`. -/
def bgpInterfaceUp (b : Networks) (state : InterfaceState) : Option Networks :=
  match ifLookupByName b.iflist state.name with
  | none => some b
  | some ifp =>
    let loopback := ifIsLoopback (state.onto ifp)
    (ifp.connected.foldlM (fun t ifc => bgpConnectedAdd loopback ifc t) b.table).map fun t =>
      { iflist := exchange b.iflist state.name state.onto, table := t }

/-- `bgp_interface_down`. -/
def bgpInterfaceDown (b : Networks) (state : InterfaceState) : Option Networks :=
  match ifLookupByName b.iflist state.name with
  | none => some b
  | some ifp =>
    let loopback := ifIsLoopback (state.onto ifp)
    (ifp.connected.foldlM (fun t ifc => bgpConnectedDelete loopback ifc t) b.table).map fun t =>
      { iflist := exchange b.iflist state.name state.onto, table := t }

/-- `connected_same_prefix`: the same address, whatever the length. -/
def connectedSamePrefix (a b : Address) : Bool := a.family = b.family ∧ a.bits = b.bits

/-- `bgp_interface_address_add`. -/
def bgpInterfaceAddressAdd (b : Networks) (ifa : InterfaceAddress) : Option Networks :=
  match ifLookupByIndex b.iflist ifa.ifindex with
  | none => some b
  | some ifp =>
    let iflist := exchange b.iflist ifp.name fun ifp =>
      { ifp with connected := ifp.connected ++ [ifa.connected] }
    if ifIsOperative ifp then
      (bgpConnectedAdd (ifIsLoopback ifp) ifa.connected b.table).map fun t => ⟨iflist, t⟩
    else some { b with iflist }

/-- `bgp_interface_address_delete`, which takes the first address of the interface
that is the same but for its length. -/
def bgpInterfaceAddressDelete (b : Networks) (ifa : InterfaceAddress) : Option Networks :=
  match ifLookupByIndex b.iflist ifa.ifindex with
  | none => some b
  | some ifp =>
    match ifp.connected.find? fun ifc => connectedSamePrefix ifc.address ifa.address with
    | none => some b
    | some ifc =>
      let iflist := exchange b.iflist ifp.name fun ifp =>
        { ifp with connected := ifp.connected.erase ifc }
      if ifIsOperative ifp then
        (bgpConnectedDelete (ifIsLoopback ifp) ifc b.table).map fun t => ⟨iflist, t⟩
      else some { b with iflist }

/-- One message. A peer without a destination is fatal where it is to be
counted. -/
def receive (b : Networks) : Message → Option Networks
  | .interfaceAdd state => some (bgpInterfaceAdd ifCmpFunc b state)
  | .interfaceUp state => bgpInterfaceUp b state
  | .interfaceDown state => bgpInterfaceDown b state
  | .addressAdd ifa => bgpInterfaceAddressAdd b ifa
  | .addressDelete ifa => bgpInterfaceAddressDelete b ifa

end Bgpd.ConnectedTable
