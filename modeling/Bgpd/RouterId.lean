import Mathlib.Order.Bounds.Basic
import Bgpd.Linklist
import Bgpd.Octets

/-!
# The router-id of the routing manager

The manager offers its clients a router-id: the configured one, else the
greatest address of a loopback or dummy interface, else the greatest of any
other. The candidates stand in two sorted lists that follow the addresses as
they come and go.

The order is that of a signed difference, so it is the order of the addresses
only where they lie close enough together. An address that two interfaces share
is listed once, and is taken from the list when either of them loses it.
-/

namespace Bgpd.RouterId

open Octets Linklist

/-! ## The addresses of interfaces -/

/-- The address of an interface, its host bits included. -/
inductive Address
  | inet (addr : U32) (prefixlen : Nat)
  | inet6 (addr : BitVec 128) (prefixlen : Nat)
  deriving DecidableEq, Repr

/-- `u.prefix4`, the first four octets whatever the family. -/
def Address.prefix4 : Address → U32
  | .inet addr _ => addr
  | .inet6 addr _ => addr.extractLsb' 96 32

/-- `prefix_same`. -/
def prefixSame : Address → Address → Bool
  | .inet addr length, .inet addr' length' => length = length' ∧ addr = addr'
  | .inet6 addr length, .inet6 addr' length' => length = length' ∧ addr = addr'
  | _, _ => false

/-- `zebra_check_addr`: neither a loopback nor a link-local address, and no
IPv4 multicast group. -/
def zebraCheckAddr : Address → Bool
  | .inet addr _ => ¬ (addr &&& 0xff000000 = 0x7f000000 ∨ addr &&& 0xf0000000 = 0xe0000000
      ∨ addr &&& 0xffff0000 = 0xa9fe0000)
  | .inet6 addr _ => ¬ (addr = 1 ∨ addr.extractLsb' 118 10 = 0x3fa)

/-- `struct connected`. Two of them can have the same contents, so that which
one it is belongs to it. -/
structure Connected where
  object : Nat
  ifname : List Char
  address : Address
  deriving DecidableEq, Repr

/-- The interface is a loopback or a dummy one, by its name. -/
def Connected.isLo (ifc : Connected) : Bool :=
  ['l', 'o'].isPrefixOf ifc.ifname || ['d', 'u', 'm', 'm', 'y'].isPrefixOf ifc.ifname

/-! ## The lists -/

/-- The two sorted lists and the configured router-id, zero if there is none. -/
structure RouterIds where
  ridAllSortedList : List Connected
  ridLoSortedList : List Connected
  ridUserAssigned : U32
  deriving Repr

/-- `router_id_init`. -/
def routerIdInit : RouterIds := ⟨[], [], 0⟩

/-- The list of one kind of interfaces. -/
def RouterIds.list (ids : RouterIds) (lo : Bool) : List Connected :=
  if lo then ids.ridLoSortedList else ids.ridAllSortedList

/-- The same with one list replaced. -/
def RouterIds.setList (ids : RouterIds) (lo : Bool) (l : List Connected) : RouterIds :=
  if lo then { ids with ridLoSortedList := l } else { ids with ridAllSortedList := l }

@[simp] theorem list_setList (ids : RouterIds) (lo : Bool) (l : List Connected) :
    (ids.setList lo l).list lo = l := by
  cases lo <;> rfl

theorem list_setList_ne (ids : RouterIds) {lo other : Bool} (apart : other ≠ lo)
    (l : List Connected) : (ids.setList lo l).list other = ids.list other := by
  cases lo <;> cases other <;> first | rfl | exact absurd rfl apart

@[simp] theorem setList_user (ids : RouterIds) (lo : Bool) (l : List Connected) :
    (ids.setList lo l).ridUserAssigned = ids.ridUserAssigned := by
  cases lo <;> rfl

/-- `router_id_find_node`. -/
def routerIdFindNode (l : List Connected) (ifc : Connected) : Option Connected :=
  l.find? fun c => prefixSame ifc.address c.address

/-- `router_id_bad_address`. -/
def routerIdBadAddress (ifc : Connected) : Bool :=
  match ifc.address with
  | .inet6 _ _ => true
  | .inet _ _ => !zebraCheckAddr ifc.address

/-- `router_id_cmp`: the difference, read as a signed word. -/
def routerIdCmp (a b : Connected) : Int := (a.address.prefix4 - b.address.prefix4).toInt

/-- `router_id_get`. -/
def routerIdGet (ids : RouterIds) : Address :=
  if ids.ridUserAssigned ≠ 0 then .inet ids.ridUserAssigned 32
  else
    match ids.ridLoSortedList.getLast?, ids.ridAllSortedList.getLast? with
    | some c, _ => .inet c.address.prefix4 32
    | none, some c => .inet c.address.prefix4 32
    | none, none => .inet 0 32

/-- What all clients are told when the router-id may have changed. -/
def update (before after : RouterIds) : Option Address :=
  if prefixSame (routerIdGet before) (routerIdGet after) then none else some (routerIdGet after)

/-- `router_id_add_address`. -/
def routerIdAddAddress (ids : RouterIds) (ifc : Connected) : RouterIds × Option Address :=
  if routerIdBadAddress ifc then (ids, none)
  else
    let l := ids.list ifc.isLo
    let after :=
      match routerIdFindNode l ifc with
      | some _ => ids
      | none => ids.setList ifc.isLo (listnodeAddSort routerIdCmp l ifc)
    (after, update ids after)

/-- `router_id_del_address`: the address that is found leaves the list, whichever
interface it is of. -/
def routerIdDelAddress (ids : RouterIds) (ifc : Connected) : RouterIds × Option Address :=
  if routerIdBadAddress ifc then (ids, none)
  else
    let l := ids.list ifc.isLo
    let after :=
      match routerIdFindNode l ifc with
      | some c => ids.setList ifc.isLo (l.erase c)
      | none => ids
    (after, update ids after)

/-- `router_id_set`. -/
def routerIdSet (ids : RouterIds) (addr : U32) : RouterIds × Option Address :=
  let after := { ids with ridUserAssigned := addr }
  (after, some (routerIdGet after))

/-- The command `router-id`, which refuses the zero address. -/
def routerIdCommand (ids : RouterIds) (addr : U32) : RouterIds × Option Address :=
  if addr = 0 then (ids, none) else routerIdSet ids addr

/-- The command `no router-id`. -/
def noRouterId (ids : RouterIds) : RouterIds × Option Address := routerIdSet ids 0

/-! ## Order by a signed difference -/

/-- The address as an unsigned number. -/
def Connected.number (ifc : Connected) : Nat := ifc.address.prefix4.toNat

/-- One address is compared less than another if it lies at most half the range
below it, or at least half the range above. -/
theorem routerIdCmp_neg_iff (a b : Connected) :
    routerIdCmp a b < 0 ↔
      (a.number < b.number ∧ b.number - a.number ≤ 2 ^ 31) ∨
        (b.number < a.number ∧ 2 ^ 31 ≤ a.number - b.number) := by
  unfold routerIdCmp Connected.number
  rw [BitVec.toInt_neg_iff, BitVec.toNat_sub]
  omega

/-- A list in which an address finds its place: nothing lies half the range or
more below it, and if something lies above it then something does within half
the range. -/
def Comparable (l : List Connected) (ifc : Connected) : Prop :=
  (∀ n ∈ l, n.number < ifc.number → ifc.number - n.number < 2 ^ 31) ∧
    ∀ n ∈ l, ifc.number < n.number →
      ∃ m ∈ l, ifc.number < m.number ∧ m.number - ifc.number ≤ 2 ^ 31

/-- A list in order is in order after an addition exactly when the address finds
its place in it. -/
theorem addSort_ascending_iff {l : List Connected} {ifc : Connected}
    (sorted : Ascending Connected.number l) :
    Ascending Connected.number (listnodeAddSort routerIdCmp l ifc) ↔ Comparable l ifc := by
  rw [listnodeAddSort_ascending_iff sorted]
  constructor
  · rintro ⟨less, greater⟩
    constructor
    · intro n member below
      by_contra far
      have before : routerIdCmp ifc n < 0 :=
        (routerIdCmp_neg_iff ifc n).mpr (Or.inr ⟨below, by omega⟩)
      have above := greater n (kept_of_before member before)
      omega
    · intro n member above
      have behind : n ∈ kept routerIdCmp ifc l := by
        refine (passed_or_kept member).resolve_left fun found => ?_
        have below := less n found
        omega
      obtain ⟨first, head⟩ : ∃ first, (kept routerIdCmp ifc l).head? = some first :=
        Option.ne_none_iff_exists'.mp fun none => by
          rw [List.head?_eq_none_iff.mp none] at behind
          cases behind
      have inside : first ∈ kept routerIdCmp ifc l := List.mem_of_mem_head? head
      have place := greater first inside
      refine ⟨first, mem_of_kept inside, ?_⟩
      rcases (routerIdCmp_neg_iff ifc first).mp (kept_head head) with near | far
      · exact near
      · omega
  · rintro ⟨low, high⟩
    constructor
    · intro n found
      by_contra above
      have inside : n ∈ l := mem_of_passed found
      obtain ⟨m, member, greater, near⟩ := high n inside (by omega)
      -- the element within reach stops the search, so it stands behind
      have before : routerIdCmp ifc m < 0 :=
        (routerIdCmp_neg_iff ifc m).mpr (Or.inl ⟨greater, near⟩)
      have behind := kept_of_before member before
      have ordered := (sorted.split routerIdCmp ifc).2.2 n found m behind
      refine not_before_of_passed found ((routerIdCmp_neg_iff ifc n).mpr (Or.inl ?_))
      omega
    · intro n found
      obtain ⟨first, rest, shape⟩ := List.exists_cons_of_ne_nil (List.ne_nil_of_mem found)
      have before : routerIdCmp ifc first < 0 := kept_head (by rw [shape]; rfl)
      have inside : first ∈ kept routerIdCmp ifc l := shape ▸ List.mem_cons_self
      have ordered : first.number ≤ n.number := by
        have behind := (sorted.split routerIdCmp ifc).2.1
        rw [shape] at behind found
        rcases List.mem_cons.mp found with rfl | later
        · exact Nat.le_refl _
        · exact (List.pairwise_cons.mp behind).1 n later
      rcases (routerIdCmp_neg_iff ifc first).mp before with near | ⟨below, far⟩
      · omega
      · exact absurd (low first (mem_of_kept inside) below) (by omega)

end Bgpd.RouterId
