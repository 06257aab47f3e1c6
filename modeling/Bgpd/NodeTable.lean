import Bgpd.BitTrie
import Bgpd.PrefixBits

/-!
# Tables of nodes

`bgp_table.c`: nodes on a heap, linked by address in both directions, with a
lock that counts their holders. A node is created when its prefix is first asked
for, and deleted when the last lock goes and no two children need it. Deletion
goes on with the parent when that has become a stub.

A function has a value when it returns without touching a node that is not on
the heap and without failing an assertion. The loops over pointers carry fuel.
-/

namespace Bgpd.NodeTable

open PrefixBits

/-- The address of a node. -/
abbrev Ptr := Nat

/-- `struct bgp_node`, with what users of the table hang on it. -/
structure BgpNode (ι : Type) where
  p : OctetPrefix
  parent : Option Ptr
  lLeft : Option Ptr
  lRight : Option Ptr
  info : Option ι
  lock : Nat
  deriving DecidableEq

/-- A node as `bgp_node_create` leaves it, with its prefix filled in. -/
def BgpNode.new {ι : Type} (p : OctetPrefix) : BgpNode ι := ⟨p, none, none, none, none, 0⟩

/-- `link`. -/
def BgpNode.link {ι : Type} (n : BgpNode ι) : Bool → Option Ptr
  | false => n.lLeft
  | true => n.lRight

/-- Set an entry of `link`. -/
def BgpNode.setLink {ι : Type} (n : BgpNode ι) (bit : Bool) (child : Option Ptr) : BgpNode ι :=
  if bit then { n with lRight := child } else { n with lLeft := child }

/-- `struct bgp_table`, the heap, and the next address the allocator gives out. -/
structure BgpTable (ι : Type) where
  heap : Ptr → Option (BgpNode ι)
  top : Option Ptr
  count : Nat
  next : Ptr

namespace BgpTable

variable {ι : Type}

/-- `bgp_table_init`. -/
def init : BgpTable ι := ⟨fun _ => none, none, 0, 0⟩

/-- Change a node. -/
def update (t : BgpTable ι) (a : Ptr) (change : BgpNode ι → BgpNode ι) : Option (BgpTable ι) :=
  (t.heap a).map fun n => { t with heap := Function.update t.heap a (some (change n)) }

/-- `bgp_node_create`, and what its callers put into the prefix at once. -/
def create (t : BgpTable ι) (p : OctetPrefix) : BgpTable ι × Ptr :=
  ({ t with heap := Function.update t.heap t.next (some (.new p)), next := t.next + 1 }, t.next)

/-- `bgp_node_free`. -/
def free (t : BgpTable ι) (a : Ptr) : BgpTable ι :=
  { t with heap := Function.update t.heap a none }

end BgpTable

variable {ι : Type}

/-- `set_link`. -/
def setLink (t : BgpTable ι) (node new : Ptr) : Option (BgpTable ι) := do
  let n ← t.heap node
  let m ← t.heap new
  let bit := prefixBit m.p.octets n.p.prefixlen
  let t ← t.update node (·.setLink bit (some new))
  t.update new fun m => { m with parent := some node }

/-- Link a node below the last one matched, or at the top. -/
def attach (t : BgpTable ι) (matched : Option Ptr) (new : Ptr) : Option (BgpTable ι) :=
  match matched with
  | some a => setLink t a new
  | none => some { t with top := some new }

/-- `bgp_lock_node`. -/
def bgpLockNode (t : BgpTable ι) (a : Ptr) : Option (BgpTable ι) :=
  t.update a fun n => { n with lock := n.lock + 1 }

/-- Give the child of a node that goes, if there is one, to the node's parent. -/
def adopt (t : BgpTable ι) (child parent : Option Ptr) : Option (BgpTable ι) :=
  match child with
  | some c => t.update c fun m => { m with parent }
  | none => some t

/-- Put the child of a node that goes into the link the node hung on. -/
def replaceLink (t : BgpTable ι) (parent : Option Ptr) (a : Ptr) (child : Option Ptr) :
    Option (BgpTable ι) :=
  match parent with
  | some b => t.update b fun m =>
      if m.lLeft = some a then { m with lLeft := child } else { m with lRight := child }
  | none => some { t with top := child }

/-- `bgp_node_delete`. -/
def bgpNodeDelete : Nat → BgpTable ι → Ptr → Option (BgpTable ι)
  | 0, _, _ => none
  | fuel + 1, t, a => do
    let n ← t.heap a
    if n.lock ≠ 0 ∨ n.info.isSome then none
    else if n.lLeft.isSome ∧ n.lRight.isSome then some t
    else
      let child := if n.lLeft.isSome then n.lLeft else n.lRight
      let t ← adopt t child n.parent
      let t ← replaceLink t n.parent a child
      let t := { t with count := t.count - 1 }.free a
      match n.parent with
      | none => some t
      | some b =>
        let m ← t.heap b
        if m.lock = 0 then bgpNodeDelete fuel t b else some t

/-- `bgp_unlock_node`. Parents have shorter prefixes, which bounds how often the
deletion goes on. -/
def bgpUnlockNode (t : BgpTable ι) (a : Ptr) : Option (BgpTable ι) := do
  let n ← t.heap a
  if n.lock = 0 then none
  else
    let t ← t.update a fun n => { n with lock := n.lock - 1 }
    if n.lock = 1 then bgpNodeDelete (n.p.prefixlen + 1) t a else some t

/-- The loop of `bgp_node_match`. -/
def matchLoop (t : BgpTable ι) (p : OctetPrefix) :
    Nat → Option Ptr → Option Ptr → Option (Option Ptr)
  | _, matched, none => some matched
  | 0, _, some _ => none
  | fuel + 1, matched, some a => do
    let n ← t.heap a
    if n.p.prefixlen ≤ p.prefixlen ∧ prefixMatch n.p p then
      let matched := if n.info.isSome then some a else matched
      matchLoop t p fuel matched (n.link (prefixBit p.octets n.p.prefixlen))
    else some matched

/-- `bgp_node_match`. -/
def bgpNodeMatch (t : BgpTable ι) (p : OctetPrefix) : Option (BgpTable ι × Option Ptr) := do
  match ← matchLoop t p (p.prefixlen + 2) none t.top with
  | some a => return (← bgpLockNode t a, some a)
  | none => return (t, none)

/-- The loop of `bgp_node_lookup`. -/
def lookupLoop (t : BgpTable ι) (p : OctetPrefix) : Nat → Option Ptr → Option (Option Ptr)
  | _, none => some none
  | 0, some _ => none
  | fuel + 1, some a => do
    let n ← t.heap a
    if n.p.prefixlen ≤ p.prefixlen ∧ prefixMatch n.p p then
      if n.p.prefixlen = p.prefixlen ∧ n.info.isSome then some (some a)
      else lookupLoop t p fuel (n.link (prefixBit p.octets n.p.prefixlen))
    else some none

/-- `bgp_node_lookup`. -/
def bgpNodeLookup (t : BgpTable ι) (p : OctetPrefix) : Option (BgpTable ι × Option Ptr) := do
  match ← lookupLoop t p (p.prefixlen + 2) t.top with
  | some a => return (← bgpLockNode t a, some a)
  | none => return (t, none)

/-- How the loop of `bgp_node_get` ends: at a node of the prefix, or below the
last node matched, before a node that does not match or at the end. -/
inductive Descent
  | found (node : Ptr)
  | stopped (matched node : Option Ptr)
  deriving DecidableEq

/-- The loop of `bgp_node_get`. -/
def getLoop (t : BgpTable ι) (p : OctetPrefix) : Nat → Option Ptr → Option Ptr → Option Descent
  | _, matched, none => some (.stopped matched none)
  | 0, _, some _ => none
  | fuel + 1, matched, some a => do
    let n ← t.heap a
    if n.p.prefixlen ≤ p.prefixlen ∧ prefixMatch n.p p then
      if n.p.prefixlen = p.prefixlen then some (.found a)
      else getLoop t p fuel (some a) (n.link (prefixBit p.octets n.p.prefixlen))
    else some (.stopped matched (some a))

/-- Create the node of a prefix at the end of a descent. -/
def insertLeaf (t : BgpTable ι) (p : OctetPrefix) (matched : Option Ptr) :
    Option (BgpTable ι × Ptr) := do
  let (t, new) := t.create (prefixCopy p)
  let t ← attach t matched new
  return ({ t with count := t.count + 1 }, new)

/-- Create the node of the common prefix before the node a descent stopped at. -/
def insertCommon (t : BgpTable ι) (p : OctetPrefix) (matched : Option Ptr) (node : Ptr) :
    Option (BgpTable ι × Ptr) := do
  let n ← t.heap node
  let (t, new) := t.create (routeCommon n.p p)
  let t ← setLink t new node
  let t ← attach t matched new
  return ({ t with count := t.count + 1 }, new)

/-- `bgp_node_get`. -/
def bgpNodeGet (t : BgpTable ι) (p : OctetPrefix) : Option (BgpTable ι × Ptr) := do
  match ← getLoop t p (p.prefixlen + 2) none t.top with
  | .found a => return (← bgpLockNode t a, a)
  | .stopped matched none =>
    let (t, new) ← insertLeaf t p matched
    return (← bgpLockNode t new, new)
  | .stopped matched (some node) =>
    let n ← t.heap node
    let (t, new) ← insertCommon t p matched node
    if (routeCommon n.p p).prefixlen ≠ p.prefixlen then
      let (t, leaf) ← insertLeaf t p (some new)
      return (← bgpLockNode t leaf, leaf)
    return (← bgpLockNode t new, new)

end Bgpd.NodeTable
