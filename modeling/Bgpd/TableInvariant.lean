import Bgpd.NodeTable

/-!
# What every table keeps

The heap of a table is seen as a linked binary trie whose keys are the leading
bits of the prefixes. Insertion is `plant` or `above` followed by `plant` in that
view, deletion a `splice` for each node it frees, and locks and contents are not
in the view at all.

Besides the shape a table keeps its count, never hands out an address in use,
hangs contents only on locked nodes, and gives every node without a lock two
children. The last holds between operations; inside one a single node may be
exempt.
-/

namespace Bgpd.NodeTable

open PrefixBits BitTrie
open Function (update update_eq_self_iff update_of_ne update_self)

variable {ι : Type}

/-- The table as a trie. -/
def BgpTable.view (t : BgpTable ι) : Trie Ptr where
  key a := (t.heap a).map (·.p.bits)
  parent a := (t.heap a).bind (·.parent)
  child up bit := match up with
    | none => t.top
    | some a => (t.heap a).bind (·.link bit)

/-- The count is the number of nodes on the heap. -/
def BgpTable.Counted (t : BgpTable ι) : Prop :=
  ∃ nodes : Finset Ptr, (∀ a, a ∈ nodes ↔ t.heap a ≠ none) ∧ t.count = nodes.card

/-- What holds also inside an operation. -/
structure Tidy (t : BgpTable ι) : Prop where
  wf : Wf t.view
  counted : t.Counted
  below : ∀ a, t.heap a ≠ none → a < t.next
  idle : ∀ a n, t.heap a = some n → n.lock = 0 → n.info = none

/-- Every node without a lock has two children, except perhaps one. -/
def Filled (t : BgpTable ι) (exempt : Option Ptr) : Prop :=
  ∀ a n, t.heap a = some n → n.lock = 0 → exempt ≠ some a → ∀ bit, n.link bit ≠ none

/-- A node with the same prefix, contents and lock. -/
structure Same (n n' : BgpNode ι) : Prop where
  p : n'.p = n.p
  info : n'.info = n.info
  lock : n'.lock = n.lock

@[simp] theorem Same.refl (n : BgpNode ι) : Same n n := ⟨rfl, rfl, rfl⟩

variable {m : BgpNode ι}

theorem Same.trans {n o : BgpNode ι} (left : Same n m) (right : Same m o) : Same n o :=
  ⟨right.p.trans left.p, right.info.trans left.info, right.lock.trans left.lock⟩

section Nodes

variable (n : BgpNode ι) (bit side : Bool) (child : Option Ptr)

@[simp] theorem setLink_p : (n.setLink bit child).p = n.p := by cases bit <;> rfl
@[simp] theorem setLink_parent : (n.setLink bit child).parent = n.parent := by cases bit <;> rfl
@[simp] theorem setLink_info : (n.setLink bit child).info = n.info := by cases bit <;> rfl
@[simp] theorem setLink_lock : (n.setLink bit child).lock = n.lock := by cases bit <;> rfl

@[simp] theorem setLink_link :
    (n.setLink bit child).link side = if side = bit then child else n.link side := by
  cases bit <;> cases side <;> rfl

theorem same_setLink : Same n (n.setLink bit child) := ⟨by simp, by simp, by simp⟩

end Nodes

section View

variable {t : BgpTable ι} {a : Ptr} {n : BgpNode ι}

theorem update_eq (here : t.heap a = some n) (change : BgpNode ι → BgpNode ι) :
    t.update a change = some { t with heap := update t.heap a (some (change n)) } := by
  rw [BgpTable.update, here]
  rfl

theorem view_key (here : t.heap a = some n) : t.view.key a = some n.p.bits := by
  simp [BgpTable.view, here]

theorem view_parent (here : t.heap a = some n) : t.view.parent a = n.parent := by
  simp [BgpTable.view, here]

theorem view_child (here : t.heap a = some n) (bit : Bool) :
    t.view.child (some a) bit = n.link bit := by
  simp [BgpTable.view, here]

theorem view_key_none : t.view.key a = none ↔ t.heap a = none := by
  simp [BgpTable.view]

/-- A key of the view belongs to a node on the heap. -/
theorem node_of_key {key : List Bool} (known : t.view.key a = some key) :
    ∃ n, t.heap a = some n ∧ n.p.bits = key := by
  simpa [BgpTable.view] using known

end View

variable {t : BgpTable ι}

/-! ## Growing by a node -/

/-- One node more, at the address that was next; the others keep everything but
their links. -/
structure Grown (t t' : BgpTable ι) (p : OctetPrefix) : Prop where
  fresh : ∃ n, t'.heap t.next = some n ∧ n.p = p ∧ n.lock = 0 ∧ n.info = none
  kept : ∀ a n, t.heap a = some n → ∃ n', t'.heap a = some n' ∧ Same n n'
  only : ∀ a, t'.heap a ≠ none → t.heap a ≠ none ∨ a = t.next
  count : t'.count = t.count + 1
  next : t'.next = t.next + 1

theorem Tidy.unused (tidy : Tidy t) : t.heap t.next = none := by
  by_contra used
  exact absurd (tidy.below _ used) (Nat.lt_irrefl _)

variable {a : Ptr}

theorem Tidy.ne_next (tidy : Tidy t) {n : BgpNode ι} (here : t.heap a = some n) : a ≠ t.next := by
  exact (tidy.below a (by rw [here]; exact Option.some_ne_none n)).ne

variable {t' : BgpTable ι} {p : OctetPrefix}

theorem Tidy.grow (tidy : Tidy t) (grown : Grown t t' p) (wf : Wf t'.view) : Tidy t' where
  wf := wf
  counted := by
    obtain ⟨nodes, members, count⟩ := tidy.counted
    obtain ⟨n, fresh, -⟩ := grown.fresh
    have absent : t.next ∉ nodes := fun inside => (members _).mp inside tidy.unused
    refine ⟨insert t.next nodes, fun a => ?_, ?_⟩
    · rw [Finset.mem_insert, members]
      constructor
      · rintro (rfl | present)
        · rw [fresh]
          exact Option.some_ne_none n
        · obtain ⟨m, here⟩ := Option.ne_none_iff_exists'.mp present
          obtain ⟨m', here', -⟩ := grown.kept a m here
          rw [here']
          exact Option.some_ne_none m'
      · exact fun present => (grown.only a present).symm
    · rw [Finset.card_insert_of_notMem absent, grown.count, count]
  below := by
    intro a present
    rw [grown.next]
    rcases grown.only a present with old | rfl
    · exact (tidy.below a old).trans (Nat.lt_succ_self _)
    · exact Nat.lt_succ_self _
  idle := by
    intro a n here unlocked
    obtain ⟨m, fresh, -, -, empty⟩ := grown.fresh
    rcases grown.only a (by rw [here]; exact Option.some_ne_none n) with old | rfl
    · obtain ⟨before, there⟩ := Option.ne_none_iff_exists'.mp old
      obtain ⟨n', here', same⟩ := grown.kept a before there
      cases here.symm.trans here'
      rw [same.info]
      exact tidy.idle a before there (same.lock.symm.trans unlocked)
    · cases here.symm.trans fresh
      exact empty

/-! ## Links -/

/-- The bit under which a key hangs is read at the parent's length. -/
theorem link_bit {n m : OctetPrefix} {bit : Bool} (below : n.bits ++ [bit] <+: m.bits) :
    prefixBit m.octets n.prefixlen = bit := by
  have longer := below.length_le
  simp only [List.length_append, bits_length, List.length_singleton] at longer
  have entry := List.prefix_iff_getElem?.mp below n.prefixlen (by simp)
  rw [bits_getElem? m (by omega)] at entry
  simpa [List.getElem_append_right, prefixBit_eq] using entry

variable {new : Ptr}
variable {node : Ptr}

theorem setLink_eq {n : BgpNode ι} (apart : new ≠ node) (here : t.heap node = some n)
    (there : t.heap new = some m) {bit : Bool} (below : n.p.bits ++ [bit] <+: m.p.bits) :
    setLink t node new = some { t with
      heap := update (update t.heap node (some (n.setLink bit (some new)))) new
        (some { m with parent := some node }) } := by
  simp only [setLink, here, there, Option.bind_eq_bind, Option.bind_some, link_bit below,
    update_eq here]
  rw [update_eq (n := m) (by simp only [update_of_ne apart, there])]

/-- Nodes keep everything but their links. -/
structure Relinked (t t' : BgpTable ι) : Prop where
  kept : ∀ a n, t.heap a = some n → ∃ n', t'.heap a = some n' ∧ Same n n'
  only : ∀ a, t'.heap a ≠ none → t.heap a ≠ none
  count : t'.count = t.count
  next : t'.next = t.next

theorem Relinked.trans {t'' : BgpTable ι} (first : Relinked t t') (second : Relinked t' t'') :
    Relinked t t'' where
  kept a n here := by
    obtain ⟨n', here', same⟩ := first.kept a n here
    obtain ⟨n'', here'', same'⟩ := second.kept a n' here'
    exact ⟨n'', here'', same.trans same'⟩
  only a present := first.only a (second.only a present)
  count := second.count.trans first.count
  next := second.next.trans first.next

/-- A node that is created and linked is one node more, once it is counted. -/
theorem Tidy.grown (tidy : Tidy t) (relinked : Relinked (t.create p).1 t') :
    Grown t { t' with count := t'.count + 1 } p where
  fresh := by
    obtain ⟨n, here, same⟩ := relinked.kept t.next (.new p) (update_self ..)
    exact ⟨n, here, same.p, same.lock, same.info⟩
  kept a n here := relinked.kept a n ((update_of_ne (tidy.ne_next here) _ _).trans here)
  only a present := by
    by_cases new : a = t.next
    · exact .inr new
    · have old : (t.create p).1.heap a = t.heap a := update_of_ne new ..
      exact .inl (old ▸ relinked.only a present)
  count := congrArg (· + 1) relinked.count
  next := relinked.next

theorem view_create (t : BgpTable ι) (p : OctetPrefix) :
    (t.create p).1.view = t.view.create t.next p.bits := by
  ext1
  · funext a
    by_cases new : a = t.next
    · subst new
      simp [BgpTable.view, BgpTable.create, Trie.create, BgpNode.new]
    · simp [BgpTable.view, BgpTable.create, Trie.create, new]
  · funext a
    by_cases new : a = t.next
    · subst new
      simp [BgpTable.view, BgpTable.create, Trie.create, BgpNode.new]
    · simp [BgpTable.view, BgpTable.create, Trie.create, new]
  · funext up side
    cases up with
    | none => simp [BgpTable.view, BgpTable.create, Trie.create]
    | some a =>
      by_cases new : a = t.next
      · subst new
        cases side <;> simp [BgpTable.view, BgpTable.create, Trie.create, BgpNode.new, BgpNode.link]
      · simp [BgpTable.view, BgpTable.create, Trie.create, new]

/-- A link that is set, in the view and on the heap. -/
theorem setLink_spec {n : BgpNode ι} {bit : Bool} (apart : new ≠ node) (here : t.heap node = some n)
    (there : t.heap new = some m) (below : n.p.bits ++ [bit] <+: m.p.bits) :
    ∃ t', setLink t node new = some t' ∧ t'.view = t.view.hang (some node) bit new ∧
      Relinked t t' := by
  refine ⟨_, setLink_eq apart here there below, ?_, ?_⟩
  · ext1
    · funext a
      by_cases at_new : a = new
      · subst at_new
        simp [BgpTable.view, Trie.hang, there]
      · by_cases at_node : a = node
        · subst at_node
          simp [BgpTable.view, Trie.hang, at_new, here]
        · simp [BgpTable.view, Trie.hang, at_new, at_node]
    · funext a
      by_cases at_new : a = new
      · subst at_new
        simp [BgpTable.view, Trie.hang]
      · by_cases at_node : a = node
        · subst at_node
          simp [BgpTable.view, Trie.hang, at_new, here]
        · simp [BgpTable.view, Trie.hang, at_new, at_node]
    · funext up side
      cases up with
      | none => simp [BgpTable.view, Trie.hang, SameLink]
      | some a =>
        by_cases at_new : a = new
        · subst at_new
          cases side <;> simp [BgpTable.view, Trie.hang, SameLink, apart, there, BgpNode.link]
        · by_cases at_node : a = node
          · subst at_node
            simp [BgpTable.view, Trie.hang, SameLink, at_new, here]
          · simp [BgpTable.view, Trie.hang, SameLink, at_new, at_node]
  · refine ⟨fun a k stood => ?_, fun a present => ?_, rfl, rfl⟩
    · by_cases at_new : a = new
      · subst at_new
        cases there.symm.trans stood
        exact ⟨_, update_self .., rfl, rfl, rfl⟩
      · by_cases at_node : a = node
        · subst at_node
          cases here.symm.trans stood
          exact ⟨_, (update_of_ne at_new _ _).trans (update_self ..),
            same_setLink n bit _⟩
        · exact ⟨k, by simp [at_new, at_node, stood], .refl k⟩
    · intro absent
      have at_new : a ≠ new := by
        rintro rfl
        cases absent.symm.trans there
      have at_node : a ≠ node := by
        rintro rfl
        cases absent.symm.trans here
      simp [at_new, at_node, absent] at present

variable {matched : Option Ptr}

/-- A node that hangs nowhere is attached below the last one matched, or at the top. -/
theorem attach_spec {bit : Bool} (there : t.heap new = some m) (loose : m.parent = none)
    (apart : matched ≠ some new) (fits : t.view.Fits matched bit m.p.bits) :
    ∃ t', attach t matched new = some t' ∧ t'.view = t.view.hang matched bit new ∧
      Relinked t t' := by
  cases matched with
  | none =>
    refine ⟨_, rfl, ?_, fun a n here => ⟨n, here, .refl n⟩, fun _ present => present, rfl, rfl⟩
    ext1
    · rfl
    · refine (update_eq_self_iff.mpr ?_).symm
      exact ((view_parent there).trans loose).symm
    · funext up side
      cases up with
      | none => simp [BgpTable.view, Trie.hang, SameLink]
      | some a => simp [BgpTable.view, Trie.hang, SameLink]
  | some node =>
    obtain ⟨key, known, below⟩ := fits node rfl
    obtain ⟨n, here, rfl⟩ := node_of_key known
    exact setLink_spec (fun same => apart (congrArg some same.symm)) here there below

/-- A key fits a link of the table still after a node was created, and not below that node. -/
theorem fits_create (tidy : Tidy t) {bit : Bool} {key : List Bool}
    (fits : t.view.Fits matched bit key) (new : List Bool) :
    (t.view.create t.next new).Fits matched bit key ∧ matched ≠ some t.next := by
  have apart : matched ≠ some t.next := by
    rintro rfl
    obtain ⟨key, known, -⟩ := fits _ rfl
    rw [view_key_none.mpr tidy.unused] at known
    cases known
  refine ⟨fits.keep fun b up => update_of_ne ?_ _ _, apart⟩
  rintro rfl
  exact apart up

/-- The new leaf of an insertion, in the view and on the heap. -/
theorem insertLeaf_spec (tidy : Tidy t) (p : OctetPrefix) {bit : Bool}
    (fits : t.view.Fits matched bit p.bits) :
    ∃ t', insertLeaf t p matched = some (t', t.next) ∧
      t'.view = t.view.plant matched bit t.next p.bits ∧ Grown t t' (prefixCopy p) := by
  obtain ⟨fits, apart⟩ := fits_create tidy fits (prefixCopy p).bits
  rw [← view_create] at fits
  obtain ⟨t', attached, view, relinked⟩ :=
    attach_spec (t := (t.create (prefixCopy p)).1) (m := .new (prefixCopy p))
      (update_self ..) rfl apart (by simpa [BgpNode.new] using fits)
  refine ⟨{ t' with count := t'.count + 1 }, ?_, ?_, tidy.grown relinked⟩
  · unfold insertLeaf
    dsimp only
    rw [show (t.create (prefixCopy p)).2 = t.next from rfl, attached]
    rfl
  · rw [Trie.plant_eq apart]
    exact view.trans (by rw [view_create]; simp)

/-- The node of the common prefix, before the node a descent stopped at. -/
theorem insertCommon_spec (tidy : Tidy t) (p : OctetPrefix) {bit side : Bool} {old : Ptr}
    {n : BgpNode ι} (here : t.heap old = some n)
    (fits : t.view.Fits matched bit (routeCommon n.p p).bits)
    (below : (routeCommon n.p p).bits ++ [side] <+: n.p.bits) :
    ∃ t', insertCommon t p matched old = some (t', t.next) ∧
      t'.view = t.view.above matched bit t.next (routeCommon n.p p).bits side old ∧
      Grown t t' (routeCommon n.p p) := by
  have different : old ≠ t.next := tidy.ne_next here
  generalize common : routeCommon n.p p = c at fits below
  obtain ⟨fits, apart⟩ := fits_create tidy fits c.bits
  -- first the new node is given the old one, then it takes the place of the old one
  obtain ⟨t₁, lower, view₁, relinked₁⟩ := setLink_spec (t := (t.create c).1) (n := .new c) different
    (update_self ..) ((update_of_ne different _ _).trans here) below
  obtain ⟨m, there, same⟩ := relinked₁.kept t.next (.new c) (update_self ..)
  rw [view_create] at view₁
  have loose : m.parent = none := by
    rw [← view_parent there, view₁]
    exact (update_of_ne different.symm _ _).trans (update_self ..)
  have lands : t₁.view.Fits matched bit m.p.bits := by
    rw [view₁, same.p]
    exact fits
  obtain ⟨t₂, upper, view₂, relinked₂⟩ := attach_spec there loose apart lands
  refine ⟨{ t₂ with count := t₂.count + 1 }, ?_, ?_, tidy.grown (relinked₁.trans relinked₂)⟩
  · unfold insertCommon
    simp only [here, common, Option.bind_eq_bind, Option.bind_some]
    rw [show (t.create c).2 = t.next from rfl, lower, Option.bind_some, upper]
    rfl
  · rw [Trie.above_eq apart different.symm, ← view₁]
    exact view₂

/-! ## Losing a node -/

/-- One node less; the others keep everything but their links. -/
structure Shrunk (t t' : BgpTable ι) (a : Ptr) : Prop where
  gone : t'.heap a = none
  kept : ∀ b n, b ≠ a → t.heap b = some n → ∃ n', t'.heap b = some n' ∧ Same n n'
  only : ∀ b, t'.heap b ≠ none → t.heap b ≠ none
  count : t'.count = t.count - 1
  next : t'.next = t.next

variable {b : Ptr}

/-- A node that is still there is an old one. -/
theorem Shrunk.old {n' : BgpNode ι} (shrunk : Shrunk t t' a) (here : t'.heap b = some n') :
    b ≠ a ∧ ∃ n, t.heap b = some n ∧ Same n n' := by
  have other : b ≠ a := by
    rintro rfl
    cases here.symm.trans shrunk.gone
  obtain ⟨n, there⟩ := Option.ne_none_iff_exists'.mp
    (shrunk.only b (by rw [here]; exact Option.some_ne_none n'))
  obtain ⟨n'', here', same⟩ := shrunk.kept b n other there
  cases here.symm.trans here'
  exact ⟨other, n, there, same⟩

theorem Tidy.shrink (tidy : Tidy t) (shrunk : Shrunk t t' a) (there : t.heap a ≠ none)
    (wf : Wf t'.view) : Tidy t' where
  wf := wf
  counted := by
    obtain ⟨nodes, members, count⟩ := tidy.counted
    refine ⟨nodes.erase a, fun b => ?_, ?_⟩
    · rw [Finset.mem_erase, members]
      constructor
      · rintro ⟨other, present⟩
        obtain ⟨n, here⟩ := Option.ne_none_iff_exists'.mp present
        obtain ⟨n', here', -⟩ := shrunk.kept b n other here
        rw [here']
        exact Option.some_ne_none n'
      · intro present
        obtain ⟨n', here'⟩ := Option.ne_none_iff_exists'.mp present
        exact ⟨(shrunk.old here').1, shrunk.only b present⟩
    · rw [Finset.card_erase_of_mem ((members a).mpr there), shrunk.count, count]
  below := by
    intro b present
    rw [shrunk.next]
    exact tidy.below b (shrunk.only b present)
  idle := by
    intro b n' here unlocked
    obtain ⟨-, n, there, same⟩ := shrunk.old here
    rw [same.info]
    exact tidy.idle b n there (same.lock.symm.trans unlocked)

/-- The parent's link to a node is the one `bgp_node_delete` replaces. -/
theorem relink (tidy : Tidy t) {bit : Bool} (there : t.heap b = some m)
    (link : t.view.child (some b) bit = some a) (child : Option Ptr) :
    (if m.lLeft = some a then { m with lLeft := child } else { m with lRight := child }) =
      m.setLink bit child := by
  cases bit with
  | false =>
    rw [view_child there] at link
    exact if_pos link
  | true =>
    refine if_neg fun left => ?_
    have other : t.view.child (some b) false = some a := (view_child there false).trans left
    rcases (tidy.wf.link_unique link other).2 with impossible | impossible <;> cases impossible

/-- Only the child's parent changes when it is given away. -/
theorem adopt_eq {child : Option Ptr} (parent : Option Ptr)
    (there : ∀ c, child = some c → t.heap c ≠ none) :
    adopt t child parent = some { t with
      heap := fun b => if child = some b then (t.heap b).map fun m => { m with parent }
        else t.heap b } := by
  cases child with
  | none => simp [adopt]
  | some c =>
    obtain ⟨m, here⟩ := Option.ne_none_iff_exists'.mp (there c rfl)
    rw [adopt, update_eq here]
    congr 2
    funext b
    by_cases at_c : b = c
    · subst at_c
      simp [here]
    · have other : ¬c = b := fun same => at_c same.symm
      simp [at_c, other]

variable {parent : Option Ptr}

/-- Only the parent's link, or the top, changes when a node is replaced in it. -/
theorem replaceLink_eq {t₁ : BgpTable ι} (tidy : Tidy t) {bit : Bool}
    (link : t.view.child parent bit = some a) (child : Option Ptr)
    (parents : ∀ b, parent = some b → t₁.heap b = t.heap b) :
    replaceLink t₁ parent a child = some { t₁ with
      heap := fun b => if parent = some b then (t₁.heap b).map (·.setLink bit child)
        else t₁.heap b
      top := if parent = none then child else t₁.top } := by
  cases parent with
  | none => simp [replaceLink]
  | some b =>
    obtain ⟨m, here⟩ := Option.ne_none_iff_exists'.mp
      (fun missing => tidy.wf.link_parent link (view_key_none.mpr missing))
    have here₁ : t₁.heap b = some m := (parents b rfl).trans here
    rw [replaceLink, update_eq here₁, relink tidy here link]
    simp only [reduceCtorEq, if_false]
    congr 2
    funext c
    by_cases at_b : c = b
    · subst at_b
      simp [here₁]
    · have other : ¬b = c := fun same => at_b same.symm
      simp [at_b, other]

/-- What is left when a stub is freed and its only child put in its place. -/
def spliced (t : BgpTable ι) (parent : Option Ptr) (bit : Bool) (a : Ptr) (child : Option Ptr) :
    BgpTable ι where
  heap b :=
    if b = a then none
    else if child = some b then (t.heap b).map fun m => { m with parent }
    else if parent = some b then (t.heap b).map (·.setLink bit child)
    else t.heap b
  top := if parent = none then child else t.top
  count := t.count - 1
  next := t.next

/-- One turn of the deletion frees a stub, unless it has two children. -/
theorem bgpNodeDelete_turn (tidy : Tidy t) {n : BgpNode ι} (fuel : Nat) {bit : Bool}
    {child : Option Ptr} (here : t.heap a = some n) (unlocked : n.lock = 0)
    (link : t.view.child n.parent bit = some a) (stub : ¬(n.lLeft.isSome ∧ n.lRight.isSome))
    (only : (if n.lLeft.isSome then n.lLeft else n.lRight) = child)
    (there : ∀ c, child = some c → ∃ side, t.view.child (some a) side = some c) :
    bgpNodeDelete (fuel + 1) t a = match n.parent with
      | none => some (spliced t n.parent bit a child)
      | some b => ((spliced t n.parent bit a child).heap b).bind fun m =>
        if m.lock = 0 then bgpNodeDelete fuel (spliced t n.parent bit a child) b
        else some (spliced t n.parent bit a child) := by
  have asserted : ¬(n.lock ≠ 0 ∨ n.info.isSome) := by
    rw [tidy.idle a n here unlocked]
    simp [unlocked]
  have parent_ne : ∀ b, n.parent = some b → child ≠ some b := by
    intro b up is_child
    obtain ⟨side, onto⟩ := there b is_child
    exact tidy.wf.no_return (up ▸ link) onto
  have children : ∀ c, child = some c → t.heap c ≠ none := by
    intro c is_child
    obtain ⟨side, onto⟩ := there c is_child
    exact fun missing => tidy.wf.child_key onto (view_key_none.mpr missing)
  have adopted := adopt_eq (t := t) n.parent children
  simp only [bgpNodeDelete, here, Option.bind_eq_bind, Option.bind_some, if_neg asserted,
    if_neg stub, only, adopted]
  rw [replaceLink_eq tidy link child fun b up => if_neg (parent_ne b up), Option.bind_some]
  have same : (BgpTable.mk (fun b => if n.parent = some b then
        (if child = some b then (t.heap b).map fun m => { m with parent := n.parent }
          else t.heap b).map (·.setLink bit child)
        else if child = some b then (t.heap b).map fun m => { m with parent := n.parent }
          else t.heap b)
      (if n.parent = none then child else t.top) (t.count - 1) t.next).free a =
        spliced t n.parent bit a child := by
    simp only [BgpTable.free, spliced]
    congr 1
    funext b
    by_cases at_a : b = a
    · simp [at_a]
    · by_cases at_child : child = some b
      · have up : n.parent ≠ some b := fun up => parent_ne b up at_child
        simp [at_a, at_child, up]
      · simp [at_a, at_child]
  exact same ▸ rfl

attribute [local simp] BgpTable.view spliced Trie.splice in
/-- Freeing a stub is a splice of the view. -/
theorem spliced_view (tidy : Tidy t) {bit : Bool} {child : Option Ptr}
    (link : t.view.child parent bit = some a)
    (there : ∀ c, child = some c → ∃ side, t.view.child (some a) side = some c)
    (apart : ∀ b, parent = some b → child ≠ some b) :
    (spliced t parent bit a child).view = t.view.splice parent bit a child := by
  have parent_ne : parent ≠ some a := by
    rintro rfl
    exact tidy.wf.link_ne link rfl
  ext1
  · funext b
    by_cases at_a : b = a
    · simp [at_a]
    · by_cases at_child : child = some b
      · cases here : t.heap b <;>
          simp [at_a, at_child, here]
      · by_cases up : parent = some b
        · cases here : t.heap b <;>
            simp [at_a, at_child, up, here]
        · simp [at_a, at_child, up]
  · funext b
    by_cases at_a : b = a
    · simp [at_a]
    · by_cases at_child : child = some b
      · obtain ⟨side, onto⟩ := there b at_child
        obtain ⟨m, here⟩ := Option.ne_none_iff_exists'.mp
          (fun missing => tidy.wf.child_key onto (view_key_none.mpr missing))
        simp [at_a, at_child, here]
      · by_cases up : parent = some b
        · cases here : t.heap b <;>
            simp [at_a, at_child, up, here]
        · simp [at_a, at_child, up]
  · funext up side
    cases up with
    | none =>
      cases parent <;> simp [SameLink]
    | some b =>
      by_cases at_a : b = a
      · simp [at_a]
      · by_cases at_child : child = some b
        · have other : parent ≠ some b := fun up => apart b up at_child
          have unlike : ¬SameLink parent bit (some b) side := fun same => other same.1.symm
          cases here : t.heap b with
          | none => simp [at_a, at_child, unlike, here]
          | some m =>
            cases side <;>
              simp [at_a, at_child, unlike, here, BgpNode.link]
        · by_cases up : parent = some b
          · subst up
            obtain ⟨m, here⟩ := Option.ne_none_iff_exists'.mp
              (fun missing => tidy.wf.link_parent link (view_key_none.mpr missing))
            simp [SameLink, at_a, at_child, here]
          · have unlike : ¬SameLink parent bit (some b) side := fun same => up same.1.symm
            simp [at_a, at_child, up, unlike]

theorem spliced_shrunk {bit : Bool} {child : Option Ptr} :
    Shrunk t (spliced t parent bit a child) a where
  gone := if_pos rfl
  kept := by
    intro b n other here
    simp only [spliced, if_neg other, here, Option.map_some]
    split
    · exact ⟨_, rfl, rfl, rfl, rfl⟩
    · split
      · exact ⟨_, rfl, same_setLink n bit child⟩
      · exact ⟨n, rfl, .refl n⟩
  only := by
    intro b present missing
    simp [spliced, missing] at present
  count := rfl
  next := rfl

/-- Nodes with a lock stay, with everything but their links, and nothing is
added. -/
structure Pruned (t t' : BgpTable ι) : Prop where
  locked : ∀ a n, t.heap a = some n → 0 < n.lock → ∃ n', t'.heap a = some n' ∧ Same n n'
  old : ∀ a n', t'.heap a = some n' → ∃ n, t.heap a = some n ∧ Same n n'

theorem Pruned.refl (t : BgpTable ι) : Pruned t t :=
  ⟨fun _ n here _ => ⟨n, here, .refl n⟩, fun _ n here => ⟨n, here, .refl n⟩⟩

theorem Pruned.trans {u v : BgpTable ι} (left : Pruned t u) (right : Pruned u v) :
    Pruned t v where
  locked a n here held := by
    obtain ⟨n', here', same⟩ := left.locked a n here held
    obtain ⟨n'', here'', same'⟩ := right.locked a n' here' (same.lock ▸ held)
    exact ⟨n'', here'', same.trans same'⟩
  old a n'' here'' := by
    obtain ⟨n', here', same'⟩ := right.old a n'' here''
    obtain ⟨n, here, same⟩ := left.old a n' here'
    exact ⟨n, here, same.trans same'⟩

theorem Shrunk.pruned {n : BgpNode ι} (shrunk : Shrunk t t' a) (here : t.heap a = some n)
    (unlocked : n.lock = 0) : Pruned t t' where
  locked b m there held := by
    have other : b ≠ a := by
      rintro rfl
      cases here.symm.trans there
      omega
    exact shrunk.kept b m other there
  old b m' there' := (shrunk.old there').2

/-- Only the parent of a node that is freed loses a child. -/
theorem spliced_filled {bit : Bool} {child : Option Ptr} (filled : Filled t (some a))
    (view : (spliced t parent bit a child).view = t.view.splice parent bit a child) :
    Filled (spliced t parent bit a child) parent := by
  intro b m' here unlocked other side
  obtain ⟨apart, m, there, same⟩ := spliced_shrunk.old here
  have unlike : ¬SameLink parent bit (some b) side := fun same => other same.1.symm
  rw [← view_child here, view, Trie.splice]
  simp only [Option.some.injEq, if_neg apart, if_neg unlike, view_child there]
  exact filled b m there (same.lock.symm.trans unlocked) (fun same =>
    apart (Option.some.inj same).symm)
    side

/-- The deletion of a node without a lock returns a table in order. -/
theorem bgpNodeDelete_spec (fuel : Nat) {n : BgpNode ι} (tidy : Tidy t) (filled : Filled t (some a))
    (here : t.heap a = some n) (unlocked : n.lock = 0) (enough : n.p.prefixlen < fuel) :
    ∃ t', bgpNodeDelete fuel t a = some t' ∧ Tidy t' ∧ Filled t' none ∧ Pruned t t' := by
  induction fuel generalizing t a n with
  | zero => omega
  | succ fuel ih =>
    by_cases both : n.lLeft.isSome ∧ n.lRight.isSome
    · refine ⟨t, ?_, tidy, fun b m there free _ side => ?_, .refl t⟩
      · simp [bgpNodeDelete, here, unlocked, tidy.idle a n here unlocked, both]
      · by_cases at_a : b = a
        · subst at_a
          cases here.symm.trans there
          cases side with
          | false => exact Option.isSome_iff_ne_none.mp both.1
          | true => exact Option.isSome_iff_ne_none.mp both.2
        · exact filled b m there free (fun same => at_a (Option.some.inj same).symm) side
    · obtain ⟨bit, link⟩ := tidy.wf.up (view_key here)
      rw [view_parent here] at link
      generalize only : (if n.lLeft.isSome then n.lLeft else n.lRight) = child
      have there : ∀ c, child = some c → ∃ side, t.view.child (some a) side = some c := by
        rintro c rfl
        split at only
        · exact ⟨false, (view_child here false).trans only⟩
        · exact ⟨true, (view_child here true).trans only⟩
      have stub : ∀ side c, t.view.child (some a) side = some c → child = some c := by
        intro side c onto
        rw [view_child here] at onto
        rw [← only]
        cases side with
        | false => exact (if_pos (Option.isSome_iff_exists.mpr ⟨c, onto⟩)).trans onto
        | true =>
          have right : n.lRight.isSome := Option.isSome_iff_exists.mpr ⟨c, onto⟩
          exact (if_neg fun left => both ⟨left, right⟩).trans onto
      have apart : ∀ b, n.parent = some b → child ≠ some b := by
        intro b up is_child
        obtain ⟨side, onto⟩ := there b is_child
        exact tidy.wf.no_return (up ▸ link) onto
      have view := spliced_view tidy link there apart
      have shrunk : Shrunk t (spliced t n.parent bit a child) a := spliced_shrunk
      have tidy' : Tidy (spliced t n.parent bit a child) :=
        tidy.shrink shrunk (by rw [here]; exact Option.some_ne_none n)
          (view ▸ tidy.wf.splice link stub there)
      have filled' := spliced_filled filled view
      have pruned := shrunk.pruned here unlocked
      rw [bgpNodeDelete_turn tidy fuel here unlocked link both only there]
      cases up : n.parent with
      | none =>
        rw [up] at filled' tidy' pruned
        exact ⟨_, rfl, tidy', filled', pruned⟩
      | some b =>
        rw [up] at filled' tidy' pruned link shrunk
        obtain ⟨m, at_b⟩ := Option.ne_none_iff_exists'.mp
          (fun missing => tidy.wf.link_parent link (view_key_none.mpr missing))
        have b_ne : b ≠ a := tidy.wf.link_ne link
        obtain ⟨m', at_b', same⟩ := shrunk.kept b m b_ne at_b
        obtain ⟨ka, key_a, grows⟩ := tidy.wf.link_grows link (view_key at_b)
        cases key_a.symm.trans (view_key here)
        have shorter : m.p.prefixlen < n.p.prefixlen := by simpa using grows.length_le
        dsimp only
        rw [at_b', Option.bind_some]
        split
        · rename_i free
          obtain ⟨t', deleted, rest⟩ := ih tidy' filled' at_b' free (by rw [same.p]; omega)
          exact ⟨t', deleted, rest.1, rest.2.1, pruned.trans rest.2.2⟩
        · rename_i held
          refine ⟨_, rfl, tidy', fun c k there free _ side => ?_, pruned⟩
          refine filled' c k there free (fun same => ?_) side
          cases same
          cases at_b'.symm.trans there
          exact held free

end Bgpd.NodeTable
