import Mathlib.Tactic
import Mathlib.Data.List.Infix
import Mathlib.Logic.Relation

/-!
# Linked binary tries

Nodes live at addresses. A node has a key, a list of bits, a parent or none, and
for each bit at most one child; the child of no parent is the top. In a
well-formed trie the links and the parents agree, and the key of a child begins
with the key of its parent followed by the bit of the link it hangs on.

A node is then above another exactly when its key is below the other's in the
prefix order. So no two nodes share a key, and a walk from the top along the
bits of a list meets every node whose key the list begins with.

Three changes keep a trie well formed: a leaf on an empty link, a node on a link
between its two ends, and the removal of a node with at most one child.
-/

namespace Bgpd.BitTrie

open Function (update update_comm update_idem update_of_ne update_self)

variable {P : Type}

/-- Keys, parents and children by address. The top is the child of no parent,
whatever the bit. -/
@[ext] structure Trie (P : Type) where
  key : P → Option (List Bool)
  parent : P → Option P
  child : Option P → Bool → Option P

/-- A key may hang on a link: it begins with the key of the link's parent and
the bit of the link. -/
def Trie.Fits (t : Trie P) (up : Option P) (bit : Bool) (key : List Bool) : Prop :=
  ∀ b, up = some b → ∃ kb, t.key b = some kb ∧ kb ++ [bit] <+: key

/-- Links and parents agree, and keys fit their links. -/
structure Wf (t : Trie P) : Prop where
  down : ∀ {up bit c}, t.child up bit = some c →
    ∃ key, t.key c = some key ∧ t.parent c = up ∧ t.Fits up bit key
  up : ∀ {c key}, t.key c = some key → ∃ bit, t.child (t.parent c) bit = some c
  top : t.child none false = t.child none true

/-- A node is above another, or is it. -/
def Above (t : Trie P) : P → P → Prop :=
  Relation.ReflTransGen fun b c => ∃ bit, t.child (some b) bit = some c

variable {left right : Bool}

/-- A list begins with at most one bit behind a given prefix. -/
theorem bit_unique {k list : List Bool} (below : k ++ [left] <+: list)
    (below' : k ++ [right] <+: list) : left = right := by
  have same := List.prefix_of_prefix_length_le below below' (by simp)
  simpa using same

section Order

variable {t : Trie P} (wf : Wf t)
include wf

theorem Wf.top_bit (bit : Bool) : t.child none bit = t.child none false := by
  cases bit with
  | false => rfl
  | true => exact wf.top.symm

variable {b : P} {kb : List Bool}
variable {c : P} {bit : Bool}

/-- A link makes keys grow. -/
theorem Wf.link_grows (link : t.child (some b) bit = some c) (key : t.key b = some kb) :
    ∃ kc, t.key c = some kc ∧ kb ++ [bit] <+: kc := by
  obtain ⟨kc, known, -, fits⟩ := wf.down link
  obtain ⟨kb', known', below⟩ := fits b rfl
  cases key.symm.trans known'
  exact ⟨kc, known, below⟩

variable {a : P}
variable {ka : List Bool}

/-- A node above another has a key below it. -/
theorem Wf.key_below (above : Above t a b) (key : t.key a = some ka) :
    ∃ kb, t.key b = some kb ∧ ka <+: kb := by
  induction above with
  | refl => exact ⟨ka, key, List.prefix_rfl⟩
  | tail _ link ih =>
    obtain ⟨bit, link⟩ := link
    obtain ⟨kb, known, below⟩ := ih
    obtain ⟨kc, known', grows⟩ := wf.link_grows link known
    exact ⟨kc, known', below.trans ((List.prefix_append _ _).trans grows)⟩

/-- Every node is below the top. -/
theorem Wf.top_above (key : t.key b = some kb) :
    ∃ top, t.child none false = some top ∧ Above t top b := by
  induction size : kb.length using Nat.strong_induction_on generalizing b kb with
  | _ size ih =>
    obtain ⟨bit, link⟩ := wf.up key
    cases up : t.parent b with
    | none =>
      rw [up, wf.top_bit] at link
      exact ⟨b, link, .refl⟩
    | some parent =>
      rw [up] at link
      obtain ⟨kb', known, -, fits⟩ := wf.down link
      cases key.symm.trans known
      obtain ⟨kp, parent_key, below⟩ := fits parent rfl
      have shorter : kp.length + 1 ≤ kb.length := by simpa using below.length_le
      obtain ⟨top, is_top, above⟩ := ih kp.length (by omega) parent_key rfl
      exact ⟨top, is_top, above.tail ⟨bit, link⟩⟩

/-- A node whose key another's begins with is above it. -/
theorem Wf.above_of_prefix (key : t.key a = some ka) (key' : t.key b = some kb)
    (below : ka <+: kb) :
    Above t a b := by
  induction size : ka.length using Nat.strong_induction_on generalizing a ka with
  | _ size ih =>
    obtain ⟨bit, link⟩ := wf.up key
    cases up : t.parent a with
    | none =>
      obtain ⟨top, is_top, above⟩ := wf.top_above key'
      rw [up, wf.top_bit, is_top] at link
      cases link
      exact above
    | some parent =>
      rw [up] at link
      obtain ⟨ka', known, -, fits⟩ := wf.down link
      cases key.symm.trans known
      obtain ⟨kp, parent_key, grows⟩ := fits parent rfl
      have longer : kp.length + 1 ≤ ka.length := by simpa using grows.length_le
      have above := ih kp.length (by omega) parent_key
        (((List.prefix_append _ _).trans grows).trans below) rfl
      rcases above.cases_head with rfl | ⟨c, ⟨bit', link'⟩, above⟩
      · cases parent_key.symm.trans key'
        have := below.length_le
        omega
      · -- the way from the parent to the other node takes the same link
        obtain ⟨kc, known_c, grows_c⟩ := wf.link_grows link' parent_key
        obtain ⟨kb', known_b, below_c⟩ := wf.key_below above known_c
        cases key'.symm.trans known_b
        cases bit_unique (grows_c.trans below_c) (grows.trans below)
        cases link.symm.trans link'
        exact above

/-- No two nodes have the same key. -/
theorem Wf.key_unique {key : List Bool} (left : t.key a = some key) (right : t.key b = some key) :
    a = b := by
  rcases (wf.above_of_prefix left right List.prefix_rfl).cases_head with same | ⟨c,
    ⟨bit, link⟩, above⟩
  · exact same
  · obtain ⟨kc, known_c, grows⟩ := wf.link_grows link left
    obtain ⟨kb, known_b, below⟩ := wf.key_below above known_c
    cases right.symm.trans known_b
    have := (grows.trans below).length_le
    simp at this

/-- A walk along the bits of a list is at a link: the key of the link's parent
is below the list, and the link is on the way unless the list ends there. -/
def OnWay (t : Trie P) (list : List Bool) (up : Option P) (bit : Bool) : Prop :=
  ∀ b, up = some b → ∃ kb, t.key b = some kb ∧ kb <+: list ∧
    (kb.length < list.length → kb ++ [bit] <+: list)

/-- A node whose key the list begins with has been passed, or is behind the
link the walk is at. -/
theorem Wf.passed_or_behind {list : List Bool} {up : Option P} (way : OnWay t list up bit)
    {kc : List Bool} (key : t.key c = some kc) (below : kc <+: list) :
    (∃ b kb, up = some b ∧ t.key b = some kb ∧ kc <+: kb) ∨
      ∃ d, t.child up bit = some d ∧ Above t d c := by
  cases up with
  | none =>
    obtain ⟨top, is_top, above⟩ := wf.top_above key
    exact .inr ⟨top, (wf.top_bit bit).trans is_top, above⟩
  | some b =>
    obtain ⟨kb, key_b, below_b, onward⟩ := way b rfl
    rcases List.prefix_or_prefix_of_prefix below below_b with earlier | later
    · exact .inl ⟨b, kb, rfl, key_b, earlier⟩
    · rcases (wf.above_of_prefix key_b key later).cases_head with rfl | ⟨d, ⟨bit', link⟩, above⟩
      · cases key.symm.trans key_b
        exact .inl ⟨b, kc, rfl, key, List.prefix_rfl⟩
      · obtain ⟨kd, known_d, grows⟩ := wf.link_grows link key_b
        obtain ⟨kc', known_c, below_d⟩ := wf.key_below above known_d
        cases key.symm.trans known_c
        have on_list := (grows.trans below_d).trans below
        have longer : kb.length < list.length := by
          have := on_list.length_le
          simp at this
          omega
        cases bit_unique on_list (onward longer)
        exact .inr ⟨d, link, above⟩

end Order

/-! ## Changes -/

/-- Two links are one: the link to the top has no bit. -/
def SameLink (up : Option P) (bit : Bool) (up' : Option P) (bit' : Bool) : Prop :=
  up' = up ∧ (up = none ∨ bit' = bit)

instance [DecidableEq P] (up : Option P) (bit : Bool) (up' : Option P) (bit' : Bool) :
    Decidable (SameLink up bit up' bit') :=
  inferInstanceAs (Decidable (_ ∧ _))

section Links

variable {t : Trie P} (wf : Wf t) {up up' : Option P} {bit bit' : Bool} {c : P}
include wf

theorem Wf.sameLink_child (same : SameLink up bit up' bit') :
    t.child up' bit' = t.child up bit := by
  obtain ⟨rfl, rfl | rfl⟩ := same
  · rw [wf.top_bit bit, wf.top_bit bit']
  · rfl

/-- A node hangs on one link only. -/
theorem Wf.link_unique (link : t.child up bit = some c) (link' : t.child up' bit' = some c) :
    SameLink up bit up' bit' := by
  obtain ⟨key, known, parent, fits⟩ := wf.down link
  obtain ⟨key', known', parent', fits'⟩ := wf.down link'
  cases known.symm.trans known'
  cases parent.symm.trans parent'
  refine ⟨rfl, ?_⟩
  cases up with
  | none => exact .inl rfl
  | some b =>
    obtain ⟨kb, key_b, below⟩ := fits b rfl
    obtain ⟨kb', key_b', below'⟩ := fits' b rfl
    cases key_b.symm.trans key_b'
    exact .inr (bit_unique below' below)

theorem Wf.child_key (link : t.child up bit = some c) : t.key c ≠ none := by
  obtain ⟨key, known, -⟩ := wf.down link
  rw [known]
  exact Option.some_ne_none _

variable {b : P}

/-- The parent of a link is a node. -/
theorem Wf.link_parent (link : t.child (some b) bit = some c) : t.key b ≠ none := by
  obtain ⟨key, -, -, fits⟩ := wf.down link
  obtain ⟨kb, known, -⟩ := fits b rfl
  rw [known]
  exact Option.some_ne_none _

/-- No node is its own child. -/
theorem Wf.link_ne (link : t.child (some b) bit = some c) : b ≠ c := by
  rintro rfl
  obtain ⟨key, known, -, fits⟩ := wf.down link
  obtain ⟨kb, key_b, below⟩ := fits b rfl
  cases known.symm.trans key_b
  have := below.length_le
  simp at this

/-- A child of a node is not its parent. -/
theorem Wf.no_return {a : P} {side : Bool} (link : t.child (some b) bit = some a) :
    t.child (some a) side ≠ some b := by
  intro back
  obtain ⟨kb, key_b⟩ := Option.ne_none_iff_exists'.mp (wf.link_parent link)
  obtain ⟨ka, key_a, grows⟩ := wf.link_grows link key_b
  obtain ⟨kb', key_b', grows'⟩ := wf.link_grows back key_a
  cases key_b.symm.trans key_b'
  have := grows.length_le
  have := grows'.length_le
  simp only [List.length_append, List.length_singleton] at *
  omega

end Links

theorem SameLink.refl (up : Option P) (bit : Bool) : SameLink up bit up bit := ⟨rfl, .inr rfl⟩

variable {bit : Bool}

theorem sameLink_some {q : Option P} {node : P} {b : Bool} :
    SameLink (some node) bit q b ↔ q = some node ∧ b = bit := by
  simp [SameLink]

variable {up : Option P}

theorem SameLink.top : SameLink up bit none left ↔ SameLink up bit none right := by
  constructor <;> rintro ⟨rfl, -⟩ <;> exact ⟨rfl, .inl rfl⟩

/-- Keys that fit a link still fit it where the link's parent keeps its key. -/
theorem Trie.Fits.keep {t t' : Trie P} {key : List Bool} (fits : t.Fits up bit key)
    (kept : ∀ b, up = some b → t'.key b = t.key b) : t'.Fits up bit key := by
  intro b here
  rw [kept b here]
  exact fits b here

section Changes

variable [DecidableEq P] {t : Trie P}

/-- A new leaf on a link. -/
def Trie.plant (t : Trie P) (up : Option P) (bit : Bool) (new : P) (key : List Bool) : Trie P where
  key := update t.key new (some key)
  parent := update t.parent new up
  child q b :=
    if q = some new then none else if SameLink up bit q b then some new else t.child q b

/-- A new node on the link to a node, which becomes its child. -/
def Trie.above (t : Trie P) (up : Option P) (bit : Bool) (new : P) (key : List Bool) (side : Bool)
    (old : P) : Trie P where
  key := update t.key new (some key)
  parent := update (update t.parent new up) old (some new)
  child q b :=
    if q = some new then if b = side then some old else none
    else if SameLink up bit q b then some new else t.child q b

/-- A node that hangs on no link yet. -/
def Trie.create (t : Trie P) (new : P) (key : List Bool) : Trie P where
  key := update t.key new (some key)
  parent := update t.parent new none
  child q b := if q = some new then none else t.child q b

/-- A node on a link, where another may have hung. -/
def Trie.hang (t : Trie P) (up : Option P) (bit : Bool) (node : P) : Trie P where
  key := t.key
  parent := update t.parent node up
  child q b := if SameLink up bit q b then some node else t.child q b

variable {up : Option P} {new : P}

/-- A new leaf is created and hung on its link. -/
theorem Trie.plant_eq (apart : up ≠ some new) (bit : Bool) (key : List Bool) :
    t.plant up bit new key = (t.create new key).hang up bit new := by
  ext1
  · rfl
  · exact (update_idem ..).symm
  · funext q b
    by_cases mine : q = some new
    · have other : ¬ SameLink up bit q b := fun same => apart (same.1.symm.trans mine)
      simp only [Trie.plant, Trie.hang, Trie.create, if_pos mine, if_neg other]
    · simp only [Trie.plant, Trie.hang, Trie.create, if_neg mine]

variable {old : P}

/-- A new node above another is created, given the other, and hung on its link. -/
theorem Trie.above_eq (apart : up ≠ some new) (different : new ≠ old) (bit : Bool) (key : List Bool)
    (side : Bool) :
    t.above up bit new key side old =
      ((t.create new key).hang (some new) side old).hang up bit new := by
  ext1
  · rfl
  · have swapped := update_comm different.symm (some new) none t.parent
    simp only [Trie.above, Trie.hang, Trie.create]
    rw [← swapped, update_idem]
    exact update_comm different ..
  · funext q b
    by_cases mine : q = some new
    · have other : ¬ SameLink up bit q b := fun same => apart (same.1.symm.trans mine)
      subst mine
      simp [Trie.above, Trie.hang, Trie.create, if_neg other, sameLink_some]
    · have other : ¬ SameLink (some new) side q b := fun same => mine same.1
      simp only [Trie.above, Trie.hang, Trie.create, if_neg mine, if_neg other]

/-- The removal of a node, whose only child takes its place. -/
def Trie.splice (t : Trie P) (up : Option P) (bit : Bool) (old : P) (only : Option P) :
    Trie P where
  key := update t.key old none
  parent b := if b = old then none else if only = some b then up else t.parent b
  child q b :=
    if q = some old then none else if SameLink up bit q b then only else t.child q b

variable {bit : Bool}

theorem Wf.plant (wf : Wf t) {key : List Bool} (fresh : t.key new = none)
    (empty : t.child up bit = none) (fits : t.Fits up bit key) : Wf (t.plant up bit new key) := by
  have kept : ∀ b, t.key b ≠ none → (t.plant up bit new key).key b = t.key b := by
    intro b known
    have other : b ≠ new := fun same => known (same ▸ fresh)
    exact update_of_ne other _ _
  have up_ne : up ≠ some new := by
    rintro rfl
    obtain ⟨kb, known, -⟩ := fits new rfl
    cases fresh.symm.trans known
  have fits' : (t.plant up bit new key).Fits up bit key := by
    refine fits.keep fun b here => kept b ?_
    rintro missing
    obtain ⟨kb, known, -⟩ := fits b here
    cases missing.symm.trans known
  refine ⟨?_, ?_, ?_⟩
  · intro q b c link
    simp only [Trie.plant] at link
    split at link
    · cases link
    · split at link
      · rename_i same
        cases link
        refine ⟨key, update_self .., ?_, ?_⟩
        · exact (update_self ..).trans same.1.symm
        · obtain ⟨rfl, rfl | rfl⟩ := same
          · exact fun _ => nofun
          · exact fits'
      · obtain ⟨kc, known, parent, fits⟩ := wf.down link
        have old : c ≠ new := fun same => wf.child_key link (same ▸ fresh)
        refine ⟨kc, (kept c (wf.child_key link)).trans known, ?_, fits.keep fun b here => ?_⟩
        · exact (update_of_ne old _ _).trans parent
        · exact kept b (wf.link_parent (here ▸ link))
  · intro c kc known
    by_cases same : c = new
    · subst same
      refine ⟨bit, ?_⟩
      simp [Trie.plant, up_ne, SameLink.refl]
    · have known : t.key c = some kc := (update_of_ne same _ _).symm.trans known
      obtain ⟨side, link⟩ := wf.up known
      have parent_ne : t.parent c ≠ some new := by
        intro here
        rw [here] at link
        exact wf.link_parent link fresh
      have other : ¬SameLink up bit (t.parent c) side := by
        intro same
        rw [wf.sameLink_child same, empty] at link
        cases link
      refine ⟨side, ?_⟩
      simp only [Trie.plant, update_of_ne same, if_neg parent_ne, if_neg other, link]
  · simp only [Trie.plant, reduceCtorEq, if_false, wf.top]
    exact if_congr SameLink.top rfl rfl

theorem Wf.above (wf : Wf t) {key kold : List Bool} {side : Bool} (fresh : t.key new = none)
    (link : t.child up bit = some old) (fits : t.Fits up bit key) (key_old : t.key old = some kold)
    (below : key ++ [side] <+: kold) : Wf (t.above up bit new key side old) := by
  have kept : ∀ b, t.key b ≠ none → (t.above up bit new key side old).key b = t.key b := by
    intro b known
    have other : b ≠ new := fun same => known (same ▸ fresh)
    exact update_of_ne other _ _
  have new_key : (t.above up bit new key side old).key new = some key := update_self ..
  have old_ne : new ≠ old := by
    rintro rfl
    cases fresh.symm.trans key_old
  have new_parent : (t.above up bit new key side old).parent new = up := by
    simp [Trie.above, update_of_ne old_ne]
  have up_ne : up ≠ some new := by
    rintro rfl
    exact wf.link_parent link fresh
  have fits' : (t.above up bit new key side old).Fits up bit key := by
    refine fits.keep fun b here => kept b ?_
    subst here
    exact wf.link_parent link
  refine ⟨?_, ?_, ?_⟩
  · intro q b c changed
    simp only [Trie.above] at changed
    split at changed
    · rename_i at_new
      split at changed
      · rename_i at_side
        cases changed
        refine ⟨kold, (kept old (wf.child_key link)).trans key_old, ?_, ?_⟩
        · exact (update_self ..).trans at_new.symm
        · rintro _ rfl
          cases at_new
          exact ⟨key, new_key, at_side ▸ below⟩
      · cases changed
    · split at changed
      · rename_i same
        cases changed
        refine ⟨key, new_key, new_parent.trans same.1.symm, ?_⟩
        obtain ⟨rfl, rfl | rfl⟩ := same
        · exact fun _ => nofun
        · exact fits'
      · rename_i other
        obtain ⟨kc, known, parent, fits⟩ := wf.down changed
        have c_new : c ≠ new := fun same => wf.child_key changed (same ▸ fresh)
        have c_old : c ≠ old := fun same => other (wf.link_unique link (same ▸ changed))
        refine ⟨kc, (kept c (wf.child_key changed)).trans known, ?_, fits.keep fun b here => ?_⟩
        · simpa [Trie.above, update_of_ne c_old, update_of_ne c_new] using parent
        · exact kept b (wf.link_parent (here ▸ changed))
  · intro c kc known
    by_cases c_new : c = new
    · subst c_new
      refine ⟨bit, ?_⟩
      rw [new_parent]
      simp [Trie.above, up_ne, SameLink.refl]
    · by_cases c_old : c = old
      · subst c_old
        refine ⟨side, ?_⟩
        simp [Trie.above]
      · have known : t.key c = some kc := (update_of_ne c_new _ _).symm.trans known
        obtain ⟨way, onto⟩ := wf.up known
        have parent_ne : t.parent c ≠ some new := by
          intro here
          rw [here] at onto
          exact wf.link_parent onto fresh
        have other : ¬SameLink up bit (t.parent c) way := by
          intro same
          rw [wf.sameLink_child same, link] at onto
          exact c_old (Option.some.inj onto).symm
        refine ⟨way, ?_⟩
        simp only [Trie.above, update_of_ne c_old, update_of_ne c_new,
          if_neg parent_ne, if_neg other, onto]
  · simp only [Trie.above, reduceCtorEq, if_false, wf.top]
    exact if_congr SameLink.top rfl rfl

theorem Wf.splice (wf : Wf t) {only : Option P} (link : t.child up bit = some old)
    (stub : ∀ side c, t.child (some old) side = some c → only = some c)
    (there : ∀ c, only = some c → ∃ side, t.child (some old) side = some c) :
    Wf (t.splice up bit old only) := by
  have kept : ∀ b, b ≠ old → (t.splice up bit old only).key b = t.key b := fun b other =>
    update_of_ne other _ _
  have parent_kept : ∀ c, c ≠ old → only ≠ some c →
      (t.splice up bit old only).parent c = t.parent c := by
    intro c c_old other
    simp only [Trie.splice, if_neg c_old, if_neg other]
  have up_ne : up ≠ some old := by
    rintro rfl
    exact wf.link_ne link rfl
  obtain ⟨kold, key_old, -, fits_old⟩ := wf.down link
  refine ⟨?_, ?_, ?_⟩
  · intro q b c changed
    simp only [Trie.splice] at changed
    split at changed
    · cases changed
    · rename_i q_old
      split at changed
      · rename_i same
        obtain ⟨side, onto⟩ := there c changed
        have c_old : c ≠ old := (wf.link_ne onto).symm
        obtain ⟨kc, key_c, grows⟩ := wf.link_grows onto key_old
        refine ⟨kc, (kept c c_old).trans key_c, ?_, ?_⟩
        · simp only [Trie.splice, if_neg c_old, if_pos changed, same.1]
        · rintro p here
          obtain ⟨rfl, rfl | rfl⟩ := same
          · cases here
          · obtain ⟨kp, key_p, below⟩ := fits_old p here
            refine ⟨kp, (kept p fun same => up_ne (same ▸ here)).trans key_p, ?_⟩
            exact below.trans ((List.prefix_append _ _).trans grows)
      · rename_i other
        obtain ⟨kc, known, parent, fits⟩ := wf.down changed
        have c_old : c ≠ old := fun same => other (wf.link_unique link (same ▸ changed))
        refine ⟨kc, (kept c c_old).trans known, ?_, fits.keep fun b here => ?_⟩
        · rw [parent_kept c c_old, parent]
          intro taken
          obtain ⟨side, onto⟩ := there c taken
          exact q_old (wf.link_unique onto changed).1
        · exact kept b fun same => q_old (same ▸ here)
  · intro c kc known
    have c_old : c ≠ old := by
      rintro rfl
      cases (update_self ..).symm.trans known
    have known : t.key c = some kc := (kept c c_old).symm.trans known
    by_cases taken : only = some c
    · subst taken
      refine ⟨bit, ?_⟩
      simp [Trie.splice, c_old, up_ne, SameLink.refl]
    · obtain ⟨way, onto⟩ := wf.up known
      have parent_ne : t.parent c ≠ some old := by
        intro here
        rw [here] at onto
        exact taken (stub way c onto)
      have other : ¬SameLink up bit (t.parent c) way := by
        intro same
        rw [wf.sameLink_child same, link] at onto
        exact c_old (Option.some.inj onto).symm
      refine ⟨way, ?_⟩
      rw [parent_kept c c_old taken]
      simp only [Trie.splice, if_neg parent_ne, if_neg other, onto]
  · simp only [Trie.splice, reduceCtorEq, if_false, wf.top]
    exact if_congr SameLink.top rfl rfl

end Changes

end Bgpd.BitTrie
