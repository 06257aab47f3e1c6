import Mathlib.Data.List.Nodup
import Mathlib.Logic.Function.Basic
import Mathlib.Data.Option.Basic
import Mathlib.Tactic.Basic

/-!
# Doubly linked lists inside their elements

Elements carry the pointers of the list they are on, and a list is a pointer to its
first element. An element that was freed has no pointers, so following it has no value.

`Filed` says where each element is: every list is a proper chain whose first element
has nobody in front of it, and an element is on the list of its place and on no other.
Adding and deleting move one element, provided it is deleted from the list it is on.
-/

namespace Bgpd.IntrusiveLists

open Function (update update_of_ne update_self)

universe u v
variable {α : Type u} {ι : Type v}

/-- The pointers of an element. -/
structure Link (α : Type u) where
  next : Option α
  prev : Option α
  deriving DecidableEq, Repr

/-- The pointers of every element there is. -/
abbrev Links (α : Type u) := α → Option (Link α)

/-- Elements that follow each other, from the pointer to the first one up to what the
last one points to. The first one points back to `prev`. -/
def Segment (links : Links α) : Option α → Option α → List α → Option α → Prop
  | _, head, [], after => head = after
  | prev, head, a :: rest, after => head = some a
    ∧ ∃ link, links a = some link ∧ link.prev = prev ∧ Segment links (some a) link.next rest after

/-- A whole list. -/
abbrev Chain (links : Links α) (head : Option α) (l : List α) : Prop :=
  Segment links none head l none

/-- Elements that can be followed forward; nothing is said about the way back. -/
def Forward (links : Links α) : Option α → List α → Prop
  | head, [] => head = none
  | head, a :: rest => head = some a ∧ ∃ link, links a = some link ∧ Forward links link.next rest

section Segments

variable {links links' : Links α} {prev head after : Option α} {a b : α} {l front back : List α}

/-- Only the elements themselves matter. -/
theorem Segment.congr (same : ∀ a ∈ l, links' a = links a)
    (segment : Segment links prev head l after) : Segment links' prev head l after := by
  induction l generalizing prev head with
  | nil => exact segment
  | cons a rest ih =>
    obtain ⟨first, link, found, back, more⟩ := segment
    exact ⟨first, link, (same a List.mem_cons_self).trans found, back,
      ih (fun b member => same b (List.mem_cons_of_mem _ member)) more⟩

theorem Forward.congr (same : ∀ a ∈ l, links' a = links a) (forward : Forward links head l) :
    Forward links' head l := by
  induction l generalizing head with
  | nil => exact forward
  | cons a rest ih =>
    obtain ⟨first, link, found, more⟩ := forward
    exact ⟨first, link, (same a List.mem_cons_self).trans found,
      ih (fun b member => same b (List.mem_cons_of_mem _ member)) more⟩

theorem Segment.forward (segment : Segment links prev head l none) : Forward links head l := by
  induction l generalizing prev head with
  | nil => exact segment
  | cons a rest ih =>
    obtain ⟨first, link, found, -, more⟩ := segment
    exact ⟨first, link, found, ih more⟩

/-- An element points back to one of the others, or to what is in front of all. -/
theorem Segment.points_back (segment : Segment links prev head l after) (member : a ∈ l) :
    ∃ link, links a = some link ∧ (link.prev = prev ∨ ∃ b ∈ l, link.prev = some b) := by
  induction l generalizing prev head with
  | nil => cases member
  | cons b rest ih =>
    obtain ⟨-, link, found, back, more⟩ := segment
    rcases List.mem_cons.mp member with rfl | later
    · exact ⟨link, found, .inl back⟩
    · obtain ⟨own, ownFound, first | ⟨c, within, earlier⟩⟩ := ih more later
      · exact ⟨own, ownFound, .inr ⟨b, List.mem_cons_self, first⟩⟩
      · exact ⟨own, ownFound, .inr ⟨c, List.mem_cons_of_mem _ within, earlier⟩⟩

/-- Nobody is there twice: the second time it would point back into the list. -/
theorem Segment.nodup (segment : Segment links prev head l after)
    (outside : ∀ b, prev = some b → b ∉ l) : l.Nodup := by
  induction l generalizing prev head with
  | nil => exact List.nodup_nil
  | cons a rest ih =>
    obtain ⟨-, link, found, back, more⟩ := segment
    have apart : a ∉ rest := by
      intro again
      obtain ⟨own, ownFound, first | ⟨b, within, earlier⟩⟩ := more.points_back again
      · rw [found] at ownFound
        cases ownFound
        exact outside a (back.symm.trans first) List.mem_cons_self
      · rw [found] at ownFound
        cases ownFound
        exact outside b (back.symm.trans earlier) (List.mem_cons_of_mem _ within)
    refine List.nodup_cons.mpr ⟨apart, ih more ?_⟩
    rintro b same
    cases same
    exact apart

theorem Segment.chain_nodup (chain : Chain links head l) : l.Nodup :=
  chain.nodup fun _ nothing => nomatch nothing

/-- A segment is cut between two of its elements. -/
theorem segment_append : Segment links prev head (front ++ back) after
    ↔ ∃ between, Segment links prev head front between
      ∧ Segment links (front.getLast?.or prev) between back after := by
  induction front generalizing prev head with
  | nil =>
    constructor
    · intro segment
      exact ⟨head, rfl, segment⟩
    · rintro ⟨between, rfl, segment⟩
      exact segment
  | cons a rest ih =>
    have last : ((a :: rest).getLast?.or prev) = rest.getLast?.or (some a) := by
      rw [List.getLast?_cons]
      cases rest.getLast? <;> rfl
    rw [last]
    constructor
    · rintro ⟨first, link, found, behind, more⟩
      obtain ⟨between, segment, later⟩ := ih.mp more
      exact ⟨between, ⟨first, link, found, behind, segment⟩, later⟩
    · rintro ⟨between, ⟨first, link, found, behind, segment⟩, later⟩
      exact ⟨first, link, found, behind, ih.mpr ⟨between, segment, later⟩⟩

end Segments

/-! ## Writing pointers -/

variable [DecidableEq α]

/-- Write the pointer back of an element, if there is one. -/
def setPrev (links : Links α) (a? : Option α) (prev : Option α) : Option (Links α) :=
  match a? with
  | none => some links
  | some a => (links a).map fun link => update links a (some { link with prev })

/-- Write the pointer forward of an element, if there is one. -/
def setNext (links : Links α) (a? : Option α) (next : Option α) : Option (Links α) :=
  match a? with
  | none => some links
  | some a => (links a).map fun link => update links a (some { link with next })

/-- Put an element in front of a list. -/
def pushFront (links : Links α) (head : Option α) (a : α) : Option (Links α × Option α) := do
  let _ ← links a
  let links ← setPrev (update links a (some ⟨head, none⟩)) head (some a)
  return (links, some a)

/-- Take an element out of a list. -/
def unlink (links : Links α) (head : Option α) (a : α) : Option (Links α × Option α) := do
  let link ← links a
  let links ← setPrev links link.next link.prev
  let link ← links a
  let links ← setNext links link.prev link.next
  return (links, if link.prev.isSome then head else link.next)

/-- There are the same elements as before. -/
def SameElements (links links' : Links α) : Prop := ∀ a, (links' a).isSome = (links a).isSome

section Writing

variable {links : Links α} {prev head after : Option α} {a : α} {l : List α}

/-- The first element of a list is made to point back elsewhere. -/
theorem setPrev_segment (segment : Segment links prev head l none) (distinct : l.Nodup)
    (other : Option α) :
    ∃ links', setPrev links head other = some links' ∧ Segment links' other head l none
      ∧ (∀ b, some b ≠ head → links' b = links b) ∧ SameElements links links' := by
  cases l with
  | nil =>
    cases segment
    exact ⟨links, rfl, rfl, fun _ _ => rfl, fun _ => rfl⟩
  | cons a rest =>
    obtain ⟨rfl, link, found, -, more⟩ := segment
    have apart : ∀ b ∈ rest, b ≠ a := fun b member same =>
      (List.nodup_cons.mp distinct).1 (same ▸ member)
    refine ⟨update links a (some { link with prev := other }), ?_, ?_, ?_, ?_⟩
    · rw [setPrev, found]
      rfl
    · refine ⟨rfl, _, update_self .., rfl, ?_⟩
      exact more.congr fun b member => update_of_ne (apart b member) ..
    · intro b different
      exact update_of_ne (fun same => different (congrArg some same)) ..
    · intro b
      by_cases same : b = a
      · subst same
        rw [update_self, found]
        rfl
      · rw [update_of_ne same]

/-- The last element of a segment is made to point forward elsewhere. -/
theorem setNext_segment {front : List α} (segment : Segment links prev head (front ++ [a]) after)
    (distinct : (front ++ [a]).Nodup) (other : Option α) :
    ∃ links', setNext links (some a) other = some links'
      ∧ Segment links' prev head (front ++ [a]) other
      ∧ (∀ b, b ≠ a → links' b = links b) ∧ SameElements links links' := by
  obtain ⟨between, before, rfl, link, found, back, -⟩ := segment_append.mp segment
  have apart : ∀ b ∈ front, b ≠ a := fun b member same =>
    (List.disjoint_of_nodup_append distinct) member (same ▸ List.mem_singleton_self b)
  refine ⟨update links a (some { link with next := other }), ?_, ?_, ?_, ?_⟩
  · rw [setNext, found]
    rfl
  · refine segment_append.mpr ⟨some a, ?_, rfl, _, update_self .., back, rfl⟩
    exact before.congr fun b member => update_of_ne (apart b member) ..
  · intro b different
    exact update_of_ne different ..
  · intro b
    by_cases same : b = a
    · subst same
      rw [update_self, found]
      rfl
    · rw [update_of_ne same]

/-- What is put in front of a list is its first element. Besides it, only the element
that was first is written. -/
theorem pushFront_chain (chain : Chain links head l) (fresh : a ∉ l) (alive : (links a).isSome) :
    ∃ links', pushFront links head a = some (links', some a) ∧ Chain links' (some a) (a :: l)
      ∧ (∀ b, b ≠ a → b ∉ l → links' b = links b) ∧ SameElements links links' := by
  obtain ⟨link, found⟩ := Option.isSome_iff_exists.mp alive
  have kept : Segment (update links a (some ⟨head, none⟩)) none head l none :=
    Segment.congr (fun b member =>
      update_of_ne (fun same : b = a => fresh (same ▸ member)) ..) chain
  obtain ⟨links', written, behind, others, elements⟩ :=
    setPrev_segment kept chain.chain_nodup (some a)
  have notFirst : some a ≠ head := by
    cases l with
    | nil =>
      cases chain
      exact fun same => nomatch same
    | cons b rest =>
      rw [chain.1]
      exact fun same => fresh (Option.some.inj same ▸ List.mem_cons_self)
  have own : links' a = some ⟨head, none⟩ := (others a notFirst).trans (update_self ..)
  refine ⟨links', ?_, ⟨rfl, _, own, rfl, behind⟩, ?_, ?_⟩
  · rw [pushFront, found]
    simp [written]
  · intro b different outside
    have apart : some b ≠ head := by
      cases l with
      | nil =>
        cases chain
        exact fun same => nomatch same
      | cons c rest =>
        rw [chain.1]
        exact fun same => outside (Option.some.inj same ▸ List.mem_cons_self)
    rw [others b apart, update_of_ne different]
  · intro b
    rw [elements b]
    by_cases same : b = a
    · subst same
      rw [update_self, found]
      rfl
    · rw [update_of_ne same]

/-- The two writes of taking an element out. -/
theorem unlink_eq {links₁ links₂ : Links α} {link : Link α} (found : links a = some link)
    (back : setPrev links link.next link.prev = some links₁) (own : links₁ a = some link)
    (forward : setNext links₁ link.prev link.next = some links₂) :
    unlink links head a = some (links₂, if link.prev.isSome then head else link.next) := by
  simp [unlink, found, back, own, forward]

/-- What is taken out of a list leaves the others in their order. Besides them, nothing
is written. -/
theorem unlink_chain {front back : List α} (chain : Chain links head (front ++ a :: back)) :
    ∃ links' head', unlink links head a = some (links', head') ∧ Chain links' head' (front ++ back)
      ∧ (∀ b, b ∉ front ++ a :: back → links' b = links b) ∧ SameElements links links'
      ∧ (front = [] → ∀ link, links a = some link → head' = link.next) := by
  have distinct := chain.chain_nodup
  have tail := (List.nodup_cons.mp distinct.of_append_right)
  obtain ⟨between, before, rfl, link, found, behind, more⟩ := segment_append.mp chain
  obtain ⟨links₁, written₁, rest₁, others₁, elements₁⟩ :=
    setPrev_segment more tail.2 link.prev
  have outside : ∀ b, b ∉ back → links₁ b = links b := by
    intro b apart
    apply others₁
    cases back with
    | nil =>
      have last : link.next = none := more
      rw [last]
      exact fun same => nomatch same
    | cons c rest =>
      rw [more.1]
      exact fun same => apart (Option.some.inj same ▸ List.mem_cons_self)
  have own : links₁ a = some link := (outside a tail.1).trans found
  have before₁ : Segment links₁ none head front (some a) :=
    before.congr fun b member => outside b fun within =>
      List.disjoint_of_nodup_append distinct member (List.mem_cons_of_mem _ within)
  rcases List.eq_nil_or_concat front with rfl | ⟨earlier, q, rfl⟩
  · have first : link.prev = none := behind
    rw [first] at rest₁
    refine ⟨links₁, link.next, ?_, rest₁, ?_, elements₁, ?_⟩
    · rw [unlink_eq found written₁ own (by rw [first]; rfl), first]
      rfl
    · intro b apart
      exact outside b fun within => apart (List.mem_cons_of_mem _ within)
    · intro _ other otherFound
      rw [found] at otherFound
      cases otherFound
      rfl
  · rw [List.concat_eq_append] at *
    have prev : link.prev = some q := by
      rw [behind, List.getLast?_append_of_ne_nil _ (List.cons_ne_nil _ _)]
      rfl
    obtain ⟨links₂, written₂, segment₂, others₂, elements₂⟩ :=
      setNext_segment before₁ distinct.of_append_left link.next
    have apart : q ∉ back := fun within =>
      List.disjoint_of_nodup_append distinct (List.mem_append_right _ (List.mem_singleton_self q))
        (List.mem_cons_of_mem _ within)
    refine ⟨links₂, head, ?_, ?_, ?_, ?_, ?_⟩
    · rw [unlink_eq found written₁ own (by rw [prev]; exact written₂), prev]
      rfl
    · refine segment_append.mpr ⟨link.next, segment₂, ?_⟩
      rw [← behind]
      exact rest₁.congr fun b member => others₂ b fun same => apart (same ▸ member)
    · intro b out
      have different : b ≠ q := by
        rintro rfl
        exact out (List.mem_append_left _ (List.mem_append_right _ (List.mem_singleton_self b)))
      rw [others₂ b different]
      exact outside b fun within => out (List.mem_append_right _ (List.mem_cons_of_mem _ within))
    · exact fun b => (elements₂ b).trans (elements₁ b)
    · intro nothing
      exact absurd nothing (List.append_ne_nil_of_right_ne_nil _ (List.cons_ne_nil _ _))

end Writing

/-! ## Many lists -/

/-- Every element is on the list of its place and on no other, and the lists are proper. -/
structure Filed (links : Links α) (heads : ι → Option α) (place : α → Option ι)
    (lists : ι → List α) : Prop where
  chain : ∀ i, Chain links (heads i) (lists i)
  member : ∀ i a, a ∈ lists i ↔ place a = some i

namespace Filed

variable {links links' : Links α} {heads : ι → Option α}
  {place : α → Option ι} {lists : ι → List α} {a : α} {i : ι}

omit [DecidableEq α] in
/-- The pointers of what is on no list do not matter. -/
theorem congr (filed : Filed links heads place lists)
    (same : ∀ b, place b ≠ none → links' b = links b) : Filed links' heads place lists where
  chain j := (filed.chain j).congr fun b member =>
    same b (by rw [(filed.member j b).mp member]; exact Option.some_ne_none j)
  member := filed.member

theorem congr_update (filed : Filed links heads place lists) (unplaced : place a = none)
    (link : Option (Link α)) : Filed (update links a link) heads place lists :=
  filed.congr fun b placed =>
    update_of_ne (fun same : b = a => placed (same ▸ unplaced)) ..

variable [DecidableEq ι]

/-- An element that is on no list is put in front of one. -/
theorem push (filed : Filed links heads place lists) (i : ι) (unplaced : place a = none)
    (alive : (links a).isSome) :
    ∃ links', pushFront links (heads i) a = some (links', some a)
      ∧ Filed links' (update heads i (some a)) (update place a (some i))
          (update lists i (a :: lists i))
      ∧ SameElements links links' ∧ ∀ b, b ≠ a → place b = none → links' b = links b := by
  have outside : ∀ j b, place b = none → b ∉ lists j := fun j b nowhere member => by
    rw [(filed.member j b).mp member] at nowhere
    cases nowhere
  obtain ⟨links', pushed, chain, others, elements⟩ :=
    pushFront_chain (filed.chain i) (outside i a unplaced) alive
  refine ⟨links', pushed, ⟨fun j => ?_, fun j b => ?_⟩, elements,
    fun b different nowhere => others b different (outside i b nowhere)⟩
  · by_cases here : j = i
    · subst here
      rw [update_self, update_self]
      exact chain
    · rw [update_of_ne here, update_of_ne here]
      refine (filed.chain j).congr fun b member => others b ?_ fun within => here ?_
      · rintro rfl
        exact outside j b unplaced member
      · have first := (filed.member i b).mp within
        rw [(filed.member j b).mp member] at first
        exact Option.some.inj first
  · by_cases own : b = a
    · subst own
      rw [update_self]
      by_cases here : j = i
      · subst here
        rw [update_self]
        exact iff_of_true List.mem_cons_self rfl
      · rw [update_of_ne here]
        exact iff_of_false (outside j b unplaced) fun same => here (Option.some.inj same).symm
    · rw [update_of_ne own, ← filed.member j b]
      by_cases here : j = i
      · subst here
        rw [update_self, List.mem_cons]
        exact or_iff_right own
      · rw [update_of_ne here]

/-- An element is taken out of the list it is on. -/
theorem remove (filed : Filed links heads place lists) (placed : place a = some i) :
    ∃ links' head', unlink links (heads i) a = some (links', head')
      ∧ Filed links' (update heads i head') (update place a none)
          (update lists i ((lists i).erase a))
      ∧ SameElements links links' ∧ (∀ b, place b = none → links' b = links b)
      ∧ (heads i = some a → ∀ link, links a = some link → head' = link.next) := by
  have member := (filed.member i a).mpr placed
  obtain ⟨front, back, whole⟩ := List.append_of_mem member
  have chain := filed.chain i
  rw [whole] at chain
  have distinct := chain.chain_nodup
  have apart : a ∉ front := fun within =>
    List.disjoint_of_nodup_append distinct within List.mem_cons_self
  have erased : (lists i).erase a = front ++ back := by
    rw [whole, List.erase_append_right _ apart, List.erase_cons_head]
  obtain ⟨links', head', taken, shorter, others, elements, first⟩ := unlink_chain chain
  rw [← whole] at others
  refine ⟨links', head', taken, ⟨fun j => ?_, fun j b => ?_⟩, elements, fun b nowhere => ?_, ?_⟩
  · by_cases here : j = i
    · subst here
      rw [update_self, update_self, erased]
      exact shorter
    · rw [update_of_ne here, update_of_ne here]
      refine (filed.chain j).congr fun b within => others b fun also => here ?_
      have one := (filed.member i b).mp also
      rw [(filed.member j b).mp within] at one
      exact Option.some.inj one
  · by_cases own : b = a
    · subst own
      rw [update_self]
      refine iff_of_false ?_ (fun nothing => nomatch nothing)
      by_cases here : j = i
      · subst here
        rw [update_self, erased, List.mem_append, not_or]
        exact ⟨apart, (List.nodup_cons.mp distinct.of_append_right).1⟩
      · rw [update_of_ne here, filed.member, placed]
        exact fun same => here (Option.some.inj same).symm
    · rw [update_of_ne own, ← filed.member j b]
      by_cases here : j = i
      · subst here
        rw [update_self]
        exact List.mem_erase_of_ne own
      · rw [update_of_ne here]
  · apply others b
    rw [filed.member, nowhere]
    exact fun nothing => nomatch nothing
  · intro head
    refine first ?_
    cases front with
    | nil => rfl
    | cons b rest =>
      have other : heads i = some b := chain.1
      rw [head] at other
      cases other
      exact absurd List.mem_cons_self apart

omit [DecidableEq α] in
/-- A whole list is detached: its elements are on no list, and can be followed forward. -/
theorem detach (filed : Filed links heads place lists) (i : ι) :
    Forward links (heads i) (lists i)
      ∧ Filed links (update heads i none)
          (fun a => if place a = some i then none else place a) (update lists i []) := by
  refine ⟨(filed.chain i).forward, fun j => ?_, fun j b => ?_⟩
  · by_cases here : j = i
    · subst here
      rw [update_self, update_self]
      rfl
    · rw [update_of_ne here, update_of_ne here]
      exact filed.chain j
  · by_cases here : j = i
    · subst here
      rw [update_self]
      refine iff_of_false List.not_mem_nil ?_
      split
      · exact fun nothing => nomatch nothing
      · assumption
    · rw [update_of_ne here, filed.member]
      split
      · rename_i there
        rw [there]
        exact iff_of_false (fun same => here (Option.some.inj same).symm)
          (fun nothing => nomatch nothing)
      · exact Iff.rfl

end Filed

end Bgpd.IntrusiveLists
