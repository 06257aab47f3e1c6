import Bgpd.AdjOut
import Bgpd.Rosters

/-!
# The book behind the pointers

The book of a state has, for every neighbour and node, the entry there is, the attributes
it keeps and what is pending for it. A state is kept by a book when its lists are the
rosters of the book and its pointers lead to what the book says. Every operation on the
pointers changes the book at one place.
-/

namespace Bgpd.AdjOut

open Attributes Rosters
open Function (update_apply update_idem update_of_ne update_self)

/-- A neighbour and a node. -/
abbrev Slot := Nat × Node

/-- The neighbour, and the family of the node. -/
def outOf (k : Slot) : Out := ⟨k.1, k.2.family⟩

/-- What is pending: an announcement in a group of one attribute set, or a withdrawal. -/
structure Pending where
  adv : Nat
  group : Option (Nat × Attr)
  binfo : Option Binfo

/-- The entry of a neighbour and a node, what was sent, and what is pending. -/
structure Book where
  adj : Slot → Option Nat
  attr : Slot → Option Attr
  pend : Slot → Option Pending

/-- The book with another entry, other attributes sent, or other things pending at a place. -/
def Book.setAdj (bk : Book) (k : Slot) (adj : Option Nat) : Book :=
  { bk with adj := Function.update bk.adj k adj }

def Book.setAttr (bk : Book) (k : Slot) (attr : Option Attr) : Book :=
  { bk with attr := Function.update bk.attr k attr }

def Book.setPend (bk : Book) (k : Slot) (pend : Option Pending) : Book :=
  { bk with pend := Function.update bk.pend k pend }

/-- An announcement is pending in a group. -/
def Book.In (bk : Book) (k : Slot) (baa : Nat) (attr : Attr) : Prop :=
  ∃ pd, bk.pend k = some pd ∧ pd.group = some (baa, attr)

/-- The entries of the nodes are those of the book. -/
structure Entries (s : State) (bk : Book) : Prop where
  distinct : Distinct bk.adj id
  rosters : ∀ rn, Roster bk.adj id (fun k _ => k.2 = rn) (s.adjOut rn)
  cell : ∀ k i, bk.adj k = some i →
    s.adjs i = some ⟨k.1, bk.attr k, (bk.pend k).map (·.adv)⟩
  fresh : ∀ k i, bk.adj k = some i → i < s.next
  sent : ∀ k, bk.adj k = none → bk.attr k = none

/-- The queues are those of the book. -/
structure Queues (s : State) (bk : Book) : Prop where
  distinct : Distinct bk.pend Pending.adv
  update : ∀ out, Roster bk.pend Pending.adv (fun k pd => outOf k = out ∧ pd.group.isSome)
    (s.update out)
  withdraw : ∀ out, Roster bk.pend Pending.adv (fun k pd => outOf k = out ∧ pd.group = none)
    (s.withdraw out)
  cell : ∀ k pd, bk.pend k = some pd →
    ∃ i, bk.adj k = some i ∧ s.advs pd.adv = some ⟨k.2, i, pd.group.map (·.1), pd.binfo⟩
  fresh : ∀ k pd, bk.pend k = some pd → pd.adv < s.next

/-- The groups are those of the book: each has the announcements of one neighbour and one
family, and one attribute set that no other group of the two has. -/
structure Groups (s : State) (bk : Book) : Prop where
  nodup : ∀ out, (s.hash out).Nodup
  mem : ∀ out baa, baa ∈ s.hash out ↔ ∃ k attr, bk.In k baa attr ∧ outOf k = out
  cell : ∀ k baa attr, bk.In k baa attr → ∃ l, s.baas baa = some ⟨l, l.length, some attr⟩
    ∧ Roster bk.pend Pending.adv (fun _ pd => pd.group.map (·.1) = some baa) l
  own : ∀ k k' baa attr attr', bk.In k baa attr → bk.In k' baa attr' → outOf k = outOf k'
  apart : ∀ k k' baa baa' attr attr', bk.In k baa attr → bk.In k' baa' attr' →
    outOf k = outOf k' → Rib.attrhashCmp attr attr' → baa = baa'
  fresh : ∀ k baa attr, bk.In k baa attr → baa < s.next
  clear : ∀ a, s.next ≤ a → s.baas a = none

/-- What was sent is counted. -/
def Counts (s : State) (bk : Book) : Prop :=
  ∀ out, ∃ slots : Finset Slot, (∀ k, k ∈ slots ↔ outOf k = out ∧ (bk.attr k).isSome)
    ∧ s.scount out = slots.card

/-- The book keeps the state. -/
structure Keeps (s : State) (bk : Book) : Prop where
  entries : Entries s bk
  queues : Queues s bk
  groups : Groups s bk
  counts : Counts s bk

/-- The book of the beginning. -/
def Book.empty : Book := ⟨fun _ => none, fun _ => none, fun _ => none⟩

theorem keeps_start : Keeps State.start Book.empty where
  entries :=
    { distinct := Distinct.empty
      rosters := fun _ => Roster.empty
      cell := fun _ _ here => nomatch here
      fresh := fun _ _ here => nomatch here
      sent := fun _ _ => rfl }
  queues :=
    { distinct := Distinct.empty
      update := fun _ => Roster.empty
      withdraw := fun _ => Roster.empty
      cell := fun _ _ here => nomatch here
      fresh := fun _ _ here => nomatch here }
  groups :=
    { nodup := fun _ => List.nodup_nil
      mem := fun _ _ => iff_of_false List.not_mem_nil fun ⟨_, _, ⟨_, here, _⟩, _⟩ => nomatch here
      cell := fun _ _ _ ⟨_, here, _⟩ => nomatch here
      own := fun _ _ _ _ _ ⟨_, here, _⟩ => nomatch here
      apart := fun _ _ _ _ _ _ ⟨_, here, _⟩ => nomatch here
      fresh := fun _ _ _ ⟨_, here, _⟩ => nomatch here
      clear := fun _ _ => rfl }
  counts _ := by
    refine ⟨∅, fun k => iff_of_false (Finset.notMem_empty k) ?_, rfl⟩
    rintro ⟨-, nothing⟩
    cases nothing

section Parts

variable {s s' : State} {bk bk' : Book} {k : Slot} {i : Nat}

/-! ## Entries -/

/-- The entry of a neighbour is found where the book has it. -/
theorem Entries.lookup (entries : Entries s bk) (peer : Nat) (rn : Node) :
    s.lookup peer (s.adjOut rn) = some (bk.adj (peer, rn)) := by
  have along : ∀ l : List Nat, (∀ i ∈ l, ∃ k, bk.adj k = some i ∧ k.2 = rn) →
      ∃ found, s.lookup peer l = some found ∧ (∀ i, found = some i → bk.adj (peer, rn) = some i)
        ∧ (found = none → ∀ i ∈ l, bk.adj (peer, rn) ≠ some i) := by
    intro l
    induction l with
    | nil => exact fun _ => ⟨none, rfl, fun _ nothing => (nomatch nothing),
        fun _ _ member => nomatch member⟩
    | cons i rest ih =>
      intro listed
      obtain ⟨⟨other, _⟩, here, rfl⟩ := listed i List.mem_cons_self
      have cell := entries.cell _ _ here
      by_cases own : other = peer
      · subst own
        refine ⟨some i, ?_, fun j same => Option.some.inj same ▸ here,
          fun nothing => nomatch nothing⟩
        rw [State.lookup, cell]
        exact if_pos rfl
      · obtain ⟨found, looked, positive, negative⟩ :=
          ih fun j member => listed j (List.mem_cons_of_mem _ member)
        refine ⟨found, ?_, positive, fun nothing j member => ?_⟩
        · rw [State.lookup, cell]
          exact (if_neg own).trans looked
        · rcases List.mem_cons.mp member with rfl | later
          · exact fun also => own (congrArg Prod.fst (entries.distinct here also rfl))
          · exact negative nothing j later
  obtain ⟨found, looked, positive, negative⟩ := along (s.adjOut rn) fun i member => by
    obtain ⟨k, a, here, node, rfl⟩ := ((entries.rosters rn).mem i).mp member
    exact ⟨k, here, node⟩
  rw [looked]
  congr 1
  cases found with
  | some i => exact (positive i rfl).symm
  | none =>
    cases there : bk.adj (peer, rn) with
    | none => rfl
    | some i => exact absurd there (negative rfl i ((entries.rosters rn).listed there rfl))

/-- A new entry. -/
theorem Entries.add (entries : Entries s bk) (vacant : bk.adj k = none)
    (nothing : bk.pend k = none) :
    Entries (s.bgpAdjOutAdd k.2 k.1) (bk.setAdj k (some s.next)) where
  distinct := entries.distinct.put fun k' i here => (entries.fresh k' i here).ne
  rosters rn := by
    dsimp only [State.bgpAdjOutAdd]
    have unused : ∀ k' i, bk.adj k' = some i → id i ≠ id s.next := fun k' i here =>
      (entries.fresh k' i here).ne
    by_cases own : rn = k.2
    · subst own
      rw [update_self]
      exact (entries.rosters k.2).put vacant rfl unused (List.Perm.refl _)
    · rw [update_of_ne own]
      exact (entries.rosters rn).put_other vacant fun same => own same.symm
  cell k' i here := by
    dsimp only [State.bgpAdjOutAdd, Book.setAdj] at here ⊢
    by_cases own : k' = k
    · subst own
      rw [update_self] at here
      cases here
      rw [update_self, entries.sent k' vacant, nothing]
      rfl
    · rw [update_of_ne own] at here
      rw [update_of_ne (entries.fresh k' i here).ne]
      exact entries.cell k' i here
  fresh k' i here := by
    dsimp only [State.bgpAdjOutAdd, Book.setAdj] at here ⊢
    rw [update_apply] at here
    split at here
    · cases here
      exact Nat.lt_succ_self _
    · exact Nat.lt_succ_of_lt (entries.fresh k' i here)
  sent k' here := by
    dsimp only [Book.setAdj] at here ⊢
    rw [update_apply] at here
    split at here
    · cases here
    · exact entries.sent k' here

/-- An entry goes. -/
theorem Entries.del (entries : Entries s bk) (here : bk.adj k = some i)
    (unsent : bk.attr k = none) :
    Entries (s.bgpAdjOutDel k.2 i) (bk.setAdj k none) where
  distinct := entries.distinct.drop k
  rosters rn := by
    dsimp only [State.bgpAdjOutDel]
    have dropped := (entries.rosters rn).drop entries.distinct here
    by_cases own : rn = k.2
    · subst own
      rw [update_self]
      exact dropped
    · rw [update_of_ne own]
      have elsewhere : i ∉ s.adjOut rn := by
        intro member
        obtain ⟨k', i', there, node, rfl⟩ := ((entries.rosters rn).mem i).mp member
        exact own (node.symm.trans (congrArg Prod.snd (entries.distinct there here rfl)))
      rw [id_eq, List.erase_of_not_mem elsewhere] at dropped
      exact dropped
  cell k' j there := by
    dsimp only [State.bgpAdjOutDel, Book.setAdj] at there ⊢
    rw [update_apply] at there
    split at there
    · cases there
    · rename_i apart
      have other : j ≠ i := by
        rintro rfl
        exact apart (entries.distinct there here rfl)
      rw [update_of_ne other]
      exact entries.cell k' j there
  fresh k' j there := by
    dsimp only [Book.setAdj] at there
    rw [update_apply] at there
    split at there
    · cases there
    · exact entries.fresh k' j there
  sent k' there := by
    dsimp only [Book.setAdj] at there ⊢
    rw [update_apply] at there
    split at there
    · rename_i same
      exact same ▸ unsent
    · exact entries.sent k' there

/-- An entry is written, and the book says so. -/
theorem Entries.write (entries : Entries s bk) (here : bk.adj k = some i)
    (adj : bk'.adj = bk.adj) (attr : ∀ k', k' ≠ k → bk'.attr k' = bk.attr k')
    (pend : ∀ k', k' ≠ k → bk'.pend k' = bk.pend k') (adjOut : s'.adjOut = s.adjOut)
    (adjs : s'.adjs = Function.update s.adjs i
      (some ⟨k.1, bk'.attr k, (bk'.pend k).map (·.adv)⟩))
    (next : s.next ≤ s'.next) : Entries s' bk' where
  distinct := adj ▸ entries.distinct
  rosters rn := by
    rw [adj, adjOut]
    exact entries.rosters rn
  cell k' j there := by
    rw [adj] at there
    rw [adjs]
    by_cases own : k' = k
    · subst own
      rw [here] at there
      cases there
      exact update_self ..
    · have other : j ≠ i := by
        rintro rfl
        exact own (entries.distinct there here rfl)
      rw [update_of_ne other, attr k' own, pend k' own]
      exact entries.cell k' j there
  fresh k' j there := (entries.fresh k' j (adj ▸ there)).trans_le next
  sent k' there := by
    rw [adj] at there
    have apart : k' ≠ k := by
      rintro rfl
      rw [here] at there
      cases there
    rw [attr k' apart]
    exact entries.sent k' there

/-- Only the entries matter. -/
theorem Entries.congr (entries : Entries s bk) (adjOut : s'.adjOut = s.adjOut)
    (adjs : s'.adjs = s.adjs) (next : s.next ≤ s'.next) : Entries s' bk where
  distinct := entries.distinct
  rosters rn := adjOut ▸ entries.rosters rn
  cell k' j there := adjs ▸ entries.cell k' j there
  fresh k' j there := (entries.fresh k' j there).trans_le next
  sent := entries.sent

/-! ## Queues -/

/-- Only what is pending matters, and where its entries are. -/
theorem Queues.congr (queues : Queues s bk) (update : s'.update = s.update)
    (withdraw : s'.withdraw = s.withdraw) (advs : s'.advs = s.advs) (next : s.next ≤ s'.next)
    (pend : bk'.pend = bk.pend) (adj : ∀ k', bk.pend k' ≠ none → bk'.adj k' = bk.adj k') :
    Queues s' bk' where
  distinct := pend ▸ queues.distinct
  update out := by
    rw [update, pend]
    exact queues.update out
  withdraw out := by
    rw [withdraw, pend]
    exact queues.withdraw out
  cell k' pd here := by
    rw [pend] at here
    obtain ⟨j, entry, cell⟩ := queues.cell k' pd here
    refine ⟨j, (adj k' ?_).trans entry, advs ▸ cell⟩
    rw [here]
    exact Option.some_ne_none pd
  fresh k' pd here := (queues.fresh k' pd (pend ▸ here)).trans_le next

variable {pd : Pending}

/-- What is pending leaves its queue. -/
theorem Queues.drop (queues : Queues s bk) (here : bk.pend k = some pd)
    (update : s'.update = fun out => (s.update out).erase pd.adv)
    (withdraw : s'.withdraw = fun out => (s.withdraw out).erase pd.adv)
    (advs : s'.advs = Function.update s.advs pd.adv none) (next : s.next ≤ s'.next) :
    Queues s' (bk.setPend k none) where
  distinct := queues.distinct.drop k
  update out := by
    rw [update]
    exact (queues.update out).drop queues.distinct here
  withdraw out := by
    rw [withdraw]
    exact (queues.withdraw out).drop queues.distinct here
  cell k' pd' there := by
    dsimp only [Book.setPend] at there ⊢
    rw [update_apply] at there
    split at there
    · cases there
    · rename_i apart
      have other : pd'.adv ≠ pd.adv := fun same => apart (queues.distinct there here same)
      rw [advs, update_of_ne other]
      exact queues.cell k' pd' there
  fresh k' pd' there := by
    dsimp only [Book.setPend] at there
    rw [update_apply] at there
    split at there
    · cases there
    · exact (queues.fresh k' pd' there).trans_le next

/-- A list with one more at its end. -/
theorem append_perm {α : Type} (l : List α) (a : α) : (l ++ [a]).Perm (a :: l) :=
  List.perm_append_comm

/-- What is pending comes to the end of a queue. -/
theorem Queues.put (queues : Queues s bk) (vacant : bk.pend k = none) (here : bk.adj k = some i)
    (new : s.next ≤ pd.adv) (update : s'.update = if pd.group.isSome
      then Function.update s.update (outOf k) (s.update (outOf k) ++ [pd.adv]) else s.update)
    (withdraw : s'.withdraw = if pd.group.isSome then s.withdraw
      else Function.update s.withdraw (outOf k) (s.withdraw (outOf k) ++ [pd.adv]))
    (advs : s'.advs = Function.update s.advs pd.adv
      (some ⟨k.2, i, pd.group.map (·.1), pd.binfo⟩)) (next : pd.adv < s'.next) :
    Queues s' (bk.setPend k (some pd)) := by
  have unused : ∀ k' pd', bk.pend k' = some pd' → pd'.adv ≠ pd.adv := by
    intro k' pd' there
    exact ((queues.fresh k' pd' there).trans_le new).ne
  refine ⟨queues.distinct.put unused, fun out => ?_, fun out => ?_, fun k' pd' there => ?_,
    fun k' pd' there => ?_⟩
  · rw [update]
    split
    · rename_i announced
      by_cases own : out = outOf k
      · subst own
        rw [update_self]
        exact (queues.update _).put vacant ⟨rfl, announced⟩ unused (append_perm _ _)
      · rw [update_of_ne own]
        exact (queues.update out).put_other vacant fun also => own also.1.symm
    · rename_i withdrawn
      exact (queues.update out).put_other vacant fun also => withdrawn also.2
  · rw [withdraw]
    split
    · rename_i announced
      refine (queues.withdraw out).put_other vacant fun also => ?_
      rw [also.2] at announced
      cases announced
    · rename_i withdrawn
      by_cases own : out = outOf k
      · subst own
        rw [update_self]
        exact (queues.withdraw _).put vacant ⟨rfl, Option.not_isSome_iff_eq_none.mp withdrawn⟩
          unused (append_perm _ _)
      · rw [update_of_ne own]
        exact (queues.withdraw out).put_other vacant fun also => own also.1.symm
  · dsimp only [Book.setPend] at there ⊢
    rw [advs]
    by_cases own : k' = k
    · subst own
      rw [update_self] at there
      cases there
      exact ⟨i, here, update_self ..⟩
    · rw [update_of_ne own] at there
      rw [update_of_ne (unused k' pd' there)]
      exact queues.cell k' pd' there
  · dsimp only [Book.setPend] at there
    rw [update_apply] at there
    split at there
    · cases there
      exact next
    · exact (queues.fresh k' pd' there).trans (new.trans_lt next)

/-! ## Groups -/

/-- Only what is pending matters. -/
theorem Groups.congr (groups : Groups s bk) (hash : s'.hash = s.hash) (baas : s'.baas = s.baas)
    (next : s.next ≤ s'.next) (pend : bk'.pend = bk.pend) : Groups s' bk' := by
  have inside : bk'.In = bk.In := by
    unfold Book.In
    rw [pend]
  refine ⟨?_, ?_, ?_, ?_, ?_, fun k' baa attr here => ?_,
    fun a above => baas ▸ groups.clear a (next.trans above)⟩
  · rw [hash]
    exact groups.nodup
  · rw [hash, inside]
    exact groups.mem
  · rw [baas, inside, pend]
    exact groups.cell
  · rw [inside]
    exact groups.own
  · rw [inside]
    exact groups.apart
  · rw [inside] at here
    exact (groups.fresh k' baa attr here).trans_le next

variable {baa : Nat} {attr : Attr}
variable {k' : Slot}

/-- A group has one attribute set. -/
theorem Groups.same (groups : Groups s bk) {attr' : Attr} (here : bk.In k baa attr)
    (there : bk.In k' baa attr') : attr = attr' := by
  obtain ⟨l, cell, -⟩ := groups.cell k baa attr here
  obtain ⟨l', cell', -⟩ := groups.cell k' baa attr' there
  rw [cell] at cell'
  cases cell'
  rfl

theorem Book.in_drop (bk : Book) (k k' : Slot) (baa : Nat) (attr : Attr) :
    (bk.setPend k none).In k' baa attr ↔ k' ≠ k ∧ bk.In k' baa attr := by
  unfold Book.In Book.setPend
  dsimp only
  by_cases own : k' = k
  · subst own
    rw [update_self]
    exact iff_of_false (fun ⟨_, nothing, _⟩ => nomatch nothing) fun apart => apart.1 rfl
  · rw [update_of_ne own]
    exact (and_iff_right own).symm

theorem Book.in_put (bk : Book) (k k' : Slot) (pd : Pending) (baa : Nat) (attr : Attr) :
    (bk.setPend k (some pd)).In k' baa attr
      ↔ k' = k ∧ pd.group = some (baa, attr) ∨ k' ≠ k ∧ bk.In k' baa attr := by
  unfold Book.In Book.setPend
  dsimp only
  by_cases own : k' = k
  · subst own
    rw [update_self]
    constructor
    · rintro ⟨pd', here, group⟩
      cases here
      exact .inl ⟨rfl, group⟩
    · rintro (⟨-, group⟩ | ⟨apart, -⟩)
      · exact ⟨pd, rfl, group⟩
      · exact absurd rfl apart
  · rw [update_of_ne own]
    exact ⟨fun here => .inr ⟨own, here⟩, fun either =>
      either.elim (fun same => absurd same.1 own) (·.2)⟩

/-- Something pending goes, and every group goes on without it. -/
theorem Groups.drop (groups : Groups s bk) (nodup : ∀ out, (s'.hash out).Nodup)
    (mem : ∀ out baa, baa ∈ s'.hash out ↔
      ∃ k' attr, (k' ≠ k ∧ bk.In k' baa attr) ∧ outOf k' = out)
    (cell : ∀ k' baa attr, k' ≠ k → bk.In k' baa attr →
      ∃ l, s'.baas baa = some ⟨l, l.length, some attr⟩
        ∧ Roster (Function.update bk.pend k none) Pending.adv
          (fun _ pd => pd.group.map (·.1) = some baa) l)
    (next : s.next ≤ s'.next) (clear : ∀ a, s'.next ≤ a → s'.baas a = none) :
    Groups s' (bk.setPend k none) where
  nodup := nodup
  mem out baa := by
    simp only [Book.in_drop]
    exact mem out baa
  cell k' baa attr here := by
    obtain ⟨apart, there⟩ := (bk.in_drop k k' baa attr).mp here
    exact cell k' baa attr apart there
  own k₁ k₂ baa attr attr' first second :=
    groups.own k₁ k₂ baa attr attr' ((bk.in_drop ..).mp first).2 ((bk.in_drop ..).mp second).2
  apart k₁ k₂ baa baa' attr attr' first second :=
    groups.apart k₁ k₂ baa baa' attr attr' ((bk.in_drop ..).mp first).2
      ((bk.in_drop ..).mp second).2
  fresh k' baa attr here := (groups.fresh k' baa attr ((bk.in_drop ..).mp here).2).trans_le next
  clear := clear

/-- A group that what goes is not in stays as it is. -/
theorem Groups.drop_elsewhere (groups : Groups s bk) (distinct : Distinct bk.pend Pending.adv)
    (here : bk.pend k = some pd) (outside : pd.group.map (·.1) ≠ some baa)
    (there : bk.In k' baa attr) :
    ∃ l, s.baas baa = some ⟨l, l.length, some attr⟩
      ∧ Roster (Function.update bk.pend k none) Pending.adv
        (fun _ pd => pd.group.map (·.1) = some baa) l := by
  obtain ⟨l, found, roster⟩ := groups.cell k' baa attr there
  have missing : pd.adv ∉ l := by
    intro listed
    obtain ⟨k₂, pd₂, also, kind, same⟩ := (roster.mem _).mp listed
    obtain rfl := distinct also here same
    rw [here] at also
    cases also
    exact outside kind
  have dropped := roster.drop distinct here
  rw [List.erase_of_not_mem missing] at dropped
  exact ⟨l, found, dropped⟩

/-- A withdrawal that is pending is in no group. -/
theorem Groups.drop_ungrouped (groups : Groups s bk) (distinct : Distinct bk.pend Pending.adv)
    (here : bk.pend k = some pd) (ungrouped : pd.group = none) (hash : s'.hash = s.hash)
    (baas : s'.baas = s.baas) (next : s.next ≤ s'.next) : Groups s' (bk.setPend k none) := by
  refine groups.drop (hash ▸ groups.nodup) (fun out baa => ?_) (fun k' baa attr _ there => ?_) next
    fun a above => baas ▸ groups.clear a (next.trans above)
  · rw [hash, groups.mem]
    constructor
    · rintro ⟨k', attr, ⟨pd', there, group⟩, of⟩
      refine ⟨k', attr, ⟨?_, pd', there, group⟩, of⟩
      rintro rfl
      rw [here] at there
      cases there
      rw [ungrouped] at group
      cases group
    · rintro ⟨k', attr, ⟨-, there⟩, of⟩
      exact ⟨k', attr, there, of⟩
  · rw [baas]
    refine groups.drop_elsewhere distinct here ?_ there
    rw [ungrouped]
    exact fun nothing => nomatch nothing

/-- A withdrawal comes, and joins no group. -/
theorem Groups.put_ungrouped (groups : Groups s bk) (vacant : bk.pend k = none)
    (ungrouped : pd.group = none) (hash : s'.hash = s.hash) (baas : s'.baas = s.baas)
    (next : s.next ≤ s'.next) : Groups s' (bk.setPend k (some pd)) := by
  have inside : ∀ k' baa attr, (bk.setPend k (some pd)).In k' baa attr ↔ bk.In k' baa attr := by
    intro k' baa attr
    rw [Book.in_put]
    constructor
    · rintro (⟨-, group⟩ | ⟨-, here⟩)
      · rw [ungrouped] at group
        cases group
      · exact here
    · intro here
      refine .inr ⟨?_, here⟩
      rintro rfl
      obtain ⟨pd', also, -⟩ := here
      rw [vacant] at also
      cases also
  refine ⟨hash ▸ groups.nodup, fun out baa => ?_, fun k' baa attr here => ?_,
    fun k₁ k₂ baa attr attr' first second => ?_, fun k₁ k₂ baa baa' attr attr' first second => ?_,
    fun k' baa attr here => ?_, fun a above => baas ▸ groups.clear a (next.trans above)⟩
  · simp only [inside, hash]
    exact groups.mem out baa
  · obtain ⟨l, found, roster⟩ := groups.cell k' baa attr ((inside ..).mp here)
    refine ⟨l, (congrFun baas baa).trans found, roster.put_other vacant ?_⟩
    rw [ungrouped]
    exact fun nothing => nomatch nothing
  · exact groups.own k₁ k₂ baa attr attr' ((inside ..).mp first) ((inside ..).mp second)
  · exact groups.apart k₁ k₂ baa baa' attr attr' ((inside ..).mp first) ((inside ..).mp second)
  · exact (groups.fresh k' baa attr ((inside ..).mp here)).trans_le next

section Leaving

variable {pd : Pending} {baa : Nat} {attr : Attr} {l : List Nat}

/-- Who is left on the list of a group. -/
theorem Groups.left (groups : Groups s bk) (here : bk.pend k = some pd)
    (group : pd.group = some (baa, attr))
    (dropped : Roster (Function.update bk.pend k none) Pending.adv
      (fun _ pd => pd.group.map (·.1) = some baa) l) {adv : Nat} (member : adv ∈ l) :
    ∃ k' pd', k' ≠ k ∧ bk.pend k' = some pd' ∧ pd'.adv = adv ∧ pd'.group = some (baa, attr) := by
  obtain ⟨k', pd', there, kind, address⟩ := (dropped.mem adv).mp member
  rw [update_apply] at there
  split at there
  · cases there
  · rename_i apart
    obtain ⟨⟨baa', attr'⟩, group', same⟩ := Option.map_eq_some_iff.mp kind
    obtain rfl : baa' = baa := same
    refine ⟨k', pd', apart, there, address, ?_⟩
    rw [group', groups.same ⟨pd, here, group⟩ ⟨pd', there, group'⟩]

/-- An announcement that is not the last one of its group leaves it. -/
theorem Groups.leave_more (groups : Groups s bk) (distinct : Distinct bk.pend Pending.adv)
    (here : bk.pend k = some pd) (group : pd.group = some (baa, attr))
    (cell : s.baas baa = some ⟨l, l.length, some attr⟩)
    (roster : Roster bk.pend Pending.adv (fun _ pd => pd.group.map (·.1) = some baa) l)
    (more : (l.erase pd.adv).length = l.length - 1) (some_ : l.length - 1 ≠ 0) :
    s.leaveGroup (outOf k) pd.adv (some baa) = some ((l.erase pd.adv).head?, { s with
        baas := Function.update s.baas baa (some ⟨l.erase pd.adv, l.length - 1, some attr⟩) })
      ∧ Groups { s with
          baas := Function.update s.baas baa (some ⟨l.erase pd.adv, l.length - 1, some attr⟩) }
        (bk.setPend k none) := by
  have own : bk.In k baa attr := ⟨pd, here, group⟩
  have dropped := roster.drop distinct here
  refine ⟨?_, groups.drop groups.nodup (fun out baa' => ?_) (fun k' baa' attr' _ there => ?_)
    (Nat.le_refl _) fun a above => ?_⟩
  · simp [State.leaveGroup, State.bgpAdvertiseDelete, State.bgpAdvertiseUnintern, cell, some_]
  · rw [groups.mem]
    constructor
    · rintro ⟨k', attr', there, of⟩
      by_cases same : k' = k
      · subst same
        obtain ⟨pd', also, group'⟩ := there
        rw [here] at also
        cases also
        rw [group] at group'
        cases group'
        have anyone : 0 < (l.erase pd.adv).length := by omega
        obtain ⟨adv, member⟩ := List.exists_mem_of_length_pos anyone
        obtain ⟨k₂, pd₂, apart, there, -, group₂⟩ := groups.left here group dropped member
        have inside : bk.In k₂ baa attr := ⟨pd₂, there, group₂⟩
        exact ⟨k₂, attr, ⟨apart, inside⟩, (groups.own k₂ k' baa attr attr inside own).trans of⟩
      · exact ⟨k', attr', ⟨same, there⟩, of⟩
    · rintro ⟨k', attr', ⟨-, there⟩, of⟩
      exact ⟨k', attr', there, of⟩
  · dsimp only
    by_cases same : baa' = baa
    · subst same
      obtain rfl := groups.same own there
      rw [← more]
      exact ⟨l.erase pd.adv, update_self .., dropped⟩
    · rw [update_of_ne same]
      refine groups.drop_elsewhere distinct here ?_ there
      rw [group]
      exact fun equal => same (Option.some.inj equal).symm
  · exact (update_of_ne ((groups.fresh k baa attr own).trans_le above).ne' ..).trans
      (groups.clear a above)

/-- In the hash of a neighbour and a family, a group is found by its attributes. -/
theorem Groups.found (groups : Groups s bk) (own : bk.In k baa attr) {group : BgpAdvertiseAttr}
    (attributes : group.attr = some attr) {baa' : Nat} (member : baa' ∈ s.hash (outOf k)) :
    State.baaHashCmp { s with baas := Function.update s.baas baa (some group) } attr baa' = true
      ↔ baa' = baa := by
  unfold State.baaHashCmp
  dsimp only
  by_cases same : baa' = baa
  · subst same
    rw [update_self, Option.bind_some, attributes]
    exact iff_of_true (Actions.attrhashCmp_refl attr) rfl
  · obtain ⟨k', attr', there, of⟩ := (groups.mem _ _).mp member
    obtain ⟨l', cell', -⟩ := groups.cell k' baa' attr' there
    rw [update_of_ne same, cell']
    exact iff_of_false (fun equal =>
      same (groups.apart k' k baa' baa attr' attr there own of equal))
      same

/-- The last announcement of a group leaves it, and the group goes. -/
theorem Groups.leave_last (groups : Groups s bk) (distinct : Distinct bk.pend Pending.adv)
    (here : bk.pend k = some pd) (group : pd.group = some (baa, attr))
    (cell : s.baas baa = some ⟨l, l.length, some attr⟩)
    (roster : Roster bk.pend Pending.adv (fun _ pd => pd.group.map (·.1) = some baa) l)
    (empty : l.erase pd.adv = []) (last : l.length - 1 = 0) :
    s.leaveGroup (outOf k) pd.adv (some baa) = some (none, { s with
        hash := Function.update s.hash (outOf k) ((s.hash (outOf k)).erase baa)
        baas := Function.update s.baas baa none })
      ∧ Groups { s with
          hash := Function.update s.hash (outOf k) ((s.hash (outOf k)).erase baa)
          baas := Function.update s.baas baa none } (bk.setPend k none) := by
  have own : bk.In k baa attr := ⟨pd, here, group⟩
  have dropped := roster.drop distinct here
  have alone : ∀ k' attr', bk.In k' baa attr' → k' = k := by
    rintro k' attr' ⟨pd', there, group'⟩
    by_contra apart
    have member : pd'.adv ∈ l.erase pd.adv :=
      dropped.listed ((update_of_ne apart ..).trans there) (by rw [group']; rfl)
    rw [empty] at member
    cases member
  refine ⟨?_, groups.drop (fun out => ?_) (fun out baa' => ?_) (fun k' baa' attr' apart there => ?_)
    (Nat.le_refl _) fun a above => ?_⟩
  · have attributes :
        (BgpAdvertiseAttr.mk (l.erase pd.adv) l.length (some attr)).attr = some attr :=
      rfl
    have only := eraseP_eq_erase fun _ member => groups.found own attributes member
    simp only [State.leaveGroup, State.bgpAdvertiseDelete, State.bgpAdvertiseUnintern, cell,
      Option.bind_eq_bind, Option.bind_some, Option.pure_def, update_self, last, ne_eq,
      not_true_eq_false, if_false, only, update_idem]
    rw [empty]
    rfl
  · dsimp only
    rw [update_apply]
    split
    · exact (groups.nodup _).erase _
    · exact groups.nodup out
  · dsimp only
    by_cases of : out = outOf k
    · subst of
      rw [update_self, (groups.nodup _).mem_erase_iff, groups.mem]
      constructor
      · rintro ⟨other, k', attr', there, of⟩
        refine ⟨k', attr', ⟨?_, there⟩, of⟩
        rintro rfl
        obtain ⟨pd', also, group'⟩ := there
        rw [here] at also
        cases also
        rw [group] at group'
        cases group'
        exact other rfl
      · rintro ⟨k', attr', ⟨apart, there⟩, of⟩
        refine ⟨?_, k', attr', there, of⟩
        rintro rfl
        exact apart (alone k' attr' there)
    · rw [update_of_ne of, groups.mem]
      constructor
      · rintro ⟨k', attr', there, rfl⟩
        refine ⟨k', attr', ⟨?_, there⟩, rfl⟩
        rintro rfl
        exact of rfl
      · rintro ⟨k', attr', ⟨-, there⟩, of'⟩
        exact ⟨k', attr', there, of'⟩
  · have other : baa' ≠ baa := by
      rintro rfl
      exact apart (alone k' attr' there)
    dsimp only
    rw [update_of_ne other]
    refine groups.drop_elsewhere distinct here ?_ there
    rw [group]
    exact fun equal => other (Option.some.inj equal).symm
  · exact (update_of_ne ((groups.fresh k baa attr own).trans_le above).ne' ..).trans
      (groups.clear a above)

/-- An announcement leaves its group, which goes where it was the last one. What is
next in the group is pending in it. -/
theorem Groups.leave (groups : Groups s bk) (distinct : Distinct bk.pend Pending.adv)
    (here : bk.pend k = some pd) (group : pd.group = some (baa, attr)) :
    ∃ next hash baas, s.leaveGroup (outOf k) pd.adv (some baa)
        = some (next, { s with hash, baas })
      ∧ Groups { s with hash, baas } (bk.setPend k none)
      ∧ (∀ adv, next = some adv → ∃ k' pd', k' ≠ k ∧ bk.pend k' = some pd' ∧ pd'.adv = adv
        ∧ pd'.group = some (baa, attr))
      ∧ ∀ a attr', (baas a).bind (·.attr) = some attr' →
        (s.baas a).bind (·.attr) = some attr' := by
  obtain ⟨l, cell, roster⟩ := groups.cell k baa attr ⟨pd, here, group⟩
  have listed : pd.adv ∈ l := roster.listed here (by rw [group]; rfl)
  have length : (l.erase pd.adv).length = l.length - 1 := List.length_erase_of_mem listed
  by_cases last : l.length - 1 = 0
  · have empty : l.erase pd.adv = [] := List.eq_nil_of_length_eq_zero (length.trans last)
    obtain ⟨left, kept⟩ := groups.leave_last distinct here group cell roster empty last
    refine ⟨none, _, _, left, kept, fun adv nothing => (nomatch nothing), fun a attr' there => ?_⟩
    rw [update_apply] at there
    split at there
    · cases there
    · exact there
  · obtain ⟨left, kept⟩ := groups.leave_more distinct here group cell roster length last
    refine ⟨_, s.hash, _, left, kept, fun adv first =>
      groups.left here group (roster.drop distinct here) (List.mem_of_head? first),
      fun a attr' there => ?_⟩
    rw [update_apply] at there
    split at there
    · rename_i same
      rw [same, cell]
      exact there
    · exact there

end Leaving

/-- An announcement joins a group: one of its neighbour and family, or a new one. -/
theorem Groups.join (groups : Groups s bk) (vacant : bk.pend k = none)
    (unused : ∀ k' pd', bk.pend k' = some pd' → pd'.adv ≠ pd.adv) {l : List Nat}
    (group : pd.group = some (baa, attr)) (nodup : ∀ out, (s'.hash out).Nodup)
    (mem : ∀ out baa', baa' ∈ s'.hash out ↔ baa' ∈ s.hash out ∨ baa' = baa ∧ outOf k = out)
    (here : s'.baas baa = some ⟨pd.adv :: l, l.length + 1, some attr⟩)
    (elsewhere : ∀ baa', baa' ≠ baa → s'.baas baa' = s.baas baa')
    (roster : Roster bk.pend Pending.adv (fun _ pd => pd.group.map (·.1) = some baa) l)
    (own : ∀ k' attr', bk.In k' baa attr' → outOf k' = outOf k ∧ attr' = attr)
    (apart : ∀ k' baa' attr', bk.In k' baa' attr' → outOf k' = outOf k →
      Rib.attrhashCmp attr' attr → baa' = baa) (fresh : baa < s'.next) (next : s.next ≤ s'.next) :
    Groups s' (bk.setPend k (some pd)) where
  nodup := nodup
  mem out baa' := by
    simp only [Book.in_put, mem, groups.mem]
    constructor
    · rintro (⟨k', attr', inside, of⟩ | ⟨rfl, of⟩)
      · refine ⟨k', attr', .inr ⟨?_, inside⟩, of⟩
        rintro rfl
        obtain ⟨pd', there, -⟩ := inside
        rw [vacant] at there
        cases there
      · exact ⟨k, attr, .inl ⟨rfl, group⟩, of⟩
    · rintro ⟨k', attr', ⟨rfl, group'⟩ | ⟨-, inside⟩, of⟩
      · rw [group] at group'
        cases group'
        exact .inr ⟨rfl, of⟩
      · exact .inl ⟨k', attr', inside, of⟩
  cell k' baa' attr' inside := by
    have joined : Roster (Function.update bk.pend k (some pd)) Pending.adv
        (fun _ pd => pd.group.map (·.1) = some baa) (pd.adv :: l) :=
      roster.put vacant (by rw [group]; rfl) unused (List.Perm.refl _)
    rcases (bk.in_put ..).mp inside with ⟨-, group'⟩ | ⟨-, inside⟩
    · rw [group] at group'
      cases group'
      exact ⟨pd.adv :: l, here, joined⟩
    · by_cases same : baa' = baa
      · subst same
        rw [(own k' attr' inside).2]
        exact ⟨pd.adv :: l, here, joined⟩
      · obtain ⟨l', found, roster'⟩ := groups.cell k' baa' attr' inside
        refine ⟨l', (elsewhere baa' same).trans found, roster'.put_other vacant ?_⟩
        rw [group]
        exact fun equal => same (Option.some.inj equal).symm
  own k₁ k₂ baa' attr₁ attr₂ first second := by
    rcases (bk.in_put ..).mp first with ⟨rfl, group₁⟩ | ⟨-, inside₁⟩ <;>
      rcases (bk.in_put ..).mp second with ⟨rfl, group₂⟩ | ⟨-, inside₂⟩
    · rfl
    · rw [group] at group₁
      cases group₁
      exact (own k₂ attr₂ inside₂).1.symm
    · rw [group] at group₂
      cases group₂
      exact (own k₁ attr₁ inside₁).1
    · exact groups.own k₁ k₂ baa' attr₁ attr₂ inside₁ inside₂
  apart k₁ k₂ baa₁ baa₂ attr₁ attr₂ first second of equal := by
    rcases (bk.in_put ..).mp first with ⟨rfl, group₁⟩ | ⟨-, inside₁⟩ <;>
      rcases (bk.in_put ..).mp second with ⟨rfl, group₂⟩ | ⟨-, inside₂⟩
    · rw [group₁] at group₂
      cases group₂
      rfl
    · rw [group] at group₁
      cases group₁
      have mirrored := (AttrHash.ribAttrhashCmp_iff attr₂ attr).mpr
        ((AttrHash.ribAttrhashCmp_iff attr attr₂).mp equal).symm
      exact (apart k₂ baa₂ attr₂ inside₂ of.symm mirrored).symm
    · rw [group] at group₂
      cases group₂
      exact apart k₁ baa₁ attr₁ inside₁ of equal
    · exact groups.apart k₁ k₂ baa₁ baa₂ attr₁ attr₂ inside₁ inside₂ of equal
  fresh k' baa' attr' inside := by
    rcases (bk.in_put ..).mp inside with ⟨-, group'⟩ | ⟨-, inside⟩
    · rw [group] at group'
      cases group'
      exact fresh
    · exact (groups.fresh k' baa' attr' inside).trans_le next
  clear a above := (elsewhere a (fresh.trans_le above).ne').trans
    (groups.clear a (next.trans above))

end Parts

end Bgpd.AdjOut
