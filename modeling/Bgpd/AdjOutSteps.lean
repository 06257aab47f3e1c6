import Bgpd.AdjOutBooks

/-!
# What the operations do to the book

Each operation is carried out, and the book that keeps the state afterwards differs from
the one before at the place of the neighbour and the node.
-/

namespace Bgpd.AdjOut

open Attributes Rosters
open Function (update_apply update_eq_self update_idem update_of_ne update_self)

variable (bk : Book) (k : Slot) (pend : Option Pending)

@[simp] theorem Book.setPend_attr :
    (bk.setPend k pend).attr = bk.attr := rfl

@[simp] theorem Book.setPend_pend :
    (bk.setPend k pend).pend = Function.update bk.pend k pend := rfl

@[simp] theorem Book.setAttr_attr (attr : Option Attr) :
    (bk.setAttr k attr).attr = Function.update bk.attr k attr := rfl

@[simp] theorem Book.setAttr_pend (attr : Option Attr) : (bk.setAttr k attr).pend = bk.pend := rfl

@[simp] theorem Book.setAdj_adj (adj : Option Nat) :
    (bk.setAdj k adj).adj = Function.update bk.adj k adj := rfl

@[simp] theorem Book.setAdj_attr (adj : Option Nat) : (bk.setAdj k adj).attr = bk.attr := rfl

@[simp] theorem Book.setAdj_pend (adj : Option Nat) : (bk.setAdj k adj).pend = bk.pend := rfl

section Operations

variable {s s' : State} {bk bk' : Book} {k : Slot} {i : Nat}

theorem Book.setPend_same {pend : Option Pending} (same : bk.pend k = pend) :
    bk.setPend k pend = bk := by
  unfold Book.setPend
  rw [← same, update_eq_self]

theorem Book.setAdj_same {adj : Option Nat} (same : bk.adj k = adj) : bk.setAdj k adj = bk := by
  unfold Book.setAdj
  rw [← same, update_eq_self]

/-! ## The count -/

/-- Only the attributes matter. -/
theorem Counts.congr (counts : Counts s bk) (scount : s'.scount = s.scount)
    (attr : bk'.attr = bk.attr) : Counts s' bk' := by
  unfold Counts
  rw [scount, attr]
  exact counts

variable {attr : Attr}

/-- Other attributes were sent. -/
theorem Counts.keep (counts : Counts s bk) (some_ : (bk.attr k).isSome)
    (scount : s'.scount = s.scount) : Counts s' (bk.setAttr k (some attr)) := by
  intro out
  obtain ⟨slots, mem, count⟩ := counts out
  refine ⟨slots, fun k' => ?_, (congrFun scount out).trans count⟩
  rw [mem, Book.setAttr_attr, update_apply]
  split
  · rename_i same
    rw [same]
    exact and_congr_right fun _ => iff_of_true some_ rfl
  · exact Iff.rfl

/-- Attributes were sent for the first time. -/
theorem Counts.gain (counts : Counts s bk) (unsent : bk.attr k = none)
    (scount : s'.scount = Function.update s.scount (outOf k) (s.scount (outOf k) + 1)) :
    Counts s' (bk.setAttr k (some attr)) := by
  intro out
  obtain ⟨slots, mem, count⟩ := counts out
  have outside : k ∉ slots := by
    rw [mem, unsent]
    exact fun also => nomatch also.2
  rw [scount]
  by_cases of : out = outOf k
  · subst of
    refine ⟨insert k slots, fun k' => ?_, ?_⟩
    · rw [Finset.mem_insert, mem, Book.setAttr_attr, update_apply]
      split
      · rename_i same
        exact iff_of_true (.inl same) ⟨congrArg outOf same, rfl⟩
      · rename_i other
        exact or_iff_right other
    · rw [update_self, Finset.card_insert_of_notMem outside, count]
      push_cast
      rfl
  · refine ⟨slots, fun k' => ?_, (update_of_ne of ..).trans count⟩
    rw [mem, Book.setAttr_attr, update_apply]
    split
    · rename_i same
      rw [same]
      exact iff_of_false (fun also => of also.1.symm) fun also => of also.1.symm
    · exact Iff.rfl

/-- What was sent was withdrawn. -/
theorem Counts.lose (counts : Counts s bk) (some_ : (bk.attr k).isSome)
    (scount : s'.scount = Function.update s.scount (outOf k) (s.scount (outOf k) - 1)) :
    Counts s' (bk.setAttr k none) := by
  intro out
  obtain ⟨slots, mem, count⟩ := counts out
  rw [scount]
  by_cases of : out = outOf k
  · subst of
    have inside : k ∈ slots := (mem k).mpr ⟨rfl, some_⟩
    refine ⟨slots.erase k, fun k' => ?_, ?_⟩
    · rw [Finset.mem_erase, mem, Book.setAttr_attr, update_apply]
      split
      · rename_i same
        exact iff_of_false (fun also => also.1 same) fun also => nomatch also.2
      · rename_i other
        exact and_iff_right other
    · rw [update_self, count, ← Finset.card_erase_add_one inside]
      push_cast
      exact Int.add_sub_cancel ..
  · refine ⟨slots, fun k' => ?_, (update_of_ne of ..).trans count⟩
    rw [mem, Book.setAttr_attr, update_apply]
    split
    · rename_i same
      rw [same]
      exact iff_of_false (fun also => of also.1.symm) fun also => of also.1.symm
    · exact Iff.rfl

/-! ## Entries come and go -/

/-- Where there is no entry, nothing is pending. -/
theorem Keeps.nothing_pending (keeps : Keeps s bk) (vacant : bk.adj k = none) :
    bk.pend k = none := by
  cases here : bk.pend k with
  | none => rfl
  | some pd =>
    obtain ⟨j, entry, -⟩ := keeps.queues.cell k pd here
    rw [vacant] at entry
    cases entry

/-- The sets that are interned are among those that were. -/
def Shrinks (s s' : State) : Prop := ∀ elsewhere, s'.attrhash elsewhere ⊆ s.attrhash elsewhere

theorem mem_attrhash {elsewhere : List Attr} : attr ∈ s.attrhash elsewhere ↔
    (∃ a < s.next, (s.adjs a).bind (·.attr) = some attr)
      ∨ (∃ a < s.next, (s.baas a).bind (·.attr) = some attr) ∨ attr ∈ elsewhere := by
  unfold State.attrhash
  rw [List.mem_append, List.mem_append, List.mem_filterMap, List.mem_filterMap, or_assoc]
  simp

theorem Shrinks.refl (s : State) : Shrinks s s := fun _ _ among => among

/-- An entry for the neighbour is there, or comes. -/
theorem Keeps.entryFor (keeps : Keeps s bk) (k : Slot) :
    ∃ i s', s.entryFor k.2 k.1 = some (i, s') ∧ Keeps s' (bk.setAdj k (some i))
      ∧ s'.obuf = s.obuf ∧ Shrinks s s' := by
  have found := keeps.entries.lookup k.1 k.2
  cases here : bk.adj k with
  | some i =>
    refine ⟨i, s, ?_, ?_, rfl, Shrinks.refl s⟩
    · rw [State.entryFor, found, here]
      rfl
    · rw [Book.setAdj_same here]
      exact keeps
  | none =>
    have nothing := keeps.nothing_pending here
    refine ⟨s.next, s.bgpAdjOutAdd k.2 k.1, ?_, ?_, rfl, ?_⟩
    · rw [State.entryFor, found, here]
      rfl
    · refine ⟨keeps.entries.add here nothing,
        keeps.queues.congr rfl rfl rfl (Nat.le_succ _) rfl fun k' some_ => ?_,
        keeps.groups.congr rfl rfl (Nat.le_succ _) rfl, keeps.counts.congr rfl rfl⟩
      refine update_of_ne ?_ ..
      rintro rfl
      exact some_ nothing
    · intro elsewhere attr among
      rw [mem_attrhash] at among ⊢
      rcases among with ⟨a, below, entry⟩ | ⟨a, below, entry⟩ | other
      · dsimp only [State.bgpAdjOutAdd] at below entry
        rw [update_apply] at entry
        split at entry
        · cases entry
        · rename_i apart
          exact .inl ⟨a, Nat.lt_of_le_of_ne (Nat.lt_succ_iff.mp below) apart, entry⟩
      · refine .inr (.inl ⟨a, Nat.lt_of_not_le fun above => ?_, entry⟩)
        dsimp only [State.bgpAdjOutAdd] at entry
        rw [keeps.groups.clear a above] at entry
        cases entry
      · exact .inr (.inr other)

/-- An entry of which nothing was sent and for which nothing is pending goes. -/
theorem Keeps.del (keeps : Keeps s bk) (entry : bk.adj k = some i) (unsent : bk.attr k = none)
    (vacant : bk.pend k = none) : Keeps (s.bgpAdjOutDel k.2 i) (bk.setAdj k none) := by
  refine ⟨keeps.entries.del entry unsent,
    keeps.queues.congr rfl rfl rfl (Nat.le_refl _) rfl fun k' some_ => ?_,
    keeps.groups.congr rfl rfl (Nat.le_refl _) rfl, keeps.counts.congr rfl rfl⟩
  refine update_of_ne ?_ ..
  rintro rfl
  exact some_ vacant

/-! ## What is pending goes -/

/-- What was pending left its queue, and nothing was written to the neighbour. -/
structure Cleaned (s s' : State) (adv : Nat) : Prop where
  obuf : s'.obuf = s.obuf
  update : s'.update = fun out => (s.update out).erase adv
  withdraw : s'.withdraw = fun out => (s.withdraw out).erase adv
  scount : s'.scount = s.scount
  shrinks : Shrinks s s'

variable {pd : Pending}

/-- `bgp_advertise_clean`. What is next in the group is pending in it. -/
theorem Keeps.clean (keeps : Keeps s bk) (entry : bk.adj k = some i) (here : bk.pend k = some pd) :
    ∃ next s', s.bgpAdvertiseClean (outOf k) i = some (next, s') ∧ Keeps s' (bk.setPend k none)
      ∧ Cleaned s s' pd.adv
      ∧ ∀ baa attr, pd.group = some (baa, attr) → ∀ adv, next = some adv →
        ∃ k' pd', k' ≠ k ∧ bk.pend k' = some pd' ∧ pd'.adv = adv ∧
          pd'.group = some (baa, attr) := by
  have left : ∃ next hash baas, s.leaveGroup (outOf k) pd.adv (pd.group.map (·.1))
        = some (next, { s with hash, baas })
      ∧ Groups { s with hash, baas } (bk.setPend k none)
      ∧ (∀ baa attr, pd.group = some (baa, attr) → ∀ adv, next = some adv →
        ∃ k' pd', k' ≠ k ∧ bk.pend k' = some pd' ∧ pd'.adv = adv ∧ pd'.group = some (baa, attr))
      ∧ ∀ a attr', (baas a).bind (·.attr) = some attr' →
        (s.baas a).bind (·.attr) = some attr' := by
    cases group : pd.group with
    | none =>
      exact ⟨none, s.hash, s.baas, rfl, keeps.groups.drop_ungrouped keeps.queues.distinct here group
        rfl rfl (Nat.le_refl _), fun _ _ nothing => (nomatch nothing), fun _ _ there => there⟩
    | some both =>
      obtain ⟨baa, attr⟩ := both
      obtain ⟨next, hash, baas, left, groups, members, sets⟩ :=
        keeps.groups.leave keeps.queues.distinct here group
      refine ⟨next, hash, baas, left, groups, fun baa' attr' same => ?_, sets⟩
      cases same
      exact members
  obtain ⟨next, hash, baas, left, groups, members, sets⟩ := left
  obtain ⟨j, also, adv⟩ := keeps.queues.cell k pd here
  rw [entry] at also
  cases also
  have cell := keeps.entries.cell k i entry
  rw [here, Option.map_some] at cell
  have run : s.bgpAdvertiseClean (outOf k) i = some (next, { s with
      hash, baas
      update := fun out => (s.update out).erase pd.adv
      withdraw := fun out => (s.withdraw out).erase pd.adv
      advs := Function.update s.advs pd.adv none
      adjs := Function.update s.adjs i (some ⟨k.1, bk.attr k, none⟩) }) := by
    simp only [State.bgpAdvertiseClean, cell, adv, left, Option.bind_eq_bind, Option.bind_some,
      Option.pure_def]
    rfl
  refine ⟨next, _, run, ⟨?_, ?_, ?_, keeps.counts.congr rfl rfl⟩, ⟨rfl, rfl, rfl, rfl, ?_⟩, members⟩
  · refine keeps.entries.write entry rfl (fun _ _ => rfl)
      (fun k' apart => update_of_ne apart ..) rfl ?_ (Nat.le_refl _)
    rw [Book.setPend_pend, update_self]
    rfl
  · exact keeps.queues.drop here rfl rfl rfl (Nat.le_refl _)
  · exact groups.congr rfl rfl (Nat.le_refl _) rfl
  · intro elsewhere attr among
    rw [mem_attrhash] at among ⊢
    rcases among with ⟨a, below, found⟩ | ⟨a, below, found⟩ | other
    · refine .inl ⟨a, below, ?_⟩
      dsimp only at found
      rw [update_apply] at found
      split at found
      · rename_i same
        rw [same, cell]
        exact found
      · exact found
    · exact .inr (.inl ⟨a, below, sets a attr found⟩)
    · exact .inr (.inr other)

/-- Whatever is pending for an entry is taken out. -/
theorem Keeps.cleanPending (keeps : Keeps s bk) (entry : bk.adj k = some i) :
    ∃ s', s.cleanPending (outOf k) i = some s' ∧ Keeps s' (bk.setPend k none)
      ∧ s'.obuf = s.obuf ∧ Shrinks s s' := by
  have cell := keeps.entries.cell k i entry
  cases here : bk.pend k with
  | none =>
    rw [here] at cell
    refine ⟨s, ?_, ?_, rfl, Shrinks.refl s⟩
    · rw [State.cleanPending, cell]
      rfl
    · rw [Book.setPend_same here]
      exact keeps
  | some pd =>
    rw [here] at cell
    obtain ⟨next, s', cleaned, keeps', same, -⟩ := keeps.clean entry here
    refine ⟨s', ?_, keeps', same.obuf, same.shrinks⟩
    rw [State.cleanPending, cell]
    exact congrArg (Option.map (·.2)) cleaned

/-! ## What is pending comes -/

/-- A group an announcement can join: what the tables are once there is one more
reference to it. -/
structure Joinable (s : State) (bk : Book) (k : Slot) (baa : Nat) (attr : Attr) (l : List Nat)
    (hash : Out → List Nat) (baas : Nat → Option BgpAdvertiseAttr) (next : Nat) : Prop where
  nodup : ∀ out, (hash out).Nodup
  mem : ∀ out baa', baa' ∈ hash out ↔ baa' ∈ s.hash out ∨ baa' = baa ∧ outOf k = out
  here : baas baa = some ⟨l, l.length + 1, some attr⟩
  elsewhere : ∀ baa', baa' ≠ baa → baas baa' = s.baas baa'
  roster : Roster bk.pend Pending.adv (fun _ pd => pd.group.map (·.1) = some baa) l
  own : ∀ k' attr', bk.In k' baa attr' → outOf k' = outOf k ∧ attr' = attr
  apart : ∀ k' baa' attr', bk.In k' baa' attr' → outOf k' = outOf k →
    Rib.attrhashCmp attr' attr → baa' = baa
  fresh : baa < next
  next : s.next ≤ next

/-- What `bgp_attr_intern` returns is as good as the set for the table. -/
theorem bgpAttrIntern_cmp (elsewhere : List Attr) (attr : Attr) :
    Rib.attrhashCmp (s.bgpAttrIntern elsewhere attr) attr
      ∧ (s.bgpAttrIntern elsewhere attr = attr
        ∨ s.bgpAttrIntern elsewhere attr ∈ s.attrhash elsewhere) := by
  unfold State.bgpAttrIntern
  cases found : (s.attrhash elsewhere).find? fun find => Rib.attrhashCmp find attr with
  | none => exact ⟨Actions.attrhashCmp_refl attr, .inl rfl⟩
  | some find =>
    have equal := List.find?_some found
    exact ⟨equal, .inr (List.mem_of_find?_eq_some found)⟩

/-- `bgp_advertise_intern`: the group found has attributes that are equal for the table. -/
theorem Groups.intern (groups : Groups s bk) (k : Slot) (elsewhere : List Attr) (attr : Attr) :
    ∃ baa chosen l hash baas next, s.bgpAdvertiseIntern (outOf k) elsewhere attr
        = some (baa, { s with hash, baas, next })
      ∧ Joinable s bk k baa chosen l hash baas next
      ∧ Rib.attrhashCmp chosen attr ∧ (chosen = attr ∨ chosen ∈ s.attrhash elsewhere) := by
  obtain ⟨equal, interned⟩ := bgpAttrIntern_cmp (s := s) elsewhere attr
  generalize value : s.bgpAttrIntern elsewhere attr = set at equal interned
  cases found : (s.hash (outOf k)).find? (s.baaHashCmp set) with
  | some baa =>
    have member := List.mem_of_find?_eq_some found
    obtain ⟨k', chosen, inside, of⟩ := (groups.mem _ _).mp member
    obtain ⟨l, cell, roster⟩ := groups.cell k' baa chosen inside
    have alike : Rib.attrhashCmp chosen set = true := by
      have cmp := List.find?_some found
      rw [State.baaHashCmp, cell] at cmp
      exact cmp
    refine ⟨baa, chosen, l, s.hash,
      Function.update s.baas baa (some ⟨l, l.length + 1, some chosen⟩),
      s.next, ?_, ⟨groups.nodup, fun out baa' => ?_, update_self ..,
        fun baa' apart => update_of_ne apart .., roster,
        fun k₂ attr₂ there => ⟨(groups.own k₂ k' baa attr₂ chosen there inside).trans of,
          groups.same there inside⟩,
        fun k₂ baa₂ attr₂ there of₂ cmp => groups.apart k₂ k' baa₂ baa attr₂ chosen there inside
          (of₂.trans of.symm) cmp, groups.fresh k' baa chosen inside, Nat.le_refl _⟩,
      Actions.attrhashCmp_trans alike equal, .inr ?_⟩
    · simp [State.bgpAdvertiseIntern, State.baaGet, value, found, cell]
    · refine (or_iff_left_of_imp ?_).symm
      rintro ⟨rfl, rfl⟩
      exact member
    · rw [mem_attrhash]
      refine .inr (.inl ⟨baa, groups.fresh k' baa chosen inside, ?_⟩)
      rw [cell]
      rfl
  | none =>
    have nobody : ∀ k' attr', ¬ bk.In k' s.next attr' := fun k' attr' inside =>
      Nat.lt_irrefl _ (groups.fresh k' s.next attr' inside)
    refine ⟨s.next, set, [], Function.update s.hash (outOf k) (s.next :: s.hash (outOf k)),
      Function.update s.baas s.next (some ⟨[], 1, some set⟩), s.next + 1, ?_,
      ⟨fun out => ?_, fun out baa' => ?_, update_self ..,
        fun baa' apart => update_of_ne apart .., ⟨List.nodup_nil, fun adv => ?_⟩,
        fun k' attr' inside => absurd inside (nobody k' attr'),
        fun k' baa' attr' inside of cmp => ?_, Nat.lt_succ_self _, Nat.le_succ _⟩, equal, interned⟩
    · simp [State.bgpAdvertiseIntern, State.baaGet, value, found]
    · rw [update_apply]
      split
      · refine List.nodup_cons.mpr ⟨fun member => ?_, groups.nodup _⟩
        obtain ⟨k', attr', inside, -⟩ := (groups.mem _ _).mp member
        exact nobody k' attr' inside
      · exact groups.nodup out
    · by_cases of : out = outOf k
      · subst of
        rw [update_self, List.mem_cons, or_comm]
        exact or_congr_right (and_iff_left rfl).symm
      · rw [update_of_ne of]
        exact (or_iff_left fun also => of also.2.symm).symm
    · refine iff_of_false List.not_mem_nil ?_
      rintro ⟨k', pd', there, kind, -⟩
      obtain ⟨⟨baa', attr'⟩, group', same⟩ := Option.map_eq_some_iff.mp kind
      obtain rfl : baa' = s.next := same
      exact nobody k' attr' ⟨pd', there, group'⟩
    · have member := (groups.mem _ _).mpr ⟨k', attr', inside, of⟩
      obtain ⟨l', cell, -⟩ := groups.cell k' baa' attr' inside
      have unequal := List.find?_eq_none.mp found baa' member
      rw [State.baaHashCmp, cell] at unequal
      exact absurd cmp unequal

/-- The end of `bgp_adj_out_set`: an announcement is pending, with attributes that are
equal to the given ones for the table. -/
theorem Keeps.announce (keeps : Keeps s bk) (entry : bk.adj k = some i) (vacant : bk.pend k = none)
    (attr : Attr) (binfo : Binfo) (elsewhere : List Attr) :
    ∃ s' pd baa chosen, s.announce k.2 (outOf k) i (some attr) binfo elsewhere = some s'
      ∧ Keeps s' (bk.setPend k (some pd)) ∧ s'.obuf = s.obuf ∧ pd.group = some (baa, chosen)
      ∧ Rib.attrhashCmp chosen attr ∧ (chosen = attr ∨ chosen ∈ s.attrhash elsewhere) := by
  obtain ⟨baa, chosen, l, hash, baas, next, interned, joinable, equal, known⟩ :=
    keeps.groups.intern k elsewhere attr
  have cell := keeps.entries.cell k i entry
  have unused : ∀ k' pd', bk.pend k' = some pd' → pd'.adv ≠ next := fun k' pd' there =>
    ((keeps.queues.fresh k' pd' there).trans_le joinable.next).ne
  have run : s.announce k.2 (outOf k) i (some attr) binfo elsewhere = some { s with
      hash
      baas := Function.update baas baa (some ⟨next :: l, l.length + 1, some chosen⟩)
      advs := Function.update s.advs next (some ⟨k.2, i, some baa, some binfo⟩)
      adjs := Function.update s.adjs i (some ⟨k.1, bk.attr k, some next⟩)
      update := Function.update s.update (outOf k) (s.update (outOf k) ++ [next])
      next := next + 1 } := by
    simp [State.announce, State.groupFor, interned, State.advertise, cell, State.bgpAdvertiseAdd,
      joinable.here]
  refine ⟨_, ⟨next, some (baa, chosen), some binfo⟩, baa, chosen, run, ⟨?_, ?_, ?_,
    keeps.counts.congr rfl rfl⟩, rfl, rfl, equal, known⟩
  · refine keeps.entries.write entry rfl (fun _ _ => rfl)
      (fun k' apart => update_of_ne apart ..) rfl ?_ (joinable.next.trans (Nat.le_succ _))
    rw [Book.setPend_pend, update_self]
    rfl
  · exact keeps.queues.put vacant entry joinable.next rfl rfl rfl (Nat.lt_succ_self _)
  · refine keeps.groups.join vacant unused rfl joinable.nodup joinable.mem (update_self ..)
      (fun baa' apart => ?_) joinable.roster joinable.own joinable.apart
      (joinable.fresh.trans (Nat.lt_succ_self _)) (joinable.next.trans (Nat.le_succ _))
    exact (update_of_ne apart ..).trans (joinable.elsewhere baa' apart)

/-- The end of `bgp_adj_out_unset`: a withdrawal is pending for what was announced. -/
theorem Keeps.withdraw (keeps : Keeps s bk) (entry : bk.adj k = some i) (vacant : bk.pend k = none)
    (sent : (bk.attr k).isSome) :
    ∃ s' pd, s.withdrawOrDel k.2 (outOf k) i = some s' ∧ Keeps s' (bk.setPend k (some pd))
      ∧ s'.obuf = s.obuf ∧ pd.group = none := by
  have cell := keeps.entries.cell k i entry
  have run : s.withdrawOrDel k.2 (outOf k) i = some { s with
      advs := Function.update s.advs s.next (some ⟨k.2, i, none, none⟩)
      adjs := Function.update s.adjs i (some ⟨k.1, bk.attr k, some s.next⟩)
      withdraw := Function.update s.withdraw (outOf k) (s.withdraw (outOf k) ++ [s.next])
      next := s.next + 1 } := by
    simp [State.withdrawOrDel, cell, sent, State.advertise]
  refine ⟨_, ⟨s.next, none, none⟩, run, ⟨?_, ?_, ?_, keeps.counts.congr rfl rfl⟩, rfl, rfl⟩
  · refine keeps.entries.write entry rfl (fun _ _ => rfl)
      (fun k' apart => update_of_ne apart ..) rfl ?_ (Nat.le_succ _)
    rw [Book.setPend_pend, update_self]
    rfl
  · exact keeps.queues.put vacant entry (Nat.le_refl _) rfl rfl rfl (Nat.lt_succ_self _)
  · exact keeps.groups.put_ungrouped vacant rfl rfl rfl (Nat.le_succ _)

/-! ## What is sent -/

/-- `adj->attr` becomes what is announced. -/
theorem Keeps.synchronize (keeps : Keeps s bk) (entry : bk.adj k = some i) (attr : Attr) :
    ∃ s', s.synchronize (outOf k) i attr = some s' ∧ Keeps s' (bk.setAttr k (some attr))
      ∧ s'.obuf = s.obuf ∧ s'.update = s.update ∧ s'.withdraw = s.withdraw := by
  have cell := keeps.entries.cell k i entry
  have run : s.synchronize (outOf k) i attr = some { s with
      adjs := Function.update s.adjs i (some ⟨k.1, some attr, (bk.pend k).map (·.adv)⟩)
      scount := if (bk.attr k).isSome then s.scount
        else Function.update s.scount (outOf k) (s.scount (outOf k) + 1) } := by
    simp [State.synchronize, cell]
  refine ⟨_, run, ⟨?_, ?_, ?_, ?_⟩, rfl, rfl, rfl⟩
  · refine keeps.entries.write entry rfl (fun k' apart => update_of_ne apart ..)
      (fun _ _ => rfl) rfl ?_ (Nat.le_refl _)
    rw [Book.setAttr_attr, update_self]
    rfl
  · exact keeps.queues.congr rfl rfl rfl (Nat.le_refl _) rfl fun _ _ => rfl
  · exact keeps.groups.congr rfl rfl (Nat.le_refl _) rfl
  · cases sent : bk.attr k with
    | none => exact keeps.counts.gain sent rfl
    | some before => exact keeps.counts.keep (by rw [sent]; rfl) rfl

/-- `bgp_adj_out_remove`, for what was announced and is withdrawn. -/
theorem Keeps.remove (keeps : Keeps s bk) (entry : bk.adj k = some i) (here : bk.pend k = some pd)
    (sent : (bk.attr k).isSome) :
    ∃ s', State.bgpAdjOutRemove { s with
        scount := Function.update s.scount (outOf k) (s.scount (outOf k) - 1) } k.2 (outOf k) i
          = some s'
      ∧ Keeps s' (((bk.setAttr k none).setPend k none).setAdj k none)
      ∧ s'.obuf = s.obuf ∧ s'.withdraw = fun out => (s.withdraw out).erase pd.adv := by
  have cell := keeps.entries.cell k i entry
  have unsent : Keeps { s with
      scount := Function.update s.scount (outOf k) (s.scount (outOf k) - 1)
      adjs := Function.update s.adjs i (some ⟨k.1, none, (bk.pend k).map (·.adv)⟩) }
      (bk.setAttr k none) := by
    refine ⟨?_, keeps.queues.congr rfl rfl rfl (Nat.le_refl _) rfl fun _ _ => rfl,
      keeps.groups.congr rfl rfl (Nat.le_refl _) rfl, keeps.counts.lose sent rfl⟩
    refine keeps.entries.write entry rfl (fun k' apart => update_of_ne apart ..)
      (fun _ _ => rfl) rfl ?_ (Nat.le_refl _)
    rw [Book.setAttr_attr, update_self]
    rfl
  obtain ⟨next, s', cleaned, keeps', same, -⟩ := unsent.clean entry here
  have emptied : ((bk.setAttr k none).setPend k none).attr k = none := by
    rw [Book.setPend_attr, Book.setAttr_attr, update_self]
  have vacated : ((bk.setAttr k none).setPend k none).pend k = none := by
    rw [Book.setPend_pend, update_self]
  refine ⟨_, ?_, keeps'.del entry emptied vacated, same.obuf, same.withdraw⟩
  rw [here] at cell cleaned
  simp only [State.bgpAdjOutRemove, State.cleanPending, cell, Option.bind_eq_bind, Option.bind_some,
    Option.pure_def, update_self, Option.map_some, Option.isSome_some, if_true] at cleaned ⊢
  rw [cleaned]
  rfl

end Operations

end Bgpd.AdjOut
