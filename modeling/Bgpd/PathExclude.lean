import Bgpd.PathText

/-!
# Excluding ASes from a path

`aspath_filter_exclude` goes over each segment twice: it counts the members that stay,
makes a segment of that size, and copies them into it. A segment that loses all members
is left out, and then its neighbours are next to each other.
-/

namespace Bgpd.PathExclude

open Octets AsPath PathStore PathCodec PathTable PathText

/-! ## The two scans -/

/-- The scan of one segment of the exclude list, which ends at the first hit. -/
def listed (asno : U32) : List U32 → Bool
  | [] => false
  | as :: rest => if asno = as then true else listed asno rest

/-- `skip_as`: the scan of the exclude list, which ends behind the first segment with a hit. -/
def skipAs (asno : U32) : List Assegment → Bool
  | [] => false
  | exclseg :: rest => if listed asno exclseg.as then true else skipAs asno rest

/-- `newlen`: the members that stay. -/
def newlen (exclude : List Assegment) : List U32 → Nat
  | [] => 0
  | asno :: rest => if skipAs asno exclude then newlen exclude rest else newlen exclude rest + 1

/-- The copying loop, into an array in which some members are done. It fails where the
array is full. -/
def copy (exclude : List Assegment) : List U32 → List U32 → Nat → Option (List U32)
  | [], as, _ => some as
  | asno :: rest, as, done =>
    if skipAs asno exclude then copy exclude rest as done
    else if done < as.length then copy exclude rest (as.set done asno) (done + 1)
    else none

/-- The loop of `aspath_filter_exclude` over the segments of the source. -/
def filterExclude (exclude : List Assegment) : List Assegment → Option (List Assegment)
  | [] => some []
  | srcseg :: rest =>
    let newlen := newlen exclude srcseg.as
    if newlen = 0 then filterExclude exclude rest
    else do
      let as ← copy exclude srcseg.as (List.replicate newlen 0) 0
      let later ← filterExclude exclude rest
      some (⟨srcseg.type, as⟩ :: later)

/-! ## What stays -/

/-- The AS is in some segment of the exclude list. -/
def Excluded (exclude : List Assegment) (asno : U32) : Prop := ∃ seg ∈ exclude, asno ∈ seg.as

instance (exclude : List Assegment) (asno : U32) : Decidable (Excluded exclude asno) :=
  inferInstanceAs (Decidable (∃ seg ∈ exclude, _))

/-- The members of a segment that are not excluded, if there is one. -/
def remaining (exclude : List Assegment) (seg : Assegment) : Option Assegment :=
  let as := seg.as.filter fun asno => ¬ Excluded exclude asno
  if as = [] then none else some ⟨seg.type, as⟩

section Scans

variable (exclude : List Assegment)

theorem listed_iff (asno : U32) (as : List U32) : listed asno as = true ↔ asno ∈ as := by
  induction as with
  | nil => simp [listed]
  | cons first rest ih =>
    unfold listed
    split
    · rename_i same
      simp [same]
    · rename_i other
      simp [other, ih]

/-- Both scans leave out the same members. -/
theorem skipAs_eq (asno : U32) : skipAs asno exclude = decide (Excluded exclude asno) := by
  rw [Bool.eq_iff_iff, decide_eq_true_iff]
  induction exclude with
  | nil => simp [skipAs, Excluded]
  | cons exclseg rest ih =>
    unfold skipAs
    split
    · rename_i hit
      exact ⟨fun _ => ⟨exclseg, List.mem_cons_self, (listed_iff asno exclseg.as).mp hit⟩,
        fun _ => rfl⟩
    · rename_i miss
      rw [ih]
      have apart : asno ∉ exclseg.as := fun member => miss ((listed_iff asno exclseg.as).mpr member)
      simp [Excluded, apart]

theorem newlen_eq (as : List U32) :
    newlen exclude as = (as.filter fun asno => ¬ Excluded exclude asno).length := by
  induction as with
  | nil => rfl
  | cons asno rest ih =>
    unfold newlen
    rw [skipAs_eq, List.filter_cons]
    by_cases out : Excluded exclude asno
    · simp [out, ih]
    · simp [out, ih]

/-- The copies fill the array exactly, behind what is done. -/
theorem copy_eq (as done left : List U32) (room : left.length = newlen exclude as) :
    copy exclude as (done ++ left) done.length =
      some (done ++ as.filter fun asno => ¬ Excluded exclude asno) := by
  induction as generalizing done left with
  | nil =>
    obtain rfl := List.length_eq_zero_iff.mp room
    rfl
  | cons asno rest ih =>
    unfold copy
    unfold newlen at room
    rw [skipAs_eq] at room ⊢
    by_cases out : Excluded exclude asno
    · rw [if_pos (decide_eq_true out)] at room ⊢
      rw [ih done left room]
      simp [out]
    · rw [if_neg (by simpa using out)] at room ⊢
      obtain ⟨slot, left, rfl⟩ : ∃ slot more, left = slot :: more :=
        List.exists_cons_of_length_eq_add_one room
      have inside : done.length < (done ++ slot :: left).length := by simp
      have written : (done ++ slot :: left).set done.length asno = (done ++ [asno]) ++ left := by
        simp
      have next := ih (done ++ [asno]) left (Nat.succ.inj room)
      rw [List.length_append, List.length_singleton] at next
      rw [if_pos inside, written, next]
      simp [out]

/-- The loop yields what remains of each segment. -/
theorem filterExclude_eq (source : List Assegment) :
    filterExclude exclude source = some (source.filterMap (remaining exclude)) := by
  induction source with
  | nil => rfl
  | cons srcseg rest ih =>
    unfold filterExclude
    rw [List.filterMap_cons]
    by_cases empty : newlen exclude srcseg.as = 0
    · have none : remaining exclude srcseg = none := by
        rw [newlen_eq, List.length_eq_zero_iff] at empty
        exact if_pos empty
      rw [if_pos empty, none, ih]
    · have some : remaining exclude srcseg =
          some ⟨srcseg.type, srcseg.as.filter fun asno => ¬ Excluded exclude asno⟩ := by
        rw [newlen_eq, List.length_eq_zero_iff] at empty
        exact if_neg empty
      have copied :=
        copy_eq exclude srcseg.as [] (List.replicate (newlen exclude srcseg.as) 0) (by simp)
      rw [List.nil_append, List.length_nil, List.nil_append] at copied
      rw [if_neg empty, copied, ih, some]
      rfl

end Scans

/-! ## Normal form -/

/-- What is left of a list is a chain if and only if two elements that are left with none
left between them are related. -/
theorem filterMap_isChain_iff {α β : Type} (f : α → Option β) (R : β → β → Prop) (l : List α) :
    (l.filterMap f).IsChain R ↔ ∀ front s mid t back x y, l = front ++ s :: (mid ++ t :: back) →
      f s = some x → f t = some y → (∀ m ∈ mid, f m = none) → R x y := by
  constructor
  · rintro chain front s mid t back x y rfl left left' gone
    have vanished : mid.filterMap f = [] := List.filterMap_eq_nil_iff.mpr gone
    rw [List.filterMap_append, List.filterMap_cons_some left, List.filterMap_append, vanished,
      List.nil_append, List.filterMap_cons_some left', List.isChain_append_cons_cons] at chain
    exact chain.2.1
  · intro related
    induction l with
    | nil => exact .nil
    | cons a rest ih =>
      have chain := ih fun front s mid t back x y same =>
        related (a :: front) s mid t back x y (by rw [same, List.cons_append])
      rw [List.filterMap_cons]
      cases left : f a with
      | none => exact chain
      | some x =>
        refine List.isChain_cons.mpr ⟨fun y first => ?_, chain⟩
        rw [List.head?_filterMap, Option.mem_def, List.findSome?_eq_some_iff] at first
        obtain ⟨mid, t, back, same, left', gone⟩ := first
        exact related [] a mid t back x y (by rw [same, List.nil_append]) left left' gone

/-- The segment keeps a member. -/
def Keeps (exclude : List Assegment) (seg : Assegment) : Prop :=
  ∃ asno ∈ seg.as, ¬ Excluded exclude asno

/-- Between two sequences that keep a member there is a segment that keeps one. -/
def Separated (exclude source : List Assegment) : Prop :=
  ∀ front s mid t back, source = front ++ s :: (mid ++ t :: back) → s.type = .asSequence →
    t.type = .asSequence → Keeps exclude s → Keeps exclude t → ∃ m ∈ mid, Keeps exclude m

section Result

variable {exclude source : List Assegment}

theorem remaining_none_iff {seg : Assegment} :
    remaining exclude seg = none ↔ ¬ Keeps exclude seg := by
  unfold remaining Keeps
  dsimp only
  split
  · rename_i empty
    simpa using empty
  · rename_i filled
    simpa using filled

theorem remaining_some {seg left : Assegment} (remains : remaining exclude seg = some left) :
    left.type = seg.type ∧ left.as = (seg.as.filter fun asno => ¬ Excluded exclude asno) ∧
      left.as ≠ [] := by
  unfold remaining at remains
  dsimp only at remains
  split at remains
  · cases remains
  · rename_i filled
    obtain rfl := Option.some.inj remains
    exact ⟨rfl, rfl, filled⟩

/-- What is left of a normal path is normal if and only if no two sequences come together. -/
theorem normal_iff_separated (normal : Normal source) :
    Normal (source.filterMap (remaining exclude)) ↔ Separated exclude source := by
  have chain : (source.filterMap (remaining exclude)).IsChain Unjoinable ↔
      Separated exclude source := by
    rw [filterMap_isChain_iff]
    constructor
    · intro apart front s mid t back same sequence sequence' keeps keeps'
      by_contra none
      obtain ⟨x, left⟩ :=
        Option.ne_none_iff_exists'.mp (mt remaining_none_iff.mp (not_not.mpr keeps))
      obtain ⟨y, left'⟩ :=
        Option.ne_none_iff_exists'.mp (mt remaining_none_iff.mp (not_not.mpr keeps'))
      refine apart front s mid t back x y same left left' (fun m member => ?_)
        ⟨(remaining_some left).1.trans sequence, (remaining_some left').1.trans sequence'⟩
      exact remaining_none_iff.mpr fun keeps => none ⟨m, member, keeps⟩
    · intro separated front s mid t back x y same left left' gone both
      have keeps : Keeps exclude s := by
        by_contra none
        rw [remaining_none_iff.mpr none] at left
        cases left
      have keeps' : Keeps exclude t := by
        by_contra none
        rw [remaining_none_iff.mpr none] at left'
        cases left'
      obtain ⟨m, member, kept⟩ := separated front s mid t back same
        ((remaining_some left).1.symm.trans both.1) ((remaining_some left').1.symm.trans both.2)
        keeps keeps'
      exact remaining_none_iff.mp (gone m member) kept
  refine ⟨fun normal => chain.mp normal.apart, fun separated => ⟨?_, chain.mpr separated, ?_⟩⟩
  · intro left member
    obtain ⟨seg, -, remains⟩ := List.mem_filterMap.mp member
    exact (remaining_some remains).2.2
  · intro left member set
    obtain ⟨seg, inside, remains⟩ := List.mem_filterMap.mp member
    obtain ⟨type, as, -⟩ := remaining_some remains
    rw [as]
    rw [type] at set
    exact (normal.sorted seg inside set).filter _

end Result

/-- The result has what remains of each segment, in order, and no empty segment. It is in
normal form, and what its text is read as, if and only if no two sequences come together. -/
theorem exclude_exactly (source exclude : List Assegment) (normal : Normal source) :
    ∃ result, filterExclude exclude source = some result ∧
      result = source.filterMap (remaining exclude) ∧ (∀ seg ∈ result, seg.as ≠ []) ∧
      ((Normal result ∧ aspathStr2aspath (aspathMakeStrCount result) = some result) ↔
        Separated exclude source) := by
  refine ⟨_, filterExclude_eq exclude source, rfl, fun seg member => ?_, ?_⟩
  · obtain ⟨_, -, remains⟩ := List.mem_filterMap.mp member
    exact (remaining_some remains).2.2
  · rw [← normal_iff_separated normal]
    exact ⟨fun both => both.1, fun normal => ⟨normal, aspathStr2aspath_text normal⟩⟩

/-- Two sequences with a set between them. -/
def aroundSet : List Assegment := [⟨.asSequence, [1]⟩, ⟨.asSet, [2]⟩, ⟨.asSequence, [3]⟩]

theorem aroundSet_normal : Normal aroundSet where
  filled := by decide
  apart := by simp [aroundSet, Unjoinable]
  sorted := by decide

theorem exclude_exactly_first :
    ∃ result, filterExclude [⟨.asSequence, [1]⟩] aroundSet = some result ∧
    result = aroundSet.filterMap (remaining [⟨.asSequence, [1]⟩]) ∧ (∀ seg ∈ result, seg.as ≠ []) ∧
    ((Normal result ∧ aspathStr2aspath (aspathMakeStrCount result) = some result) ↔
      Separated [⟨.asSequence, [1]⟩] aroundSet) :=
  exclude_exactly aroundSet [⟨.asSequence, [1]⟩] aroundSet_normal

/-- Without the set the sequences are next to each other, and their text is that of one. -/
theorem sequences_come_together :
    ∃ result, filterExclude [⟨.asSequence, [2]⟩] aroundSet = some result ∧ ¬ Normal result ∧
      aspathStr2aspath (aspathMakeStrCount result) = some [⟨.asSequence, [1, 3]⟩] ∧
      result ≠ [⟨.asSequence, [1, 3]⟩] := by
  refine ⟨[⟨.asSequence, [1]⟩, ⟨.asSequence, [3]⟩],
    by decide, fun normal => ?_, by decide, by decide⟩
  have apart := normal.apart
  simp [Unjoinable] at apart

end Bgpd.PathExclude
