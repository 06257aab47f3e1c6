import Bgpd.CommunityLists
import Bgpd.CommunityPrint

/-!
# Deletion by a community list

`community_list_match_delete` takes the entries of a list one by one and deletes from
its copy of the communities what a permitting entry that matches names. An expanded entry
matches the text of the communities, which `community_str` makes once and keeps in the
copy. A deletion does not take it away, so that later expanded entries are tested against
communities that are gone.
-/

namespace Bgpd.CommunityDeletion

open Octets CommunityText CommunityLists CommunitySets CommunityPrint Runs

/-! ## The source -/

/-- `struct community`, of which nobody else has this copy. -/
structure Copy where
  val : List U32
  str : Option CString := none
  deriving DecidableEq

/-- `entry->u.com` of a standard entry. -/
def entryCom (entry : CommunityEntry) : List U32 :=
  match entry.u with
  | .com com => com
  | _ => []

/-- `community_str`. -/
def communityStr (com : Copy) : CString × Copy :=
  match com.str with
  | some str => (str, com)
  | none =>
    let str := (communityCom2str com.val).getD []
    (str, { com with str := some str })

section Regexec

variable (regexec : CString → CString → Bool)

/-- `community_regexp_match`. -/
def communityRegexpMatch (com : Copy) (reg : CString) : Bool × Copy :=
  if com.val.isEmpty then (regexec reg [], com)
  else
    let (str, com) := communityStr com
    (regexec reg str, com)

/-- The loop of `community_regexp_delete`; each turn passes a value or deletes one. The
text of a value is that of `community_com2str`. -/
def regexpDeleteLoop (reg : CString) : Nat → Nat → List U32 → List U32
  | 0, _, val => val
  | turns + 1, i, val =>
    match val[i]? with
    | none => val
    | some comval =>
      if regexec reg (communityWord comval) then
        regexpDeleteLoop reg turns i (communityDelVal val comval)
      else regexpDeleteLoop reg turns (i + 1) val

/-- `community_regexp_delete`. -/
def communityRegexpDelete (com : Copy) (reg : CString) : Copy :=
  { com with val := regexpDeleteLoop regexec reg com.val.length 0 com.val }

/-- One entry, and whether the loop is left. -/
def entryTurn (com : Copy) (entry : CommunityEntry) : Copy × Bool :=
  if entry.any then
    if entry.direct = .permit then ({ com with val := [] }, true) else (com, true)
  else if entry.style = .standard ∧
      (communityInclude (entryCom entry) 0 || communityMatch (some com.val)
        (some (entryCom entry))) then
    if entry.direct = .permit then
      ({ com with val := communityDelete com.val (entryCom entry) }, false)
    else (com, true)
  else if entry.style = .expanded then
    let (found, com) := communityRegexpMatch regexec com (entry.reg.getD [])
    if found then
      if entry.direct = .permit then
        (communityRegexpDelete regexec com (entry.reg.getD []), false)
      else (com, true)
    else (com, false)
  else (com, false)

/-- The loop of `community_list_match_delete`, and whether it was left. -/
def deleteLoop : Copy → List CommunityEntry → Copy × Bool
  | com, [] => (com, false)
  | com, entry :: list =>
    let (com, left) := entryTurn regexec com entry
    if left then (com, true) else deleteLoop com list

/-- `community_list_match_delete`. -/
def communityListMatchDelete (com : Copy) (list : List CommunityEntry) : Copy :=
  (deleteLoop regexec com list).1

/-! ## What a list means -/

/-- The text of some communities. -/
def rendering (val : List U32) : CString := joined (val.map communityWord)

/-- An entry matches what remains. -/
def Matches (entry : CommunityEntry) (remaining : List U32) : Prop :=
  entry.any = true ∨
    entry.style = .standard ∧ (0 ∈ entryCom entry ∨ ∀ x ∈ entryCom entry, x ∈ remaining) ∨
    entry.style = .expanded ∧ regexec (entry.reg.getD []) (rendering remaining) = true

/-- An entry names a community. -/
def Names (entry : CommunityEntry) (comval : U32) : Prop :=
  entry.any = true ∨
    entry.style = .standard ∧ comval ∈ entryCom entry ∨
    entry.style = .expanded ∧ regexec (entry.reg.getD []) (communityWord comval) = true

instance (entry : CommunityEntry) (remaining : List U32) :
    Decidable (Matches regexec entry remaining) := by
  unfold Matches
  infer_instance

instance (entry : CommunityEntry) (comval : U32) : Decidable (Names regexec entry comval) := by
  unfold Names
  infer_instance

/-- What remains after one entry, and whether the list is done. An entry for any community
is the last. -/
def planTurn (remaining : List U32) (entry : CommunityEntry) : List U32 × Bool :=
  if Matches regexec entry remaining then
    if entry.direct = .permit then (remaining.filter (¬Names regexec entry ·), entry.any)
    else (remaining, true)
  else (remaining, false)

/-- The entries in order, each for what remains when it comes. -/
def planned : List U32 → List CommunityEntry → List U32 × Bool
  | remaining, [] => (remaining, false)
  | remaining, entry :: list =>
    let (remaining, done) := planTurn regexec remaining entry
    if done then (remaining, true) else planned remaining list

/-! ## One entry -/

variable {regexec}

theorem passed_filter {reg : CString} {i : Nat} {val : List U32}
    (passed : ∀ x ∈ val.take i, regexec reg (communityWord x) = false) (short : val.length ≤ i) :
    val = val.filter fun x => !regexec reg (communityWord x) := by
  rw [List.take_of_length_le short] at passed
  exact (List.filter_eq_self.mpr fun x member => by rw [passed x member]; rfl).symm

/-- The loop deletes every value whose text matches. -/
theorem regexpDeleteLoop_eq {reg : CString} {turns i : Nat} {val : List U32} (distinct : val.Nodup)
    (passed : ∀ x ∈ val.take i, regexec reg (communityWord x) = false)
    (enough : val.length ≤ i + turns) :
    regexpDeleteLoop regexec reg turns i val =
      val.filter fun x => !regexec reg (communityWord x) := by
  induction turns generalizing i val with
  | zero => exact passed_filter passed enough
  | succ turns ih =>
    unfold regexpDeleteLoop
    cases at_i : val[i]? with
    | none => exact passed_filter passed (List.getElem?_eq_none_iff.mp at_i)
    | some comval =>
      obtain ⟨inside, same⟩ := List.getElem?_eq_some_iff.mp at_i
      obtain ⟨left, right, rfl, rfl⟩ : ∃ left right, val = left ++ comval :: right ∧
          left.length = i := by
        refine ⟨val.take i, val.drop (i + 1), ?_, List.length_take_of_le inside.le⟩
        rw [← same, ← List.drop_eq_getElem_cons inside, List.take_append_drop]
      rw [List.take_left] at passed
      dsimp only
      by_cases found : regexec reg (communityWord comval) = true
      · obtain ⟨-, rest, apart⟩ := List.nodup_append.mp distinct
        obtain ⟨new, -⟩ := List.nodup_cons.mp rest
        have without : communityDelVal (left ++ comval :: right) comval = left ++ right := by
          rw [communityDelVal_eq distinct, List.filter_append, List.filter_cons_of_neg (by simp),
            List.filter_eq_self.mpr, List.filter_eq_self.mpr]
          · exact fun x member => decide_eq_true fun same => new (same ▸ member)
          · exact fun x member => decide_eq_true (apart x member comval List.mem_cons_self)
        have distinct' : (left ++ right).Nodup :=
          distinct.sublist (List.Sublist.append_left (List.sublist_cons_self comval right) left)
        rw [if_pos found, without, ih distinct' (by rwa [List.take_left]), List.filter_append,
          List.filter_append, List.filter_cons_of_neg (by simp [found])]
        simp only [List.length_append, List.length_cons] at enough ⊢
        omega
      · rw [if_neg found]
        refine @ih (left.length + 1) _ distinct (fun x member => ?_) (by omega)
        rw [List.take_add_one, List.take_left, at_i] at member
        rcases List.mem_append.mp member with old | own
        · exact passed x old
        · cases List.mem_singleton.mp own
          exact Bool.eq_false_iff.mpr found

/-- The text that an expanded entry is tested against. -/
def shown (com : Copy) : CString :=
  if com.val = [] then [] else com.str.getD (rendering com.val)

theorem communityRegexpMatch_eq (com : Copy) (reg : CString) :
    (communityRegexpMatch regexec com reg).1 = regexec reg (shown com) ∧
      (communityRegexpMatch regexec com reg).2.val = com.val ∧
      (communityRegexpMatch regexec com reg).2.str =
        if com.val = [] then com.str else some (shown com) := by
  obtain ⟨val, str⟩ := com
  cases val with
  | nil => exact ⟨rfl, rfl, rfl⟩
  | cons comval val =>
    cases str with
    | some str => exact ⟨rfl, rfl, rfl⟩
    | none =>
      have made : (communityCom2str (comval :: val)).getD [] = rendering (comval :: val) := by
        rw [communityCom2str_eq]
        rfl
      exact ⟨congrArg (regexec reg) made, rfl, congrArg some made⟩

/-- An entry matches as the source tests it. -/
def Tested (regexec : CString → CString → Bool) (com : Copy) (entry : CommunityEntry) : Prop :=
  entry.any = true ∨
    entry.style = .standard ∧ (0 ∈ entryCom entry ∨ ∀ x ∈ entryCom entry, x ∈ com.val) ∨
    entry.style = .expanded ∧ regexec (entry.reg.getD []) (shown com) = true

/-- The condition of a standard entry is that it matches. -/
theorem standard_iff {com : Copy} (ordered : Ascending com.val) {entry : CommunityEntry}
    (ordered' : Ascending (entryCom entry)) :
    (communityInclude (entryCom entry) 0 || communityMatch (some com.val) (some (entryCom entry))) =
      true ↔
      0 ∈ entryCom entry ∨ ∀ x ∈ entryCom entry, x ∈ com.val := by
  rw [Bool.or_eq_true, communityInclude_iff, communityMatch_iff, sublist_iff ordered ordered']

/-- What is left when the named values go. -/
theorem filter_names {val : List U32} {entry : CommunityEntry} {names : U32 → Bool}
    (means : ∀ x, names x = true ↔ Names regexec entry x) :
    val.filter (¬Names regexec entry ·) = val.filter fun x => !names x := by
  refine List.filter_congr fun x _ => ?_
  cases named : names x with
  | true => exact decide_eq_false (not_not.mpr ((means x).mp named))
  | false => exact decide_eq_true fun names =>
      Bool.false_ne_true (named.symm.trans ((means x).mpr names))

/-- An entry does what it should if it matches what is tested. -/
structure Turn (regexec : CString → CString → Bool) (com : Copy) (entry : CommunityEntry)
    (after : Copy × Bool) : Prop where
  permits : Tested regexec com entry → entry.direct = .permit →
    after.1.val = com.val.filter (¬Names regexec entry ·) ∧ after.2 = entry.any
  denies : Tested regexec com entry → entry.direct ≠ .permit → after.1.val = com.val ∧
    after.2 = true
  passes : ¬Tested regexec com entry → after.1.val = com.val ∧ after.2 = false

/-- An entry that was tested, with what it deletes. -/
theorem turn_of {com com' : Copy} {entry : CommunityEntry} {tested : Bool} {deleted : Copy}
    {last : Bool} (means : tested = true ↔ Tested regexec com entry) (same : com'.val = com.val)
    (deletes : deleted.val = com.val.filter (¬Names regexec entry ·)) (ends : last = entry.any) :
    Turn regexec com entry (if tested = true then
      if entry.direct = .permit then (deleted, last) else (com', true) else (com', false)) where
  permits matched permit := by
    rw [if_pos (means.mpr matched), if_pos permit]
    exact ⟨deletes, ends⟩
  denies matched deny := by
    rw [if_pos (means.mpr matched), if_neg deny]
    exact ⟨same, rfl⟩
  passes not := by
    rw [if_neg fun tested => not (means.mp tested)]
    exact ⟨same, rfl⟩

theorem entryTurn_turn {com : Copy} (ordered : Ascending com.val) {entry : CommunityEntry}
    (ordered' : Ascending (entryCom entry)) :
    Turn regexec com entry (entryTurn regexec com entry) := by
  have distinct := ascending_nodup ordered
  cases any : entry.any with
  | true =>
    have tested : Tested regexec com entry := .inl any
    have deletes : ([] : List U32) = com.val.filter (¬Names regexec entry ·) :=
      (List.filter_eq_nil_iff.mpr fun x _ => by simp [Names, any]).symm
    have turn := @turn_of regexec com com entry true { com with val := [] } true
      (iff_of_true rfl tested) rfl deletes any.symm
    rw [if_pos rfl] at turn
    rwa [entryTurn, if_pos any]
  | false =>
    have not_any : ¬entry.any = true := fun yes => Bool.false_ne_true (any.symm.trans yes)
    rw [entryTurn, if_neg not_any]
    by_cases standard : entry.style = .standard
    · have means := standard_iff ordered ordered'
      have not_expanded : ¬entry.style = .expanded := fun same => by cases standard.symm.trans same
      have tested : (communityInclude (entryCom entry) 0 ||
          communityMatch (some com.val) (some (entryCom entry))) = true ↔
              Tested regexec com entry := by
        simp only [means, Tested, any, standard, Bool.false_eq_true, false_or, true_and,
          reduceCtorEq, false_and, or_false]
      have named (x : U32) : decide (x ∈ entryCom entry) = true ↔ Names regexec entry x := by
        simp [Names, any, standard]
      have deletes : communityDelete com.val (entryCom entry) =
          com.val.filter (¬Names regexec entry ·) := by
        rw [communityDelete_eq distinct, filter_names named]
        exact List.filter_congr fun x _ => decide_not
      have turn := @turn_of regexec com com entry _
        { com with val := communityDelete com.val (entryCom entry) } false tested rfl
          deletes any.symm
      rw [if_neg not_expanded]
      simpa only [standard, true_and] using turn
    · rw [if_neg fun both => standard both.1]
      by_cases expanded : entry.style = .expanded
      · rw [if_pos expanded]
        obtain ⟨found, same, -⟩ := @communityRegexpMatch_eq regexec com (entry.reg.getD [])
        have tested : (communityRegexpMatch regexec com (entry.reg.getD [])).1 = true ↔
            Tested regexec com entry := by
          simp [found, Tested, any, expanded]
        have named (x : U32) : regexec (entry.reg.getD []) (communityWord x) = true ↔
            Names regexec entry x := by
          simp [Names, any, expanded]
        have deletes :
          (communityRegexpDelete regexec (communityRegexpMatch regexec com (entry.reg.getD [])).2
            (entry.reg.getD [])).val = com.val.filter (¬Names regexec entry ·) := by
          rw [filter_names named, communityRegexpDelete, same]
          exact regexpDeleteLoop_eq distinct (by simp) (by omega)
        exact turn_of tested same deletes any.symm
      · rw [if_neg expanded]
        have never : ¬Tested regexec com entry := by
          rintro (yes | ⟨same, -⟩ | ⟨same, -⟩)
          exacts [not_any yes, standard same, expanded same]
        exact ⟨fun tested => absurd tested never, fun tested => absurd tested never,
          fun _ => ⟨rfl, rfl⟩⟩

/-- The text that is kept: an expanded entry makes that of what remains, unless nothing
remains or there is one. -/
def keptText (text : Option CString) (remaining : List U32) (entry : CommunityEntry) :
    Option CString :=
  if entry.any = false ∧ entry.style = .expanded ∧ remaining ≠ [] then
    some (text.getD (rendering remaining))
  else text

theorem entryTurn_str (com : Copy) (entry : CommunityEntry) :
    (entryTurn regexec com entry).1.str = keptText com.str com.val entry := by
  obtain ⟨-, -, text⟩ := @communityRegexpMatch_eq regexec com (entry.reg.getD [])
  unfold entryTurn keptText
  cases any : entry.any with
  | true => cases entry.direct <;> rfl
  | false =>
    by_cases expanded : entry.style = .expanded
    · have kept : (if com.val = [] then com.str else some (shown com)) =
          if com.val ≠ [] then some (com.str.getD (rendering com.val)) else com.str := by
        by_cases none : com.val = [] <;> simp [shown, none]
      simp only [Bool.false_eq_true, if_false, expanded, reduceCtorEq, false_and, if_true, true_and,
        ← kept, ← text]
      split_ifs <;> rfl
    · simp only [Bool.false_eq_true, if_false, expanded, false_and, and_false]
      split_ifs <;> rfl

/-! ## All entries -/

/-- The text an expanded entry is tested against tells the same of it as the text of what
remains, or the entry would delete nothing anyway. -/
def Current (regexec : CString → CString → Bool) (com : Copy) (entry : CommunityEntry) : Prop :=
  entry.any = false → entry.style = .expanded →
    regexec (entry.reg.getD []) (shown com) = regexec (entry.reg.getD []) (rendering com.val) ∨
      entry.direct = .permit ∧ ∀ x ∈ com.val, regexec (entry.reg.getD []) (communityWord x) = false

theorem current_iff (com : Copy) (entry : CommunityEntry) :
    Current regexec com entry ↔
      (Tested regexec com entry ↔ Matches regexec entry com.val) ∨
        entry.direct = .permit ∧ ∀ x ∈ com.val, ¬Names regexec entry x := by
  by_cases own : entry.any = false ∧ entry.style = .expanded
  · obtain ⟨any, expanded⟩ := own
    simp [Current, Tested, Matches, Names, any, expanded]
  · refine iff_of_true (fun any expanded => absurd ⟨any, expanded⟩ own) (.inl ?_)
    have other : entry.any = true ∨ ¬entry.style = .expanded := by
      cases any : entry.any with
      | true => exact .inl rfl
      | false => exact .inr fun expanded => own ⟨any, expanded⟩
    rcases other with any | other
    · exact iff_of_true (.inl any) (.inl any)
    · simp [Tested, Matches, other]

/-- What remains, and whether the list is done: by the source, and as it should be. -/
def Agree (code : Copy × Bool) (plan : List U32 × Bool) : Prop :=
  code.1.val = plan.1 ∧ code.2 = plan.2

/-- From what both agree on, an entry leads to the same exactly if its text is current. -/
theorem agree_turn_iff {com : Copy} (ordered : Ascending com.val) {entry : CommunityEntry}
    (ordered' : Ascending (entryCom entry)) :
    Agree (entryTurn regexec com entry) (planTurn regexec com.val entry) ↔
      Current regexec com entry := by
  have turn := @entryTurn_turn regexec com ordered entry ordered'
  have unnamed : com.val = com.val.filter (¬Names regexec entry ·) ↔
      ∀ x ∈ com.val, ¬Names regexec entry x := by
    rw [eq_comm, List.filter_eq_self]
    exact forall₂_congr fun x _ => decide_eq_true_iff
  rw [current_iff, Agree, planTurn]
  by_cases tested : Tested regexec com entry
  · by_cases permit : entry.direct = .permit
    · obtain ⟨val, left⟩ := turn.permits tested permit
      by_cases matched : Matches regexec entry com.val
      · rw [if_pos matched, if_pos permit]
        exact iff_of_true ⟨val, left⟩ (.inl (iff_of_true tested matched))
      · have not_any : entry.any = false := Bool.eq_false_iff.mpr fun any => matched (.inl any)
        rw [if_neg matched, val, left, not_any]
        refine (and_iff_left rfl).trans (eq_comm.trans (unnamed.trans ?_))
        exact ⟨fun none => .inr ⟨permit, none⟩, fun either =>
          either.elim (fun same => absurd (same.mp tested) matched) And.right⟩
    · obtain ⟨val, left⟩ := turn.denies tested permit
      by_cases matched : Matches regexec entry com.val
      · rw [if_pos matched, if_neg permit]
        exact iff_of_true ⟨val, left⟩ (.inl (iff_of_true tested matched))
      · rw [if_neg matched, left]
        exact iff_of_false (fun both => nomatch both.2) fun either =>
          either.elim (fun same => matched (same.mp tested)) fun both => permit both.1
  · obtain ⟨val, left⟩ := turn.passes tested
    by_cases matched : Matches regexec entry com.val
    · by_cases permit : entry.direct = .permit
      · have not_any : entry.any = false := Bool.eq_false_iff.mpr fun any => tested (.inl any)
        rw [if_pos matched, if_pos permit, val, left, not_any]
        refine (and_iff_left rfl).trans (unnamed.trans ?_)
        exact ⟨fun none => .inr ⟨permit, none⟩, fun either =>
          either.elim (fun same => absurd (same.mpr matched) tested) And.right⟩
      · rw [if_pos matched, if_neg permit, left]
        exact iff_of_false (fun both => nomatch both.2) fun either =>
          either.elim (fun same => tested (same.mpr matched)) fun both => permit both.1
    · rw [if_neg matched]
      exact iff_of_true ⟨val, left⟩ (.inl (iff_of_false tested matched))

end Regexec

section Lists

variable (regexec : CString → CString → Bool)

/-- An entry as the parser makes it: the communities of a standard entry are in order. -/
abbrev SortedEntry := { entry : CommunityEntry // Ascending (entryCom entry) }

/-- An entry of the loop, unless it was left. -/
def codeStep (s : Copy × Bool) (entry : SortedEntry) : Copy × Bool :=
  if s.2 then s else entryTurn regexec s.1 entry.1

/-- An entry of the list beside the text that is kept, unless it is done. -/
def textStep (s : Copy × Bool) (entry : SortedEntry) : Copy × Bool :=
  if s.2 then s
  else
    let (remaining, done) := planTurn regexec s.1.val entry.1
    (⟨remaining, keptText s.1.str s.1.val entry.1⟩, done)

/-- An entry of the list, unless it is done. -/
def planStep (s : List U32 × Bool) (entry : SortedEntry) : List U32 × Bool :=
  if s.2 then s else planTurn regexec s.1 entry.1

variable {regexec}

theorem run_left {com : Copy} (list : List SortedEntry) :
    run (codeStep regexec) (com, true) list = (com, true) := by
  induction list with
  | nil => rfl
  | cons entry list ih => exact ih

theorem run_done {remaining : List U32} (list : List SortedEntry) :
    run (planStep regexec) (remaining, true) list = (remaining, true) := by
  induction list with
  | nil => rfl
  | cons entry list ih => exact ih

theorem deleteLoop_eq (com : Copy) (list : List SortedEntry) :
    deleteLoop regexec com (list.map Subtype.val) = run (codeStep regexec) (com, false) list := by
  induction list generalizing com with
  | nil => rfl
  | cons entry list ih =>
    have first : codeStep regexec (com, false) entry = entryTurn regexec com entry.1 :=
      if_neg Bool.false_ne_true
    rw [List.map_cons, deleteLoop, run_cons, first]
    obtain ⟨com', left⟩ := entryTurn regexec com entry.1
    cases left with
    | true => exact (run_left list).symm
    | false => exact ih com'

theorem planned_eq (remaining : List U32) (list : List SortedEntry) :
    planned regexec remaining (list.map Subtype.val) =
      run (planStep regexec) (remaining, false) list := by
  induction list generalizing remaining with
  | nil => rfl
  | cons entry list ih =>
    have first : planStep regexec (remaining, false) entry = planTurn regexec remaining entry.1 :=
      if_neg Bool.false_ne_true
    rw [List.map_cons, planned, run_cons, first]
    obtain ⟨remaining', done⟩ := planTurn regexec remaining entry.1
    cases done with
    | true => exact (run_done list).symm
    | false => exact ih remaining'

/-- Every entry that the list comes to has a current text, of what should remain and of the
text that the first expanded entry made. That what remains is right in the end is less. -/
def AllCurrent (regexec : CString → CString → Bool) (com : Copy) (list : List SortedEntry) : Prop :=
  Guarded (textStep regexec) (fun s entry => s.2 = false → Current regexec s.1 entry.1)
    (com, false) list

theorem codeStep_ascending {s : Copy × Bool} (ordered : Ascending s.1.val) (entry : SortedEntry) :
    Ascending (codeStep regexec s entry).1.val := by
  unfold codeStep
  split
  · exact ordered
  · have turn := @entryTurn_turn regexec s.1 ordered entry.1 entry.2
    by_cases tested : Tested regexec s.1 entry.1
    · by_cases permit : entry.1.direct = .permit
      · rw [(turn.permits tested permit).1]
        exact List.Pairwise.filter _ ordered
      · rwa [(turn.denies tested permit).1]
    · rwa [(turn.passes tested).1]

/-- With a current text the source does what the list says, and keeps the text. -/
theorem codeStep_eq {s : Copy × Bool} (ordered : Ascending s.1.val) (entry : SortedEntry)
    (current : s.2 = false → Current regexec s.1 entry.1) :
    codeStep regexec s entry = textStep regexec s entry := by
  unfold codeStep textStep
  by_cases left : s.2 = true
  · rw [if_pos left, if_pos left]
  · rw [if_neg left, if_neg left]
    obtain ⟨val, done⟩ :=
      (agree_turn_iff ordered entry.2).mpr (current (Bool.eq_false_iff.mpr left))
    have str := @entryTurn_str regexec s.1 entry.1
    generalize entryTurn regexec s.1 entry.1 = after at val done str
    obtain ⟨⟨_, _⟩, _⟩ := after
    cases val
    cases done
    cases str
    rfl

/-- The source keeps to the list after each of its entries exactly if every text that an
expanded entry is tested against is current; then the result is that of the list. -/
theorem deletion_keeps_to_list {val : List U32} (ordered : Ascending val)
    (list : List SortedEntry) :
    ((∀ front later, list = front ++ later →
        Agree (deleteLoop regexec ⟨val, none⟩ (front.map Subtype.val))
          (planned regexec val (front.map Subtype.val))) ↔
      AllCurrent regexec ⟨val, none⟩ list) ∧
    (AllCurrent regexec ⟨val, none⟩ list →
      (communityListMatchDelete regexec ⟨val, none⟩ (list.map Subtype.val)).val =
        (planned regexec val (list.map Subtype.val)).1) := by
  have exact_ (s : (Copy × Bool) × (List U32 × Bool)) (entry : SortedEntry)
      (ordered : Ascending s.1.1.val) (agree : Agree s.1 s.2) :
      Agree (codeStep regexec s.1 entry) (planStep regexec s.2 entry) ↔
        (s.1.2 = false → Current regexec s.1.1 entry.1) := by
    obtain ⟨⟨com, left⟩, remaining, done⟩ := s
    change Ascending com.val at ordered
    obtain ⟨rfl, rfl⟩ : com.val = remaining ∧ left = done := agree
    cases left with
    | true => exact iff_of_true ⟨rfl, rfl⟩ nofun
    | false =>
      refine (agree_turn_iff ordered entry.2).trans ?_
      exact ⟨fun current _ => current, fun current => current rfl⟩
  have everywhere := everywhere_iff_guarded
    (fun s entry => (codeStep regexec s.1 entry, planStep regexec s.2 entry))
    (fun s entry => s.1.2 = false → Current regexec s.1.1 entry.1)
    (fun s => Ascending s.1.1.val) (fun s => Agree s.1 s.2)
    (fun s entry ordered => codeStep_ascending ordered entry) exact_
    ((⟨val, none⟩, false), (val, false)) list ordered ⟨rfl, rfl⟩
  simp only [run_both, ← deleteLoop_eq, ← planned_eq] at everywhere
  have current := everywhere.trans (guarded_both (codeStep regexec) (planStep regexec)
    (fun s entry => s.2 = false → Current regexec s.1 entry.1) (⟨val, none⟩, false)
    (val, false) list)
  have current := current.trans (guarded_congr (codeStep regexec) _ (textStep regexec)
    (fun s => Ascending s.1.val) (fun s entry ordered => codeStep_ascending ordered entry)
    (fun s entry ordered => codeStep_eq ordered entry) (⟨val, none⟩, false) list ordered)
  exact ⟨current, fun all => (current.mpr all list [] (List.append_nil list).symm).1⟩

/-- An expanded entry. -/
def sampleEntry (direct : Direct) (reg : String) : SortedEntry :=
  ⟨⟨direct, .expanded, false, .null, some reg.toList, some reg.toList⟩, .nil⟩

/-- An expression without special characters. -/
def sampleRegexec (reg str : CString) : Bool := decide (reg <:+: str)

/-- Of 1:1 and 2:2 one entry takes the first. -/
theorem deletion_keeps_to_list_sample :
    Ascending [0x00010001#32, 0x00020002#32] ∧
      (communityListMatchDelete sampleRegexec ⟨[0x00010001, 0x00020002], none⟩
        [(sampleEntry .permit "1:1").1]).val =
        (planned sampleRegexec [0x00010001, 0x00020002] [(sampleEntry .permit "1:1").1]).1 := by
  have ordered : Ascending [0x00010001#32, 0x00020002#32] := by decide
  refine ⟨ordered, (deletion_keeps_to_list ordered [sampleEntry .permit "1:1"]).2 ?_⟩
  exact ⟨fun _ _ _ => .inl rfl, trivial⟩

/-- After `permit 1:1` the text is still that of both, so `deny 1:1` ends the list, and
`permit 2:2` is never come to. -/
theorem deletion_keeps_to_list_fails :
    Ascending [0x00010001#32, 0x00020002#32] ∧
      (communityListMatchDelete sampleRegexec ⟨[0x00010001, 0x00020002], none⟩
        [(sampleEntry .permit "1:1").1, (sampleEntry .deny "1:1").1,
          (sampleEntry .permit "2:2").1]).val =
        [0x00020002] ∧
      (planned sampleRegexec [0x00010001, 0x00020002]
        [(sampleEntry .permit "1:1").1, (sampleEntry .deny "1:1").1,
          (sampleEntry .permit "2:2").1]).1 =
        [] := by
  exact ⟨by decide, by decide, by decide⟩

end Lists

end Bgpd.CommunityDeletion
