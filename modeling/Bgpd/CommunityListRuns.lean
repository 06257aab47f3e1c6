import Bgpd.CommunityLists

/-!
# Runs of community-list commands

A lookup by name points at a place among the lists. What a command does is told
by what it puts into that place, and a list that did not exist has a place too,
an empty one.

Two slips keep the commands from being atomic and exact: a list is created
before its first value has been read, and an entry is looked up for deletion
without its direction, by a comparison that does not allow for entries without a
value. In runs that avoid both, every command fails without a trace or does
exactly what it was asked for.
-/

namespace Bgpd.CommunityLists

open CommunityText

/-! ## Places -/

/-- The lists of a master. -/
def CommunityListMaster.lists (cm : CommunityListMaster) : List CommunityList := cm.num ++ cm.str

/-- A place for the list of a name, among others. -/
structure Place (name : CString) (others : List CommunityList)
    (put : List CommunityList → CommunityListMaster) : Prop where
  lookup : ∀ list, list.name = name → communityListLookup (put [list]) name = some list
  change : ∀ list change, list.name = name → (put [list]).change name change = put (change list)
  lists : ∀ here list, list ∈ (put here).lists ↔ list ∈ here ∨ list ∈ others

section Places

variable {name : CString} {lists before after : List CommunityList} {list : CommunityList}

theorem find_none : find name lists = none ↔ ∀ list ∈ lists, list.name ≠ name := by
  simp [find]

theorem find_some (found : find name lists = some list) :
    list.name = name ∧ ∃ before after, lists = before ++ list :: after ∧
      find name before = none := by
  obtain ⟨named, before, after, split, earlier⟩ := List.find?_eq_some_iff_append.mp found
  refine ⟨by simpa using named, before, after, split, find_none.mpr fun other inside => ?_⟩
  simpa using earlier other inside

/-- The first list of a name is found behind lists of other names. -/
theorem find_append (absent : find name before = none) (named : list.name = name) :
    find name (before ++ [list] ++ after) = some list := by
  rw [List.append_assoc, find, List.find?_append, ← find, absent, Option.none_or]
  exact List.find?_cons_of_pos (by simpa using named)

/-- And it is the one that is changed. -/
theorem changeFirst_append (absent : find name before = none) (named : list.name = name)
    (change : CommunityList → List CommunityList) :
    changeFirst name change (before ++ [list] ++ after) = before ++ change list ++ after := by
  rw [List.append_assoc, List.singleton_append]
  induction before with
  | nil => simp [changeFirst, named]
  | cons other before ih =>
    rw [find_none] at absent
    have apart := absent other List.mem_cons_self
    have rest := ih (find_none.mpr fun list inside => absent list (List.mem_cons_of_mem _ inside))
    simp [changeFirst, if_neg apart, rest]

/-- A place among the lists with numbers. -/
theorem place_num (after str : List CommunityList) (absent : find name before = none) :
    Place name (before ++ after ++ str) fun here => ⟨before ++ here ++ after, str⟩ where
  lookup list named := by rw [communityListLookup, find_append absent named, Option.some_or]
  change list change named := by
    simp only [CommunityListMaster.change, find_append absent named, Option.isSome_some, if_true,
      changeFirst_append absent named change]
  lists here list := by
    simp only [CommunityListMaster.lists, List.mem_append]
    tauto

/-- A place among the other lists. -/
theorem place_str {num : List CommunityList} (after : List CommunityList)
    (other : find name num = none) (absent : find name before = none) :
    Place name (num ++ before ++ after) fun here => ⟨num, before ++ here ++ after⟩ where
  lookup list named := by
    rw [communityListLookup, other, find_append absent named, Option.none_or]
  change list change named := by
    simp only [CommunityListMaster.change, other, Option.isSome_none, Bool.false_eq_true, if_false,
      changeFirst_append absent named change]
  lists here list := by
    simp only [CommunityListMaster.lists, List.mem_append]
    tauto

end Places

variable {name : CString}

/-- A list that is found has a place. -/
theorem place_found {cm : CommunityListMaster} {list : CommunityList}
    (found : communityListLookup cm name = some list) :
    list.name = name ∧ ∃ others put, Place name others put ∧ put [list] = cm := by
  rw [communityListLookup] at found
  cases numbered : find name cm.num with
  | some first =>
    rw [numbered] at found
    cases found
    obtain ⟨named, before, after, split, absent⟩ := find_some numbered
    refine ⟨named, _, _, place_num after cm.str absent, ?_⟩
    rw [List.append_assoc, List.singleton_append, ← split]
  | none =>
    rw [numbered, Option.none_or] at found
    obtain ⟨named, before, after, split, absent⟩ := find_some found
    refine ⟨named, _, _, place_str after numbered absent, ?_⟩
    rw [List.append_assoc, List.singleton_append, ← split]

theorem insertBefore_spec {α : Type} (stop : α → Bool) (new : α) (list : List α) :
    ∃ before after, list = before ++ after ∧
      insertBefore stop new list = before ++ [new] ++ after :=
  ⟨list.takeWhile (!stop ·), list.dropWhile (!stop ·), List.takeWhile_append_dropWhile.symm,
    by simp [insertBefore]⟩

/-- A list that is not found has an empty place, where it is inserted. -/
theorem place_new {cm : CommunityListMaster} (missing : communityListLookup cm name = none) :
    ∃ others put, Place name others put ∧ put [] = cm ∧
      communityListInsert cm name = put [⟨name, []⟩] := by
  obtain ⟨num, str⟩ := cm
  rw [communityListLookup, Option.or_eq_none_iff] at missing
  obtain ⟨no_number, no_string⟩ := missing
  have part {before after : List CommunityList} (absent : find name (before ++ after) = none) :
      find name before = none := by
    rw [find_none] at absent ⊢
    exact fun list inside => absent list (List.mem_append_left after inside)
  unfold communityListInsert
  cases nameNumber name with
  | some number =>
    obtain ⟨before, after, split, inserted⟩ := insertBefore_spec
      (fun point => decide (number ≤ atol point.name)) (⟨name, []⟩ : CommunityList) num
    dsimp only at no_number ⊢
    rw [split] at no_number
    refine ⟨_, _, place_num after str (part no_number), ?_, ?_⟩
    · rw [List.append_nil, ← split]
    · rw [inserted]
  | none =>
    obtain ⟨before, after, split, inserted⟩ := insertBefore_spec
      (fun point => !decide (point.name < name)) (⟨name, []⟩ : CommunityList) str
    rw [split] at no_string
    refine ⟨_, _, place_str after no_number (part no_string), ?_, ?_⟩
    · rw [List.append_nil, ← split]
    · rw [inserted]

/-! ## Entries -/

/-- The value of an entry, if it has one. -/
def CommunityEntry.value (entry : CommunityEntry) : Option Value :=
  if entry.any then none
  else match entry.style with
    | .standard | .extStandard => some entry.u
    | .expanded | .extExpanded => entry.config.map .str

/-- A value is what entries of a style hold. -/
def Style.Holds : Style → Value → Prop
  | .standard, .com _ => True
  | .extStandard, .ecom _ => True
  | .expanded, .str _ => True
  | .extExpanded, .str _ => True
  | _, _ => False

/-- An entry is of a style: it holds a value of the style, or none and no
pointer to one. -/
def CommunityEntry.Of (style : Style) (entry : CommunityEntry) : Prop :=
  entry.style = style ∧
    ((entry.any = true ∧ entry.u = .null ∧ entry.config = none) ∨
      ∃ value, entry.value = some value ∧ style.Holds value)

/-- `community_list_entry_lookup` may compare an entry with a value: a value with
one of the entry's style, and no value with one where `community_cmp` does it. -/
def Comparable (entry : CommunityEntry) (arg : Value) : Prop :=
  if entry.any then entry.style = .standard else entry.style.Holds arg

/-- A deletion is aimed: every entry up to the first of the value can be compared
with it, and that one has the direction asked for. -/
def Aimed (arg : Value) (direct : Direct) : List CommunityEntry → Prop
  | [] => True
  | entry :: rest =>
    Comparable entry arg ∧
      (entry.value = some arg ∧ entry.direct = direct ∨
        entry.value ≠ some arg ∧ Aimed arg direct rest)

variable {arg : Value}

/-- `arg` points to something. -/
theorem Style.Holds.ne_null {style : Style} (holds : style.Holds arg) : arg ≠ .null := by
  rintro rfl
  cases style <;> exact holds

/-- Where the comparison is allowed, it finds the entries of the value. -/
theorem entryCmp_spec {style : Style} {entry : CommunityEntry} (of : entry.Of style)
    (comparable : Comparable entry arg) (present : arg ≠ .null) :
    entryCmp entry arg = some (decide (entry.value = some arg)) := by
  obtain ⟨direct, own, any, u, config, reg⟩ := entry
  obtain ⟨rfl, ⟨rfl, rfl, rfl⟩ | ⟨value, is_value, holds⟩⟩ := of
  · have standard : own = .standard := comparable
    subst standard
    cases arg <;> first | exact absurd rfl present | rfl
  · cases any with
    | true => cases is_value
    | false =>
      change own.Holds arg at comparable
      cases own with
      | standard =>
        cases is_value
        cases u <;> cases arg <;> first | exact holds.elim | exact comparable.elim | simp [entryCmp,
          communityCmp, CommunityEntry.value]
      | extStandard =>
        cases is_value
        cases u <;> cases arg <;> first | exact holds.elim | exact comparable.elim | simp [entryCmp,
          ecommunityCmp, CommunityEntry.value]
      | expanded =>
        obtain ⟨text, rfl, rfl⟩ := Option.map_eq_some_iff.mp is_value
        cases arg <;> first | exact comparable.elim | simp [entryCmp, configCmp,
          CommunityEntry.value]
      | extExpanded =>
        obtain ⟨text, rfl, rfl⟩ := Option.map_eq_some_iff.mp is_value
        cases arg <;> first | exact comparable.elim | simp [entryCmp, configCmp,
          CommunityEntry.value]

/-- An aimed lookup finds the first entry of the value, which has the direction. -/
theorem communityListEntryLookup_spec {style : Style} {direct : Direct}
    {entries : List CommunityEntry} (of : ∀ entry ∈ entries, entry.Of style) (present : arg ≠ .null)
    (aimed : Aimed arg direct entries) :
    (communityListEntryLookup arg direct entries = some none ∧
      ∀ entry ∈ entries, entry.value ≠ some arg) ∨
    ∃ before entry after, entries = before ++ entry :: after ∧
      communityListEntryLookup arg direct entries = some (some before.length) ∧
      entry.value = some arg ∧ entry.direct = direct := by
  induction entries with
  | nil => exact .inl ⟨rfl, nofun⟩
  | cons entry rest ih =>
    obtain ⟨comparable, ⟨same, directed⟩ | ⟨other, aimed⟩⟩ := aimed
    · have compared := entryCmp_spec (of entry List.mem_cons_self) comparable present
      refine .inr ⟨[], entry, rest, rfl, ?_, same, directed⟩
      simp [communityListEntryLookup, compared, same]
    · have compared := entryCmp_spec (of entry List.mem_cons_self) comparable present
      rcases ih (fun e inside => of e (List.mem_cons_of_mem _ inside)) aimed with
        ⟨nothing, none_of⟩ | ⟨before, found, after, rfl, at_place, same, directed⟩
      · refine .inl ⟨by simp [communityListEntryLookup, compared, other, nothing], ?_⟩
        intro e inside
        rcases List.mem_cons.mp inside with rfl | inside
        · exact other
        · exact none_of e inside
      · refine .inr ⟨entry :: before, found, after, rfl, ?_, same, directed⟩
        simp [communityListEntryLookup, compared, other, at_place]

/-- The comparison of the duplicate check is that of a lookup for the new value. -/
theorem dupCmp_eq {entry new : CommunityEntry} {value : Value} (same : entry.style = new.style)
    (is_value : new.value = some value) : dupCmp entry new = entryCmp entry value := by
  unfold CommunityEntry.value at is_value
  split at is_value
  · cases is_value
  · rw [dupCmp, entryCmp, same]
    cases own : new.style with
    | standard | extStandard =>
      rw [own] at is_value
      cases is_value
      rfl
    | expanded | extExpanded =>
      rw [own] at is_value
      obtain ⟨text, given, rfl⟩ := Option.map_eq_some_iff.mp is_value
      simp [given]

/-- The duplicate check of an entry of the style of a list. -/
theorem communityListDupCheck_spec {style : Style} {new : CommunityEntry}
    {entries : List CommunityEntry} (of : ∀ entry ∈ entries, entry.Of style)
    (new_of : new.Of style) :
    ∃ duplicate, communityListDupCheck new entries = some duplicate ∧
      (duplicate = true → ∃ entry ∈ entries, entry.direct = new.direct ∧
        entry.value = new.value) := by
  induction entries with
  | nil => exact ⟨false, rfl, nofun⟩
  | cons entry rest ih =>
    obtain ⟨duplicate, checked, is_there⟩ := ih fun e inside => of e (List.mem_cons_of_mem _ inside)
    have later : duplicate = true → ∃ e ∈ entry :: rest, e.direct = new.direct ∧
        e.value = new.value := by
      intro yes
      obtain ⟨e, inside, same⟩ := is_there yes
      exact ⟨e, List.mem_cons_of_mem _ inside, same⟩
    rw [communityListDupCheck]
    split
    · exact ⟨duplicate, checked, later⟩
    · rename_i alike
      push Not at alike
      obtain ⟨same_style, same_direct, same_any⟩ := alike
      split
      · rename_i any
        refine ⟨true, rfl, fun _ => ⟨entry, List.mem_cons_self, same_direct, ?_⟩⟩
        rw [CommunityEntry.value, if_pos any, CommunityEntry.value, if_pos (same_any ▸ any)]
      · rename_i valued
        have new_valued : ¬new.any = true := same_any ▸ valued
        obtain ⟨rfl, ⟨any, -⟩ | ⟨value, is_value, holds⟩⟩ := id new_of
        · exact absurd any new_valued
        · have comparable : Comparable entry value := by
            rw [Comparable, if_neg valued, same_style]
            exact holds
          rw [dupCmp_eq same_style is_value,
            entryCmp_spec (of entry List.mem_cons_self) comparable holds.ne_null,
            Option.bind_eq_bind, Option.bind_some]
          split
          · rename_i same
            exact ⟨true, rfl, fun _ => ⟨entry, List.mem_cons_self, same_direct,
              (of_decide_eq_true same).trans is_value.symm⟩⟩
          · exact ⟨duplicate, checked, later⟩

/-! ## Commands -/

/-- Every list of a master has entries, and all of one style. -/
def Good (cm : CommunityListMaster) : Prop :=
  ∀ list ∈ cm.lists, list.entries ≠ [] ∧
    ∃ style : Style, ∀ entry ∈ list.entries, entry.Of style

/-- A place keeps a master good when what is put into it is. -/
theorem Place.good {others : List CommunityList} {put : List CommunityList → CommunityListMaster}
    (place : Place name others put) {before after : List CommunityList} (good : Good (put before))
    (here : ∀ list ∈ after, list.entries ≠ [] ∧
      ∃ style : Style, ∀ entry ∈ list.entries, entry.Of style) : Good (put after) := by
  intro list inside
  rcases (place.lists after list).mp inside with new | old
  · exact here list new
  · exact good list ((place.lists before list).mpr (.inr old))

/-- A style is one of a kind. -/
def Kind.Has (kind : Kind) (style : Style) : Prop := style = kind.standard ∨ style = kind.expanded

section Commands

variable {regcomp : CString → Bool} {kind : Kind} {style : Style} {cm : CommunityListMaster}
  {name : CString} {direct : Direct}

theorem readValue_holds (own : kind.Has style) {str : CString} {value : Value}
    (read : readValue regcomp kind style str = some value) : style.Holds value := by
  unfold readValue at read
  split at read
  · rename_i standard
    subst standard
    cases kind with
    | community =>
      obtain ⟨com, -, rfl⟩ := Option.map_eq_some_iff.mp read
      exact trivial
    | extcommunity =>
      obtain ⟨ecom, -, rfl⟩ := Option.map_eq_some_iff.mp read
      exact trivial
  · rename_i other
    have expanded := own.resolve_left other
    split at read
    · cases read
      subst expanded
      cases kind <;> exact trivial
    · cases read

/-- A new entry is of its style, and has the direction and the value it is for. -/
theorem newEntry_spec (value : Option Value) (direct : Direct)
    (holds : ∀ v, value = some v → style.Holds v) :
    (newEntry value direct style).Of style ∧ (newEntry value direct style).direct = direct ∧
      (newEntry value direct style).value = value := by
  cases value with
  | none => exact ⟨⟨rfl, .inl ⟨rfl, rfl, rfl⟩⟩, rfl, rfl⟩
  | some v =>
    have kinds := holds v rfl
    have shown : (newEntry (some v) direct style).value = some v := by
      cases style <;> cases v <;> first | exact kinds.elim | rfl
    refine ⟨⟨?_, .inr ⟨v, shown, kinds⟩⟩, ?_, shown⟩
    · cases v <;> rfl
    · cases v <;> rfl

/-- What setting an entry does: nothing, with an error or because it is there
already, or it puts it at the end of its list. -/
inductive SetOutcome (cm : CommunityListMaster) (name : CString) (entry : CommunityEntry) :
    CommunityListMaster → Option ListError → Prop
  | refused (error : ListError) : SetOutcome cm name entry cm (some error)
  | already (list : CommunityList) (old : CommunityEntry)
      (found : communityListLookup cm name = some list) (inside : old ∈ list.entries)
      (same : old.direct = entry.direct ∧ old.value = entry.value) :
      SetOutcome cm name entry cm none
  | added (others : List CommunityList) (put : List CommunityList → CommunityListMaster)
      (list : CommunityList) (place : Place name others put) (named : list.name = name)
      (before : (list.entries = [] ∧ put [] = cm) ∨ (list.entries ≠ [] ∧ put [list] = cm))
      (of : ∀ old ∈ list.entries, old.Of entry.style) :
      SetOutcome cm name entry (put [{ list with entries := list.entries ++ [entry] }]) none

/-- Adding an entry to a list whose entries, if it has any, are of its style. -/
theorem setEntry_add (direct : Direct) {others : List CommunityList}
    {put : List CommunityList → CommunityListMaster}
    {list : CommunityList} (place : Place name others put) (named : list.name = name)
    (there : communityListGet cm name = put [list])
    (before : (list.entries = [] ∧ put [] = cm) ∨ (list.entries ≠ [] ∧ put [list] = cm))
    (own : kind.Has style) (of : ∀ old ∈ list.entries, old.Of style) {str : Option CString}
    (parsed : ∀ s, str = some s → readValue regcomp kind style s ≠ none) :
    ∃ cm' e, setEntry regcomp kind cm name str direct style = some (cm', e) ∧
      SetOutcome cm name (newEntry (str.bind (readValue regcomp kind style)) direct style)
        cm' e := by
  have looked : communityListLookup (put [list]) name = some list := place.lookup list named
  have no_conflict : list.entries.head?.filter (·.style ≠ style) = none := by
    rw [Option.filter_eq_none_iff]
    intro first is_first
    simpa using (of first (List.mem_of_mem_head? is_first)).1
  obtain ⟨new_of, new_direct, new_value⟩ :=
    newEntry_spec (str.bind (readValue regcomp kind style)) direct
      fun v read => by
        obtain ⟨s, -, read⟩ := Option.bind_eq_some_iff.mp read
        exact readValue_holds own read
  obtain ⟨duplicate, checked, is_there⟩ := communityListDupCheck_spec of new_of
  have text : setEntry regcomp kind cm name str direct style = some (if duplicate then
      (put [list], none) else ((put [list]).change name fun list => [{ list with
        entries :=
          list.entries ++ [newEntry (str.bind (readValue regcomp kind style)) direct style] }],
        none)) := by
    simp only [setEntry, there, looked, Option.bind_eq_bind, Option.bind_some, no_conflict]
    cases str with
    | none =>
      simp only [Option.map_none, Option.join_none, Option.bind_none] at checked ⊢
      rw [checked]
      cases duplicate <;> rfl
    | some s =>
      obtain ⟨v, read⟩ := Option.ne_none_iff_exists'.mp (parsed s rfl)
      simp only [Option.map_some, read, Option.join_some, Option.bind_some] at checked ⊢
      rw [checked]
      cases duplicate <;> rfl
  rw [text]
  cases duplicate with
  | true =>
    obtain ⟨old, inside, same⟩ := is_there rfl
    rcases before with ⟨empty, -⟩ | ⟨-, rfl⟩
    · rw [empty] at inside
      cases inside
    · exact ⟨_, _, rfl, .already list old looked inside same⟩
  | false =>
    rw [place.change list _ named]
    exact ⟨_, _, rfl, .added others put list place named before
      (fun old inside => new_of.1.symm ▸ of old inside)⟩

/-- Setting an entry whose list exists or whose value can be read. -/
theorem setEntry_spec (direct : Direct) (good : Good cm) (own : kind.Has style)
    {str : Option CString} (proper : communityListLookup cm name ≠ none ∨
      ∀ s, str = some s → readValue regcomp kind style s ≠ none) :
    ∃ cm' e, setEntry regcomp kind cm name str direct style = some (cm', e) ∧
      SetOutcome cm name (newEntry (str.bind (readValue regcomp kind style)) direct style) cm' e ∧
      (e = none → ∀ s, str = some s → readValue regcomp kind style s ≠ none) := by
  cases found : communityListLookup cm name with
  | none =>
    obtain ⟨others, put, place, empty, inserted⟩ := place_new found
    have there : communityListGet cm name = put [⟨name, []⟩] := by
      rw [communityListGet, found]
      exact inserted
    have parsed := proper.resolve_left (not_not.mpr found)
    obtain ⟨cm', e, set, outcome⟩ :=
      setEntry_add direct place rfl there (.inl ⟨rfl, empty⟩) own nofun parsed
    exact ⟨cm', e, set, outcome, fun _ => parsed⟩
  | some list =>
    obtain ⟨named, others, put, place, here⟩ := place_found found
    have there : communityListGet cm name = put [list] := by
      rw [communityListGet, found]
      exact here.symm
    have inside : list ∈ cm.lists := by
      rw [← here]
      exact (place.lists [list] list).mpr (.inl List.mem_cons_self)
    obtain ⟨filled, style', of⟩ := good list inside
    obtain ⟨first, rest, entries⟩ := List.exists_cons_of_ne_nil filled
    have first_style : first.style = style' := (of first (entries ▸ List.mem_cons_self)).1
    by_cases same : first.style = style
    · by_cases parsed : ∀ s, str = some s → readValue regcomp kind style s ≠ none
      · obtain ⟨cm', e, set, outcome⟩ := setEntry_add direct place named there
          (.inr ⟨filled, here⟩) own (by rwa [← same, first_style]) parsed
        exact ⟨cm', e, set, outcome, fun _ => parsed⟩
      · -- the value cannot be read
        push Not at parsed
        obtain ⟨s, rfl, malformed⟩ := parsed
        have no_conflict : list.entries.head?.filter (·.style ≠ style) = none := by
          simp [entries, same, Option.filter]
        refine ⟨cm, some .malformedVal, ?_, .refused _, nofun⟩
        simp only [setEntry, there, here, found, Option.bind_eq_bind, Option.bind_some, no_conflict,
          Option.map_some, malformed, Option.pure_def]
    · -- the list has entries of another style
      have conflict : list.entries.head?.filter (·.style ≠ style) = some first := by
        simp [entries, same, Option.filter]
      refine ⟨cm, _, ?_, .refused (if first.style = kind.standard then .standardConflict
        else .expandedConflict), nofun⟩
      simp only [setEntry, there, here, found, Option.bind_eq_bind, Option.bind_some, conflict,
        Option.pure_def]

/-- What unsetting does: nothing, with an error, the removal of a list, or the
removal of one entry of a list, which goes if that was its last. -/
inductive UnsetOutcome (cm : CommunityListMaster) (name : CString) (value : Option Value)
    (direct : Direct) : CommunityListMaster → Option ListError → Prop
  | refused (error : ListError)
      (missing : ∀ list entry, communityListLookup cm name = some list → entry ∈ list.entries →
        entry.direct = direct → value ≠ none → entry.value ≠ value) :
      UnsetOutcome cm name value direct cm (some error)
  | removed (others : List CommunityList) (put : List CommunityList → CommunityListMaster)
      (list : CommunityList) (before : List CommunityEntry) (entry : CommunityEntry)
      (after : List CommunityEntry) (place : Place name others put) (named : list.name = name)
      (here : put [list] = cm) (split : list.entries = before ++ entry :: after)
      (directed : entry.direct = direct) (valued : value ≠ none) (same : entry.value = value) :
      UnsetOutcome cm name value direct
        (put (if before ++ after = [] then [] else [{ list with entries := before ++ after }])) none

/-- Unsetting an entry, when it is aimed. -/
theorem unsetEntry_spec (good : Good cm) (own : kind.Has style) {str : CString}
    (aimed : ∀ list arg, communityListLookup cm name = some list →
      readValue regcomp kind style str = some arg → Aimed arg direct list.entries) :
    ∃ cm' e, unsetEntry regcomp kind cm name (some str) direct style = some (cm', e) ∧
      UnsetOutcome cm name (readValue regcomp kind style str) direct cm' e := by
  cases found : communityListLookup cm name with
  | none =>
    refine ⟨cm, some .cantFindList, by simp [unsetEntry, found], .refused _ fun list _ there => ?_⟩
    cases found.symm.trans there
  | some list =>
    cases read : readValue regcomp kind style str with
    | none =>
      exact ⟨cm, some .malformedVal, by simp [unsetEntry, found, read],
        .refused _ fun _ _ _ _ _ valued => absurd rfl valued⟩
    | some arg =>
      obtain ⟨named, others, put, place, here⟩ := place_found found
      have inside : list ∈ cm.lists := by
        rw [← here]
        exact (place.lists [list] list).mpr (.inl List.mem_cons_self)
      obtain ⟨filled, style', of⟩ := good list inside
      rcases communityListEntryLookup_spec of (readValue_holds own read).ne_null
        (aimed list arg found read) with ⟨nothing, none_of⟩ | ⟨before, entry, after,
          split, at_place,
          same, directed⟩
      · refine ⟨cm, some .cantFindList, by simp [unsetEntry, found, read, nothing],
          .refused _ fun list' entry there within _ _ => ?_⟩
        cases found.symm.trans there
        exact none_of entry within
      · have erased : list.entries.eraseIdx before.length = before ++ after := by
          rw [split, List.eraseIdx_append_of_length_le (Nat.le_refl _), Nat.sub_self]
          rfl
        refine ⟨_, none, ?_, .removed others put list before entry after place named here split
          directed nofun same⟩
        have changed := place.change list (communityListEntryDelete · before.length) named
        have deleted : communityListEntryDelete list before.length =
            if before ++ after = [] then [] else [{ list with entries := before ++ after }] := by
          simp only [communityListEntryDelete, erased]
        rw [here, deleted] at changed
        simp [unsetEntry, found, read, at_place, changed]

/-- A master stays good when an entry is set. -/
theorem SetOutcome.good {entry : CommunityEntry} {cm' : CommunityListMaster}
    {e : Option ListError} (good : Good cm) (of : entry.Of entry.style)
    (outcome : SetOutcome cm name entry cm' e) : Good cm' ∧ (e ≠ none → cm' = cm) := by
  cases outcome with
  | refused error => exact ⟨good, fun _ => rfl⟩
  | already => exact ⟨good, fun failed => absurd rfl failed⟩
  | added others put list place named before list_of =>
    refine ⟨?_, fun failed => absurd rfl failed⟩
    have fine : ∀ new ∈ [{ list with entries := list.entries ++ [entry] }], new.entries ≠ [] ∧
        ∃ style : Style, ∀ old ∈ new.entries, old.Of style := by
      intro new inside
      cases List.mem_singleton.mp inside
      refine ⟨by simp, entry.style, fun old within => ?_⟩
      rcases List.mem_append.mp within with earlier | last
      · exact list_of old earlier
      · exact List.mem_singleton.mp last ▸ of
    rcases before with ⟨-, here⟩ | ⟨-, here⟩
    · exact place.good (here ▸ good) fine
    · exact place.good (here ▸ good) fine

/-- A master stays good when an entry goes. -/
theorem UnsetOutcome.good {value : Option Value} {cm' : CommunityListMaster}
    {e : Option ListError} (good : Good cm) (outcome : UnsetOutcome cm name value direct cm' e) :
    Good cm' ∧ (e ≠ none → cm' = cm) := by
  cases outcome with
  | refused error => exact ⟨good, fun _ => rfl⟩
  | removed others put list before entry after place named here split =>
    refine ⟨place.good (here ▸ good) fun new inside => ?_, fun failed => absurd rfl failed⟩
    split at inside
    · cases inside
    · rename_i filled
      cases List.mem_singleton.mp inside
      obtain ⟨-, style, of⟩ := good list (by
        rw [← here]
        exact (place.lists [list] list).mpr (.inl List.mem_cons_self))
      refine ⟨filled, style, fun old within => of old ?_⟩
      rw [split]
      rcases List.mem_append.mp within with earlier | later
      · exact List.mem_append_left _ earlier
      · exact List.mem_append_right _ (List.mem_cons_of_mem _ later)

/-- Deleting a whole list. -/
theorem unsetEntry_all (good : Good cm) :
    ∃ cm' e, unsetEntry regcomp kind cm name none direct style = some (cm', e) ∧ Good cm' ∧
      (e ≠ none → cm' = cm) := by
  cases found : communityListLookup cm name with
  | none => exact ⟨cm, some .cantFindList, by simp [unsetEntry, found], good, fun _ => rfl⟩
  | some list =>
    obtain ⟨named, others, put, place, here⟩ := place_found found
    have changed := place.change list (fun _ => []) named
    rw [here] at changed
    exact ⟨put [], none, by simp only [unsetEntry, found, changed], place.good (here ▸ good) nofun,
      fun failed => absurd rfl failed⟩

end Commands

/-! ## Runs -/

/-- The lists of a kind. -/
def CommunityListHandler.master (ch : CommunityListHandler) : Kind → CommunityListMaster
  | .community => ch.communityList
  | .extcommunity => ch.extcommunityList

/-- The handler with other lists of a kind. -/
def CommunityListHandler.withMaster (ch : CommunityListHandler) (kind : Kind)
    (cm : CommunityListMaster) : CommunityListHandler :=
  match kind with
  | .community => { ch with communityList := cm }
  | .extcommunity => { ch with extcommunityList := cm }

/-- A style of a kind: the one whose entries hold values, or expressions. -/
def Kind.style (kind : Kind) (expanded : Bool) : Style :=
  if expanded then kind.expanded else kind.standard

/-- A call of one of the four functions. -/
inductive Call
  | set (kind : Kind) (name : CString) (str : Option CString) (direct : Direct) (expanded : Bool)
  | unset (kind : Kind) (name : CString) (str : Option CString) (direct : Direct) (expanded : Bool)

section Runs

variable (regcomp : CString → Bool)

/-- The handler after a call, and the error it returns. -/
def call (ch : CommunityListHandler) : Call → Option (CommunityListHandler × Option ListError)
  | .set .community name str direct expanded =>
    communityListSet regcomp ch name str direct (Kind.community.style expanded)
  | .set .extcommunity name str direct expanded =>
    extcommunityListSet regcomp ch name str direct (Kind.extcommunity.style expanded)
  | .unset .community name str direct expanded =>
    communityListUnset regcomp ch name str direct (Kind.community.style expanded)
  | .unset .extcommunity name str direct expanded =>
    extcommunityListUnset regcomp ch name str direct (Kind.extcommunity.style expanded)

/-- A call avoids the slips: a list it creates has a value that can be read, and
a deletion is aimed. -/
def Call.Proper (ch : CommunityListHandler) : Call → Prop
  | .set kind name str _ expanded =>
    communityListLookup (ch.master kind) name ≠ none ∨
      ∀ s, str = some s → readValue regcomp kind (kind.style expanded) s ≠ none
  | .unset _ _ none _ _ => True
  | .unset kind name (some s) direct expanded =>
    ∀ list arg, communityListLookup (ch.master kind) name = some list →
      readValue regcomp kind (kind.style expanded) s = some arg → Aimed arg direct list.entries

/-- Handlers in runs of proper calls. -/
inductive Configured : CommunityListHandler → Prop
  | init : Configured communityListInit
  | call {ch ch' : CommunityListHandler} {c : Call} {e : Option ListError}
      (before : Configured ch) (proper : c.Proper regcomp ch)
      (called : call regcomp ch c = some (ch', e)) : Configured ch'

/-- The list of a name has an entry of a value and a direction. -/
def Present (ch : CommunityListHandler) (kind : Kind) (name : CString) (value : Value)
    (direct : Direct) : Prop :=
  ∃ list entry, communityListLookup (ch.master kind) name = some list ∧ entry ∈ list.entries ∧
    entry.value = some value ∧ entry.direct = direct

end Runs

section Results

variable {regcomp : CString → Bool} {ch : CommunityListHandler} {kind : Kind} {name : CString}
  {direct : Direct} {expanded : Bool}

theorem style_own (kind : Kind) (expanded : Bool) : kind.Has (kind.style expanded) := by
  cases expanded with
  | false => exact .inl rfl
  | true => exact .inr rfl

theorem call_set (str : Option CString) :
    call regcomp ch (.set kind name str direct expanded) =
      (setEntry regcomp kind (ch.master kind) name str direct (kind.style expanded)).map
        fun result =>
        (ch.withMaster kind result.1, result.2) := by
  cases kind <;> rfl

theorem call_unset (str : Option CString) :
    call regcomp ch (.unset kind name str direct expanded) =
      (unsetEntry regcomp kind (ch.master kind) name str direct (kind.style expanded)).map
        fun result => (ch.withMaster kind result.1, result.2) := by
  cases kind <;> rfl

@[simp] theorem withMaster_self : ch.withMaster kind (ch.master kind) = ch := by cases kind <;> rfl

@[simp] theorem withMaster_withMaster (cm cm' : CommunityListMaster) :
    (ch.withMaster kind cm).withMaster kind cm' = ch.withMaster kind cm' := by cases kind <;> rfl

@[simp] theorem master_withMaster (cm : CommunityListMaster) :
    (ch.withMaster kind cm).master kind = cm := by cases kind <;> rfl

/-- A handler whose lists are all good. -/
def AllGood (ch : CommunityListHandler) : Prop := ∀ kind, Good (ch.master kind)

theorem AllGood.withMaster {cm : CommunityListMaster} (good : AllGood ch) (new : Good cm) :
    AllGood (ch.withMaster kind cm) := by
  intro other
  cases kind with
  | community => cases other with
    | community => exact new
    | extcommunity => exact good .extcommunity
  | extcommunity => cases other with
    | community => exact good .community
    | extcommunity => exact new

/-- The step of a run: a proper call returns, keeps the lists good, and changes
nothing when it fails. -/
theorem call_spec (good : AllGood ch) {c : Call} (proper : c.Proper regcomp ch) :
    ∃ ch' e, call regcomp ch c = some (ch', e) ∧ AllGood ch' ∧ (e ≠ none → ch' = ch) := by
  cases c with
  | set kind name str direct expanded =>
    obtain ⟨cm', e, set, outcome, -⟩ :=
      setEntry_spec direct (good kind) (style_own kind expanded) proper
    obtain ⟨of, -, -⟩ := newEntry_spec
      (str.bind (readValue regcomp kind (kind.style expanded))) direct fun v read => by
        obtain ⟨s, -, read⟩ := Option.bind_eq_some_iff.mp read
        exact readValue_holds (style_own kind expanded) read
    obtain ⟨kept, unchanged⟩ := outcome.good (good kind) (of.1.symm ▸ of)
    refine ⟨ch.withMaster kind cm', e, by rw [call_set, set, Option.map_some], good.withMaster kept,
      fun failed => by rw [unchanged failed, withMaster_self]⟩
  | unset kind name str direct expanded =>
    cases str with
    | none =>
      obtain ⟨cm', e, unset, kept, unchanged⟩ := @unsetEntry_all regcomp kind (kind.style expanded)
        _ name direct (good kind)
      exact ⟨ch.withMaster kind cm', e, by rw [call_unset, unset, Option.map_some],
        good.withMaster kept, fun failed => by rw [unchanged failed, withMaster_self]⟩
    | some s =>
      obtain ⟨cm', e, unset, outcome⟩ :=
        unsetEntry_spec (good kind) (style_own kind expanded) proper
      obtain ⟨kept, unchanged⟩ := outcome.good (good kind)
      exact ⟨ch.withMaster kind cm', e, by rw [call_unset, unset, Option.map_some],
        good.withMaster kept, fun failed => by rw [unchanged failed, withMaster_self]⟩

theorem Configured.allGood (run : Configured regcomp ch) : AllGood ch := by
  induction run with
  | init => intro kind list inside; cases kind <;> cases inside
  | call before proper called ih =>
    obtain ⟨ch', e, called', good, -⟩ := call_spec ih proper
    cases called.symm.trans called'
    exact good

/-- One entry has gone from the list of a name, and the list with its last one. -/
def Removed (ch ch' : CommunityListHandler) (kind : Kind) (name : CString) (value : Value)
    (direct : Direct) : Prop :=
  ∃ list before entry after, communityListLookup (ch.master kind) name = some list ∧
    list.entries = before ++ entry :: after ∧ entry.value = some value ∧ entry.direct = direct ∧
    ch' = ch.withMaster kind ((ch.master kind).change name fun list =>
      if before ++ after = [] then [] else [{ list with entries := before ++ after }])

/-- A proper deletion of a value succeeds exactly when there is an entry of the
value and direction, and then takes one out. -/
theorem unset_exact (good : AllGood ch) {s : CString}
    (proper : (Call.unset kind name (some s) direct expanded).Proper regcomp ch)
    {ch' : CommunityListHandler} {e : Option ListError}
    (called : call regcomp ch (.unset kind name (some s) direct expanded) = some (ch', e)) :
    match readValue regcomp kind (kind.style expanded) s with
    | none => e ≠ none
    | some value =>
      (e = none ↔ Present ch kind name value direct) ∧
        (e = none → Removed ch ch' kind name value direct) := by
  obtain ⟨cm', e', unset, outcome⟩ := unsetEntry_spec (good kind) (style_own kind expanded) proper
  rw [call_unset, unset] at called
  cases called
  generalize readValue regcomp kind (kind.style expanded) s = value at outcome
  cases outcome with
  | refused error missing =>
    cases value with
    | none => exact nofun
    | some value =>
      refine ⟨⟨nofun, fun ⟨list, entry, found, inside, same, directed⟩ => ?_⟩, nofun⟩
      exact absurd same (missing list entry found inside directed nofun)
  | removed others put list before entry after place named here split directed valued same =>
    cases value with
    | none => exact absurd rfl valued
    | some value =>
      have found : communityListLookup (ch.master kind) name = some list := by
        rw [← here]
        exact place.lookup list named
      refine ⟨⟨fun _ => ⟨list, entry, found, ?_, same, directed⟩, fun _ => rfl⟩, fun _ =>
        ⟨list, before, entry, after, found, split, same, directed, ?_⟩⟩
      · rw [split]
        exact List.mem_append_right _ List.mem_cons_self
      · have changed := place.change list (fun list =>
          if before ++ after = [] then [] else [{ list with entries := before ++ after }]) named
        rw [here] at changed
        rw [changed]

/-- An entry that stands once, at the end, is the one found there. -/
theorem last_split {α : Type} {list before after : List α} {new found : α}
    (split : list ++ [new] = before ++ found :: after) (absent : found ∉ list) :
    before ++ after = list := by
  rcases after.eq_nil_or_concat with rfl | ⟨rest, last, rfl⟩
  · obtain ⟨same, -⟩ := List.append_inj' split rfl
    rw [List.append_nil, same]
  · rw [List.concat_eq_append, ← List.cons_append, ← List.append_assoc] at split
    obtain ⟨same, -⟩ := List.append_inj' split rfl
    exact absurd (same ▸ List.mem_append_right before List.mem_cons_self) absent

/-- Unsetting undoes the setting of an entry that was not there. -/
theorem SetOutcome.undone {cm cm₁ cm₂ : CommunityListMaster} {entry : CommunityEntry}
    {value : Value} {e₁ e₂ : Option ListError} (entry_value : entry.value = some value)
    (absent : ∀ list old, communityListLookup cm name = some list → old ∈ list.entries →
      old.value = some value → old.direct ≠ entry.direct)
    (set : SetOutcome cm name entry cm₁ e₁)
    (unset : UnsetOutcome cm₁ name (some value) entry.direct cm₂ e₂) : cm₂ = cm := by
  -- where the entry was not added, it is not there to be removed
  have nothing (same : cm₁ = cm) : cm₂ = cm := by
    subst same
    cases unset with
    | refused => rfl
    | removed others put list before old after place named here split directed valued same =>
      have found : communityListLookup cm₁ name = some list := here ▸ place.lookup list named
      refine absurd directed (absent list old found ?_ same)
      rw [split]
      exact List.mem_append_right _ List.mem_cons_self
  cases set with
  | refused => exact nothing rfl
  | already => exact nothing rfl
  | added others put list place named before of =>
    have looked := place.lookup { list with entries := list.entries ++ [entry] } named
    generalize after_set : put [{ list with entries := list.entries ++ [entry] }] = cm₁ at *
    cases unset with
    | refused error missing =>
      refine absurd entry_value (missing _ _ looked ?_ rfl nofun)
      exact List.mem_append_right _ List.mem_cons_self
    | removed others' put' list' before' old after place' named' here split directed valued same =>
      have found : communityListLookup cm₁ name = some list' := here ▸ place'.lookup list' named'
      cases looked.symm.trans found
      have not_there : old ∉ list.entries := by
        intro inside
        rcases before with ⟨empty, -⟩ | ⟨-, was⟩
        · rw [empty] at inside
          cases inside
        · exact absurd directed (absent list old (was ▸ place.lookup list named) inside same)
      have rest := last_split split not_there
      -- both places are that of the name
      have left : cm₁.change name (fun _ => if before' ++ after = [] then []
          else [{ list with entries := before' ++ after }]) =
            put (if before' ++ after = [] then []
              else [{ list with entries := before' ++ after }]) :=
        after_set ▸ place.change _ _ named
      have right : cm₁.change name (fun _ => if before' ++ after = [] then []
          else [{ list with entries := before' ++ after }]) =
            put' (if before' ++ after = [] then []
              else [{ list with entries := before' ++ after }]) :=
        here ▸ place'.change _ _ named'
      rw [right] at left
      refine left.trans ?_
      rw [rest]
      rcases before with ⟨empty, was⟩ | ⟨filled, was⟩
      · rw [if_pos empty, was]
      · rw [if_neg filled, was]

/-- Setting a value that is not there and then unsetting it leaves no trace. -/
theorem set_unset (good : AllGood ch) {s : CString}
    (absent : ∀ value, readValue regcomp kind (kind.style expanded) s = some value →
      ¬Present ch kind name value direct)
    (proper : (Call.set kind name (some s) direct expanded).Proper regcomp ch)
    {ch₁ ch₂ : CommunityListHandler} {e₁ e₂ : Option ListError}
    (set : call regcomp ch (.set kind name (some s) direct expanded) = some (ch₁, e₁))
    (proper' : (Call.unset kind name (some s) direct expanded).Proper regcomp ch₁)
    (unset : call regcomp ch₁ (.unset kind name (some s) direct expanded) = some (ch₂, e₂)) :
    ch₂ = ch := by
  obtain ⟨cm₁, e, set', outcome, read⟩ :=
    setEntry_spec direct (good kind) (style_own kind expanded) proper
  obtain ⟨ch₁', e₁', set'', good₁, unchanged⟩ := call_spec good proper
  cases set.symm.trans set''
  have master : ch₁ = ch.withMaster kind cm₁ ∧ e₁ = e := by
    rw [call_set, set', Option.map_some] at set
    simpa [eq_comm] using set
  obtain ⟨rfl, rfl⟩ := master
  obtain ⟨cm₂, e', unset', outcome'⟩ :=
    unsetEntry_spec (good₁ kind) (style_own kind expanded) proper'
  rw [master_withMaster] at outcome'
  rw [call_unset, unset', Option.map_some, withMaster_withMaster] at unset
  cases unset
  cases is_value : readValue regcomp kind (kind.style expanded) s with
  | none =>
    have failed : e₁ ≠ none := fun fine => read fine s rfl is_value
    rw [is_value] at outcome'
    cases outcome' with
    | refused => exact unchanged failed
    | removed _ _ _ _ _ _ _ _ _ _ _ valued => exact absurd rfl valued
  | some value =>
    obtain ⟨-, new_direct, new_value⟩ := newEntry_spec (some value) direct
      fun v same => readValue_holds (style_own kind expanded) (is_value.trans same)
    rw [Option.bind_some, is_value] at outcome
    rw [is_value, ← new_direct] at outcome'
    have restored := outcome.undone new_value (fun list old found inside same directed =>
      absent value is_value ⟨list, old, found, inside, same, directed.trans new_direct⟩) outcome'
    rw [restored, withMaster_self]

/-- In a run of proper calls no list is ever empty. A proper call returns, and
leaves everything as it was if it fails. Unsetting a value takes out exactly one
entry, of that value and direction, and fails if there is none. Setting a value
that is not there and unsetting it again restores what was. -/
theorem configured_exactly (run : Configured regcomp ch) :
    (∀ kind, ∀ list ∈ (ch.master kind).lists, list.entries ≠ []) ∧
    (∀ c, c.Proper regcomp ch → ∃ ch' e, call regcomp ch c = some (ch', e) ∧
      (e ≠ none → ch' = ch)) ∧
    (∀ kind name s direct expanded ch' e,
      (Call.unset kind name (some s) direct expanded).Proper regcomp ch →
      call regcomp ch (.unset kind name (some s) direct expanded) = some (ch', e) →
      match readValue regcomp kind (kind.style expanded) s with
      | none => e ≠ none
      | some value =>
        (e = none ↔ Present ch kind name value direct) ∧
          (e = none → Removed ch ch' kind name value direct)) ∧
    ∀ kind name s direct expanded ch₁ e₁ ch₂ e₂,
      (∀ value, readValue regcomp kind (kind.style expanded) s = some value →
        ¬Present ch kind name value direct) →
      (Call.set kind name (some s) direct expanded).Proper regcomp ch →
      call regcomp ch (.set kind name (some s) direct expanded) = some (ch₁, e₁) →
      (Call.unset kind name (some s) direct expanded).Proper regcomp ch₁ →
      call regcomp ch₁ (.unset kind name (some s) direct expanded) = some (ch₂, e₂) →
      ch₂ = ch := by
  have good := run.allGood
  refine ⟨fun kind list inside => (good kind list inside).1, fun c proper => ?_,
    fun kind name s direct expanded ch' e proper called => unset_exact good proper called,
    fun kind name s direct expanded ch₁ e₁ ch₂ e₂ absent proper set proper' unset =>
      set_unset good absent proper set proper' unset⟩
  obtain ⟨ch', e, called, -, unchanged⟩ := call_spec good proper
  exact ⟨ch', e, called, unchanged⟩

end Results

/-- A list with one entry for a value. -/
def sampleHandler : CommunityListHandler :=
  ⟨⟨[⟨"1".toList, [⟨.deny, .standard, false, .com [0xfde80001], none, none⟩]⟩], []⟩, ⟨[], []⟩⟩

/-- The list is set, and the value with the other direction after it. -/
theorem configured_exactly_sample :
    Configured (fun _ => true) sampleHandler ∧
      (∀ kind, ∀ list ∈ (sampleHandler.master kind).lists, list.entries ≠ []) ∧
      ∃ ch' e, call (fun _ => true) sampleHandler
        (.set .community "1".toList (some "65000:1".toList) .permit false) = some (ch', e) ∧
        (e ≠ none → ch' = sampleHandler) := by
  have run : Configured (fun _ => true) sampleHandler := by
    refine .call (c := .set .community "1".toList (some "65000:1".toList) .deny false) (e := none)
      .init (.inr fun s same => ?_) (by decide +kernel)
    cases same
    decide +kernel
  obtain ⟨filled, fails, -, -⟩ := configured_exactly run
  exact ⟨run, filled, fails _ (.inl (by decide +kernel))⟩

/-- A malformed value leaves a list without entries behind. A value is taken out
with the other direction than the one given. And with an entry for any community
in front, an extended community cannot be looked up at all. -/
theorem commands_leave_traces :
    call (fun _ => true) communityListInit
        (.set .community "1".toList (some "65000:x".toList) .permit false) =
      some (⟨⟨[⟨"1".toList, []⟩], []⟩, ⟨[], []⟩⟩, some .malformedVal) ∧
    call (fun _ => true) sampleHandler
        (.unset .community "1".toList (some "65000:1".toList) .permit false) =
      some (communityListInit, none) ∧
    ∃ ch, call (fun _ => true) communityListInit
        (.set .extcommunity "1".toList none .permit false) = some (ch, none) ∧
      call (fun _ => true) ch
        (.unset .extcommunity "1".toList (some "rt 100:1".toList) .permit false) = none := by
  refine ⟨by decide +kernel, by decide +kernel,
    ⟨⟨[], []⟩, ⟨[⟨"1".toList, [⟨.permit, .extStandard, true, .null, none, none⟩]⟩], []⟩⟩,
    by decide +kernel, by decide +kernel⟩

end Bgpd.CommunityLists
