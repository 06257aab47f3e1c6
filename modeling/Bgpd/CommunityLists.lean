import Bgpd.CommunityText

/-!
# Community lists

`bgp_clist.c`: two masters of named lists, one for communities and one for
extended communities. A master keeps the lists whose names are numbers before the
others, each kind in order. An entry holds a value, a regular expression or, for
any community, neither.

A function has a value when it compares no null pointer, and no object of one
kind with an object of another, where the source does not allow for it.
-/

namespace Bgpd.CommunityLists

open Octets CommunityText

/-- `COMMUNITY_DENY` and `COMMUNITY_PERMIT`. -/
inductive Direct
  | deny
  | permit
  deriving DecidableEq

/-- `COMMUNITY_LIST_STANDARD` and the other kinds of entries. -/
inductive Style
  | standard
  | expanded
  | extStandard
  | extExpanded
  deriving DecidableEq

/-- `COMMUNITY_LIST_ERR_CANT_FIND_LIST` and the other errors. -/
inductive ListError
  | cantFindList
  | malformedVal
  | standardConflict
  | expandedConflict
  deriving DecidableEq

/-- What a pointer to a value points to. -/
inductive Value
  | null
  | com (com : List U32)
  | ecom (ecom : List (BitVec 64))
  | str (str : CString)
  deriving DecidableEq

/-- `struct community_entry`. A compiled expression is the pattern it was
compiled from. The string made of an extended community is left out: nothing
here reads it. -/
structure CommunityEntry where
  direct : Direct
  style : Style
  any : Bool
  u : Value
  config : Option CString
  reg : Option CString
  deriving DecidableEq

/-- `struct community_list`. -/
structure CommunityList where
  name : CString
  entries : List CommunityEntry
  deriving DecidableEq

/-- `struct community_list_master`. -/
structure CommunityListMaster where
  num : List CommunityList
  str : List CommunityList
  deriving DecidableEq

/-- `struct community_list_handler`. -/
structure CommunityListHandler where
  communityList : CommunityListMaster
  extcommunityList : CommunityListMaster
  deriving DecidableEq

/-- `community_list_init`. -/
def communityListInit : CommunityListHandler := ⟨⟨[], []⟩, ⟨[], []⟩⟩

/-! ## Lists by name -/

/-- The number a name is, in a `long`, if all its characters are digits. -/
def nameNumber (name : CString) : Option Int :=
  if name.all Char.isDigit then
    some (name.foldl (fun number c => (number * 10 + (c.toNat - '0'.toNat : Nat)).bmod (2 ^ 64)) 0)
  else none

/-- `atol` of a name of digits. -/
def atol (name : CString) : Int := min (Nat.ofDigitChars 10 name 0) (2 ^ 63 - 1)

/-- A new element before the first at which a loop stops. -/
def insertBefore {α : Type} (stop : α → Bool) (new : α) (list : List α) : List α :=
  list.takeWhile (!stop ·) ++ new :: list.dropWhile (!stop ·)

/-- `community_list_insert`. -/
def communityListInsert (cm : CommunityListMaster) (name : CString) : CommunityListMaster :=
  match nameNumber name with
  | some number =>
    { cm with
      num := insertBefore (fun point => decide (number ≤ atol point.name)) ⟨name, []⟩ cm.num }
  | none =>
    { cm with str := insertBefore (fun point => !decide (point.name < name)) ⟨name, []⟩ cm.str }

/-- The first list of a name. -/
def find (name : CString) (lists : List CommunityList) : Option CommunityList :=
  lists.find? fun list => list.name = name

/-- `community_list_lookup`. -/
def communityListLookup (cm : CommunityListMaster) (name : CString) : Option CommunityList :=
  (find name cm.num).or (find name cm.str)

/-- `community_list_get`. -/
def communityListGet (cm : CommunityListMaster) (name : CString) : CommunityListMaster :=
  match communityListLookup cm name with
  | some _ => cm
  | none => communityListInsert cm name

/-- What becomes of the lists when the first one of a name is changed. -/
def changeFirst (name : CString) (change : CommunityList → List CommunityList) :
    List CommunityList → List CommunityList
  | [] => []
  | list :: rest =>
    if list.name = name then change list ++ rest else list :: changeFirst name change rest

/-- Change the list that `community_list_lookup` finds. -/
def CommunityListMaster.change (cm : CommunityListMaster) (name : CString)
    (change : CommunityList → List CommunityList) : CommunityListMaster :=
  if (find name cm.num).isSome then { cm with num := changeFirst name change cm.num }
  else { cm with str := changeFirst name change cm.str }

/-! ## Entries -/

/-- `community_cmp`. -/
def communityCmp : Value → Value → Option Bool
  | .null, .null => some true
  | .null, _ | _, .null => some false
  | .com com1, .com com2 => some (com1 = com2)
  | _, _ => none

/-- `ecommunity_cmp`. -/
def ecommunityCmp : Value → Value → Option Bool
  | .ecom ecom1, .ecom ecom2 => some (ecom1 = ecom2)
  | _, _ => none

/-- `strcmp (config, arg) == 0`. -/
def configCmp : Option CString → Value → Option Bool
  | some config, .str arg => some (config = arg)
  | _, _ => none

/-- The comparison of `community_list_entry_lookup`. -/
def entryCmp (entry : CommunityEntry) (arg : Value) : Option Bool :=
  match entry.style with
  | .standard => communityCmp entry.u arg
  | .extStandard => ecommunityCmp entry.u arg
  | .expanded | .extExpanded => configCmp entry.config arg

/-- `community_list_entry_lookup`: the place of the entry. The direction is not
looked at. -/
def communityListEntryLookup (arg : Value) (direct : Direct) :
    List CommunityEntry → Option (Option Nat)
  | [] => some none
  | entry :: rest => do
    if ← entryCmp entry arg then some (some 0)
    else return (← communityListEntryLookup arg direct rest).map (· + 1)

/-- The comparison of `community_list_dup_check`. -/
def dupCmp (entry new : CommunityEntry) : Option Bool :=
  match entry.style with
  | .standard => communityCmp entry.u new.u
  | .extStandard => ecommunityCmp entry.u new.u
  | .expanded | .extExpanded => configCmp entry.config ((new.config.map .str).getD .null)

/-- `community_list_dup_check`. -/
def communityListDupCheck (new : CommunityEntry) : List CommunityEntry → Option Bool
  | [] => some false
  | entry :: rest =>
    if entry.style ≠ new.style ∨ entry.direct ≠ new.direct ∨ entry.any ≠ new.any then
      communityListDupCheck new rest
    else if entry.any then some true
    else do if ← dupCmp entry new then some true else communityListDupCheck new rest

/-- `community_list_entry_delete`: a list whose last entry goes, goes with it. -/
def communityListEntryDelete (list : CommunityList) (place : Nat) : List CommunityList :=
  let entries := list.entries.eraseIdx place
  if entries = [] then [] else [{ list with entries }]

/-! ## Setting and unsetting -/

/-- The two kinds of lists. -/
inductive Kind
  | community
  | extcommunity
  deriving DecidableEq

/-- The style of a kind whose entries hold values. -/
def Kind.standard : Kind → Style
  | .community => .standard
  | .extcommunity => .extStandard

/-- The style of a kind whose entries hold expressions. -/
def Kind.expanded : Kind → Style
  | .community => .expanded
  | .extcommunity => .extExpanded

section Commands

variable (regcomp : CString → Bool)

/-- What a string stands for in a list of a kind and style: a value, or itself
if it can be compiled to an expression. -/
def readValue (kind : Kind) (style : Style) (str : CString) : Option Value :=
  if style = kind.standard then
    match kind with
    | .community => (communityStr2com str).map .com
    | .extcommunity => (ecommunityStr2com str 0 true).map .ecom
  else if regcomp (magicRegexp str) then some (.str str) else none

/-- The entry for a value, or for any. -/
def newEntry (value : Option Value) (direct : Direct) (style : Style) : CommunityEntry :=
  match value with
  | none => ⟨direct, style, true, .null, none, none⟩
  | some (.str str) => ⟨direct, style, false, .null, some str, some (magicRegexp str)⟩
  | some value => ⟨direct, style, false, value, none, none⟩

/-- The text of `community_list_set` and `extcommunity_list_set`. -/
def setEntry (kind : Kind) (cm : CommunityListMaster) (name : CString) (str : Option CString)
    (direct : Direct) (style : Style) : Option (CommunityListMaster × Option ListError) := do
  let cm := communityListGet cm name
  let list ← communityListLookup cm name
  match list.entries.head?.filter (·.style ≠ style) with
  | some first =>
    return (cm, some (if first.style = kind.standard then .standardConflict else .expandedConflict))
  | none =>
    match str.map (readValue regcomp kind style) with
    | some none => return (cm, some .malformedVal)
    | value =>
      let entry := newEntry value.join direct style
      if ← communityListDupCheck entry list.entries then return (cm, none)
      else
        return (cm.change name fun list => [{ list with entries := list.entries ++ [entry] }], none)

/-- The text of `community_list_unset` and `extcommunity_list_unset`. -/
def unsetEntry (kind : Kind) (cm : CommunityListMaster) (name : CString) (str : Option CString)
    (direct : Direct) (style : Style) : Option (CommunityListMaster × Option ListError) :=
  match communityListLookup cm name with
  | none => some (cm, some .cantFindList)
  | some list =>
    match str with
    | none => some (cm.change name fun _ => [], none)
    | some str =>
      match readValue regcomp kind style str with
      | none => some (cm, some .malformedVal)
      | some arg => do
        match ← communityListEntryLookup arg direct list.entries with
        | none => return (cm, some .cantFindList)
        | some place => return (cm.change name (communityListEntryDelete · place), none)

/-- `community_list_set`. -/
def communityListSet (ch : CommunityListHandler) (name : CString) (str : Option CString)
    (direct : Direct) (style : Style) : Option (CommunityListHandler × Option ListError) :=
  (setEntry regcomp .community ch.communityList name str direct style).map fun result =>
    ({ ch with communityList := result.1 }, result.2)

/-- `community_list_unset`. -/
def communityListUnset (ch : CommunityListHandler) (name : CString) (str : Option CString)
    (direct : Direct) (style : Style) : Option (CommunityListHandler × Option ListError) :=
  (unsetEntry regcomp .community ch.communityList name str direct style).map fun result =>
    ({ ch with communityList := result.1 }, result.2)

/-- `extcommunity_list_set`. -/
def extcommunityListSet (ch : CommunityListHandler) (name : CString) (str : Option CString)
    (direct : Direct) (style : Style) : Option (CommunityListHandler × Option ListError) :=
  (setEntry regcomp .extcommunity ch.extcommunityList name str direct style).map fun result =>
    ({ ch with extcommunityList := result.1 }, result.2)

/-- `extcommunity_list_unset`. -/
def extcommunityListUnset (ch : CommunityListHandler) (name : CString) (str : Option CString)
    (direct : Direct) (style : Style) : Option (CommunityListHandler × Option ListError) :=
  (unsetEntry regcomp .extcommunity ch.extcommunityList name str direct style).map fun result =>
    ({ ch with extcommunityList := result.1 }, result.2)

end Commands

end Bgpd.CommunityLists
