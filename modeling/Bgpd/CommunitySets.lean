import Bgpd.Announce
import Bgpd.CommunityText
import Bgpd.Runs
import Mathlib.Data.List.Sort

/-!
# Communities as sets

The daemon keeps a set of communities as an array in ascending order without
repetition, so that two of them are the same set exactly when the octets are the
same, and one pass over both arrays tells whether one set holds the other.

Extended communities are eight octets each in an array of octets. The pass of
`ecommunity_match` counts values but takes the counters as places of octets, so that
it compares what begins at the first octets of both arrays. The clauses that set a
route target or a site of origin put the values of the clause behind those of the
route without sorting.
-/

namespace Bgpd.CommunitySets

open Octets CommunityText PolicyClauses Announce AttrParse Runs

/-! ## The functions -/

/-- In ascending order without repetition. -/
abbrev Ascending {w : Nat} (com : List (BitVec w)) : Prop := com.Pairwise (· < ·)

/-- `community_add_val`. -/
def communityAddVal (com : List U32) (val : U32) : List U32 := com ++ [val]

/-- `community_include`. -/
def communityInclude : List U32 → U32 → Bool
  | [], _ => false
  | c :: com, val => if val = c then true else communityInclude com val

/-- The loop of `community_uniq_sort`. -/
def communityUniq : List U32 → List U32 → List U32
  | [], new => new
  | val :: com, new =>
    communityUniq com (if communityInclude new val then new else communityAddVal new val)

/-- `community_uniq_sort`. -/
def communityUniqSort (com : List U32) : List U32 := (communityUniq com []).insertionSort (· ≤ ·)

/-- `community_del_val`: the first of the kind. -/
def communityDelVal : List U32 → U32 → List U32
  | [], _ => []
  | c :: com, val => if c = val then com else c :: communityDelVal com val

/-- `community_delete`. -/
def communityDelete (com1 com2 : List U32) : List U32 := com2.foldl communityDelVal com1

/-- `community_merge`. -/
def communityMerge (com1 com2 : List U32) : List U32 := com1 ++ com2

/-- `community_cmp`. -/
def communityCmp : Option (List U32) → Option (List U32) → Bool
  | none, none => true
  | some com1, some com2 => com1.length = com2.length && com1 = com2
  | _, _ => false

/-- The loop of both matches, `left` turns before the end of the first array: how many
values of the second are found. -/
def matchLoop (same : Nat → Nat → Bool) (size2 : Nat) : Nat → Nat → Nat → Nat
  | 0, _, j => j
  | left + 1, i, j =>
    if j < size2 then matchLoop same size2 left (i + 1) (if same i j then j + 1 else j) else j

/-- The text of both matches, for what is compared at two counters. -/
def communitiesMatch {α : Type} (same : List α → List α → Nat → Nat → Bool) :
    Option (List α) → Option (List α) → Bool
  | none, none => true
  | some com1, some com2 =>
    if com1.length < com2.length then false
    else matchLoop (same com1 com2) com2.length com1.length 0 0 = com2.length
  | _, _ => false

/-- `community_match`. -/
def communityMatch : Option (List U32) → Option (List U32) → Bool :=
  communitiesMatch fun com1 com2 i j => com1[i]? = com2[j]?

/-- The eight octets from `ecom->val + i` on. -/
def octetsFrom (ecom : List (BitVec 64)) (i : Nat) : List U8 :=
  ((ecom.flatMap putEcommunity).drop i).take 8

/-- `ecommunity_match`. -/
def ecommunityMatch : Option (List (BitVec 64)) → Option (List (BitVec 64)) → Bool :=
  communitiesMatch fun ecom1 ecom2 i j => octetsFrom ecom1 i = octetsFrom ecom2 j

/-- `ecommunity_uniq_sort`. -/
def ecommunityUniqSort (ecom : List (BitVec 64)) : List (BitVec 64) :=
  ecom.foldl ecommunityAddVal []

/-- `ecommunity_merge`. -/
def ecommunityMerge (ecom1 ecom2 : List (BitVec 64)) : List (BitVec 64) := ecom1 ++ ecom2

/-! ## Ascending lists -/

section Ascending

variable {w : Nat} {a b : List (BitVec w)}

theorem ascending_nodup (ordered : Ascending a) : a.Nodup := by
  refine ordered.imp fun {x y} less same => ?_
  rw [same] at less
  exact BitVec.lt_irrefl y less

/-- Two of them with the same members are the same list. -/
theorem ascending_ext (first : Ascending a) (second : Ascending b) : a = b ↔ ∀ x, x ∈ a ↔ x ∈ b :=
  ⟨fun same _ => same ▸ Iff.rfl, first.eq_of_mem_iff second⟩

/-- One holds the members of another exactly when the other is left of it. -/
theorem sublist_iff (first : Ascending a) (second : Ascending b) : b.Sublist a ↔ ∀ x ∈ b, x ∈ a :=
  ⟨fun inside _ member => inside.subset member, fun inside =>
    List.sublist_of_subperm_of_pairwise (List.subperm_of_subset (ascending_nodup second) inside)
      second first⟩

theorem ascending_insertionSort (distinct : a.Nodup) : Ascending (a.insertionSort (· ≤ ·)) := by
  have ordered := List.pairwise_insertionSort (· ≤ ·) a
  have nodup := (List.perm_insertionSort (· ≤ ·) a).nodup_iff.mpr distinct
  refine (ordered.and nodup).imp fun {x y} both => BitVec.lt_def.mpr ?_
  have le : x.toNat ≤ y.toNat := BitVec.le_def.mp both.1
  have ne : x.toNat ≠ y.toNat := fun same => both.2 (BitVec.eq_of_toNat_eq same)
  omega

end Ascending

/-! ## Sorting and deleting -/

theorem communityInclude_iff (com : List U32) (val : U32) :
    communityInclude com val = true ↔ val ∈ com := by
  induction com with
  | nil => simp [communityInclude]
  | cons c com ih => by_cases same : val = c <;> simp [communityInclude, same, ih]

theorem communityUniq_spec (com : List U32) {new : List U32} (distinct : new.Nodup) :
    (communityUniq com new).Nodup ∧ ∀ x, x ∈ communityUniq com new ↔ x ∈ new ∨ x ∈ com := by
  induction com generalizing new with
  | nil => exact ⟨distinct, fun x => by simp [communityUniq]⟩
  | cons val com ih =>
    unfold communityUniq
    by_cases there : val ∈ new
    · rw [if_pos ((communityInclude_iff new val).mpr there)]
      obtain ⟨nodup, members⟩ := ih distinct
      refine ⟨nodup, fun x => (members x).trans ?_⟩
      rw [List.mem_cons]
      constructor
      · exact Or.imp_right .inr
      · rintro (old | rfl | rest)
        · exact .inl old
        · exact .inl there
        · exact .inr rest
    · rw [if_neg fun found => there ((communityInclude_iff new val).mp found)]
      have longer : (communityAddVal new val).Nodup :=
        distinct.append (List.nodup_singleton val) fun x old one =>
          there (List.mem_singleton.mp one ▸ old)
      obtain ⟨nodup, members⟩ := ih longer
      refine ⟨nodup, fun x => (members x).trans ?_⟩
      rw [communityAddVal, List.mem_append, List.mem_singleton, List.mem_cons, or_assoc]

/-- `community_uniq_sort` puts the same members in order, each once. -/
theorem communityUniqSort_spec (com : List U32) :
    Ascending (communityUniqSort com) ∧ ∀ x, x ∈ communityUniqSort com ↔ x ∈ com := by
  obtain ⟨nodup, members⟩ := communityUniq_spec com List.nodup_nil
  refine ⟨ascending_insertionSort nodup, fun x => ?_⟩
  rw [communityUniqSort, List.mem_insertionSort, members]
  simp

/-- It is the sort that the other modules write at once. -/
theorem communityUniqSort_eq (com : List U32) :
    PolicyClauses.communityUniqSort com = communityUniqSort com := by
  obtain ⟨ascending, members⟩ := communityUniqSort_spec com
  refine (ascending_ext (ascending_insertionSort com.nodup_dedup) ascending).mpr fun x => ?_
  rw [members, List.mem_insertionSort, List.mem_dedup]

variable {com : List U32}

theorem communityDelVal_eq (distinct : com.Nodup) (val : U32) :
    communityDelVal com val = com.filter (· ≠ val) := by
  induction com with
  | nil => rfl
  | cons c com ih =>
    obtain ⟨new, distinct⟩ := List.nodup_cons.mp distinct
    unfold communityDelVal
    by_cases same : c = val
    · subst same
      rw [if_pos rfl, List.filter_cons_of_neg (by simp)]
      refine (List.filter_eq_self.mpr fun x member => ?_).symm
      exact decide_eq_true fun same => new (same ▸ member)
    · rw [if_neg same, List.filter_cons_of_pos (by simpa using same), ih distinct]

/-- `community_delete` leaves exactly the members that the other set does not have. -/
theorem communityDelete_eq {com1 : List U32} (distinct : com1.Nodup) (com2 : List U32) :
    communityDelete com1 com2 = com1.filter (· ∉ com2) := by
  induction com2 generalizing com1 with
  | nil => simp [communityDelete]
  | cons val com2 ih =>
    have first := communityDelVal_eq distinct val
    show communityDelete (communityDelVal com1 val) com2 = _
    rw [first, ih (distinct.filter _), List.filter_filter]
    refine List.filter_congr fun x _ => ?_
    rw [← Bool.decide_and, decide_eq_decide, List.mem_cons, not_or, and_comm]

/-! ## Matching -/

/-- The loop finds all of the second array exactly when it is left of the first. -/
theorem matchLoop_iff {α : Type} [DecidableEq α] (xs ys : List α) {same : Nat → Nat → Bool}
    (means : ∀ i j (inside : i < xs.length) (inside' : j < ys.length),
      same i j = true ↔ xs[i] = ys[j]) {left i j : Nat} (turns : i + left = xs.length)
    (found : j ≤ ys.length) :
    matchLoop same ys.length left i j = ys.length ↔ (ys.drop j).Sublist (xs.drop i) := by
  induction left generalizing i j with
  | zero =>
    have ended : xs.drop i = [] := List.drop_eq_nil_of_le turns.ge
    rw [matchLoop, ended, List.sublist_nil, List.drop_eq_nil_iff]
    omega
  | succ left ih =>
    unfold matchLoop
    by_cases more : j < ys.length
    · have inside : i < xs.length := by omega
      rw [if_pos more, List.drop_eq_getElem_cons more, List.drop_eq_getElem_cons inside]
      by_cases equal : xs[i] = ys[j]
      · rw [if_pos ((means i j inside more).mpr equal), ih (by omega) more, equal,
          List.cons_sublist_cons]
      · rw [if_neg fun found => equal ((means i j inside more).mp found), ih (by omega) found,
          List.drop_eq_getElem_cons more, List.cons_sublist_cons']
        simp [Ne.symm equal]
    · rw [if_neg more, List.drop_eq_nil_of_le (Nat.not_lt.mp more)]
      exact iff_of_true (by omega) (List.nil_sublist _)

/-- Both matches, for lists of what they compare. -/
theorem communitiesMatch_iff {α β : Type} [DecidableEq β]
    {same : List α → List α → Nat → Nat → Bool}
    {com1 com2 : List α} (xs ys : List β) (size : xs.length = com1.length)
    (size' : ys.length = com2.length)
    (means : ∀ i j (inside : i < xs.length) (inside' : j < ys.length),
      same com1 com2 i j = true ↔ xs[i] = ys[j]) :
    communitiesMatch same (some com1) (some com2) = true ↔ ys.Sublist xs := by
  unfold communitiesMatch
  dsimp only
  by_cases short : com1.length < com2.length
  · rw [if_pos short]
    refine iff_of_false Bool.false_ne_true fun inside => ?_
    have := inside.length_le
    omega
  · rw [if_neg short, decide_eq_true_iff, ← size, ← size',
      matchLoop_iff xs ys means (Nat.zero_add _)
      (Nat.zero_le _)]
    simp

theorem communityMatch_iff (com1 com2 : List U32) :
    communityMatch (some com1) (some com2) = true ↔ com2.Sublist com1 := by
  refine communitiesMatch_iff com1 com2 rfl rfl fun i j inside inside' => ?_
  rw [decide_eq_true_iff, List.getElem?_eq_getElem inside, List.getElem?_eq_getElem inside',
    Option.some.injEq]

/-- The eight octets from each of the first octets on, as many as there are values. -/
def windows (ecom : List (BitVec 64)) : List (List U8) :=
  (List.range ecom.length).map (octetsFrom ecom)

theorem ecommunityMatch_iff (ecom1 ecom2 : List (BitVec 64)) :
    ecommunityMatch (some ecom1) (some ecom2) = true ↔ (windows ecom2).Sublist (windows ecom1) := by
  refine communitiesMatch_iff _ _ (by simp [windows]) (by simp [windows]) fun i j inside inside' =>
    ?_
  simp [windows]

/-- The octets from the first octets of the second on stand together from one of the first
octets of the first on. -/
def Together (ecom1 ecom2 : List (BitVec 64)) : Prop :=
  ∃ k, k + ecom2.length ≤ ecom1.length ∧
    ∀ j < ecom2.length, octetsFrom ecom1 (k + j) = octetsFrom ecom2 j

/-- The first octets tell which values are there: all are, and their octets stand together, or
one is missing, and so is what begins at one of the first octets. -/
def Tells (ecom1 ecom2 : List (BitVec 64)) : Prop :=
  (∀ x ∈ ecom2, x ∈ ecom1) ∧ Together ecom1 ecom2 ∨
    ¬(∀ x ∈ ecom2, x ∈ ecom1) ∧ (ecom1.length < ecom2.length ∨
      ∃ j < ecom2.length, ∀ i < ecom1.length, octetsFrom ecom1 i ≠ octetsFrom ecom2 j)

/-- No seven octets begin at two of the first octets, or at one of them and the next after them. -/
def Distinct (ecom : List (BitVec 64)) : Prop :=
  ((List.range (ecom.length + 1)).map fun i => (octetsFrom ecom i).take 7).Nodup

section FirstOctets

variable {ecom1 ecom2 : List (BitVec 64)}

/-- What begins one octet later starts with the last seven of the eight. -/
theorem octetsFrom_succ (ecom : List (BitVec 64)) (i : Nat) :
    (octetsFrom ecom (i + 1)).take 7 = (octetsFrom ecom i).drop 1 := by
  unfold octetsFrom
  rw [List.drop_take, List.drop_drop, List.take_take]
  rfl

theorem windows_of_together (together : Together ecom1 ecom2) :
    (windows ecom2).Sublist (windows ecom1) := by
  obtain ⟨k, inside, same⟩ := together
  obtain ⟨rest, length⟩ := Nat.exists_eq_add_of_le inside
  have there : windows ecom2 = ((List.range ecom2.length).map (k + ·)).map (octetsFrom ecom1) := by
    rw [windows, List.map_map]
    exact List.map_congr_left fun j member => (same j (List.mem_range.mp member)).symm
  rw [there, windows, length, List.range_add, List.range_add]
  exact ((List.sublist_append_right _ _).trans (List.sublist_append_left _ _)).map _

/-- Where no seven octets begin at two places, the first seven of what is found next can only
stand one octet later, so all that is found stands together. -/
theorem together_of_found (plain : ecom2.length ≤ 1 ∨ Distinct ecom1)
    (length : ecom2.length ≤ ecom1.length)
    (found : ∀ j < ecom2.length, ∃ i < ecom1.length, octetsFrom ecom1 i = octetsFrom ecom2 j) :
    Together ecom1 ecom2 := by
  rcases Nat.eq_zero_or_pos ecom2.length with empty | some_
  · exact ⟨0, by omega, fun j more => by omega⟩
  obtain ⟨k, first, same⟩ := found 0 some_
  have each (j : Nat) (more : j < ecom2.length) :
      k + j < ecom1.length ∧ octetsFrom ecom1 (k + j) = octetsFrom ecom2 j := by
    induction j with
    | zero => exact ⟨first, same⟩
    | succ j ih =>
      obtain ⟨below, before⟩ := ih (by omega)
      obtain ⟨i, inside, here⟩ := found (j + 1) more
      have place : i = k + j + 1 := by
        refine List.inj_on_of_nodup_map (plain.resolve_left (by omega))
          (List.mem_range.mpr (by omega)) (List.mem_range.mpr (by omega)) ?_
        calc (octetsFrom ecom1 i).take 7
            = (octetsFrom ecom2 j).drop 1 := by rw [here, octetsFrom_succ]
          _ = (octetsFrom ecom1 (k + j)).drop 1 := by rw [before]
          _ = (octetsFrom ecom1 (k + j + 1)).take 7 := (octetsFrom_succ ecom1 _).symm
      subst place
      exact ⟨inside, here⟩
  have last := (each (ecom2.length - 1) (by omega)).1
  exact ⟨k, by omega, fun j more => (each j more).2⟩

theorem found_of_windows (inside : (windows ecom2).Sublist (windows ecom1)) :
    ecom2.length ≤ ecom1.length ∧
      ∀ j < ecom2.length, ∃ i < ecom1.length, octetsFrom ecom1 i = octetsFrom ecom2 j := by
  refine ⟨by simpa [windows] using inside.length_le, fun j more => ?_⟩
  have there := inside.subset (List.mem_map_of_mem (List.mem_range.mpr more))
  obtain ⟨i, below, same⟩ := List.mem_map.mp there
  exact ⟨i, List.mem_range.mp below, same⟩

/-- The pass is right where the first octets tell the same as the values. -/
theorem ecommunityMatch_right (tells : Tells ecom1 ecom2) :
    ecommunityMatch (some ecom1) (some ecom2) = true ↔ ∀ x ∈ ecom2, x ∈ ecom1 := by
  rw [ecommunityMatch_iff]
  rcases tells with ⟨all, together⟩ | ⟨missing, misses⟩
  · exact iff_of_true (windows_of_together together) all
  · refine iff_of_false (fun inside => ?_) missing
    obtain ⟨length, found⟩ := found_of_windows inside
    rcases misses with short | ⟨j, more, differ⟩
    · omega
    · obtain ⟨i, below, same⟩ := found j more
      exact differ i below same

/-- Where the first octets do not repeat, it is right nowhere else. -/
theorem tells_of_right (plain : ecom2.length ≤ 1 ∨ Distinct ecom1)
    (right : ecommunityMatch (some ecom1) (some ecom2) = true ↔ ∀ x ∈ ecom2, x ∈ ecom1) :
    Tells ecom1 ecom2 := by
  rw [ecommunityMatch_iff] at right
  by_cases all : ∀ x ∈ ecom2, x ∈ ecom1
  · obtain ⟨length, found⟩ := found_of_windows (right.mpr all)
    exact .inl ⟨all, together_of_found plain length found⟩
  · refine .inr ⟨all, ?_⟩
    by_contra! found
    exact all (right.mp (windows_of_together (together_of_found plain found.1 found.2)))

end FirstOctets

/-! ## What is interned -/

/-- The values that were interned so far. -/
structure Stored where
  communities : List (List U32)
  ecommunities : List (List (BitVec 64))

/-- One more set of communities, if there is one. -/
def Stored.community (s : Stored) (com : Option (List U32)) : Stored :=
  { s with communities := s.communities ++ com.toList }

/-- One more set of extended communities, if there is one. -/
def Stored.ecommunity (s : Stored) (ecom : Option (List (BitVec 64))) : Stored :=
  { s with ecommunities := s.ecommunities ++ ecom.toList }

/-- What an aggregate with `as_set` has of the communities of its routes, after one more. -/
def aggregateCommunity (community : Option (List U32)) (more : List U32) : Option (List U32) :=
  match community with
  | none => some more
  | some community => some (communityUniqSort (communityMerge community more))

/-- Where an interned value comes from. A value that is there already is given by its place. -/
inductive Source
  /-- `community_parse`. -/
  | parse (body : List U8)
  /-- `set community` without `additive`. -/
  | string (str : CString)
  /-- `set community` with `additive`. -/
  | additive (old : Nat) (str : CString)
  /-- `set comm-list delete`, for what the list leaves. -/
  | delete (old : Nat) (left : List U32 → List U32)
  /-- The aggregate of routes with communities. -/
  | aggregate (routes : List Nat)
  /-- `ecommunity_parse`. -/
  | extParse (body : List U8)
  /-- The compiled value of `set extcommunity`. -/
  | extString (str : CString) (type : U8)
  /-- `set extcommunity` on a route that has some. -/
  | extSet (old : Nat) (str : CString) (type : U8)

/-- One more interned value. -/
def step (s : Stored) : Source → Stored
  | .parse body =>
    s.community (if body.length % 4 ≠ 0 then none else some (communityUniqSort (words body)))
  | .string str => s.community (communityStr2com str)
  | .additive old str => s.community do
    let old ← s.communities[old]?
    let com ← communityStr2com str
    return communityUniqSort (communityMerge old com)
  | .delete old left => s.community do
    let old ← s.communities[old]?
    let new := communityUniqSort (left old)
    if new.isEmpty then none else some new
  | .aggregate routes =>
    s.community ((routes.filterMap (s.communities[·]?)).foldl aggregateCommunity none)
  | .extParse body =>
    s.ecommunity (if body.length % 8 ≠
      0 then none else some (ecommunityUniqSort (doubleWords body)))
  | .extString str type => s.ecommunity (ecommunityStr2com str type false)
  | .extSet old str type => s.ecommunity do
    let old ← s.ecommunities[old]?
    let ecom ← ecommunityStr2com str type false
    return ecommunityMerge old ecom

/-- A clause puts only greater values behind those of the route. -/
def Source.Appends (s : Stored) : Source → Prop
  | .extSet old str type => ∀ value ecom, s.ecommunities[old]? = some value →
      ecommunityStr2com str type false = some ecom → ∀ x ∈ value, ∀ y ∈ ecom, x < y
  | _ => True

/-- Every value is in order. -/
def AllAscending (s : Stored) : Prop :=
  (∀ com ∈ s.communities, Ascending com) ∧ ∀ ecom ∈ s.ecommunities, Ascending ecom

theorem ecommunityAddVal_mem (ecom : List (BitVec 64)) (eval x : BitVec 64) :
    x ∈ ecommunityAddVal ecom eval ↔ x ∈ ecom ∨ x = eval := by
  induction ecom with
  | nil => simp [ecommunityAddVal]
  | cons p rest ih =>
    unfold ecommunityAddVal
    split
    · rename_i same
      subst same
      exact ⟨.inl, fun member => member.elim id fun own => own ▸ List.mem_cons_self⟩
    · split
      · rw [List.mem_cons, or_comm]
      · rw [List.mem_cons, ih, List.mem_cons, or_assoc]

variable {ecom : List (BitVec 64)}

theorem ecommunityAddVal_ascending (ordered : Ascending ecom) (eval : BitVec 64) :
    Ascending (ecommunityAddVal ecom eval) := by
  induction ecom with
  | nil => exact List.pairwise_singleton _ _
  | cons p rest ih =>
    obtain ⟨first, ordered'⟩ := List.pairwise_cons.mp ordered
    unfold ecommunityAddVal
    split
    · exact ordered
    · rename_i differ
      split
      · rename_i before
        refine List.pairwise_cons.mpr ⟨fun x member => ?_, ordered⟩
        rcases List.mem_cons.mp member with rfl | later
        · exact before
        · exact BitVec.lt_trans before (first x later)
      · rename_i behind
        refine List.pairwise_cons.mpr ⟨fun x member => ?_, ih ordered'⟩
        rcases (ecommunityAddVal_mem rest eval x).mp member with later | rfl
        · exact first x later
        · have ne : p.toNat ≠ x.toNat := fun same => differ (BitVec.eq_of_toNat_eq same)
          rw [BitVec.lt_def] at behind ⊢
          omega

theorem foldl_ecommunityAddVal_ascending (values : List (BitVec 64)) (ordered : Ascending ecom) :
    Ascending (values.foldl ecommunityAddVal ecom) :=
  values.foldlRecOn _ ordered fun _ before eval _ => ecommunityAddVal_ascending before eval

variable {str : CString}
variable {type : U8}

theorem ecommunityLoop_ascending {keywordIncluded keyword : Bool} {fuel : Nat}
    {start : Option (List (BitVec 64))} (ordered : ∀ ecom ∈ start, Ascending ecom) :
    ∀ ecom ∈ ecommunityLoop keywordIncluded fuel str type keyword start, Ascending ecom := by
  induction fuel generalizing str type keyword start with
  | zero => exact nofun
  | succ fuel ih =>
    unfold ecommunityLoop
    cases ecommunityGettoken str with
    | none => exact ordered
    | some read =>
      obtain ⟨rest, token⟩ := read
      cases token with
      | rt => dsimp only; split; exacts [nofun, ih ordered]
      | soo => dsimp only; split; exacts [nofun, ih ordered]
      | unknown => exact nofun
      | val eval =>
        dsimp only
        split
        · exact nofun
        · refine ih fun ecom same => ?_
          cases same
          refine ecommunityAddVal_ascending ?_ _
          cases start with
          | none => exact .nil
          | some ecom => exact ordered ecom rfl

theorem communityStr2com_ascending (read : communityStr2com str = some com) : Ascending com := by
  obtain ⟨values, -, rfl⟩ := Option.map_eq_some_iff.mp read
  rw [communityUniqSort_eq]
  exact (communityUniqSort_spec values).1

theorem ecommunityStr2com_ascending (read : ecommunityStr2com str type false = some ecom) :
    Ascending ecom := by
  have empty : ∀ ecom ∈ (none : Option (List (BitVec 64))), Ascending ecom := nofun
  exact ecommunityLoop_ascending empty ecom read

theorem aggregateCommunity_ascending {values : List (List U32)} {start : Option (List U32)}
    (ordered : ∀ com ∈ values, Ascending com) (first : ∀ com ∈ start, Ascending com) :
    ∀ com ∈ values.foldl aggregateCommunity start, Ascending com := by
  induction values generalizing start with
  | nil => exact first
  | cons more values ih =>
    obtain ⟨this, rest⟩ := List.forall_mem_cons.mp ordered
    refine ih rest fun com same => ?_
    cases start with
    | none =>
      cases same
      exact this
    | some community =>
      cases same
      exact (communityUniqSort_spec _).1

/-! ## Runs -/

variable {s : Stored}

/-- Communities are in order whatever is interned. -/
theorem step_communities (ordered : ∀ com ∈ s.communities, Ascending com) (source : Source) :
    ∀ com ∈ (step s source).communities, Ascending com := by
  have adds {com : Option (List U32)} (new : ∀ value, com = some value → Ascending value) :
      ∀ value ∈ (s.community com).communities, Ascending value := by
    intro value member
    rcases List.mem_append.mp member with old | own
    · exact ordered value old
    · exact new value (Option.mem_toList.mp own)
  have sorted {com value : List U32} (same : some (communityUniqSort com) = some value) :
      Ascending value := by
    cases same
    exact (communityUniqSort_spec com).1
  cases source with
  | parse body =>
    refine adds fun value same => ?_
    split at same
    · cases same
    · exact sorted same
  | string str => exact adds fun value read => communityStr2com_ascending read
  | additive old str =>
    refine adds fun value same => ?_
    obtain ⟨before, -, same⟩ := Option.bind_eq_some_iff.mp same
    obtain ⟨com, -, same⟩ := Option.bind_eq_some_iff.mp same
    exact sorted same
  | delete old left =>
    refine adds fun value same => ?_
    obtain ⟨before, -, same⟩ := Option.bind_eq_some_iff.mp same
    dsimp only at same
    split at same
    · cases same
    · exact sorted same
  | aggregate routes =>
    have nothing : ∀ com ∈ (none : Option (List U32)), Ascending com := nofun
    refine adds fun value same => aggregateCommunity_ascending (fun com member =>
      ?_) nothing value same
    obtain ⟨i, -, there⟩ := List.mem_filterMap.mp member
    exact ordered com (List.mem_of_getElem? there)
  | extParse body => exact ordered
  | extString str type => exact ordered
  | extSet old str type => exact ordered

/-- Where everything is in order, it stays so exactly if a clause puts only greater values
behind those of the route. -/
theorem step_ascending_iff (all : AllAscending s) (source : Source) :
    AllAscending (step s source) ↔ source.Appends s := by
  have communities := step_communities all.1 source
  have adds (ecom : Option (List (BitVec 64))) :
      (∀ value ∈ (s.ecommunity ecom).ecommunities, Ascending value) ↔
        ∀ value, ecom = some value → Ascending value := by
    constructor
    · exact fun all value same => all value (List.mem_append_right _ (Option.mem_toList.mpr same))
    · intro new value member
      rcases List.mem_append.mp member with old | own
      · exact all.2 value old
      · exact new value (Option.mem_toList.mp own)
  cases source with
  | parse body => exact iff_of_true ⟨communities, all.2⟩ trivial
  | string str => exact iff_of_true ⟨communities, all.2⟩ trivial
  | additive old str => exact iff_of_true ⟨communities, all.2⟩ trivial
  | delete old left => exact iff_of_true ⟨communities, all.2⟩ trivial
  | aggregate routes => exact iff_of_true ⟨communities, all.2⟩ trivial
  | extParse body =>
    refine iff_of_true ⟨communities, (adds _).mpr fun value same => ?_⟩ trivial
    split at same
    · cases same
    · cases same
      exact foldl_ecommunityAddVal_ascending _ .nil
  | extString str type =>
    exact iff_of_true ⟨communities, (adds _).mpr fun value read => ecommunityStr2com_ascending read⟩
      trivial
  | extSet old str type =>
    constructor
    · intro after value ecom there read
      have merged := (adds _).mp after.2 (value ++ ecom) (by simp [there, read, ecommunityMerge])
      exact (List.pairwise_append.mp merged).2.2
    · intro appends
      refine ⟨communities, (adds _).mpr fun merged same => ?_⟩
      obtain ⟨value, there, same⟩ := Option.bind_eq_some_iff.mp same
      obtain ⟨ecom, read, same⟩ := Option.bind_eq_some_iff.mp same
      cases same
      exact List.pairwise_append.mpr ⟨all.2 value (List.mem_of_getElem? there),
        ecommunityStr2com_ascending read, appends value ecom there read⟩

/-- Nothing is interned yet. -/
def Stored.empty : Stored := ⟨[], []⟩

/-- Communities are sets in every run: the pass over two of them, the deletion and the
comparison are those of sets, and what is interned is in order. Extended communities are
compared like sets where they are in order; they stay so in exactly the runs in which no
clause puts a value before or among those of the route. The pass over two of them is right
where the first octets tell the same as the values, and nowhere else if the second has one
value at most or no seven octets begin at two of the first octets of the first. -/
theorem communities_are_sets (com1 com2 : List U32) (ecom1 ecom2 : List (BitVec 64))
    (sources : List Source) :
    (Ascending com1 → Ascending com2 →
      (communityMatch (some com1) (some com2) = true ↔ ∀ x ∈ com2, x ∈ com1) ∧
        communityDelete com1 com2 = com1.filter (· ∉ com2) ∧
        (communityCmp (some com1) (some com2) = true ↔ ∀ x, x ∈ com1 ↔ x ∈ com2)) ∧
    (Ascending (communityUniqSort com1) ∧ ∀ x, x ∈ communityUniqSort com1 ↔ x ∈ com1) ∧
    (Ascending ecom1 → Ascending ecom2 →
      (ecommunityCmp ecom1 ecom2 = true ↔ ∀ x, x ∈ ecom1 ↔ x ∈ ecom2)) ∧
    (Tells ecom1 ecom2 →
      (ecommunityMatch (some ecom1) (some ecom2) = true ↔ ∀ x ∈ ecom2, x ∈ ecom1)) ∧
    (ecom2.length ≤ 1 ∨ Distinct ecom1 →
      (ecommunityMatch (some ecom1) (some ecom2) = true ↔ ∀ x ∈ ecom2, x ∈ ecom1) →
      Tells ecom1 ecom2) ∧
    (∀ com ∈ (run step .empty sources).communities, Ascending com) ∧
    ((∀ front later, sources = front ++ later → AllAscending (run step .empty front)) ↔
      Guarded step (fun s source => source.Appends s) .empty sources) := by
  refine ⟨fun first second => ⟨?_, ?_, ?_⟩, communityUniqSort_spec com1, fun first second => ?_,
    ecommunityMatch_right, tells_of_right, ?_, ?_⟩
  · rw [communityMatch_iff, sublist_iff first second]
  · exact communityDelete_eq (ascending_nodup first) com2
  · rw [← ascending_ext first second, communityCmp, Bool.and_eq_true, decide_eq_true_iff,
      decide_eq_true_iff]
    exact ⟨fun both => both.2, fun same => ⟨congrArg _ same, same⟩⟩
  · rw [← ascending_ext first second, ecommunityCmp, decide_eq_true_iff]
  · exact invariant step (fun s => ∀ com ∈ s.communities, Ascending com)
      (fun s source ordered => step_communities ordered source) .empty sources nofun
  · exact everywhere_iff_guarded step (fun s source => source.Appends s) (fun _ =>
      True) AllAscending
      (fun _ _ _ => trivial) (fun _ source _ all =>
        step_ascending_iff all source) .empty sources trivial
      ⟨nofun, nofun⟩

/-- The route targets 1:1 and 2:2. -/
def sampleTargets : List (BitVec 64) := [0x0002000100000001, 0x0002000200000002]

/-- 2 is found in {1, 2} and deleted from it. The first two of three route targets are found, as
the octets do not repeat and stand at the beginning. 2:2 behind 1:1 keeps the order. -/
theorem communities_are_sets_sample :
    communityMatch (some [1, 2]) (some [2]) = true ∧ communityDelete [1, 2] [2] = [1] ∧
      ecommunityMatch (some (sampleTargets ++ [0x0002000300000003])) (some sampleTargets) = true ∧
      Tells (sampleTargets ++ [0x0002000300000003]) sampleTargets ∧
      AllAscending (run step .empty [.extString "1:1".toList 2, .extSet 0 "2:2".toList 2]) := by
  obtain ⟨plain, -, -, enough, needed, -, runs⟩ :=
    communities_are_sets [1, 2] [2] (sampleTargets ++ [0x0002000300000003]) sampleTargets
      [.extString "1:1".toList 2, .extSet 0 "2:2".toList 2]
  obtain ⟨found, deleted, -⟩ := plain (by decide) (by decide)
  have right := enough (.inl ⟨List.subset_append_left _ _, 0, by decide, by decide⟩)
  have distinct : Distinct (sampleTargets ++ [0x0002000300000003]) := by
    unfold Distinct
    decide
  have stored : (run step .empty [.extString "1:1".toList 2]).ecommunities[0]? =
      some [0x0002000100000001] := by decide
  have set : ecommunityStr2com "2:2".toList 2 false = some [0x0002000200000002] := by decide
  have greater : (Source.extSet 0 "2:2".toList 2).Appends
      (run step .empty [.extString "1:1".toList 2]) := by
    intro value ecom there read
    cases stored.symm.trans there
    cases set.symm.trans read
    simp
  exact ⟨found.mpr (by simp), deleted.trans (by decide), right.mpr (List.subset_append_left _ _),
    needed (.inr distinct) right, runs.mpr ⟨trivial, greater,
      trivial⟩ _ [] (List.append_nil _).symm⟩

/-- The second of two route targets is not found, and a clause puts 1:1 behind 2:2. -/
theorem communities_are_sets_fails :
    Ascending sampleTargets ∧ (∀ x ∈ [0x0002000200000002], x ∈ sampleTargets) ∧
      ecommunityMatch (some sampleTargets) (some [0x0002000200000002]) = false ∧
      ¬AllAscending (run step .empty [.extString "2:2".toList 2, .extSet 0 "1:1".toList 2]) := by
  refine ⟨by decide, by simp [sampleTargets], by decide, fun all => ?_⟩
  have stored :
    (run step .empty [.extString "2:2".toList 2, .extSet 0 "1:1".toList 2]).ecommunities =
      [[0x0002000200000002], [0x0002000200000002, 0x0002000100000001]] := by decide
  have wrong := all.2 [0x0002000200000002, 0x0002000100000001] (by rw [stored]; decide)
  exact absurd wrong (by decide)

end Bgpd.CommunitySets
