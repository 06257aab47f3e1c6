import Bgpd.PathAggregate

/-!
# Putting the four-octet path back

A path that came from a two-octet neighbour is cut after a number of hops, and the
path of the other attribute put behind the cut. Where that one has more hops than the
whole path, the cut is to leave all of the path in place; but only the hops outside
confederations are counted then, while the walk counts all of them, so that what a
path with confederation segments has at its end is cut off.
-/

namespace Bgpd.PathReconcile

open Octets AsPath PathCodec PathAggregate

variable (segments : List Assegment)

/-! ## Hops -/

/-- What counts as one hop, in a confederation or outside: a member of a sequence, or a
set. -/
inductive Hop
  | as (as : U32)
  | set (as : List U32)
  | confedAs (as : U32)
  | confedSet (as : List U32)
  deriving DecidableEq, Repr

/-- The hops of a segment. -/
def segHops (seg : Assegment) : List Hop :=
  match seg.type with
  | .asSequence => seg.as.map .as
  | .asSet => [.set seg.as]
  | .asConfedSequence => seg.as.map .confedAs
  | .asConfedSet => [.confedSet seg.as]

/-- The hops of a chain, those of confederations included. -/
def hopsOf (segments : List Assegment) : List Hop := segments.flatMap segHops

/-- The AS numbers a hop brings into what is copied: a confederation sequence is copied as a
whole as soon as its first hop is. -/
def segLayers (seg : Assegment) : List (List U32) :=
  match seg.type with
  | .asSequence => seg.as.map fun as => [as]
  | .asSet => [seg.as]
  | .asConfedSequence => seg.as :: List.replicate (seg.as.length - 1) []
  | .asConfedSet => [seg.as]

/-- The AS numbers of a chain, hop by hop. -/
def layersOf (segments : List Assegment) : List (List U32) := segments.flatMap segLayers

/-- A confederation sequence lies across the place behind the first hops. -/
def Straddles (segments : List Assegment) (n : Nat) : Prop :=
  ∃ front as rest, segments = front ++ ⟨.asConfedSequence, as⟩ :: rest ∧
    (hopsOf front).length < n ∧ n < (hopsOf front).length + as.length

/-- The length of a path with its confederation segments. -/
def fullLength (path : Aspath) : Nat := aspathCountHops path + aspathCountConfeds path

/-! ## What is asked for -/

/-- What a path and the one from the other attribute are to give. -/
structure Reconciles (path as4path result : Aspath) : Prop where
  /-- The length stays, and what came in the other attribute is at the end. -/
  suffix : aspathCountHops as4path ≤ fullLength path →
    ¬ Straddles path.segments (fullLength path - aspathCountHops as4path) →
    fullLength result = fullLength path ∧ hopsOf as4path.segments <:+ hopsOf result.segments
  /-- Where the other path is too long, nothing is lost. -/
  complete : fullLength path < aspathCountHops as4path → ∀ a,
    a ∈ members path.segments ∨ a ∈ members as4path.segments → a ∈ members result.segments
  normal : Normal result.segments

/-- Where the other path is too long: each AS number behind as many hops of the path as it
has outside confederations is found among the ones before, or in the other path. -/
def NothingCut (path as4path : Aspath) : Prop :=
  fullLength path < aspathCountHops as4path →
    ∀ a, a ∈ ((layersOf path.segments).drop (aspathCountHops path)).flatten →
      a ∈ ((layersOf path.segments).take (aspathCountHops path)).flatten ∨
        a ∈ members as4path.segments

/-! ## Lengths -/

/-- One by one, members are what they are together. -/
theorem flatten_singles (as : List U32) : (as.map fun a => [a]).flatten = as := by
  induction as with
  | nil => rfl
  | cons first others ih => rw [List.map_cons, List.flatten_cons, ih, List.singleton_append]

theorem hopsOf_cons (seg : Assegment) (rest : List Assegment) :
    hopsOf (seg :: rest) = segHops seg ++ hopsOf rest := List.flatMap_cons ..

theorem hopsOf_append (first second : List Assegment) :
    hopsOf (first ++ second) = hopsOf first ++ hopsOf second := List.flatMap_append ..

theorem layersOf_cons (seg : Assegment) (rest : List Assegment) :
    layersOf (seg :: rest) = segLayers seg ++ layersOf rest := List.flatMap_cons ..

/-- Hop by hop, a chain has the AS numbers it has. -/
theorem layersOf_flatten :
    (layersOf segments).flatten = members segments := by
  induction segments with
  | nil => rfl
  | cons seg rest ih =>
    rw [layersOf_cons, List.flatten_append, ih, members_cons]
    congr 1
    obtain ⟨type, as⟩ := seg
    cases type with
    | asSequence => exact flatten_singles as
    | asConfedSequence => simp [segLayers]
    | asSet => simp [segLayers]
    | asConfedSet => simp [segLayers]

/-- Hops and confederation hops are what the two counts count. -/
theorem hopsOf_length (path : Aspath) : (hopsOf path.segments).length = fullLength path := by
  obtain ⟨segments⟩ := path
  unfold fullLength aspathCountHops aspathCountConfeds
  induction segments with
  | nil => rfl
  | cons seg rest ih =>
    rw [hopsOf_cons, List.length_append, ih, List.map_cons, List.map_cons, List.sum_cons,
      List.sum_cons]
    obtain ⟨type, as⟩ := seg
    cases type <;> simp [segHops] <;> omega

/-- A path without confederation segments has no hops of theirs. -/
theorem fullLength_plain {path : Aspath} (plain : aspathConfedCheck path = false) :
    fullLength path = aspathCountHops path := by
  have none : aspathCountConfeds path = 0 := by
    refine List.sum_eq_zero fun n member => ?_
    obtain ⟨seg, held, rfl⟩ := List.mem_map.mp member
    have apart := List.any_eq_false.mp plain seg held
    obtain ⟨type, as⟩ := seg
    cases type <;> simp [Assegment.confed] at apart ⊢
  rw [fullLength, none, Nat.add_zero]

/-! ## The cut -/

theorem reconcileHops_zero : reconcileHops segments 0 = [] := by
  cases segments with
  | nil => rfl
  | cons seg rest => rw [reconcileHops, if_pos (le_refl 0)]

/-- What is copied of a first segment, and with how many hops the walk goes on. -/
theorem reconcileHops_cons (seg : Assegment) (rest : List Assegment) {n : Nat} (some : 0 < n) :
    reconcileHops (seg :: rest) n =
      match seg.type with
      | .asSequence => ⟨.asSequence, seg.as.take n⟩ :: reconcileHops rest (n - seg.as.length : Nat)
      | .asConfedSequence => seg :: reconcileHops rest (n - seg.as.length : Nat)
      | _ => seg :: reconcileHops rest (n - 1 : Nat) := by
  have beyond (segments : List Assegment) (k : Nat) :
      reconcileHops segments ((n : Int) - k) = reconcileHops segments (n - k : Nat) := by
    by_cases fits : k ≤ n
    · rw [Int.ofNat_sub fits]
    · have zero : n - k = 0 := by omega
      rw [zero, Nat.cast_zero, reconcileHops_zero]
      cases segments with
      | nil => rfl
      | cons seg rest => rw [reconcileHops, if_pos (by omega)]
  rw [reconcileHops, if_neg (by omega)]
  obtain ⟨type, as⟩ := seg
  cases type with
  | asSet => exact congrArg _ (beyond rest 1)
  | asConfedSet => exact congrArg _ (beyond rest 1)
  | asSequence =>
    dsimp only
    rw [beyond rest as.length, ← Nat.cast_min, Int.toNat_natCast]
    congr 2
    rw [List.take_eq_take_iff]
    omega
  | asConfedSequence =>
    dsimp only
    congr 2
    omega

/-- The segments that are copied have the first hops, where no confederation sequence lies
across the cut. -/
theorem reconcileHops_hops (n : Nat) (clear : ¬ Straddles segments n) :
    hopsOf (reconcileHops segments n) = (hopsOf segments).take n := by
  induction segments generalizing n with
  | nil => simp [reconcileHops, hopsOf]
  | cons seg rest ih =>
    rcases Nat.eq_zero_or_pos n with rfl | some
    · rw [Nat.cast_zero, reconcileHops_zero, List.take_zero]
      rfl
    · have later : ∀ k, (segHops seg).length = k → ¬ Straddles rest (n - k) := by
        rintro _ rfl ⟨front, as, behind, rfl, before, after⟩
        refine clear ⟨seg :: front, as, behind, rfl, ?_, ?_⟩
        · rw [hopsOf_cons, List.length_append]
          omega
        · rw [hopsOf_cons, List.length_append]
          omega
      rw [reconcileHops_cons seg rest some, hopsOf_cons]
      obtain ⟨type, as⟩ := seg
      cases type with
      | asSet =>
        rw [hopsOf_cons, ih _ (later 1 rfl)]
        exact (List.take_cons some).symm
      | asConfedSet =>
        rw [hopsOf_cons, ih _ (later 1 rfl)]
        exact (List.take_cons some).symm
      | asSequence =>
        rw [hopsOf_cons, ih _ (later as.length (by simp [segHops]))]
        simp [segHops, List.take_append]
      | asConfedSequence =>
        have all : as.length ≤ n := by
          by_contra less
          exact clear ⟨[], as, rest, rfl, some, by simpa [hopsOf] using less⟩
        rw [hopsOf_cons, ih _ (later as.length (by simp [segHops]))]
        simp [segHops, List.take_append, List.take_of_length_le, all]

/-- And the AS numbers of those hops, with what else a confederation sequence has. -/
theorem mem_reconcileHops (filled : ∀ seg ∈ segments, seg.as ≠ []) (n : Nat) (a : U32) :
    a ∈ members (reconcileHops segments n) ↔ a ∈ ((layersOf segments).take n).flatten := by
  induction segments generalizing n with
  | nil => simp [reconcileHops, layersOf, members]
  | cons seg rest ih =>
    rcases Nat.eq_zero_or_pos n with rfl | some
    · rw [Nat.cast_zero, reconcileHops_zero, List.take_zero]
      rfl
    · have later := ih fun seg member => filled seg (List.mem_cons_of_mem _ member)
      have own : 0 < seg.as.length := List.length_pos_iff.mpr (filled seg List.mem_cons_self)
      rw [reconcileHops_cons seg rest some, layersOf_cons]
      obtain ⟨type, as⟩ := seg
      cases type with
      | asSet =>
        rw [members_cons, List.mem_append, later]
        simp [segLayers, List.take_cons some]
      | asConfedSet =>
        rw [members_cons, List.mem_append, later]
        simp [segLayers, List.take_cons some]
      | asSequence =>
        rw [members_cons, List.mem_append, later, List.take_append, List.flatten_append,
          List.mem_append]
        simp only [segLayers, List.length_map]
        rw [← List.map_take, flatten_singles]
      | asConfedSequence =>
        have count : (segLayers ⟨.asConfedSequence, as⟩).length = as.length := by
          simp only [segLayers, List.length_cons, List.length_replicate]
          exact Nat.succ_pred_eq_of_pos own
        have front : ((segLayers ⟨.asConfedSequence, as⟩).take n).flatten = as := by
          simp [segLayers, List.take_cons some]
        rw [members_cons, List.mem_append, later, List.take_append, List.flatten_append,
          List.mem_append, count, front]

/-- What holds of all segments holds of all that a cut leaves, if it holds of the front
of a sequence. -/
theorem reconcileHops_all {holds : Assegment → Prop} (all : ∀ seg ∈ segments, holds seg)
    (front : ∀ (as : List U32) (n : Nat), 0 < n → holds ⟨.asSequence, as⟩ →
      holds ⟨.asSequence, as.take n⟩) (n : Nat) :
    ∀ seg ∈ reconcileHops segments n, holds seg := by
  induction segments generalizing n with
  | nil => exact fun _ member => absurd member List.not_mem_nil
  | cons first rest ih =>
    rcases Nat.eq_zero_or_pos n with rfl | some
    · rw [Nat.cast_zero, reconcileHops_zero]
      exact fun _ member => absurd member List.not_mem_nil
    · have later := ih fun seg member => all seg (List.mem_cons_of_mem _ member)
      have own := all first List.mem_cons_self
      rw [reconcileHops_cons first rest some]
      intro seg member
      obtain ⟨type, as⟩ := first
      cases type with
      | asSequence =>
        rcases List.mem_cons.mp member with rfl | inRest
        · exact front as n some own
        · exact later _ seg inRest
      | _ =>
        rcases List.mem_cons.mp member with rfl | inRest
        · exact own
        · exact later _ seg inRest

/-- Cutting leaves no segment empty. -/
theorem reconcileHops_filled (filled : ∀ seg ∈ segments, seg.as ≠ []) (n : Nat) :
    ∀ seg ∈ reconcileHops segments n, seg.as ≠ [] :=
  reconcileHops_all _ filled
    (fun _ _ some own none => own ((List.take_eq_nil_iff.mp none).resolve_left some.ne')) n

/-- Nor does it disturb the order in a set. -/
theorem reconcileHops_sorted (n : Nat)
    (sorted : ∀ seg ∈ segments, seg.type = .asSet ∨ seg.type = .asConfedSet →
      seg.as.Pairwise (· < ·)) :
    ∀ seg ∈ reconcileHops segments n, seg.type = .asSet ∨ seg.type = .asConfedSet →
      seg.as.Pairwise (· < ·) :=
  reconcileHops_all _ sorted (fun _ _ _ _ set => by simp at set) n

/-! ## Joining -/

/-- Joining sequences keeps the hops, where the sets are in order. -/
theorem hopsOf_normalise
    (sorted : ∀ seg ∈ segments, seg.type = .asSet ∨ seg.type = .asConfedSet →
      seg.as.Pairwise (· < ·)) :
    hopsOf (assegmentNormalise segments) = hopsOf segments := by
  induction segments with
  | nil => rfl
  | cons seg rest ih =>
    have later := ih fun seg member => sorted seg (List.mem_cons_of_mem _ member)
    have own := sorted seg List.mem_cons_self
    change hopsOf (normaliseOne seg (assegmentNormalise rest)) = _
    rw [hopsOf_cons, ← later]
    generalize assegmentNormalise rest = followers
    obtain ⟨type, as⟩ := seg
    cases type with
    | asSet => simp [normaliseOne, hopsOf_cons, sort_sorted (own (Or.inl rfl))]
    | asConfedSet => simp [normaliseOne, hopsOf_cons, sort_sorted (own (Or.inr rfl))]
    | asConfedSequence => exact hopsOf_cons ..
    | asSequence =>
      rcases followers with _ | ⟨⟨_ | _ | _ | _, as'⟩, followers⟩ <;>
        simp [normaliseOne, hopsOf_cons, segHops]

/-! ## The result -/

variable {path as4path : Aspath}

/-- The path that comes out, with the number of hops that are copied. -/
theorem reconciled (path : Aspath) (normal : Normal as4path.segments) :
    ∃ n : Nat, (aspathReconcileAs4 path as4path).segments =
        assegmentNormalise (reconcileHops path.segments n ++ as4path.segments) ∧
      (aspathCountHops as4path ≤ fullLength path →
        n = fullLength path - aspathCountHops as4path) ∧
      (fullLength path < aspathCountHops as4path → n = aspathCountHops path) := by
  have whole (n : Nat) (hops : (if ((fullLength path : Int) - aspathCountHops as4path) < 0 then
        (aspathCountHops path : Int) else (fullLength path : Int) - aspathCountHops as4path) = n) :
      (aspathReconcileAs4 path as4path).segments =
        assegmentNormalise (reconcileHops path.segments n ++ as4path.segments) := by
    unfold aspathReconcileAs4
    have apart : (aspathCountHops path : Int) + aspathCountConfeds path - aspathCountHops as4path =
        (fullLength path : Int) - aspathCountHops as4path := by
      unfold fullLength
      omega
    dsimp only
    rw [apart, hops]
    split
    · rename_i zero
      rw [zero, reconcileHops_zero, List.nil_append, normal.fixed]
    · rfl
  by_cases fits : aspathCountHops as4path ≤ fullLength path
  · refine ⟨fullLength path - aspathCountHops as4path, whole _ ?_, fun _ => rfl, fun long => ?_⟩
    · rw [if_neg (by omega)]
      omega
    · omega
  · refine ⟨aspathCountHops path, whole _ ?_, fun short => absurd short fits, fun _ => rfl⟩
    rw [if_pos (by omega)]

/-- What comes out of a path in normal form and one without confederation segments is in
normal form, has the length and the end that are asked for, and loses nothing exactly if
nothing is cut from a path that is shorter than the other one. -/
theorem reconcile_exactly (path as4path : Aspath) (normal : Normal path.segments)
    (normal4 : Normal as4path.segments) (plain : aspathConfedCheck as4path = false) :
    Reconciles path as4path (aspathReconcileAs4 path as4path) ↔ NothingCut path as4path := by
  obtain ⟨n, result, short, long⟩ := reconciled path normal4
  have suffix : aspathCountHops as4path ≤ fullLength path →
      ¬ Straddles path.segments (fullLength path - aspathCountHops as4path) →
      fullLength (aspathReconcileAs4 path as4path) = fullLength path ∧
        hopsOf as4path.segments <:+ hopsOf (aspathReconcileAs4 path as4path).segments := by
    intro fits clear
    obtain rfl := short fits
    have hops : hopsOf (aspathReconcileAs4 path as4path).segments =
        (hopsOf path.segments).take (fullLength path - aspathCountHops as4path) ++
          hopsOf as4path.segments := by
      rw [result, hopsOf_normalise, hopsOf_append, reconcileHops_hops _ _ clear]
      intro seg member set
      rcases List.mem_append.mp member with front | held
      · exact reconcileHops_sorted _ _ normal.sorted seg front set
      · exact normal4.sorted seg held set
    refine ⟨?_, hops ▸ List.suffix_append _ _⟩
    rw [← hopsOf_length, hops, List.length_append, List.length_take, hopsOf_length, hopsOf_length,
      fullLength_plain plain]
    omega
  have form : Normal (aspathReconcileAs4 path as4path).segments := by
    rw [result]
    refine assegmentNormalise_normal fun seg member => ?_
    rcases List.mem_append.mp member with front | held
    · exact reconcileHops_filled _ normal.filled _ seg front
    · exact normal4.filled seg held
  have held (fits : fullLength path < aspathCountHops as4path) (a : U32) :
      a ∈ members (aspathReconcileAs4 path as4path).segments ↔
        a ∈ ((layersOf path.segments).take (aspathCountHops path)).flatten ∨
          a ∈ members as4path.segments := by
    rw [result, mem_normalise, members_append, List.mem_append, mem_reconcileHops _ normal.filled,
      long fits]
  have layers (a : U32) : a ∈ members path.segments ↔
      a ∈ ((layersOf path.segments).take (aspathCountHops path)).flatten ∨
        a ∈ ((layersOf path.segments).drop (aspathCountHops path)).flatten := by
    rw [← List.mem_append, ← List.flatten_append, List.take_append_drop, layersOf_flatten]
  constructor
  · intro reconciles fits a cut
    exact (held fits a).mp (reconciles.complete fits a (Or.inl ((layers a).mpr (Or.inr cut))))
  · intro nothing
    refine ⟨suffix, fun fits a inside => (held fits a).mpr ?_, form⟩
    rcases inside with here | there
    · rcases (layers a).mp here with kept | cut
      · exact Or.inl kept
      · exact nothing fits a cut
    · exact Or.inr there

/-- The path (1) 3 4, and 4 6 7 8 from the other attribute: the 4 that is cut is there. -/
theorem reconcile_exactly_one :
    Reconciles ⟨[⟨.asConfedSequence, [1]⟩, ⟨.asSequence, [3, 4]⟩]⟩ ⟨[⟨.asSequence, [4, 6, 7, 8]⟩]⟩
      (aspathReconcileAs4 ⟨[⟨.asConfedSequence, [1]⟩, ⟨.asSequence, [3, 4]⟩]⟩
        ⟨[⟨.asSequence, [4, 6, 7, 8]⟩]⟩) := by
  refine (reconcile_exactly _ _ ⟨by decide, ?_, by decide⟩ ⟨by decide, .singleton _, by decide⟩
    (by decide)).mpr ?_
  · exact .cons_cons (fun both => nomatch both.1) (.singleton _)
  · rintro - a cut
    obtain rfl := List.mem_singleton.mp (cut : a ∈ [4])
    exact .inr (by decide)

/-- The path (1 2) 3 4 with a confederation sequence, and 5 6 7 8 9 from the other
attribute: 3 and 4 are lost. -/
theorem members_cut :
    aspathReconcileAs4 ⟨[⟨.asConfedSequence, [1, 2]⟩, ⟨.asSequence, [3, 4]⟩]⟩
        ⟨[⟨.asSequence, [5, 6, 7, 8, 9]⟩]⟩ =
      ⟨[⟨.asConfedSequence, [1, 2]⟩, ⟨.asSequence, [5, 6, 7, 8, 9]⟩]⟩ ∧
    ¬ Reconciles ⟨[⟨.asConfedSequence, [1, 2]⟩, ⟨.asSequence, [3, 4]⟩]⟩
        ⟨[⟨.asSequence, [5, 6, 7, 8, 9]⟩]⟩
        (aspathReconcileAs4 ⟨[⟨.asConfedSequence, [1, 2]⟩, ⟨.asSequence, [3, 4]⟩]⟩
          ⟨[⟨.asSequence, [5, 6, 7, 8, 9]⟩]⟩) := by
  have result : aspathReconcileAs4 ⟨[⟨.asConfedSequence, [1, 2]⟩, ⟨.asSequence, [3, 4]⟩]⟩
      ⟨[⟨.asSequence, [5, 6, 7, 8, 9]⟩]⟩ =
        ⟨[⟨.asConfedSequence, [1, 2]⟩, ⟨.asSequence, [5, 6, 7, 8, 9]⟩]⟩ := by decide
  refine ⟨result, fun reconciles => ?_⟩
  have held := reconciles.complete (by decide) 3 (Or.inl (by decide))
  rw [result] at held
  exact absurd held (by decide)

end Bgpd.PathReconcile
