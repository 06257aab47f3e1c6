import Bgpd.Redistribution
import Bgpd.RibQueueRuns

/-!
# What a client knows about one chain

A route that a client adds with the flag of a selected one is not announced when it
comes. Its next hops have not been looked at then, so that it counts as changed
when its prefix is processed, and is announced at that time. Whatever else is
selected was announced to those that ask for its kind.

Processing a prefix, from a chain of which this holds, leaves a client with exactly
the route that is selected.
-/

namespace Bgpd.Redistribution

open Octets FlagWord ZebraRib RibQueue StaticRoutes

/-! ## At most one -/

/-- No two places of a list have the property. -/
def Alone {α : Type} (P : α → Prop) (l : List α) : Prop :=
  ∀ (i j : Nat) (a b : α), l[i]? = some a → l[j]? = some b → P a → P b → i = j

section Alone

variable {α : Type} {P : α → Prop}

theorem Alone.nil : Alone P [] := by
  intro i j a b inside
  cases inside

variable {l : List α} {a : α}
variable {b : α}

theorem Alone.eq_of_mem (alone : Alone P l) (inside : a ∈ l) (inside' : b ∈ l) (held : P a)
    (held' : P b) : a = b := by
  obtain ⟨i, here⟩ := List.mem_iff_getElem?.mp inside
  obtain ⟨j, there⟩ := List.mem_iff_getElem?.mp inside'
  obtain rfl := alone i j a b here there held held'
  exact Option.some.inj (here.symm.trans there)

variable {k : Nat}

theorem Alone.of_place (only : ∀ (i : Nat) a, l[i]? = some a → P a → i = k) : Alone P l := by
  intro i j a b here there held held'
  rw [only i a here held, only j b there held']

theorem Alone.cons (alone : Alone P l) (apart : ¬ P a) : Alone P (a :: l) := by
  intro i j b c here there held held'
  cases i with
  | zero =>
    obtain rfl : a = b := Option.some.inj here
    exact absurd held apart
  | succ i =>
    cases j with
    | zero =>
      obtain rfl : a = c := Option.some.inj there
      exact absurd held' apart
    | succ j => rw [alone i j b c here there held held']

/-- A place of a list with one more at its end. -/
theorem concat_place (there : (l ++ [a])[k]? = some b) : l[k]? = some b ∨ k = l.length ∧ b = a := by
  rcases Nat.lt_or_ge k l.length with inside | outside
  · rw [List.getElem?_append_left inside] at there
    exact Or.inl there
  · rw [List.getElem?_append_right outside] at there
    obtain ⟨last, same⟩ := List.getElem?_eq_some_iff.mp there
    have zero : k - l.length = 0 := by simpa using last
    refine Or.inr ⟨by omega, ?_⟩
    rw [← same]
    simp

theorem Alone.concat (alone : Alone P l) (apart : P a → ∀ b ∈ l, ¬ P b) : Alone P (l ++ [a]) := by
  intro i j b c here there held held'
  rcases concat_place here with low | ⟨last, rfl⟩
  · rcases concat_place there with low' | ⟨_, rfl⟩
    · exact alone i j b c low low' held held'
    · exact absurd held (apart held' b (List.mem_of_getElem? low))
  · rcases concat_place there with low' | ⟨last', _⟩
    · exact absurd held' (apart held c (List.mem_of_getElem? low'))
    · rw [last, last']

theorem Alone.eraseIdx (alone : Alone P l) (k : Nat) : Alone P (l.eraseIdx k) := by
  intro i j a b here there held held'
  rw [List.getElem?_eraseIdx] at here there
  split at here
  · split at there
    · exact alone i j a b here there held held'
    · have same := alone i (j + 1) a b here there held held'
      omega
  · split at there
    · have same := alone (i + 1) j a b here there held held'
      omega
    · have same := alone (i + 1) (j + 1) a b here there held held'
      omega

/-- What stands at a place of the second list is related to what stands there in the first. -/
theorem forall₂_place {β : Type} {R : α → β → Prop} {l' : List β} (related : List.Forall₂ R l l')
    {i : Nat} {b : β} (there : l'[i]? = some b) : ∃ a, l[i]? = some a ∧ R a b := by
  obtain ⟨inside, rfl⟩ := List.getElem?_eq_some_iff.mp there
  obtain ⟨length, places⟩ := List.forall₂_iff_get.mp related
  have inside' : i < l.length := by omega
  exact ⟨l[i], List.getElem?_eq_getElem inside', places i inside' inside⟩

/-- The property may be lost from one list to the other, but not won. -/
theorem Alone.weaken {β : Type} {Q : β → Prop} {R : α → β → Prop} {l' : List β} (alone : Alone P l)
    (related : List.Forall₂ R l l') (back : ∀ a b, R a b → Q b → P a) : Alone Q l' := by
  intro i j b b' here there held held'
  obtain ⟨a, at_, from_⟩ := forall₂_place related here
  obtain ⟨a', at', from'⟩ := forall₂_place related there
  exact alone i j a a' at_ at' (back a b from_ held) (back a' b' from' held')

end Alone

/-- What is related to a member of the second list is in the first one. -/
theorem forall₂_source {α β : Type} {R : α → β → Prop} {l : List α} {l' : List β}
    (related : List.Forall₂ R l l') {b : β} (inside : b ∈ l') : ∃ a ∈ l, R a b := by
  obtain ⟨i, there⟩ := List.mem_iff_getElem?.mp inside
  obtain ⟨a, here, same⟩ := forall₂_place related there
  exact ⟨a, List.mem_of_getElem? here, same⟩

/-! ## What a client knows -/

/-- No next hop is active, or taken by the kernel unless the kernel has the route
anyway. -/
def fresh (rib : Rib) : Bool :=
  rib.nexthop.all fun hop =>
    !check hop.flags nexthopFlagActive &&
      (rib.systemRoute || !check hop.flags nexthopFlagFib)

/-- A selected route that is not a new one. -/
def Steady (rib : Rib) : Prop := rib.selected = true ∧ fresh rib = false

/-- What holds of the selected routes of a chain, of which several can be new ones
that wait. -/
structure Sane (ribs : List Rib) (waits : Prop) : Prop where
  one : Alone Steady ribs
  crowd : ¬ waits → Alone (fun rib => rib.selected = true) ribs
  far : ∀ rib ∈ ribs, rib.selected = true → rib.distance = distanceInfinity →
    fresh rib = true ∧ waits

/-- Whether a client was told of a kind, beside the chain. -/
structure Informed (told : Bool) (type : RouteType) (ribs : List Rib) (waits : Prop) : Prop where
  sound : told = true → ∃ rib ∈ ribs, rib.selected = true ∧ rib.type = type ∧
    rib.distance ≠ distanceInfinity
  complete : told = false → ∀ rib ∈ ribs, rib.selected = true → rib.type = type →
    fresh rib = true ∧ waits

/-- The route stays what it was, but may not be selected any more. -/
structure Fades (rib rib' : Rib) : Prop where
  selected : rib'.selected = true → rib.selected = true
  type : rib'.type = rib.type
  distance : rib'.distance = rib.distance
  fresh : fresh rib = true → fresh rib' = true

/-- The route stays what it was for a client. -/
structure Keeps (rib rib' : Rib) : Prop extends Fades rib rib' where
  stays : rib.selected = true → rib'.selected = true

theorem Fades.refl (rib : Rib) : Fades rib rib := ⟨fun held => held, rfl, rfl, fun new => new⟩

theorem Keeps.refl (rib : Rib) : Keeps rib rib := ⟨Fades.refl rib, fun held => held⟩

variable {b c : Rib}

theorem Keeps.trans {a : Rib} (first : Keeps a b) (second : Keeps b c) : Keeps a c where
  selected held := first.selected (second.selected held)
  type := second.type.trans first.type
  distance := second.distance.trans first.distance
  fresh new := second.fresh (first.fresh new)
  stays held := second.stays (first.stays held)

variable {ribs ribs' : List Rib}

theorem Sane.fades {waits waits' : Prop} (sane : Sane ribs waits)
    (same : List.Forall₂ Fades ribs ribs') (longer : waits → waits') : Sane ribs' waits' where
  one := by
    apply sane.one.weaken same
    rintro rib rib' fades ⟨selected, steady⟩
    refine ⟨fades.selected selected, ?_⟩
    cases new : fresh rib with
    | false => rfl
    | true => rw [fades.fresh new] at steady; cases steady
  crowd still := (sane.crowd fun waits => still (longer waits)).weaken same fun _ _ fades =>
    fades.selected
  far := by
    intro rib' inside selected far
    obtain ⟨rib, there, fades⟩ := forall₂_source same inside
    obtain ⟨new, waits⟩ := sane.far rib there (fades.selected selected) (fades.distance ▸ far)
    exact ⟨fades.fresh new, longer waits⟩

theorem Informed.fades {type : RouteType} {waits waits' : Prop}
    (informed : Informed false type ribs waits) (same : List.Forall₂ Fades ribs ribs')
    (longer : waits → waits') : Informed false type ribs' waits' where
  sound := nofun
  complete _ rib' inside selected kind := by
    obtain ⟨rib, there, fades⟩ := forall₂_source same inside
    obtain ⟨new, waits⟩ := informed.complete rfl rib there (fades.selected selected)
      (fades.type ▸ kind)
    exact ⟨fades.fresh new, longer waits⟩

theorem Informed.keeps {told : Bool} {type : RouteType} {waits waits' : Prop}
    (informed : Informed told type ribs waits) (same : List.Forall₂ Keeps ribs ribs')
    (longer : waits → waits') : Informed told type ribs' waits' := by
  cases told with
  | false => exact informed.fades (same.imp fun _ _ kept => kept.toFades) longer
  | true =>
    refine ⟨fun held => ?_, nofun⟩
    obtain ⟨rib, there, selected, kind, near⟩ := informed.sound held
    obtain ⟨rib', there', kept⟩ := forall₂_source same.flip there
    exact ⟨rib', there', kept.stays selected, kept.type.trans kind, kept.distance ▸ near⟩

/-- A new route enters a chain that waits from then on. -/
theorem Sane.cons {waits : Prop} (sane : Sane ribs waits) {rib : Rib} (new : fresh rib = true) :
    Sane (rib :: ribs) True where
  one := by
    apply sane.one.cons
    rintro ⟨_, steady⟩
    rw [new] at steady
    cases steady
  crowd still := absurd trivial still
  far rib' inside selected far := by
    rcases List.mem_cons.mp inside with rfl | inside
    · exact ⟨new, trivial⟩
    · exact ⟨(sane.far rib' inside selected far).1, trivial⟩

theorem Informed.cons {told : Bool} {type : RouteType} {waits : Prop}
    (informed : Informed told type ribs waits) {rib : Rib} (new : fresh rib = true) :
    Informed told type (rib :: ribs) True where
  sound held := by
    obtain ⟨rib', there, rest⟩ := informed.sound held
    exact ⟨rib', List.mem_cons_of_mem _ there, rest⟩
  complete untold rib' inside selected kind := by
    rcases List.mem_cons.mp inside with rfl | inside
    · exact ⟨new, trivial⟩
    · exact ⟨(informed.complete untold rib' inside selected kind).1, trivial⟩

/-! ## What processing does to one route -/

variable (s : Surroundings)
variable (rib : Rib) (type : RouteType) (told : Bool)

theorem selected_unset (flags : U8) :
    check (unset flags zebraFlagSelected) zebraFlagSelected = false := by
  rw [check_unset, show zebraFlagSelected &&& ~~~zebraFlagSelected = 0#8 by decide]
  simp [check]

theorem selected_unset_changed (flags : U8) :
    check (unset flags zebraFlagChanged) zebraFlagSelected = check flags zebraFlagSelected :=
  check_unset flags zebraFlagChanged zebraFlagSelected

theorem selected_set_changed (flags : U8) :
    check (FlagWord.set flags zebraFlagChanged) zebraFlagSelected =
      check flags zebraFlagSelected := by
  rw [check_set, show check zebraFlagChanged zebraFlagSelected = false by decide, Bool.or_false]

/-- The route stays selected if it was, and keeps its kind and distance. -/
structure Same (rib rib' : Rib) : Prop where
  selected : rib'.selected = rib.selected
  type : rib'.type = rib.type
  distance : rib'.distance = rib.distance
  removed : rib'.removed = rib.removed

theorem Same.trans {a : Rib} (first : Same a b) (second : Same b c) : Same a c :=
  ⟨second.selected.trans first.selected, second.type.trans first.type,
    second.distance.trans first.distance, second.removed.trans first.removed⟩

theorem nexthopActiveUpdate_same (set : Bool) (rib : Rib) :
    Same rib (nexthopActiveUpdate s set rib) where
  selected := by
    unfold Rib.selected nexthopActiveUpdate
    dsimp only
    split
    · rw [selected_set_changed, selected_unset_changed]
    · rw [selected_unset_changed]
  type := rfl
  distance := rfl
  removed := rfl

/-- A new route that is found to have an active next hop counts as changed. -/
theorem changed_of_fresh {rib : Rib} (new : fresh rib = true)
    (active : (nexthopActiveUpdate s false rib).nexthopActiveNum ≠ 0) :
    check (nexthopActiveUpdate s false rib).flags zebraFlagChanged = true := by
  unfold nexthopActiveUpdate at active ⊢
  dsimp only at active ⊢
  have some_ : (rib.nexthop.map (s.nexthopActiveCheck false rib)).countP
      (fun hop => check hop.flags nexthopFlagActive) ≠ 0 := by
    intro none
    rw [none] at active
    exact active rfl
  obtain ⟨after, inside, up⟩ := List.countP_pos_iff.mp (Nat.pos_of_ne_zero some_)
  obtain ⟨before, there, rfl⟩ := List.mem_map.mp inside
  have down := List.all_eq_true.mp new before there
  rw [Bool.and_eq_true, Bool.not_eq_true'] at down
  have changed : ((rib.nexthop.zip (rib.nexthop.map (s.nexthopActiveCheck false rib))).any
      fun pair => hopChanged pair.1 pair.2) = true := by
    refine List.any_eq_true.mpr ⟨(before, s.nexthopActiveCheck false rib before), ?_, ?_⟩
    · have pairs := List.zip_map' (l := rib.nexthop) (f := id) (g := s.nexthopActiveCheck false rib)
      rw [List.map_id] at pairs
      rw [pairs]
      exact List.mem_map_of_mem there
    · simp [hopChanged, down.1, up]
  rw [if_pos (show ((rib.nexthop.zip (rib.nexthop.map (s.nexthopActiveCheck false rib))).any
    fun pair => hopChanged pair.1 pair.2) = true from changed), check_set]
  simp [check, zebraFlagChanged]

/-! ## What the loop finds -/

/-- What is known once part of a chain was gone along. -/
structure Scanned (seen : List Rib) (scan : Scan) : Prop where
  alone : Alone (fun rib => rib.selected = true) seen
  absent : scan.fib = none → ∀ rib ∈ seen, rib.selected = false
  kept : ∀ (j : Nat) rib, scan.kept[j]? = some rib → rib.selected = true → scan.fib = some j
  fib : ∀ i, scan.fib = some i → ∃ old ∈ seen, ∃ new, scan.kept[i]? = some new ∧
    old.selected = true ∧ Same old new ∧
      (scan.select = some i → fresh old = true → check new.flags zebraFlagChanged = true)
  select : ∀ j, scan.select = some j → ∃ rib, scan.kept[j]? = some rib ∧
    rib.distance ≠ distanceInfinity ∧ rib.removed = false
  del : ∀ d, scan.del = some d → scan.fib = some d ∧
    ∃ rib, scan.kept[d]? = some rib ∧ rib.removed = true
  done : ∀ effect ∈ scan.done, ∃ rib, effect = .unlink rib

theorem Scanned.start : Scanned [] {} where
  alone := Alone.nil
  absent _ _ := nofun
  kept _ _ := nofun
  fib _ := nofun
  select _ := nofun
  del _ := nofun
  done _ := nofun

/-- The route in the kernel after one more. -/
def nextFib (scan : Scan) (first : Rib) : Option Nat :=
  if first.selected then some scan.kept.length else scan.fib

variable {first : Rib} {scan : Scan}
variable {status : Option U8} {scan' : Scan}

/-- One turn of the loop. -/
theorem ribScan_cons {next : List Rib} (done : ribScan s status (first :: next) scan = some scan') :
    ¬ (first.selected = true ∧ scan.fib.isSome = true) ∧
      ∃ rib status', rib = { first with rnStatus := status.getD first.rnStatus } ∧
        ((first.removed = true ∧ first.selected = true ∧
            ribScan s status' next
              { scan with
                kept := scan.kept ++ [rib]
                fib := nextFib scan first
                del := some scan.kept.length } = some scan') ∨
          (first.removed = true ∧ first.selected = false ∧
            ribScan s status' next { scan with done := scan.done ++ [.unlink rib] } =
              some scan') ∨
          (first.removed = false ∧
            ribScan s status' next
              { scan with
                kept := scan.kept ++ [nexthopActiveUpdate s false rib]
                fib := nextFib scan first
                select :=
                  if (nexthopActiveUpdate s false rib).nexthopActiveNum = 0 ∨
                      (nexthopActiveUpdate s false rib).distance = distanceInfinity then
                    scan.select
                  else scan.choose (nexthopActiveUpdate s false rib) } = some scan')) := by
  unfold ribScan at done
  extract_lets rib fib updated select at done
  have selected : rib.selected = first.selected := rfl
  have removed : rib.removed = first.removed := rfl
  split at done
  · cases done
  · rename_i single
    refine ⟨single, rib, ?_⟩
    rw [selected, removed] at done
    by_cases doomed : first.removed = true
    · rw [if_pos doomed] at done
      by_cases kernel : first.selected = true
      · rw [if_pos kernel] at done
        exact ⟨_, rfl, Or.inl ⟨doomed, kernel, done⟩⟩
      · rw [if_neg kernel] at done
        have same : fib = scan.fib := if_neg kernel
        rw [same] at done
        exact ⟨_, rfl, Or.inr (Or.inl ⟨doomed, Bool.eq_false_of_not_eq_true kernel, done⟩)⟩
    · rw [if_neg doomed] at done
      exact ⟨_, rfl, Or.inr (Or.inr ⟨Bool.eq_false_of_not_eq_true doomed, done⟩)⟩

variable {seen : List Rib}

/-- A route of the chain is kept. -/
theorem Scanned.append (scanned : Scanned seen scan) {rib : Rib}
    (single : ¬ (first.selected = true ∧ scan.fib.isSome = true)) (same : Same first rib)
    {fib select del : Option Nat} (here : fib = nextFib scan first)
    (chosen : select = scan.select ∨ select = some scan.kept.length ∧
      rib.distance ≠ distanceInfinity ∧ rib.removed = false ∧
        (fresh first = true → check rib.flags zebraFlagChanged = true)) (doomed : del = scan.del ∨
      del = some scan.kept.length ∧ first.selected = true ∧ rib.removed = true) :
    Scanned (seen ++ [first])
      { scan with kept := scan.kept ++ [rib], fib, select, del } := by
  subst here
  have low {k : Nat} {rib' : Rib} (there : scan.kept[k]? = some rib') :
      (scan.kept ++ [rib])[k]? = some rib' := by
    rw [List.getElem?_append_left (List.getElem?_eq_some_iff.mp there).1]
    exact there
  have free (selected : first.selected = true) : scan.fib = none := by
    cases held : scan.fib with
    | none => rfl
    | some i => exact absurd ⟨selected, by rw [held]; rfl⟩ single
  refine ⟨?_, ?_, ?_, ?_, ?_, ?_, scanned.done⟩
  · apply scanned.alone.concat
    intro selected other inside
    rw [scanned.absent (free selected) other inside]
    decide
  · intro none other inside
    unfold nextFib at none
    split at none
    · cases none
    · rename_i unselected
      rcases List.mem_append.mp inside with inside | inside
      · exact scanned.absent none other inside
      · rw [List.mem_singleton.mp inside]
        simpa using unselected
  · intro j other there selected
    unfold nextFib
    rcases concat_place there with there | ⟨rfl, rfl⟩
    · have held := scanned.kept j other there selected
      rw [if_neg, held]
      intro selected'
      rw [free selected'] at held
      cases held
    · rw [if_pos (same.selected ▸ selected)]
  · intro i held
    unfold nextFib at held
    split at held
    · rename_i selected
      obtain rfl := Option.some.inj held
      refine ⟨first, by simp, rib, by simp, selected, same, ?_⟩
      intro here new
      rcases chosen with before | ⟨_, _, _, changed⟩
      · rw [before] at here
        obtain ⟨_, there, _⟩ := scanned.select _ here
        have inside := (List.getElem?_eq_some_iff.mp there).1
        omega
      · exact changed new
    · obtain ⟨old, inside, new, there, selected, alike, changed⟩ := scanned.fib i held
      refine ⟨old, List.mem_append_left _ inside, new, low there, selected, alike, ?_⟩
      intro here
      rcases chosen with before | ⟨last, _⟩
      · exact changed (before ▸ here)
      · have inside := (List.getElem?_eq_some_iff.mp there).1
        rw [last] at here
        have same := Option.some.inj here
        omega
  · intro j here
    rcases chosen with before | ⟨last, near, present, _⟩
    · obtain ⟨other, there, rest⟩ := scanned.select j (before ▸ here)
      exact ⟨other, low there, rest⟩
    · rw [last] at here
      obtain rfl := Option.some.inj here
      exact ⟨rib, by simp, near, present⟩
  · intro d here
    unfold nextFib
    rcases doomed with before | ⟨last, selected, removed⟩
    · obtain ⟨held, other, there, removed⟩ := scanned.del d (before ▸ here)
      rw [if_neg, held]
      · exact ⟨rfl, other, low there, removed⟩
      · intro selected
        rw [free selected] at held
        cases held
    · rw [last] at here
      obtain rfl := Option.some.inj here
      rw [if_pos selected]
      exact ⟨rfl, rib, by simp, removed⟩

/-- A removed route that is not in the kernel is freed. -/
theorem Scanned.drop (scanned : Scanned seen scan) (unselected : first.selected = false)
    (freed : Rib) :
    Scanned (seen ++ [first]) { scan with done := scan.done ++ [.unlink freed] } where
  alone := by
    apply scanned.alone.concat
    intro selected
    rw [unselected] at selected
    cases selected
  absent none rib inside := by
    rcases List.mem_append.mp inside with inside | inside
    · exact scanned.absent none rib inside
    · rw [List.mem_singleton.mp inside]
      exact unselected
  kept := scanned.kept
  fib i held := by
    obtain ⟨old, inside, rest⟩ := scanned.fib i held
    exact ⟨old, List.mem_append_left _ inside, rest⟩
  select := scanned.select
  del := scanned.del
  done effect inside := by
    rcases List.mem_append.mp inside with inside | inside
    · exact scanned.done effect inside
    · exact ⟨freed, List.mem_singleton.mp inside⟩

/-- A route is looked at and compared with the best one so far. -/
theorem Scanned.compare (scanned : Scanned seen scan)
    (single : ¬ (first.selected = true ∧ scan.fib.isSome = true)) (present : first.removed = false)
    (status : U8) :
    Scanned (seen ++ [first])
      { scan with
        kept := scan.kept ++ [nexthopActiveUpdate s false { first with rnStatus := status }]
        fib := nextFib scan first
        select :=
          if (nexthopActiveUpdate s false { first with rnStatus := status }).nexthopActiveNum = 0 ∨
              (nexthopActiveUpdate s false { first with rnStatus := status }).distance =
                distanceInfinity then
            scan.select
          else scan.choose (nexthopActiveUpdate s false { first with rnStatus := status }) } := by
  have alike : Same first { first with rnStatus := status } := ⟨rfl, rfl, rfl, rfl⟩
  refine scanned.append single (alike.trans (nexthopActiveUpdate_same s false _)) rfl ?_
    (Or.inl rfl)
  generalize shape : nexthopActiveUpdate s false { first with rnStatus := status } = updated
  by_cases skipped : updated.nexthopActiveNum = 0 ∨ updated.distance = distanceInfinity
  · exact Or.inl (if_pos skipped)
  · rw [if_neg skipped]
    rw [not_or] at skipped
    have last : scan.choose updated = scan.select ∨
        scan.choose updated = some scan.kept.length := by
      unfold Scan.choose
      split
      · exact Or.inr rfl
      · split
        · exact Or.inr rfl
        · exact Or.inl rfl
    refine last.imp_right fun last => ⟨last, skipped.2, ?_, ?_⟩
    · rw [← shape]
      exact present
    · intro new
      rw [← shape] at skipped ⊢
      exact changed_of_fresh s new skipped.1

/-- The whole loop. -/
theorem Scanned.loop {rest : List Rib} (scanned : Scanned seen scan)
    (done : ribScan s status rest scan = some scan') : Scanned (seen ++ rest) scan' := by
  induction rest generalizing status seen scan with
  | nil =>
    obtain rfl : scan = scan' := Option.some.inj done
    rw [List.append_nil]
    exact scanned
  | cons first next ih =>
    rw [show seen ++ first :: next = (seen ++ [first]) ++ next by simp]
    obtain ⟨single, rib, status', rfl, turn⟩ := ribScan_cons s done
    have alike : Same first { first with rnStatus := status.getD first.rnStatus } :=
      ⟨rfl, rfl, rfl, rfl⟩
    rcases turn with ⟨removed, selected, done⟩ | ⟨_, unselected, done⟩ | ⟨present, done⟩
    · exact ih (scanned.append single alike rfl (Or.inl rfl) (Or.inr ⟨rfl, selected, removed⟩)) done
    · exact ih (scanned.drop unselected _) done
    · exact ih (scanned.compare s single present _) done

/-! ## What is told of an exchange -/

/-- What a client holds of the kind after some effects. -/
def tellAll (type : RouteType) (told : Bool) (effects : List Effect) : Bool :=
  effects.foldl (tellOne type) told

theorem tellAll_append (first second : List Effect) :
    tellAll type told (first ++ second) = tellAll type (tellAll type told first) second :=
  List.foldl_append

variable {effects : List Effect}

/-- Routes that are freed are not told of. -/
theorem tellAll_unlinks (unlinks : ∀ effect ∈ effects, ∃ rib, effect = .unlink rib)
    (type : RouteType) (told : Bool) : tellAll type told effects = told := by
  unfold tellAll
  induction effects with
  | nil => rfl
  | cons effect rest ih =>
    obtain ⟨rib, rfl⟩ := unlinks effect List.mem_cons_self
    exact ih fun effect inside => unlinks effect (List.mem_cons_of_mem _ inside)

theorem ribInstallKernel_same : Same rib (ribInstallKernel s rib) := ⟨rfl, rfl, rfl, rfl⟩

theorem ribUninstallKernel_same : Same rib (ribUninstallKernel rib) :=
  ⟨rfl, rfl, rfl, rfl⟩

/-- The route that stays selected. -/
theorem ribRefresh_same : Same rib (ribRefresh s rib).1 := by
  have withdrawn := ribUninstallKernel_same rib
  have updated (rib : Rib) := nexthopActiveUpdate_same s true rib
  have installed (rib : Rib) := ribInstallKernel_same s rib
  unfold ribRefresh
  split
  · dsimp only
    split
    · split
      · exact updated rib
      · exact (updated rib).trans (installed _)
    · split
      · exact withdrawn.trans (updated _)
      · exact (withdrawn.trans (updated _)).trans (installed _)
  · split
    · exact ⟨rfl, rfl, rfl, rfl⟩
    · split
      · exact ⟨rfl, rfl, rfl, rfl⟩
      · exact installed rib

theorem ribRefresh_tells :
    tellAll type told (ribRefresh s rib).2 =
      if check rib.flags zebraFlagChanged = true ∧ rib.type = type then true else told := by
  have same := (ribRefresh_same s rib).type
  unfold ribRefresh at same ⊢
  by_cases changed : check rib.flags zebraFlagChanged = true
  · rw [if_pos changed] at same ⊢
    dsimp only at same ⊢
    rw [tellAll_append, tellAll_append]
    simp only [tellAll, List.foldl_cons, List.foldl_nil, tellOne, same, changed, true_and]
    by_cases here : rib.type = type
    · rw [if_pos here, if_pos here]
    · rw [if_neg here, if_neg here, if_neg fun held => here held.2]
      split <;> rfl
  · have apart : ¬ (check rib.flags zebraFlagChanged = true ∧ rib.type = type) :=
      fun held => changed held.1
    rw [if_neg changed, if_neg apart]
    split
    · rfl
    · split <;> rfl

/-- The route that leaves the kernel. -/
theorem ribWithdraw_fields :
    (ribWithdraw s rib).1.selected = false ∧ (ribWithdraw s rib).1.type = rib.type := by
  unfold ribWithdraw
  refine ⟨(nexthopActiveUpdate_same s true _).selected.trans ?_,
    (nexthopActiveUpdate_same s true _).type.trans ?_⟩
  · exact selected_unset _
  · dsimp only
    split <;> rfl

theorem ribWithdraw_tells :
    tellAll type told (ribWithdraw s rib).2 =
      if rib.distance ≠ distanceInfinity ∧ rib.type = type then false else told := by
  unfold ribWithdraw
  split <;> rfl

/-- The route that enters it. -/
theorem ribSelect_fields :
    (ribSelect s rib).1.selected = true ∧ (ribSelect s rib).1.type = rib.type ∧
      (ribSelect s rib).1.distance = rib.distance := by
  have marked (flags : U8) :
      check (FlagWord.set flags zebraFlagSelected) zebraFlagSelected = true := by
    rw [check_set, show check zebraFlagSelected zebraFlagSelected = true by decide, Bool.or_true]
  unfold ribSelect
  dsimp only
  refine ⟨marked _, ?_⟩
  split <;> exact ⟨rfl, rfl⟩

theorem ribSelect_tells :
    tellAll type told (ribSelect s rib).2 = if rib.type = type then true else told := by
  obtain ⟨_, same, _⟩ := ribSelect_fields s rib
  unfold ribSelect at same ⊢
  rw [tellAll_append]
  split
  · simp only [tellAll, List.foldl_cons, List.foldl_nil, tellOne]
    rfl
  · simp only [tellAll, List.foldl_cons, List.foldl_nil, tellOne]
    rfl

theorem map_ribUnlink (ribs : List Rib) (place : Nat) :
    (ribUnlink ribs place).1.map bare = (ribs.eraseIdx place).map bare := by
  unfold ribUnlink
  cases found : ribs[place]? with
  | none => rw [List.eraseIdx_of_length_le (List.getElem?_eq_none_iff.mp found)]
  | some rib =>
    dsimp only
    split
    · rename_i shape
      rw [shape]
      rfl
    · rfl

theorem ribUnlink_unlinks (ribs : List Rib) (place : Nat) :
    ∀ effect ∈ (ribUnlink ribs place).2, ∃ rib, effect = .unlink rib := by
  intro effect inside
  unfold ribUnlink at inside
  split at inside
  · cases inside
  · split at inside
    · exact ⟨_, List.mem_singleton.mp inside⟩
    · exact ⟨_, List.mem_singleton.mp inside⟩

/-- A chain in which one route at most is selected, of a kind that can be told. -/
structure Settled (ribs : List Rib) : Prop where
  alone : Alone (fun rib => rib.selected = true) ribs
  near : ∀ rib ∈ ribs, rib.selected = true → rib.distance ≠ distanceInfinity

theorem Settled.sane (settled : Settled ribs) (waits : Prop) :
    Sane ribs waits where
  one := settled.alone.weaken (List.forall₂_refl ribs : List.Forall₂ Eq ribs ribs) (by
    rintro rib _ rfl steady
    exact steady.1)
  crowd _ := settled.alone
  far rib inside selected far := absurd far (settled.near rib inside selected)

/-- The client knows exactly of the selected route. -/
def Exact (told : Bool) (type : RouteType) (ribs : List Rib) : Prop :=
  told = true ↔ ∃ rib ∈ ribs, rib.selected = true ∧ rib.type = type

theorem Exact.informed {told : Bool} {type : RouteType} (settled : Settled ribs)
    (right : Exact told type ribs) (waits : Prop) : Informed told type ribs waits where
  sound held := by
    obtain ⟨rib, inside, selected, kind⟩ := right.mp held
    exact ⟨rib, inside, selected, kind, settled.near rib inside selected⟩
  complete untold rib inside selected kind := by
    rw [right.mpr ⟨rib, inside, selected, kind⟩] at untold
    cases untold

variable {i : Nat}

/-- If at most the route at one place was selected, then it is the only one once it was
exchanged. -/
theorem sole_set (only : ∀ (j : Nat) rib, ribs[j]? = some rib → rib.selected = true → j = i)
    (new : Rib) (j : Nat) (rib : Rib) (there : (ribs.set i new)[j]? = some rib)
    (selected : rib.selected = true) : j = i ∧ rib = new := by
  rw [List.getElem?_set] at there
  by_cases here : i = j
  · rw [if_pos here] at there
    split at there
    · exact ⟨here.symm, (Option.some.inj there).symm⟩
    · cases there
  · rw [if_neg here] at there
    exact absurd (only j rib there selected).symm here

variable {new : Rib}

theorem Settled.set (only : ∀ (j : Nat) rib, ribs[j]? = some rib → rib.selected = true → j = i)
    (near : new.distance ≠ distanceInfinity) : Settled (ribs.set i new) where
  alone := Alone.of_place fun j rib there selected => (sole_set only new j rib there selected).1
  near rib inside selected := by
    obtain ⟨j, there⟩ := List.mem_iff_getElem?.mp inside
    rw [(sole_set only new j rib there selected).2]
    exact near

theorem Exact.set (only : ∀ (j : Nat) rib, ribs[j]? = some rib → rib.selected = true → j = i)
    (inside : i < ribs.length) (selected : new.selected = true) {told : Bool} {type : RouteType}
    (right : told = true ↔ new.type = type) : Exact told type (ribs.set i new) := by
  unfold Exact
  rw [right]
  constructor
  · intro kind
    exact ⟨new, List.mem_set inside new, selected, kind⟩
  · rintro ⟨rib, member, selected', kind⟩
    obtain ⟨j, there⟩ := List.mem_iff_getElem?.mp member
    rw [← (sole_set only new j rib there selected').2]
    exact kind

theorem applyAt_some {f : Rib → Rib × List Effect} {rib : Rib} (there : ribs[i]? = some rib) :
    applyAt f (some i) ribs = (ribs.set i (f rib).1, (f rib).2) := by
  unfold applyAt
  dsimp only
  rw [there]

/-- From a chain of which a client is informed the effects lead it to what the next
chain is. -/
def Leads (ribs : List Rib) (effects : List Effect) (ribs' : List Rib) : Prop :=
  Settled ribs' ∧ ∀ told type waits, Informed told type ribs waits →
    Exact (tellAll type told effects) type ribs'

/-- The selected route stays. -/
theorem Scanned.refreshed (scanned : Scanned ribs scan) (select : scan.select = some i)
    (fib : scan.fib = some i) :
    Leads ribs (scan.done ++ (applyAt (ribRefresh s) scan.select scan.kept).2)
      (applyAt (ribRefresh s) scan.select scan.kept).1 := by
  obtain ⟨old, member, new, there, selected, same, changed⟩ := scanned.fib i fib
  obtain ⟨new', there', near, _⟩ := scanned.select i select
  obtain rfl : new = new' := Option.some.inj (there.symm.trans there')
  have kept := ribRefresh_same s new
  have only : ∀ (j : Nat) rib, scan.kept[j]? = some rib → rib.selected = true → j = i := by
    intro j rib found held
    exact (Option.some.inj (fib.symm.trans (scanned.kept j rib found held))).symm
  rw [select, applyAt_some there]
  refine ⟨Settled.set only (kept.distance ▸ near), ?_⟩
  intro told type waits informed
  rw [tellAll_append, tellAll_unlinks scanned.done, ribRefresh_tells]
  refine Exact.set only (List.getElem?_eq_some_iff.mp there).1 ?_ ?_
  · rw [kept.selected, same.selected, selected]
  · rw [kept.type]
    constructor
    · intro held
      split at held
      · rename_i here
        exact here.2
      · -- it was told before, of the only route that is selected
        obtain ⟨rib, member', selected', kind, _⟩ := informed.sound held
        obtain rfl := scanned.alone.eq_of_mem member member' selected selected'
        exact same.type.trans kind
    · intro kind
      split
      · rfl
      · rename_i unchanged
        cases held : told with
        | true => rfl
        | false =>
          -- a new route counts as changed
          have fresh := (informed.complete held old member selected (same.type.symm.trans kind)).1
          exact absurd ⟨changed select fresh, kind⟩ unchanged

/-- What was selected is withdrawn, and a client that was informed holds nothing of
the kind. -/
theorem Scanned.withdrawn (scanned : Scanned ribs scan) :
    (∀ rib ∈ (applyAt (ribWithdraw s) scan.fib scan.kept).1, rib.selected = false) ∧
      (∀ j : Nat, scan.fib ≠ some j →
        (applyAt (ribWithdraw s) scan.fib scan.kept).1[j]? = scan.kept[j]?) ∧
      ∀ told type waits, Informed told type ribs waits →
        tellAll type told (applyAt (ribWithdraw s) scan.fib scan.kept).2 = false := by
  cases fib : scan.fib with
  | none =>
    refine ⟨?_, fun _ _ => rfl, ?_⟩
    · intro rib inside
      obtain ⟨j, there⟩ := List.mem_iff_getElem?.mp inside
      apply Bool.eq_false_of_not_eq_true
      intro held
      have here := scanned.kept j rib there held
      rw [fib] at here
      cases here
    · intro told type waits informed
      apply Bool.eq_false_of_not_eq_true
      intro held
      obtain ⟨rib, inside, selected, _⟩ := informed.sound held
      rw [scanned.absent fib rib inside] at selected
      cases selected
  | some i =>
    obtain ⟨old, member, new, there, selected, same, _⟩ := scanned.fib i fib
    obtain ⟨unselected, _⟩ := ribWithdraw_fields s new
    have only : ∀ (j : Nat) rib, scan.kept[j]? = some rib → rib.selected = true → j = i := by
      intro j rib found held
      exact (Option.some.inj (fib.symm.trans (scanned.kept j rib found held))).symm
    rw [applyAt_some there]
    refine ⟨?_, ?_, ?_⟩
    · intro rib inside
      obtain ⟨j, found⟩ := List.mem_iff_getElem?.mp inside
      apply Bool.eq_false_of_not_eq_true
      intro held
      rw [(sole_set only _ j rib found held).2, unselected] at held
      cases held
    · intro j apart
      exact List.getElem?_set_ne fun same => apart (congrArg some same)
    · intro told type waits informed
      rw [ribWithdraw_tells]
      split
      · rfl
      · rename_i unsaid
        apply Bool.eq_false_of_not_eq_true
        intro held
        obtain ⟨rib, member', selected', kind, near⟩ := informed.sound held
        obtain rfl := scanned.alone.eq_of_mem member member' selected selected'
        exact unsaid ⟨same.distance.symm ▸ near, same.type.trans kind⟩

/-- Another route takes the place of the selected one, or none does. -/
theorem Scanned.replaced (scanned : Scanned ribs scan)
    (apart : ¬ (scan.select.isSome = true ∧ scan.select = scan.fib)) :
    Leads ribs
        (scan.done ++ (applyAt (ribWithdraw s) scan.fib scan.kept).2 ++
          (applyAt (ribSelect s) scan.select (applyAt (ribWithdraw s) scan.fib scan.kept).1).2)
        (applyAt (ribSelect s) scan.select (applyAt (ribWithdraw s) scan.fib scan.kept).1).1 ∧
      ∀ d rib, scan.fib = some d →
        (applyAt (ribSelect s) scan.select
          (applyAt (ribWithdraw s) scan.fib scan.kept).1).1[d]? = some rib →
        rib.selected = false := by
  obtain ⟨none, others, untold⟩ := scanned.withdrawn s
  generalize applyAt (ribWithdraw s) scan.fib scan.kept = left at none others untold ⊢
  have empty : ∀ (j : Nat) rib, left.1[j]? = some rib → ¬ rib.selected = true := by
    intro j rib there held
    rw [none rib (List.mem_of_getElem? there)] at held
    cases held
  cases select : scan.select with
  | none =>
    refine ⟨⟨⟨Alone.of_place (k := 0) fun j rib there held => absurd held (empty j rib there), ?_⟩,
      ?_⟩, fun d rib _ there => Bool.eq_false_of_not_eq_true (empty d rib there)⟩
    · intro rib inside held
      rw [none rib inside] at held
      cases held
    · intro told type waits informed
      unfold applyAt
      rw [List.append_nil, tellAll_append, tellAll_unlinks scanned.done,
        untold told type waits informed]
      constructor
      · intro held
        cases held
      · rintro ⟨rib, inside, held, _⟩
        rw [none rib inside] at held
        cases held
  | some i =>
    have differ : scan.fib ≠ some i := by
      intro same
      exact apart ⟨by rw [select]; rfl, select.trans same.symm⟩
    obtain ⟨rib, there, near, _⟩ := scanned.select i select
    have there' : left.1[i]? = some rib := (others i differ).trans there
    obtain ⟨selected, type', distance⟩ := ribSelect_fields s rib
    have only : ∀ (j : Nat) rib, left.1[j]? = some rib → rib.selected = true → j = i :=
      fun j rib found held => absurd held (empty j rib found)
    rw [applyAt_some there']
    refine ⟨⟨Settled.set only (distance.symm ▸ near), ?_⟩, ?_⟩
    · intro told type waits informed
      rw [tellAll_append, tellAll_append, tellAll_unlinks scanned.done,
        untold told type waits informed, ribSelect_tells]
      refine Exact.set only (List.getElem?_eq_some_iff.mp there').1 selected ?_
      rw [type']
      split
      · rename_i same
        exact iff_of_true rfl same
      · rename_i other
        exact iff_of_false (by decide) other
    · intro d rib' fib found
      apply Bool.eq_false_of_not_eq_true
      intro held
      obtain ⟨rfl, _⟩ := sole_set only _ d rib' found held
      exact differ fib

theorem same_of_bare {rib rib' : Rib} (alike : bare rib = bare rib') : Same rib rib' where
  selected := (congrArg Rib.selected alike).symm
  type := (congrArg Rib.type alike).symm
  distance := (congrArg Rib.distance alike).symm
  removed := (congrArg Rib.removed alike).symm

theorem forall₂_bare (alike : ribs'.map bare = ribs.map bare) :
    List.Forall₂ (fun rib rib' => bare rib = bare rib') ribs ribs' := by
  have equal : List.Forall₂ Eq (ribs.map bare) (ribs'.map bare) := by
    rw [alike, List.forall₂_eq_eq_eq]
  rwa [List.forall₂_map_left_iff, List.forall₂_map_right_iff] at equal

/-- A route that is not selected leaves the chain. -/
theorem Leads.unlink (leads : Leads ribs effects ribs') {d : Nat}
    (unselected : ∀ rib, ribs'[d]? = some rib → rib.selected = false) :
    Leads ribs (effects ++ (ribUnlink ribs' d).2) (ribUnlink ribs' d).1 := by
  obtain ⟨⟨alone, near⟩, tells⟩ := leads
  have alike := forall₂_bare (map_ribUnlink ribs' d)
  refine ⟨⟨?_, ?_⟩, ?_⟩
  · apply (alone.eraseIdx d).weaken alike
    intro rib rib' same held
    rw [← (same_of_bare same).selected]
    exact held
  · intro rib' inside held
    obtain ⟨rib, there, same⟩ := forall₂_source alike inside
    have kept := same_of_bare same
    rw [kept.distance]
    exact near rib (List.mem_of_mem_eraseIdx there) (kept.selected ▸ held)
  · intro told type waits informed
    rw [tellAll_append, tellAll_unlinks (ribUnlink_unlinks ribs' d)]
    refine (tells told type waits informed).trans ?_
    constructor
    · rintro ⟨rib, inside, held, kind⟩
      obtain ⟨j, there⟩ := List.mem_iff_getElem?.mp inside
      have other : j ≠ d := by
        rintro rfl
        rw [unselected rib there] at held
        cases held
      have left : rib ∈ ribs'.eraseIdx d := List.mem_eraseIdx_iff_getElem?.mpr ⟨j, other, there⟩
      obtain ⟨rib', inside', same⟩ := forall₂_source alike.flip left
      have kept := same_of_bare same
      exact ⟨rib', inside', kept.selected.trans held, kept.type.trans kind⟩
    · rintro ⟨rib', inside, held, kind⟩
      obtain ⟨rib, there, same⟩ := forall₂_source alike inside
      have kept := same_of_bare same
      exact ⟨rib, List.mem_of_mem_eraseIdx there, kept.selected ▸ held, kept.type ▸ kind⟩

/-- Processing a prefix leads every client that was informed to the selected route. -/
theorem ribProcess_leads (done : ribProcess s ribs = some (ribs', effects)) :
    Leads ribs effects ribs' := by
  obtain ⟨scan, looped, exchanged⟩ := Option.map_eq_some_iff.mp done
  have scanned := Scanned.start.loop s looped
  rw [List.nil_append] at scanned
  suffices leads : Leads ribs (ribExchange s scan).2 (ribExchange s scan).1 by
    rw [exchanged] at leads
    exact leads
  unfold ribExchange
  split
  · rename_i stays
    obtain ⟨present, fib⟩ := stays
    obtain ⟨i, select⟩ := Option.isSome_iff_exists.mp present
    exact scanned.refreshed s select (fib.symm.trans select)
  · rename_i apart
    obtain ⟨leads, unselected⟩ := scanned.replaced s apart
    dsimp only
    split
    · exact leads
    · rename_i d del
      exact leads.unlink fun rib there => unselected d rib (scanned.del d del).1 there

end Bgpd.Redistribution
