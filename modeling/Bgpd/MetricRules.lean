import Bgpd.CommunityText

/-!
# The text of a metric rule

`set metric` keeps its argument as text, which `route_set_metric` reads again for every
route: a number, or one to add to or take from the MED. The test for an overflow adds the
halves of both numbers, and two odd numbers lose a half each.
-/

namespace Bgpd.MetricRules

open Octets Attributes SharedAttrs PolicyClauses CommunityText

/-- `all_digit`. -/
def allDigit (str : CString) : Bool := str.all Char.isDigit

/-- `strtoul` of digits, with an `unsigned long` of 64 bits. -/
def strtoul (str : CString) : Nat := min (Nat.ofDigitChars 10 str 0) (2 ^ 64 - 1)

/-- The value is none that `route_set_metric_compile` takes: it is `ULONG_MAX`, or more than
`UINT32_MAX`. -/
abbrev OutOfRange (larg : Nat) : Prop := larg = 2 ^ 64 - 1 ∨ larg > 2 ^ 32 - 1

/-- `route_set_metric_compile`. -/
def routeSetMetricCompile (arg : CString) : Option CString :=
  if allDigit arg then
    if OutOfRange (strtoul arg) then none else some arg
  else if (arg.head? ≠ some '+' ∧ arg.head? ≠ some '-') ∨ !allDigit arg.tail then none
  else if OutOfRange (strtoul arg.tail) then none
  else some arg

/-- `route_set_metric`, as it reads the text. -/
def routeSetMetric (metric : CString) (attr : AttrRef) : AttrRef :=
  let med := if FlagWord.check attr.flag (attrFlagBit .multiExitDisc) then attr.med else 0
  let attr := { mark attr .multiExitDisc with med }
  if allDigit metric then { attr with med := BitVec.ofNat 32 (strtoul metric) }
  else
    let metricVal := BitVec.ofNat 32 (strtoul metric.tail)
    if metric.head? = some '+' then
      { attr with
        med := if med / 2 + metricVal / 2 > bgpMedMax / 2 then bgpMedMax - 1 else med + metricVal }
    else if metric.head? = some '-' then
      { attr with med := if med ≤ metricVal then 0 else med - metricVal }
    else attr

/-! ## Arguments -/

/-- The argument as a rule, with its number. -/
inductive Reads : CString → MetricRule → Prop
  | value (digits : CString) (n : U32) (all : allDigit digits = true)
      (number : Nat.ofDigitChars 10 digits 0 = n.toNat) : Reads digits (.value n)
  | plus (digits : CString) (n : U32) (all : allDigit digits = true)
      (number : Nat.ofDigitChars 10 digits 0 = n.toNat) : Reads ('+' :: digits) (.plus n)
  | minus (digits : CString) (n : U32) (all : allDigit digits = true)
      (number : Nat.ofDigitChars 10 digits 0 = n.toNat) : Reads ('-' :: digits) (.minus n)

theorem inRange_number {digits : CString} (range : ¬ OutOfRange (strtoul digits)) :
    Nat.ofDigitChars 10 digits 0 = (BitVec.ofNat 32 (strtoul digits)).toNat := by
  rw [not_or, strtoul] at range
  rw [BitVec.toNat_ofNat, strtoul]
  omega

theorem compile_reads {arg rule : CString} (compiled : routeSetMetricCompile arg = some rule) :
    rule = arg ∧ ∃ read, Reads arg read := by
  unfold routeSetMetricCompile at compiled
  split at compiled
  · rename_i all
    split at compiled
    · cases compiled
    · rename_i range
      exact ⟨(Option.some.inj compiled).symm, _, .value arg _ all (inRange_number range)⟩
  · split at compiled
    · cases compiled
    · rename_i signed
      split at compiled
      · cases compiled
      · rename_i range
        refine ⟨(Option.some.inj compiled).symm, ?_⟩
        rw [not_or, Bool.not_eq_true', Bool.not_eq_false, not_and_or, not_not, not_not] at signed
        obtain ⟨sign, all⟩ := signed
        cases arg with
        | nil => simp at sign
        | cons first digits =>
          rw [List.head?_cons, Option.some.injEq, Option.some.injEq] at sign
          rcases sign with rfl | rfl
          · exact ⟨_, .plus digits _ all (inRange_number range)⟩
          · exact ⟨_, .minus digits _ all (inRange_number range)⟩

/-- What the text does is what the rule does. -/
theorem routeSetMetric_reads {arg : CString} {rule : MetricRule} (reads : Reads arg rule)
    (attr : AttrRef) : routeSetMetric arg attr = PolicyClauses.routeSetMetric rule attr := by
  have small : ∀ {digits : CString} {n : U32}, Nat.ofDigitChars 10 digits 0 = n.toNat →
      BitVec.ofNat 32 (strtoul digits) = n := by
    intro digits n number
    have bound : n.toNat ≤ 2 ^ 64 - 1 := by have := n.isLt; omega
    rw [strtoul, number, Nat.min_eq_left bound, BitVec.ofNat_toNat, BitVec.setWidth_eq]
  cases reads with
  | value _ n all number =>
    simp only [routeSetMetric, all, if_true, small number]
    rfl
  | plus digits n _ number =>
    have signed : allDigit ('+' :: digits) = false := rfl
    simp only [routeSetMetric, signed, List.tail_cons, small number]
    rfl
  | minus digits n _ number =>
    have signed : allDigit ('-' :: digits) = false := rfl
    simp only [routeSetMetric, signed, List.tail_cons, small number]
    rfl

/-! ## The numbers -/

/-- The number of digits. -/
def number (digits : CString) : Nat := Nat.ofDigitChars 10 digits 0

/-- The largest MED. -/
def medMax : Nat := 2 ^ 32 - 1

/-- The MED of the attributes, zero where there is none. -/
def medOf (attr : AttrRef) : Nat :=
  if FlagWord.check attr.flag (attrFlagBit .multiExitDisc) then attr.med.toNat else 0

/-- The MED that the argument sets. -/
def setTo (arg : CString) (attr : AttrRef) : Nat := (routeSetMetric arg attr).med.toNat

/-- The MED is what the argument says: its number, the sum where that is far enough from the
largest MED and else a MED next to the largest, or the difference where it is positive. -/
def Exact (arg : CString) (attr : AttrRef) : Prop :=
  match arg with
  | '+' :: digits =>
    (medOf attr + number digits < medMax - 1 → setTo arg attr = medOf attr + number digits) ∧
    (medMax - 1 ≤ medOf attr + number digits →
      setTo arg attr = medMax - 1 ∨ setTo arg attr = medMax) ∧
    min (medOf attr) (medMax - 1) ≤ setTo arg attr
  | '-' :: digits =>
    setTo arg attr = medOf attr - number digits ∧ setTo arg attr ≤ medOf attr ∧
    ∀ attr', medOf attr ≤ medOf attr' → setTo arg attr ≤ setTo arg attr'
  | digits => setTo arg attr = number digits

/-- Both numbers are odd, and their sum is the first that is too large. -/
def Wraps (arg : CString) (attr : AttrRef) : Prop :=
  match arg with
  | '+' :: digits => medOf attr % 2 = 1 ∧ number digits % 2 = 1 ∧
      medOf attr + number digits = medMax + 1
  | _ => False

section Arithmetic

variable (attr : AttrRef) (n : U32)

theorem med_read :
    (if FlagWord.check attr.flag (attrFlagBit .multiExitDisc) then attr.med else 0).toNat =
      medOf attr := by
  unfold medOf
  split <;> rfl

theorem setTo_value : (PolicyClauses.routeSetMetric (.value n) attr).med.toNat = n.toNat := rfl

/-- The sum of the halves is compared with half of the largest MED. -/
theorem setTo_plus : (PolicyClauses.routeSetMetric (.plus n) attr).med.toNat =
    if medOf attr / 2 + n.toNat / 2 > medMax / 2 then medMax - 1
    else (medOf attr + n.toNat) % (medMax + 1) := by
  rw [← med_read attr]
  unfold PolicyClauses.routeSetMetric
  dsimp only
  generalize (if FlagWord.check attr.flag (attrFlagBit .multiExitDisc) then attr.med else 0) = m
  have halves : (m / 2 + n / 2).toNat = m.toNat / 2 + n.toNat / 2 := by
    have smaller : m.toNat / 2 + n.toNat / 2 < 2 ^ 32 := by
      omega
    rw [BitVec.toNat_add, BitVec.toNat_udiv, BitVec.toNat_udiv]
    exact Nat.mod_eq_of_lt smaller
  have limit : (bgpMedMax / 2).toNat = medMax / 2 := by decide
  have compare : m / 2 + n / 2 > bgpMedMax / 2 ↔ m.toNat / 2 + n.toNat / 2 > medMax / 2 := by
    rw [gt_iff_lt, BitVec.lt_def, halves, limit]
  by_cases saturates : m.toNat / 2 + n.toNat / 2 > medMax / 2
  · rw [if_pos saturates, if_pos (compare.mpr saturates)]
    decide
  · rw [if_neg saturates, if_neg (mt compare.mp saturates)]
    exact BitVec.toNat_add m n

theorem setTo_minus : (PolicyClauses.routeSetMetric (.minus n) attr).med.toNat =
    medOf attr - n.toNat := by
  rw [← med_read attr]
  unfold PolicyClauses.routeSetMetric
  dsimp only
  generalize (if FlagWord.check attr.flag (attrFlagBit .multiExitDisc) then attr.med else 0) = m
  split
  · rename_i below
    rw [BitVec.le_def] at below
    exact (Nat.sub_eq_zero_of_le below).symm
  · rename_i above
    rw [BitVec.le_def, not_le] at above
    exact BitVec.toNat_sub_of_le above.le

end Arithmetic

/-- An argument that is accepted sets the MED it says, unless the sum of two odd numbers
wraps around to zero. The guard halves the two numbers before it adds them, which loses a
one where both are odd. -/
theorem metric_exact_iff (arg rule : CString) (compiled : routeSetMetricCompile arg = some rule)
    (attr : AttrRef) :
    FlagWord.check (routeSetMetric rule attr).flag (attrFlagBit .multiExitDisc) = true ∧
      (Exact arg attr ↔ ¬ Wraps arg attr) := by
  obtain ⟨rfl, read, reads⟩ := compile_reads compiled
  have set : ∀ attr, setTo rule attr = (PolicyClauses.routeSetMetric read attr).med.toNat :=
      fun attr => by
    rw [setTo, routeSetMetric_reads reads]
  have bound : medOf attr ≤ medMax := by
    rw [← med_read attr]
    exact Nat.le_of_lt_succ (BitVec.isLt _)
  refine ⟨?_, ?_⟩
  · have flag : (routeSetMetric rule attr).flag = (mark attr .multiExitDisc).flag := by
      rw [routeSetMetric_reads reads]
      cases read <;> rfl
    have own : FlagWord.check (attrFlagBit .multiExitDisc) (attrFlagBit .multiExitDisc) = true := by
      decide
    rw [flag, mark, FlagWord.check_set, own, Bool.or_true]
  · cases reads with
    | value _ n all same =>
      have exact_iff : Exact rule attr ↔ setTo rule attr = number rule := by
        unfold Exact
        split
        · cases all
        · cases all
        · rfl
      have plain : ¬ Wraps rule attr := by
        unfold Wraps
        split
        · cases all
        · exact not_false
      rw [exact_iff, set, setTo_value, number, same]
      exact ⟨fun _ => plain, fun _ => rfl⟩
    | plus digits n all same =>
      have sum := setTo_plus attr n
      rw [← set attr] at sum
      simp only [Exact, Wraps, number, same]
      unfold medMax at *
      split at sum <;> omega
    | minus digits n all same =>
      simp only [Exact, number, same, set, setTo_minus, true_and]
      exact ⟨fun _ => not_false,
        fun _ => ⟨Nat.sub_le _ _, fun attr' less => Nat.sub_le_sub_right less _⟩⟩

/-- Attributes with a MED. -/
def sampleAttr (med : U32) : AttrRef := mark ⟨0, none, none, 0, 0, med, 0, 0⟩ .multiExitDisc

theorem metric_exact_iff_plus :
    Exact ['+', '5'] (sampleAttr 7) ↔ ¬ Wraps ['+', '5'] (sampleAttr 7) :=
  (metric_exact_iff ['+', '5'] ['+', '5'] (by decide) (sampleAttr 7)).2

/-- One and the largest MED make none at all. -/
theorem metric_wraps :
    routeSetMetricCompile "+4294967295".toList = some "+4294967295".toList ∧
      setTo "+4294967295".toList (sampleAttr 1) = 0 ∧
        ¬ Exact "+4294967295".toList (sampleAttr 1) := by
  have none : setTo "+4294967295".toList (sampleAttr 1) = 0 := by decide
  refine ⟨by decide, none, fun exact => ?_⟩
  have large :
      min (medOf (sampleAttr 1)) (medMax - 1) ≤ setTo "+4294967295".toList (sampleAttr 1) :=
    exact.2.2
  rw [none] at large
  exact absurd large (by decide)

end Bgpd.MetricRules
