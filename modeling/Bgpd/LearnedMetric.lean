import Bgpd.HandlerEffects

/-!
# The learned metric

The parser's effect on the MED, the preference and the neighbour's metric is a
fold over the attributes. Its two steps that do anything commute from every
state: whichever comes second makes up for what the first one could not know.
So the result of a section does not depend on the order of its attributes, and
it can be computed with the two attributes moved to the front.
-/

namespace Bgpd.LearnedMetric

open Octets Attributes Neighbors AttrParse AttrSection HandlerEffects

/-- Attributes of distinct types can be absorbed in either order. -/
theorem absorb_comm (m : Metric) (first second : Tlv) (distinct : first.type ≠ second.type) :
    absorb (absorb m first) second = absorb (absorb m second) first := by
  unfold absorb
  by_cases firstMed : first.type = AttrType.multiExitDisc.code
  · have secondNotMed : second.type ≠ AttrType.multiExitDisc.code := fun same =>
      distinct (firstMed.trans same.symm)
    by_cases secondPref : second.type = AttrType.localPref.code
    · -- the only pair that meets: both orders end with the sum of the two
      by_cases fresh : m.localMed = 0#32 <;>
        simp [firstMed, secondPref, fresh, AttrType.code]
    · simp [firstMed, secondNotMed, secondPref]
  · by_cases firstPref : first.type = AttrType.localPref.code
    · have secondNotPref : second.type ≠ AttrType.localPref.code := fun same =>
        distinct (firstPref.trans same.symm)
      by_cases secondMed : second.type = AttrType.multiExitDisc.code
      · by_cases fresh : m.localMed = 0#32 <;>
          simp [firstPref, secondMed, fresh, AttrType.code]
      · simp [firstMed, secondMed, secondNotPref]
    · simp [firstMed, firstPref]

/-- A fold over attributes of distinct types depends on the set of them only. -/
theorem absorb_perm (first second : List Tlv) (m : Metric) (distinct : (first.map Tlv.type).Nodup)
    (permuted : first.Perm second) : first.foldl absorb m = second.foldl absorb m := by
  apply permuted.foldl_eq'
  intro left inLeft right inRight current
  by_cases same : left.type = right.type
  · rw [List.inj_on_of_nodup_map distinct inLeft inRight same]
  · exact absorb_comm current left right same

/-- The metric after a section: the one known before, unless that is zero. -/
def learned (localMed heard : U32) : U32 := if localMed = 0 then heard else localMed

/-- The three values after attributes of distinct types that include a MED and
a preference. -/
theorem absorb_both (tlvs : List Tlv) (localMed : U32) (med pref : Tlv)
    (distinct : (tlvs.map Tlv.type).Nodup) (hasMed : med ∈ tlvs) (hasPref : pref ∈ tlvs)
    (isMed : med.type = AttrType.multiExitDisc.code) (isPref : pref.type = AttrType.localPref.code)
    (start : Metric) (known : start.localMed = localMed) :
    tlvs.foldl absorb start =
      ⟨medValue med + learned localMed (localPrefValue pref), localPrefValue pref,
        learned localMed (localPrefValue pref)⟩ := by
  have apart : pref ≠ med := by
    rintro rfl
    exact absurd (isMed.symm.trans isPref) (by decide)
  obtain ⟨others, front⟩ : ∃ others, tlvs.Perm (med :: pref :: others) := by
    have prefLeft : pref ∈ tlvs.erase med := (List.mem_erase_of_ne apart).mpr hasPref
    exact ⟨(tlvs.erase med).erase pref,
      (List.perm_cons_erase hasMed).trans ((List.perm_cons_erase prefLeft).cons med)⟩
  have distinctFront : ((med :: pref :: others).map Tlv.type).Nodup :=
    (front.map Tlv.type).nodup_iff.mp distinct
  have idle : ∀ m : Metric, others.foldl absorb m = m := by
    intro m
    have untouched : ∀ other ∈ others, absorb m other = m := by
      intro other member
      simp only [List.map_cons, List.nodup_cons, List.mem_cons, List.mem_map, not_or,
        not_exists, not_and] at distinctFront
      have notMed : other.type ≠ AttrType.multiExitDisc.code := fun same =>
        distinctFront.1.2 other member (same.trans isMed.symm)
      have notPref : other.type ≠ AttrType.localPref.code := fun same =>
        distinctFront.2.1 other member (same.trans isPref.symm)
      unfold absorb
      rw [if_neg notMed, if_neg notPref]
    clear front distinctFront
    induction others with
    | nil => rfl
    | cons other rest ih =>
      rw [List.foldl_cons, untouched other List.mem_cons_self]
      exact ih fun later member => untouched later (List.mem_cons_of_mem other member)
  rw [absorb_perm tlvs _ start distinct front, List.foldl_cons, List.foldl_cons, idle]
  have notMed : pref.type ≠ AttrType.multiExitDisc.code := by rw [isPref]; decide
  unfold absorb learned
  rw [if_pos isMed, if_neg notMed, if_pos isPref]
  by_cases fresh : start.localMed = 0#32 <;> simp [fresh, ← known]

variable (bgp : Bgp) (peer : Peer) (cap : PeerCap)

/-- An accepted section of framed attributes has attributes of distinct types,
and acts on the three values as their fold. -/
theorem bgpAttrParse_absorb (localMed : U32) (tlvs : List Tlv) (final : ParseState)
    (framed : ∀ tlv ∈ tlvs, tlv.Framed)
    (parsed : bgpAttrParse bgp peer cap localMed (encodeAll tlvs) = (final, .proceed)) :
    (tlvs.map Tlv.type).Nodup ∧ metric final = tlvs.foldl absorb ⟨0, 0, localMed⟩ := by
  obtain ⟨walked, finished, kept⟩ := bgpAttrParse_walk bgp peer cap localMed _ final parsed
  rw [← List.append_nil (encodeAll tlvs)] at finished
  obtain ⟨next, turns, ending⟩ := walk_prefix bgp peer cap tlvs [] _ walked framed finished
  cases ending
  obtain ⟨distinct, -, effect, -⟩ := takeAll_next bgp peer cap tlvs _ walked turns
  exact ⟨distinct, kept.metric.trans effect⟩

/-- The learned MED, the preference and the neighbour's new metric do not depend
on the order of the attributes in the section. When the section has a MED and a
preference, the new metric is the old one unless that was zero, and the MED is
the sum of the one sent and the new metric, in four octets. -/
theorem attr_parse_order_independent (localMed : U32) (first second : List Tlv)
    (left right : ParseState) (framed : ∀ tlv ∈ first, tlv.Framed) (permuted : first.Perm second)
    (parsedFirst : bgpAttrParse bgp peer cap localMed (encodeAll first) = (left, .proceed))
    (parsedSecond : bgpAttrParse bgp peer cap localMed (encodeAll second) = (right, .proceed)) :
    (left.attr.med = right.attr.med ∧ left.attr.localPref = right.attr.localPref ∧
        left.localMed = right.localMed) ∧
      ∀ med ∈ first, ∀ pref ∈ first, med.type = AttrType.multiExitDisc.code →
        pref.type = AttrType.localPref.code →
          left.localMed = (if localMed ≠ 0 then localMed else localPrefValue pref) ∧
            left.attr.localPref = localPrefValue pref ∧
            left.attr.med.toNat = ((medValue med).toNat + left.localMed.toNat) % 2 ^ 32 := by
  have framedSecond : ∀ tlv ∈ second, tlv.Framed := fun tlv member =>
    framed tlv (permuted.mem_iff.mpr member)
  obtain ⟨distinct, leftFold⟩ :=
    bgpAttrParse_absorb bgp peer cap localMed first left framed parsedFirst
  obtain ⟨-, rightFold⟩ :=
    bgpAttrParse_absorb bgp peer cap localMed second right framedSecond parsedSecond
  have same : metric left = metric right := by
    rw [leftFold, rightFold, absorb_perm first second _ distinct permuted]
  have fields := Metric.mk.inj same
  refine ⟨⟨fields.1, fields.2.1, fields.2.2⟩, ?_⟩
  intro med hasMed pref hasPref isMed isPref
  have both := absorb_both first localMed med pref distinct hasMed hasPref isMed isPref
    ⟨0, 0, localMed⟩ rfl
  rw [← leftFold] at both
  obtain ⟨medEq, prefEq, localMedEq⟩ := Metric.mk.inj both
  refine ⟨?_, prefEq, ?_⟩
  · rw [localMedEq, learned]
    by_cases fresh : localMed = 0 <;> simp [fresh]
  · rw [medEq, localMedEq, BitVec.toNat_add]

/-- The five attributes every IPv4 unicast route needs, in the order the writer
emits them. -/
def fiveAttributes (nexthop med localPref : U32) : List Tlv :=
  [.wellKnown .origin [0], .wellKnown .asPath [], .wellKnown .nextHop (putl nexthop),
    .wellKnown .multiExitDisc (putl med), .wellKnown .localPref (putl localPref)]

/-- Five attributes read in either direction, from a new neighbour. -/
theorem attr_parse_order_independent_reversed :
    let five := fiveAttributes 0x0A000001 10 100
    let parse (tlvs : List Tlv) :=
      bgpAttrParse (.plain 65001 1) (.plain 1 65002 65001) {} 0 (encodeAll tlvs)
    (parse five).1.attr.med = (parse five.reverse).1.attr.med ∧
      (parse five).1.attr.med.toNat = 110 := by
  intro five parse
  have both := attr_parse_order_independent (.plain 65001 1) (.plain 1 65002 65001) {} 0
    five five.reverse (parse five).1 (parse five.reverse).1
    (by decide) (List.reverse_perm five).symm (by decide) (by decide)
  refine ⟨both.1.1, ?_⟩
  rw [(both.2 (.wellKnown .multiExitDisc (putl 10)) (by decide)
    (.wellKnown .localPref (putl 100)) (by decide) rfl rfl).2.2]
  decide

end Bgpd.LearnedMetric
