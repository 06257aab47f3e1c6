import Bgpd.Prefixes

/-!
# Prefixes by their octets

The daemon compares prefixes octet by octet, with a table of masks for the
octet a prefix ends in. The octets behind the prefix length are kept as they
came, so two prefixes with the same leading bits can differ as structures.

The leading bits are a list, and in terms of it the octet functions are simple:
`prefix_match` is the prefix order of lists, `prefix_bit` an entry of the list,
and `route_common` the longest list below both arguments.
-/

namespace Bgpd.PrefixBits

open Octets Prefixes

variable (n p : OctetPrefix) (np pp : List U8)

/-- `struct prefix`. An octet behind those given reads as zero. -/
structure OctetPrefix where
  family : Afi
  prefixlen : Nat
  octets : List U8
  fits : prefixlen ≤ family.bits
  deriving DecidableEq, Repr

/-- The octet at an index. -/
def octetAt (octets : List U8) (i : Nat) : U8 := octets.getD i 0

/-- `maskbit`. -/
def maskbit (count : Nat) : U8 :=
  [0x00, 0x80, 0xc0, 0xe0, 0xf0, 0xf8, 0xfc, 0xfe, 0xff].getD count 0

/-- `prefix_bit`. -/
def prefixBit (octets : List U8) (prefixlen : Nat) : Bool :=
  let offset := prefixlen / 8
  let shift := 7 - prefixlen % 8
  (octetAt octets offset >>> shift) &&& 1 = 1

/-- The loop of `prefix_match` over the whole octets. -/
def octetsMatch (np pp : List U8) : Nat → Bool
  | 0 => true
  | offset + 1 => if octetAt np offset ≠ octetAt pp offset then false else octetsMatch np pp offset

/-- `prefix_match`. -/
def prefixMatch (n p : OctetPrefix) : Bool :=
  if n.prefixlen > p.prefixlen then false
  else
    let offset := n.prefixlen / 8
    let shift := n.prefixlen % 8
    if shift ≠ 0 ∧ maskbit shift &&& (octetAt n.octets offset ^^^ octetAt p.octets offset) ≠ 0 then
      false
    else octetsMatch n.octets p.octets offset

/-- `prefix_copy`: as many octets as an address of the family has. -/
def prefixCopy (src : OctetPrefix) : OctetPrefix :=
  { src with octets := src.octets.take (src.family.bits / 8) }

/-- The first loop of `route_common`: `i` goes up while the octets agree. -/
def commonOctets (np pp : List U8) : Nat → Nat → Nat
  | 0, i => i
  | count + 1, i => if octetAt np i = octetAt pp i then commonOctets np pp count (i + 1) else i

/-- The second loop of `route_common`: the mask moves right while the length is
below `last` and the octets agree under it. -/
def commonBits (diff : U8) (last : Nat) : Nat → U8 → Nat → Nat
  | 0, _, prefixlen => prefixlen
  | fuel + 1, mask, prefixlen =>
    if prefixlen < last ∧ mask &&& diff = 0 then
      commonBits diff last fuel (mask >>> 1) (prefixlen + 1)
    else prefixlen

/-! ## The leading bits -/

/-- The bit at an index, the most significant bit of an octet first. -/
def bitAt (octets : List U8) (i : Nat) : Bool := (octetAt octets (i / 8)).getLsbD (7 - i % 8)

/-- The bits of a prefix. -/
def OctetPrefix.bits (p : OctetPrefix) : List Bool := (List.range p.prefixlen).map (bitAt p.octets)

/-- The prefix without what stands behind its length. -/
def OctetPrefix.masked (p : OctetPrefix) : Prefix :=
  ⟨p.family, p.bits, by simpa only [OctetPrefix.bits, List.length_map,
    List.length_range] using p.fits⟩

@[simp] theorem bits_length (p : OctetPrefix) : p.bits.length = p.prefixlen := by
  rw [OctetPrefix.bits, List.length_map, List.length_range]

theorem bits_getElem? (p : OctetPrefix) {i : Nat} (inside : i < p.prefixlen) :
    p.bits[i]? = some (bitAt p.octets i) := by
  rw [OctetPrefix.bits, List.getElem?_map, List.getElem?_range inside]
  rfl

/-- One list of bits below another, in terms of the octets. -/
theorem bits_prefix_iff :
    n.bits <+: p.bits ↔
      n.prefixlen ≤ p.prefixlen ∧ ∀ i < n.prefixlen, bitAt n.octets i = bitAt p.octets i := by
  rw [List.prefix_iff_getElem?]
  constructor
  · intro below
    have shorter : n.prefixlen ≤ p.prefixlen := by
      by_contra longer
      have inside : p.prefixlen < n.bits.length := by rw [bits_length]; omega
      have missing : p.bits[p.prefixlen]? = none := List.getElem?_eq_none (by rw [bits_length])
      rw [below p.prefixlen inside] at missing
      cases missing
    refine ⟨shorter, fun i inside => ?_⟩
    have entry := below i (by rwa [bits_length])
    rw [← List.getElem?_eq_getElem, bits_getElem? n inside,
      bits_getElem? p (inside.trans_le shorter)] at entry
    exact (Option.some.inj entry).symm
  · rintro ⟨shorter, same⟩ i inside
    rw [bits_length] at inside
    rw [← List.getElem?_eq_getElem, bits_getElem? n inside,
      bits_getElem? p (inside.trans_le shorter), same i inside]

/-! ## The octet functions and the leading bits -/

theorem bit_shifted : ∀ shift < 8, ∀ octet : U8,
    decide ((octet >>> shift) &&& 1 = 1) = octet.getLsbD shift := by decide +kernel

theorem prefixBit_eq (octets : List U8) (i : Nat) : prefixBit octets i = bitAt octets i :=
  bit_shifted (7 - i % 8) (by omega) _

/-- Under a mask two octets agree exactly when their leading bits do. -/
theorem maskbit_agree : ∀ count < 8, ∀ diff : U8,
    maskbit count &&& diff = 0 ↔ ∀ j < count, diff.getLsbD (7 - j) = false := by decide +kernel

/-- Two octets agree exactly when their bits do. -/
theorem octet_eq_iff (left right : U8) :
    left = right ↔ ∀ j < 8, left.getLsbD (7 - j) = right.getLsbD (7 - j) := by
  constructor
  · rintro rfl j _
    rfl
  · intro same
    apply BitVec.eq_of_getLsbD_eq
    intro j inside
    have := same (7 - j) (by omega)
    rwa [show 7 - (7 - j) = j by omega] at this

/-- The bits of one octet. -/
theorem bitAt_octet (octets : List U8) (offset j : Nat) (inside : j < 8) :
    bitAt octets (8 * offset + j) = (octetAt octets offset).getLsbD (7 - j) := by
  rw [bitAt, show (8 * offset + j) / 8 = offset by omega, show (8 * offset + j) % 8 = j by omega]

theorem octetAt_eq_iff (offset : Nat) :
    octetAt np offset = octetAt pp offset ↔
      ∀ j < 8, bitAt np (8 * offset + j) = bitAt pp (8 * offset + j) := by
  rw [octet_eq_iff]
  refine forall₂_congr fun j inside => ?_
  rw [bitAt_octet np offset j inside, bitAt_octet pp offset j inside]

theorem octetsMatch_iff (count : Nat) :
    octetsMatch np pp count = true ↔ ∀ i < 8 * count, bitAt np i = bitAt pp i := by
  induction count with
  | zero => simp [octetsMatch]
  | succ count ih =>
    rw [octetsMatch]
    split
    · rename_i differ
      refine ⟨fun impossible => (nomatch impossible), fun same => absurd ?_ differ⟩
      rw [octetAt_eq_iff]
      exact fun j inside => same _ (by omega)
    · rename_i agree
      rw [ih]
      refine ⟨fun same i inside => ?_, fun same i inside => same i (by omega)⟩
      by_cases earlier : i < 8 * count
      · exact same i earlier
      · have last := (octetAt_eq_iff np pp count).mp (not_not.mp agree) (i - 8 * count) (by omega)
        rwa [show 8 * count + (i - 8 * count) = i by omega] at last

/-- The bits of the octet a prefix ends in agree under its mask. -/
theorem maskbit_match (offset count : Nat) (inside : count < 8) :
    maskbit count &&& (octetAt np offset ^^^ octetAt pp offset) = 0 ↔
      ∀ j < count, bitAt np (8 * offset + j) = bitAt pp (8 * offset + j) := by
  rw [maskbit_agree count inside]
  refine forall₂_congr fun j earlier => ?_
  rw [BitVec.getLsbD_xor, bitAt_octet np offset j (by omega), bitAt_octet pp offset j (by omega)]
  exact bne_eq_false_iff_eq

/-- `prefix_match` is the prefix order of the leading bits. -/
theorem prefixMatch_iff : prefixMatch n p = true ↔ n.bits <+: p.bits := by
  rw [bits_prefix_iff, prefixMatch]
  have whole : n.prefixlen = 8 * (n.prefixlen / 8) + n.prefixlen % 8 := by omega
  have ending := maskbit_match n.octets p.octets (n.prefixlen / 8) (n.prefixlen % 8) (by omega)
  split
  · rename_i longer
    exact ⟨fun impossible => (nomatch impossible), fun both => absurd both.1 (by omega)⟩
  · rename_i shorter
    dsimp only
    split
    · rename_i differ
      refine ⟨fun impossible => (nomatch impossible), fun both => absurd ?_ differ.2⟩
      exact ending.mpr fun j inside => both.2 _ (by omega)
    · rename_i agree
      rw [octetsMatch_iff]
      refine ⟨fun same => ⟨by omega, fun i inside => ?_⟩, fun both i inside => both.2 i (by omega)⟩
      by_cases earlier : i < 8 * (n.prefixlen / 8)
      · exact same i earlier
      · have rest : ¬n.prefixlen % 8 = 0 := by omega
        have last := ending.mp (by_contra fun differ => agree ⟨rest, differ⟩)
          (i - 8 * (n.prefixlen / 8)) (by omega)
        rwa [show 8 * (n.prefixlen / 8) + (i - 8 * (n.prefixlen / 8)) = i by omega] at last

/-- A copied prefix has the bits of its source. -/
@[simp] theorem prefixCopy_bits (p : OctetPrefix) : (prefixCopy p).bits = p.bits := by
  refine List.map_congr_left fun i inside => ?_
  have short : i < p.family.bits := (List.mem_range.mp inside).trans_le p.fits
  have octet : i / 8 < p.family.bits / 8 := by
    cases family : p.family <;> rw [family] at short <;> simp only [Afi.bits] at short ⊢ <;> omega
  simp [bitAt, octetAt, prefixCopy, octet]

/-! ## The common prefix -/

theorem mask_bit : ∀ shift < 8, ∀ diff : U8,
    ((0x80 : U8) >>> shift) &&& diff = 0 ↔ diff.getLsbD (7 - shift) = false := by decide +kernel

theorem mask_gone (shift : Nat) (diff : U8) (past : 8 ≤ shift) :
    ((0x80 : U8) >>> shift) &&& diff = 0 := by
  rw [BitVec.ushiftRight_eq_zero past]
  exact BitVec.zero_and

/-- From `shift` bits into an octet the loop goes on over the bits that agree,
until it meets one that differs or the last bit asked for. -/
theorem commonBits_spec (diff : U8) (base last fuel shift : Nat) (start : base + shift ≤ last)
    (enough : last ≤ base + shift + fuel) :
    let found := commonBits diff last fuel ((0x80 : U8) >>> shift) (base + shift)
    base + shift ≤ found ∧ found ≤ last ∧
      (∀ j, shift ≤ j → j < 8 → base + j < found → diff.getLsbD (7 - j) = false) ∧
      (found < last → found < base + 8 ∧ diff.getLsbD (7 - (found - base)) = true) := by
  induction fuel generalizing shift with
  | zero => exact ⟨le_rfl, start, fun j _ _ _ => by simp only [commonBits] at *; omega, fun _ => by
      simp only [commonBits] at *; omega⟩
  | succ fuel ih =>
    intro found
    by_cases more : base + shift < last ∧ ((0x80 : U8) >>> shift) &&& diff = 0
    · have next : found = commonBits diff last fuel ((0x80 : U8) >>> (shift + 1))
          (base + (shift + 1)) := by
        rw [BitVec.shiftRight_add]
        exact if_pos more
      obtain ⟨forward, stops, agree, ends⟩ := ih (shift + 1) (by omega) (by omega)
      rw [← next] at forward stops agree ends
      refine ⟨by omega, stops, fun j later short inside => ?_, ends⟩
      by_cases here : j = shift
      · subst here
        exact (mask_bit j short diff).mp more.2
      · exact agree j (by omega) short inside
    · have here : found = base + shift := if_neg more
      rw [here]
      refine ⟨le_rfl, start, fun j _ _ _ => by omega, fun before => ?_⟩
      have differ : ¬((0x80 : U8) >>> shift) &&& diff = 0 := fun agree => more ⟨before, agree⟩
      have short : shift < 8 := by
        by_contra past
        exact differ (mask_gone shift diff (by omega))
      rw [mask_bit shift short, Bool.not_eq_false] at differ
      exact ⟨by omega, by rwa [Nat.add_sub_cancel_left]⟩

theorem commonOctets_spec (np pp : List U8) (count i : Nat) :
    let found := commonOctets np pp count i
    i ≤ found ∧ found ≤ i + count ∧ (∀ j, i ≤ j → j < found → octetAt np j = octetAt pp j) ∧
      (found < i + count → octetAt np found ≠ octetAt pp found) := by
  induction count generalizing i with
  | zero => exact ⟨le_rfl, le_rfl, fun j _ _ => by simp only [commonOctets] at *; omega,
      fun _ => by simp only [commonOctets] at *; omega⟩
  | succ count ih =>
    intro found
    by_cases same : octetAt np i = octetAt pp i
    · have next : found = commonOctets np pp count (i + 1) := if_pos same
      obtain ⟨forward, stops, agree, ends⟩ := ih (i + 1)
      rw [← next] at forward stops agree ends
      refine ⟨by omega, by omega, fun j later inside => ?_, fun before => ends (by omega)⟩
      by_cases here : j = i
      · rw [here, same]
      · exact agree j (by omega) inside
    · have here : found = i := if_neg same
      rw [here]
      exact ⟨le_rfl, by omega, fun j _ _ => by omega, fun _ => same⟩

/-- The octet loop and the bit loop of `route_common`: the whole octets in
common and the length in bits. -/
def commonLength (n p : OctetPrefix) : Nat × Nat :=
  let i := commonOctets n.octets p.octets (p.prefixlen / 8) 0
  if 8 * i = p.prefixlen then (i, 8 * i)
  else
    let diff := octetAt n.octets i ^^^ octetAt p.octets i
    (i, commonBits diff p.prefixlen (p.prefixlen - 8 * i) 0x80 (8 * i))

/-- The bits agree up to the common length, and differ there unless all of them
were asked for. The length lies in the octet behind the whole ones. -/
theorem commonLength_spec :
    8 * (commonLength n p).1 ≤ (commonLength n p).2 ∧
      (commonLength n p).2 < 8 * (commonLength n p).1 + 8 ∧
      (commonLength n p).2 ≤ p.prefixlen ∧
      (∀ i < (commonLength n p).2, bitAt n.octets i = bitAt p.octets i) ∧
      ((commonLength n p).2 < p.prefixlen →
        bitAt n.octets (commonLength n p).2 ≠ bitAt p.octets (commonLength n p).2) := by
  obtain ⟨-, whole_stops, octets_agree, octet_differs⟩ :=
    commonOctets_spec n.octets p.octets (p.prefixlen / 8) 0
  unfold commonLength
  dsimp only
  generalize commonOctets n.octets p.octets (p.prefixlen / 8) 0 = whole at *
  have whole_bits : ∀ i < 8 * whole, bitAt n.octets i = bitAt p.octets i := by
    intro i inside
    have bits := (octetAt_eq_iff _ _ _).mp (octets_agree (i / 8) (by omega) (by omega)) (i % 8)
      (by omega)
    rwa [show 8 * (i / 8) + i % 8 = i by omega] at bits
  split
  · exact ⟨le_rfl, by omega, by omega, whole_bits, fun short => by omega⟩
  · generalize difference : octetAt n.octets whole ^^^ octetAt p.octets whole = diff
    obtain ⟨forward, stops, agree, ends⟩ := commonBits_spec diff (8 * whole) p.prefixlen
      (p.prefixlen - 8 * whole) 0 (by omega) (by omega)
    simp only [BitVec.ushiftRight_zero, Nat.add_zero] at forward stops agree ends
    generalize commonBits diff p.prefixlen (p.prefixlen - 8 * whole) 0x80 (8 * whole) = found at *
    have bit_of_diff : ∀ j < 8, diff.getLsbD (7 - j) =
        (bitAt n.octets (8 * whole + j) != bitAt p.octets (8 * whole + j)) := by
      intro j inside
      rw [bitAt_octet _ _ j inside, bitAt_octet _ _ j inside, ← difference, BitVec.getLsbD_xor]
    have inside_octet : found < 8 * whole + 8 := by
      by_contra past
      -- then the octets agree, so the first loop would have gone on
      refine octet_differs (by omega) ((octetAt_eq_iff _ _ _).mpr fun j inside => ?_)
      have zero := agree j (by omega) inside (by omega)
      rw [bit_of_diff j inside] at zero
      exact bne_eq_false_iff_eq.mp zero
    refine ⟨forward, inside_octet, stops, fun i inside => ?_, fun short => ?_⟩
    · by_cases earlier : i < 8 * whole
      · exact whole_bits i earlier
      · have zero := agree (i - 8 * whole) (by omega) (by omega) (by omega)
        rw [bit_of_diff _ (by omega), show 8 * whole + (i - 8 * whole) = i by omega] at zero
        exact bne_eq_false_iff_eq.mp zero
    · have one := (ends short).2
      rw [bit_of_diff _ (by omega), show 8 * whole + (found - 8 * whole) = found by omega] at one
      exact bne_iff_ne.mp one

/-- `route_common`. The octet the common prefix ends in is copied under its
mask, which leaves nothing of it at an octet boundary; the octets behind it are
those of a zeroed structure. -/
def routeCommon (n p : OctetPrefix) : OctetPrefix where
  family := p.family
  prefixlen := (commonLength n p).2
  octets := (List.range (commonLength n p).1).map (octetAt n.octets) ++
    [octetAt n.octets (commonLength n p).1 &&& maskbit ((commonLength n p).2 % 8)]
  fits := (commonLength_spec n p).2.2.1.trans p.fits

theorem maskbit_keeps : ∀ count < 8, ∀ j < count, (maskbit count).getLsbD (7 - j) = true := by
  decide

/-- The bits of the common prefix are those of the first argument. -/
theorem routeCommon_bitAt (i : Nat) (inside : i < (routeCommon n p).prefixlen) :
    bitAt (routeCommon n p).octets i = bitAt n.octets i := by
  obtain ⟨forward, octet, -⟩ := commonLength_spec n p
  change i < (commonLength n p).2 at inside
  unfold routeCommon bitAt octetAt
  by_cases earlier : i / 8 < (commonLength n p).1
  · rw [List.getD_eq_getElem?_getD, List.getElem?_append_left (by simpa using earlier),
      List.getElem?_map, List.getElem?_range earlier]
    rfl
  · have last : i / 8 = (commonLength n p).1 := by omega
    rw [List.getD_eq_getElem?_getD, List.getElem?_append_right (by simp [last]), List.length_map,
      List.length_range, last, Nat.sub_self, List.getElem?_cons_zero, Option.getD_some,
      BitVec.getLsbD_and, maskbit_keeps _ (Nat.mod_lt _ (by omega)) _ (by omega), Bool.and_true]

/-- The common prefix is below the argument whose length was asked for. -/
theorem routeCommon_below : (routeCommon n p).bits <+: p.bits := by
  obtain ⟨-, -, stops, agree, -⟩ := commonLength_spec n p
  rw [bits_prefix_iff]
  exact ⟨stops, fun i inside => (routeCommon_bitAt n p i inside).trans (agree i inside)⟩

/-- If the first argument does not cover the second, the common prefix is
strictly shorter than the first and below it. -/
theorem routeCommon_shorter (apart : ¬n.bits <+: p.bits) :
    (routeCommon n p).prefixlen < n.prefixlen ∧ (routeCommon n p).bits <+: n.bits := by
  obtain ⟨-, -, stops, agree, -⟩ := commonLength_spec n p
  have shorter : (routeCommon n p).prefixlen < n.prefixlen := by
    by_contra longer
    have longer : n.prefixlen ≤ (commonLength n p).2 := Nat.le_of_not_lt longer
    refine apart ((bits_prefix_iff n p).mpr ⟨longer.trans stops, fun i inside => ?_⟩)
    exact agree i (inside.trans_le longer)
  exact ⟨shorter, (bits_prefix_iff _ _).mpr ⟨shorter.le, routeCommon_bitAt n p⟩⟩

/-- A common prefix that is shorter than both arguments ends where they part. -/
theorem routeCommon_parts (short : (routeCommon n p).prefixlen < p.prefixlen) :
    bitAt n.octets (routeCommon n p).prefixlen ≠ bitAt p.octets (routeCommon n p).prefixlen :=
  (commonLength_spec n p).2.2.2.2 short

/-- No longer list is below both arguments. -/
theorem routeCommon_longest {list : List Bool} (left : list <+: n.bits) (right : list <+: p.bits) :
    list <+: (routeCommon n p).bits := by
  by_cases short : list.length ≤ (routeCommon n p).prefixlen
  · exact List.prefix_of_prefix_length_le right (routeCommon_below n p) (by simpa using short)
  · -- the list would have the bit of both arguments where they part
    have inside_n := left.length_le
    have inside_p := right.length_le
    simp only [bits_length] at inside_n inside_p
    have bit_n := List.prefix_iff_getElem?.mp left (routeCommon n p).prefixlen (by omega)
    have bit_p := List.prefix_iff_getElem?.mp right (routeCommon n p).prefixlen (by omega)
    rw [bits_getElem? n (by omega)] at bit_n
    rw [bits_getElem? p (by omega)] at bit_p
    exact absurd (Option.some.inj (bit_n.trans bit_p.symm)) (routeCommon_parts n p (by omega))

end Bgpd.PrefixBits
