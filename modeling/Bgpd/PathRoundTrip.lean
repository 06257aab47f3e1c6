import Bgpd.PathCodec

/-!
# The AS path round trip

`aspath_put` splits a segment of more than 255 members and `aspath_parse` joins
the parts again. A path in normal form goes through both unchanged exactly when
no segment has more than 510 members. Up to there a segment needs two parts at
most. From the third part on the writer starts again at the first member, and
counts into each part the parts before it.
-/

namespace Bgpd.PathRoundTrip

open Octets AsPath SentSection PathCodec

variable (use32bit : Bool) {seg : Assegment} {segments : List Assegment}

/-! ## What comes back -/

/-- The segments that come back for one segment: a sequence is whole, a
confederation sequence keeps the order of its members and a set its members. -/
structure Carries (seg : Assegment) (back : List Assegment) : Prop where
  present : back ≠ []
  kept : ∀ piece ∈ back, piece.type = seg.type
  whole : seg.type = .asSequence → back = [seg]
  ordered : seg.type = .asConfedSequence → back.flatMap (·.as) = seg.as
  members : ∀ member, member ∈ back.flatMap (·.as) ↔ member ∈ seg.as

/-- The path as its receiver is meant to see it. -/
def shown (use32bit : Bool) (path : Aspath) : Aspath :=
  ⟨assegmentNormalise (path.segments.map (Assegment.onWire use32bit))⟩

/-- What the reader makes of what the writer wrote. -/
def readBack (use32bit : Bool) (writeable : Nat) (path : Aspath) : Option Aspath :=
  aspathParse (aspathPut writeable path use32bit).octets use32bit

/-- The path survives the wire. -/
structure RoundTrips (use32bit : Bool) (writeable : Nat) (path : Aspath) : Prop where
  counted : (aspathPut writeable path use32bit).bytes =
    (aspathPut writeable path use32bit).octets.length
  content : ∃ groups : List (List Assegment),
    readBack use32bit writeable path = some ⟨groups.flatten⟩ ∧
      List.Forall₂ Carries (path.segments.map (Assegment.onWire use32bit)) groups
  whole : Splittable path.segments →
    readBack use32bit writeable path = some (shown use32bit path)
  same : use32bit = true → Splittable path.segments →
    readBack use32bit writeable path = some path

/-! ## Joining the parts -/

/-- The first segment of a normal form has the type that the first segment
had. -/
theorem normaliseOne_head (seg : Assegment) (rest : List Assegment) :
    ∃ head tail, normaliseOne seg rest = head :: tail ∧ head.type = seg.type := by
  obtain ⟨type, as⟩ := seg
  unfold normaliseOne
  cases type with
  | asSet => exact ⟨_, _, rfl, rfl⟩
  | asConfedSet => exact ⟨_, _, rfl, rfl⟩
  | asConfedSequence => exact ⟨_, _, rfl, rfl⟩
  | asSequence => rcases rest with _ | ⟨⟨_ | _ | _ | _, as'⟩, rest⟩ <;> exact ⟨_, _, rfl, rfl⟩

/-- What `assegment_normalise` makes of a segment that joins nothing. -/
def normalised (seg : Assegment) : Assegment :=
  if seg.type = .asSet ∨ seg.type = .asConfedSet then
    ⟨seg.type, seg.as.dedup.insertionSort (· ≤ ·)⟩
  else seg

theorem normalised_type (seg : Assegment) : (normalised seg).type = seg.type := by
  unfold normalised
  split <;> rfl

theorem mem_normalised {member : U32} : member ∈ (normalised seg).as ↔ member ∈ seg.as := by
  unfold normalised
  split
  · simp
  · rfl

theorem normalised_other (type : seg.type = .asConfedSequence) : normalised seg = seg := by
  unfold normalised
  rw [if_neg (by rw [type]; nofun)]

/-- No segment but a sequence joins what follows it. -/
theorem normaliseOne_other (other : seg.type ≠ .asSequence) (rest : List Assegment) :
    normaliseOne seg rest = normalised seg :: rest := by
  obtain ⟨type, as⟩ := seg
  cases type with
  | asSet => rfl
  | asConfedSet => rfl
  | asConfedSequence => rfl
  | asSequence => exact absurd rfl other

/-- Nor does a sequence that none follows. -/
theorem normaliseOne_apart {rest : List Assegment} (type : seg.type = .asSequence)
    (apart : ∀ head ∈ rest.head?, head.type ≠ .asSequence) :
    normaliseOne seg rest = seg :: rest := by
  obtain ⟨kind, as⟩ := seg
  obtain rfl : kind = .asSequence := type
  rcases rest with _ | ⟨⟨_ | _ | _ | _, as'⟩, rest⟩
  · rfl
  · rfl
  · exact absurd rfl (apart _ rfl)
  · rfl
  · rfl

/-- Segments other than sequences are normalised one by one. -/
theorem normalise_others {others : List Assegment} (rest : List Assegment)
    (none : ∀ seg ∈ others, seg.type ≠ .asSequence) :
    assegmentNormalise (others ++ rest) = others.map normalised ++ assegmentNormalise rest := by
  induction others with
  | nil => rfl
  | cons seg others ih =>
    have later := ih fun other member => none other (.tail _ member)
    calc assegmentNormalise (seg :: others ++ rest)
        = normaliseOne seg (assegmentNormalise (others ++ rest)) := rfl
      _ = normalised seg :: assegmentNormalise (others ++ rest) :=
          normaliseOne_other (none seg List.mem_cons_self) _
      _ = (seg :: others).map normalised ++ assegmentNormalise rest := by
          rw [later]
          rfl

theorem pieces_type (type : SegmentType) (fuel : Nat) (as : List U32) :
    ∀ piece ∈ pieces type fuel as, piece.type = type := by
  induction fuel generalizing as with
  | zero =>
    intro piece member
    rw [List.mem_singleton.mp member]
  | succ fuel ih =>
    intro piece member
    unfold pieces at member
    split at member
    · rcases List.mem_cons.mp member with rfl | later
      · rfl
      · exact ih _ piece later
    · rw [List.mem_singleton.mp member]

/-- The parts hold the members of the whole in their order. -/
theorem pieces_members (type : SegmentType) (fuel : Nat) (as : List U32) :
    (pieces type fuel as).flatMap (·.as) = as := by
  induction fuel generalizing as with
  | zero => exact List.append_nil as
  | succ fuel ih =>
    unfold pieces
    split
    · rw [List.flatMap_cons, ih, List.take_append_drop]
    · exact List.append_nil as

theorem pieces_present (type : SegmentType) (fuel : Nat) (as : List U32) :
    pieces type fuel as ≠ [] := by
  cases fuel with
  | zero => exact List.cons_ne_nil _ _
  | succ fuel =>
    unfold pieces
    split <;> exact List.cons_ne_nil _ _

/-- A sequence carries itself. -/
theorem carries_self (type : seg.type = .asSequence) : Carries seg [seg] where
  present := List.cons_ne_nil _ _
  kept piece member := by rw [List.mem_singleton.mp member]
  whole _ := rfl
  ordered other := by
    rw [type] at other
    cases other
  members member := by simp

/-- The normalised parts carry the whole. -/
theorem carries_pieces (other : seg.type ≠ .asSequence) (fuel : Nat) :
    Carries seg ((pieces seg.type fuel seg.as).map normalised) where
  present none := pieces_present _ _ _ (List.map_eq_nil_iff.mp none)
  kept piece member := by
    obtain ⟨part, inside, rfl⟩ := List.mem_map.mp member
    rw [normalised_type, pieces_type _ _ _ part inside]
  whole type := absurd type other
  ordered type := by
    have fixed : (pieces seg.type fuel seg.as).map normalised = pieces seg.type fuel seg.as := by
      refine (List.map_congr_left fun part inside => ?_).trans (List.map_id _)
      exact normalised_other ((pieces_type _ _ _ part inside).trans type)
    rw [fixed, pieces_members]
  members member := by
    have inside : member ∈ (pieces seg.type fuel seg.as).flatMap (·.as) ↔ member ∈ seg.as := by
      rw [pieces_members]
    rw [← inside]
    simp only [List.mem_flatMap, List.mem_map]
    constructor
    · rintro ⟨_, ⟨part, within, rfl⟩, found⟩
      exact ⟨part, within, mem_normalised.mp found⟩
    · rintro ⟨part, within, found⟩
      exact ⟨normalised part, ⟨part, within, rfl⟩, mem_normalised.mpr found⟩

/-- The first segment of what is read has the type of the first that was
written. -/
theorem normalise_wire_head :
    ∀ head ∈ (assegmentNormalise (wireSegments segments)).head?,
      ∃ first ∈ segments.head?, head.type = first.type := by
  cases segments with
  | nil => nofun
  | cons seg rest =>
    intro head member
    have split : wireSegments (seg :: rest) =
        pieces seg.type seg.as.length seg.as ++ wireSegments rest := rfl
    rw [split] at member
    rcases parts : pieces seg.type seg.as.length seg.as with _ | ⟨part, later⟩
    · exact absurd parts (pieces_present _ _ _)
    · rw [parts] at member
      obtain ⟨front, behind, shape, type⟩ :=
        normaliseOne_head part (assegmentNormalise (later ++ wireSegments rest))
      have first : assegmentNormalise (part :: later ++ wireSegments rest) = front :: behind :=
        shape
      rw [first] at member
      cases member
      have inside : part ∈ pieces seg.type seg.as.length seg.as := parts ▸ List.mem_cons_self
      exact ⟨seg, rfl, type.trans (pieces_type _ _ _ part inside)⟩

/-- What is read back of segments of which no two sequences follow each other
carries them one by one. -/
theorem normalise_wire_carries (apart : segments.IsChain Unjoinable) :
    ∃ groups : List (List Assegment),
      assegmentNormalise (wireSegments segments) = groups.flatten ∧
        List.Forall₂ Carries segments groups := by
  induction segments with
  | nil => exact ⟨[], rfl, .nil⟩
  | cons seg rest ih =>
    obtain ⟨groups, later, carried⟩ := ih apart.tail
    have split : wireSegments (seg :: rest) =
        pieces seg.type seg.as.length seg.as ++ wireSegments rest := rfl
    by_cases type : seg.type = .asSequence
    · -- the parts are joined, and what follows is no sequence
      refine ⟨[seg] :: groups, ?_, .cons (carries_self type) carried⟩
      have behind : ∀ head ∈ (assegmentNormalise (wireSegments rest)).head?,
          head.type ≠ .asSequence := by
        intro head member sequence
        obtain ⟨first, inside, same⟩ := normalise_wire_head head member
        rcases rest with _ | ⟨next, rest⟩
        · cases inside
        · cases inside
          exact (List.isChain_cons_cons.mp apart).1 ⟨type, same ▸ sequence⟩
      calc assegmentNormalise (wireSegments (seg :: rest))
          = assegmentNormalise (⟨.asSequence, seg.as⟩ :: wireSegments rest) := by
            rw [split, type, normalise_pieces]
        _ = normaliseOne seg (assegmentNormalise (wireSegments rest)) := by
            rw [← type]
            rfl
        _ = seg :: assegmentNormalise (wireSegments rest) := normaliseOne_apart type behind
        _ = ([seg] :: groups).flatten := by
            rw [later]
            rfl
    · refine ⟨(pieces seg.type seg.as.length seg.as).map normalised :: groups, ?_,
        .cons (carries_pieces type _) carried⟩
      rw [split, normalise_others, later]
      · rfl
      · intro part inside
        rw [pieces_type _ _ _ part inside]
        exact type

theorem onWire_apart (apart : segments.IsChain Unjoinable) :
    (segments.map (Assegment.onWire use32bit)).IsChain Unjoinable :=
  List.isChain_map_of_isChain (Assegment.onWire use32bit) (fun _ _ both => both) apart

/-! ## What is counted -/

/-- The loop never reports less than it writes. -/
theorem putOverlength_counts (seg : Assegment) (fuel written : Nat) :
    (putOverlength use32bit seg fuel written).1.octets.length ≤
      (putOverlength use32bit seg fuel written).1.bytes := by
  induction fuel generalizing written with
  | zero => exact Nat.le_refl _
  | succ fuel ih =>
    by_cases left : seg.as.length - written > asSegmentMax
    · rw [putOverlength_turn use32bit seg fuel written left]
      have later := ih (written + asSegmentMax)
      have chunk : assegmentSize asSegmentMax use32bit ≤
          assegmentSize (written + asSegmentMax) use32bit := by
        unfold assegmentSize assegmentDataSize
        split <;> omega
      simp only [Put.append, List.length_append, overlengthChunk_length left]
      simp only [overlengthChunk]
      omega
    · rw [putOverlength_stops use32bit seg _ written (by omega)]
      exact Nat.le_refl _

/-- A second chunk is counted with the first in it. -/
theorem putOverlength_overcounts (long : 510 < seg.as.length) {fuel : Nat} (enough : 2 ≤ fuel) :
    (putOverlength use32bit seg fuel 0).1.octets.length <
      (putOverlength use32bit seg fuel 0).1.bytes := by
  obtain ⟨fuel, rfl⟩ : ∃ fuel', fuel = fuel' + 2 := ⟨fuel - 2, by omega⟩
  have first : seg.as.length - 0 > asSegmentMax := by
    simp only [asSegmentMax]
    omega
  have second : seg.as.length - (0 + asSegmentMax) > asSegmentMax := by
    simp only [asSegmentMax]
    omega
  have later := putOverlength_counts use32bit seg fuel (0 + asSegmentMax + asSegmentMax)
  have chunks : assegmentSize asSegmentMax use32bit + assegmentSize asSegmentMax use32bit <
      assegmentSize (0 + asSegmentMax) use32bit
        + assegmentSize (0 + asSegmentMax + asSegmentMax) use32bit := by
    unfold assegmentSize assegmentDataSize asSegmentMax
    split <;> omega
  rw [putOverlength_turn use32bit seg (fuel + 1) 0 first,
    putOverlength_turn use32bit seg fuel _ second]
  simp only [Put.append, List.length_append, overlengthChunk_length first,
    overlengthChunk_length second]
  simp only [overlengthChunk]
  omega

/-- The size of the rest that the loop leaves is right. -/
theorem putSegment_alone (seg : Assegment) :
    (putSegment use32bit seg []).octets.length +
      (putOverlength use32bit seg seg.as.length 0).1.bytes =
      (putSegment use32bit seg []).bytes
        + (putOverlength use32bit seg seg.as.length 0).1.octets.length := by
  simp only [putSegment, Put.append, List.length_append, assegmentDataPut_length,
    assegmentHeaderPut, List.flatMap_nil, List.length_cons, List.length_nil, assegmentSize,
    assegmentDataSize, Nat.add_zero, Nat.zero_mul]
  omega

theorem putSegment_counts (seg : Assegment) :
    (putSegment use32bit seg []).octets.length ≤ (putSegment use32bit seg []).bytes := by
  have loop := putOverlength_counts use32bit seg seg.as.length 0
  have alone := putSegment_alone use32bit seg
  omega

theorem putSegment_overcounts (long : 510 < seg.as.length) :
    (putSegment use32bit seg []).octets.length < (putSegment use32bit seg []).bytes := by
  have loop := putOverlength_overcounts use32bit long (show 2 ≤ seg.as.length by omega)
  have alone := putSegment_alone use32bit seg
  omega

/-- The loop and the rest take the room of the parts. -/
theorem putOverlength_room (seg : Assegment) (fuel written : Nat) :
    (putOverlength use32bit seg fuel written).1.octets.length
        + assegmentSize (seg.as.drop (putOverlength use32bit seg fuel written).2).length use32bit =
      ((pieces seg.type fuel (seg.as.drop written)).flatMap (segmentOctets use32bit)).length := by
  induction fuel generalizing written with
  | zero => simp [putOverlength, pieces, segmentOctets_length]
  | succ fuel ih =>
    by_cases left : seg.as.length - written > asSegmentMax
    · have long : (seg.as.drop written).length > asSegmentMax := by
        rw [List.length_drop]
        exact left
      have whole : ((seg.as.drop written).take asSegmentMax).length = asSegmentMax :=
        List.length_take_of_le (Nat.le_of_lt long)
      have later := ih (written + asSegmentMax)
      unfold pieces
      rw [putOverlength_turn use32bit seg fuel written left, if_pos long, List.flatMap_cons,
        List.length_append, segmentOctets_length, whole, List.drop_drop, ← later]
      simp only [Put.append, List.length_append, overlengthChunk_length left]
      omega
    · have short : (seg.as.drop written).length ≤ asSegmentMax := by
        rw [List.length_drop]
        omega
      rw [putOverlength_stops use32bit seg _ written (by omega), pieces_short _ _ _ short]
      simp [segmentOctets_length]

theorem putSegment_room (seg : Assegment) :
    (putSegment use32bit seg []).octets.length =
      ((pieces seg.type seg.as.length seg.as).flatMap (segmentOctets use32bit)).length := by
  have loop := putOverlength_room use32bit seg seg.as.length 0
  rw [List.drop_zero] at loop
  rw [← loop]
  simp only [putSegment, Put.append, List.length_append, assegmentDataPut_length,
    assegmentHeaderPut, List.flatMap_nil, List.length_cons, List.length_nil, assegmentSize,
    assegmentDataSize, Nat.zero_mul]
  omega

variable {writeable : Nat}

/-- A turn of the outer loop that has the room writes a segment of a chain in normal form
alone. -/
theorem putSegments_turn (fuel : Nat) {next : List Assegment}
    (apart : (seg :: next).IsChain Unjoinable)
    (fits : (wireOctets use32bit (seg :: next)).length ≤ writeable) :
    ∃ writeable' ≥ (wireOctets use32bit next).length,
      putSegments use32bit (fuel + 1) writeable (seg :: next) =
        (putSegment use32bit seg []).append (putSegments use32bit fuel writeable' next) := by
  rw [wireOctets_cons, List.length_append] at fits
  have room := pieces_room use32bit seg.type seg.as.length seg.as
  have here := putSegment_room use32bit seg
  refine ⟨writeable - (putSegment use32bit seg []).octets.length, by omega, ?_⟩
  conv => lhs; unfold putSegments
  rw [if_pos (by omega), nothing_packed apart]
  rfl

theorem putSegments_counts (use32bit : Bool) (segments : List Assegment) (writeable : Nat)
    (apart : segments.IsChain Unjoinable)
    (fits : (wireOctets use32bit segments).length ≤ writeable) :
    (putSegments use32bit segments.length writeable segments).octets.length ≤
        (putSegments use32bit segments.length writeable segments).bytes ∧
      ((∃ seg ∈ segments, 510 < seg.as.length) →
        (putSegments use32bit segments.length writeable segments).octets.length <
          (putSegments use32bit segments.length writeable segments).bytes) := by
  induction segments generalizing writeable with
  | nil => exact ⟨Nat.le_refl _, fun ⟨_, member, _⟩ => nomatch member⟩
  | cons seg next ih =>
    obtain ⟨writeable', room, turn⟩ := putSegments_turn use32bit next.length apart fits
    obtain ⟨counts, overcounts⟩ := ih writeable' apart.tail room
    have here := putSegment_counts use32bit seg
    rw [List.length_cons, turn]
    simp only [Put.append, List.length_append]
    refine ⟨by omega, ?_⟩
    rintro ⟨other, member, long⟩
    rcases List.mem_cons.mp member with rfl | later
    · have here := putSegment_overcounts use32bit long
      omega
    · have later := overcounts ⟨other, later, long⟩
      omega

variable {path : Aspath}

/-- A path with a segment of more than 510 members is reported longer than it
was written. -/
theorem aspathPut_overcounts {use32bit : Bool} (normal : Normal path.segments)
    (fits : (wireOctets use32bit path.segments).length ≤ writeable)
    (long : ∃ seg ∈ path.segments, 510 < seg.as.length) :
    (aspathPut writeable path use32bit).octets.length <
      (aspathPut writeable path use32bit).bytes := by
  obtain ⟨segments⟩ := path
  unfold aspathPut
  rcases segments with _ | ⟨seg, rest⟩
  · obtain ⟨_, member, _⟩ := long
    cases member
  · have filled : seg.as.length ≠ 0 := fun none =>
      normal.filled seg List.mem_cons_self (List.eq_nil_of_length_eq_zero none)
    simp only [if_neg filled]
    exact (putSegments_counts use32bit (seg :: rest) writeable normal.apart fits).2 long

/-! ## There and back -/

/-- A path without a segment of more than 510 members survives the wire. -/
theorem roundTrips_short {use32bit : Bool} (normal : Normal path.segments)
    (fits : (wireOctets use32bit path.segments).length ≤ writeable)
    (short : ∀ seg ∈ path.segments, seg.as.length ≤ 510) : RoundTrips use32bit writeable path := by
  have octets := aspathPut_octets use32bit writeable path normal short fits
  have whole (splittable : Splittable path.segments) :
      readBack use32bit writeable path = some (shown use32bit path) := by
    unfold readBack
    rw [octets]
    exact aspathParse_sent use32bit normal splittable
  refine ⟨aspathPut_exact writeable path use32bit short, ?_, whole, ?_⟩
  · obtain ⟨groups, joined, carried⟩ :=
      normalise_wire_carries (onWire_apart use32bit normal.apart)
    refine ⟨groups, ?_, carried⟩
    unfold readBack
    rw [octets, aspathParse_wire use32bit path.segments normal.filled, wireSegments_onWire, joined]
  · rintro rfl splittable
    rw [whole splittable]
    unfold shown
    rw [map_onWire_true, normal.fixed]

/-- A path in normal form survives the wire exactly when it has no segment of more than 510
members. -/
theorem roundTrips_iff (use32bit : Bool) (writeable : Nat) (path : Aspath)
    (normal : Normal path.segments)
    (fits : (wireOctets use32bit path.segments).length ≤ writeable) :
    RoundTrips use32bit writeable path ↔ ∀ seg ∈ path.segments, seg.as.length ≤ 510 := by
  constructor
  · intro survives seg member
    by_contra long
    exact absurd survives.counted.symm
      (Nat.ne_of_lt (aspathPut_overcounts normal fits ⟨seg, member, Nat.lt_of_not_le long⟩))
  · exact roundTrips_short normal fits

/-- A sequence of the given length. -/
def sequenceOf (length : Nat) : Aspath := ⟨[⟨.asSequence, List.replicate length 1⟩]⟩

theorem sequenceOf_normal {length : Nat} (filled : 0 < length) :
    Normal (sequenceOf length).segments where
  filled seg member := by
    rw [List.mem_singleton.mp member]
    exact List.ne_nil_of_length_pos (by rw [List.length_replicate]; exact filled)
  apart := .singleton _
  sorted seg member set := by
    rw [List.mem_singleton.mp member] at set
    rcases set with set | set <;> cases set

theorem roundTrips_two : RoundTrips true 4096 (sequenceOf 300) ∧
    ¬ RoundTrips false 4096 (sequenceOf 600) := by
  constructor
  · refine (roundTrips_iff true 4096 (sequenceOf 300) (sequenceOf_normal (by decide))
      (by decide +kernel)).mpr ?_
    intro seg member
    rw [List.mem_singleton.mp member]
    decide +kernel
  · intro survives
    have short := (roundTrips_iff false 4096 (sequenceOf 600) (sequenceOf_normal (by decide))
      (by decide +kernel)).mp survives _ List.mem_cons_self
    exact absurd short (by decide +kernel)

/-- Two full segments and a member more. -/
theorem roundTrips_not_all : ¬ ∀ use32bit writeable path, Normal path.segments →
    (wireOctets use32bit path.segments).length ≤ writeable →
      RoundTrips use32bit writeable path := by
  intro all
  have survives := all true 4096 (sequenceOf 511) (sequenceOf_normal (by decide))
    (by decide +kernel)
  exact absurd survives.counted (by decide +kernel)

end Bgpd.PathRoundTrip
