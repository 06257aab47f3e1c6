import Bgpd.SentSection

/-!
# AS paths on the wire

What `aspath_put` writes, `aspath_parse` reads. Both are compared with one list
between them: the segments as they stand on the wire, a segment of more than
255 members being two of them. A path in normal form comes back as it was,
with `AS_TRANS` in the place of every large AS number when members take two
octets. A segment that needed a third piece is written wrong.

Normal form is what the parser makes of any chain of segments: no two sequences
follow each other and sets are sorted without repetition.
-/

namespace Bgpd.PathCodec

open Octets AsPath SentSection

variable (use32bit : Bool) {segments : List Assegment}

/-! ## Normal form -/

/-- Not two sequences. -/
def Unjoinable (seg next : Assegment) : Prop :=
  ¬ (seg.type = .asSequence ∧ next.type = .asSequence)

/-- A chain of segments in normal form. -/
structure Normal (segments : List Assegment) : Prop where
  filled : ∀ seg ∈ segments, seg.as ≠ []
  apart : segments.IsChain Unjoinable
  sorted : ∀ seg ∈ segments, seg.type = .asSet ∨ seg.type = .asConfedSet →
    seg.as.Pairwise (· < ·)

variable {seg : Assegment} {rest : List Assegment}

theorem Normal.tail (normal : Normal (seg :: rest)) :
    Normal rest where
  filled other member := normal.filled other (.tail _ member)
  apart := normal.apart.tail
  sorted other member := normal.sorted other (.tail _ member)

variable {as : List U32}

/-- Sorting changes nothing about members that are sorted. -/
theorem sort_sorted (sorted : as.Pairwise (· < ·)) : as.dedup.insertionSort (· ≤ ·) = as := by
  have distinct : as.Nodup := sorted.imp fun less => BitVec.ne_of_lt less
  rw [distinct.dedup]
  exact (sorted.imp fun less => BitVec.le_of_lt less).insertionSort_eq

theorem normaliseOne_normal (normal : Normal (seg :: rest)) :
    normaliseOne seg rest = seg :: rest := by
  obtain ⟨type, as⟩ := seg
  have sorted := normal.sorted ⟨type, as⟩ List.mem_cons_self
  unfold normaliseOne
  cases type with
  | asSet => exact congrArg (⟨.asSet, ·⟩ :: rest) (sort_sorted (sorted (Or.inl rfl)))
  | asConfedSet => exact congrArg (⟨.asConfedSet, ·⟩ :: rest) (sort_sorted (sorted (Or.inr rfl)))
  | asConfedSequence => rfl
  | asSequence =>
    rcases rest with _ | ⟨⟨_ | _ | _ | _, as'⟩, rest⟩
    · rfl
    · rfl
    · exact absurd ⟨rfl, rfl⟩ (List.isChain_cons_cons.mp normal.apart).1
    · rfl
    · rfl

/-- A chain in normal form is its own normal form. -/
theorem Normal.fixed (normal : Normal segments) : assegmentNormalise segments = segments := by
  induction segments with
  | nil => rfl
  | cons seg rest ih =>
    change normaliseOne seg (assegmentNormalise rest) = seg :: rest
    rw [ih normal.tail, normaliseOne_normal normal]

/-- A segment that joins nothing in front of a chain in normal form. -/
theorem Normal.cons (normal : Normal rest) (filled : seg.as ≠ [])
    (apart : ∀ next ∈ rest.head?, Unjoinable seg next)
    (sorted : seg.type = .asSet ∨ seg.type = .asConfedSet → seg.as.Pairwise (· < ·)) :
    Normal (seg :: rest) where
  filled other member := by
    rcases List.mem_cons.mp member with rfl | later
    · exact filled
    · exact normal.filled other later
  apart := by
    rcases rest with _ | ⟨next, rest⟩
    · exact .singleton seg
    · exact .cons_cons (apart next rfl) normal.apart
  sorted other member := by
    rcases List.mem_cons.mp member with rfl | later
    · exact sorted
    · exact normal.sorted other later

/-- Sorting without repetition sorts strictly and keeps a member. -/
theorem sort_strict (as : List U32) : (as.dedup.insertionSort (· ≤ ·)).Pairwise (· < ·) := by
  have ordered : (as.dedup.insertionSort (· ≤ ·)).Pairwise (· ≤ ·) :=
    List.pairwise_insertionSort (· ≤ ·) as.dedup
  have distinct : (as.dedup.insertionSort (· ≤ ·)).Nodup :=
    (List.perm_insertionSort (· ≤ ·) as.dedup).nodup_iff.mpr as.nodup_dedup
  exact ordered.imp₂ (fun _ _ less apart => BitVec.lt_of_le_ne less apart) distinct

theorem sort_filled (filled : as ≠ []) : as.dedup.insertionSort (· ≤ ·) ≠ [] := by
  intro none
  have empty := congrArg List.length none
  rw [List.length_insertionSort, List.length_nil] at empty
  exact filled (List.dedup_eq_nil as |>.mp (List.eq_nil_of_length_eq_zero empty))

theorem normal_normaliseOne (normal : Normal rest) (filled : seg.as ≠ []) :
    Normal (normaliseOne seg rest) := by
  obtain ⟨type, as⟩ := seg
  unfold normaliseOne
  cases type with
  | asSet =>
    refine Normal.cons normal (sort_filled filled) ?_ fun _ => sort_strict as
    rintro next _ ⟨first, _⟩
    cases first
  | asConfedSet =>
    refine Normal.cons normal (sort_filled filled) ?_
      fun _ => sort_strict as
    rintro next _ ⟨first, _⟩
    cases first
  | asConfedSequence =>
    refine normal.cons filled ?_ nofun
    rintro next _ ⟨first, _⟩
    cases first
  | asSequence =>
    have unsorted {as : List U32} (set : SegmentType.asSequence = .asSet ∨
        SegmentType.asSequence = .asConfedSet) : as.Pairwise (· < ·) := nomatch set
    have behind {next : Assegment} {rest : List Assegment} (other : next.type ≠ .asSequence) :
        ∀ head ∈ (next :: rest).head?, Unjoinable ⟨.asSequence, as⟩ head := by
      intro head member both
      cases member
      exact other both.2
    rcases rest with _ | ⟨⟨_ | _ | _ | _, as'⟩, rest⟩
    · exact normal.cons filled (fun _ member => nomatch member) unsorted
    · exact normal.cons filled (behind nofun) unsorted
    · -- the joined sequence has the follower the absorbed one had
      refine normal.tail.cons ?_ ?_ unsorted
      · exact fun none => filled (List.append_eq_nil_iff.mp none).1
      · intro next member both
        rcases rest with _ | ⟨follower, rest⟩
        · cases member
        · cases member
          exact (List.isChain_cons_cons.mp normal.apart).1 ⟨rfl, both.2⟩
    · exact normal.cons filled (behind nofun) unsorted
    · exact normal.cons filled (behind nofun) unsorted

/-- The parser's last step puts any chain of filled segments into normal form. -/
theorem assegmentNormalise_normal (filled : ∀ seg ∈ segments, seg.as ≠ []) :
    Normal (assegmentNormalise segments) := by
  induction segments with
  | nil => exact ⟨nofun, .nil, nofun⟩
  | cons seg rest ih =>
    exact normal_normaliseOne (ih fun other member => filled other (.tail _ member))
      (filled seg List.mem_cons_self)

/-- Two sequences that follow each other become one. -/
theorem normalise_join (first second : List U32) (rest : List Assegment) :
    assegmentNormalise (⟨.asSequence, first⟩ :: ⟨.asSequence, second⟩ :: rest) =
      assegmentNormalise (⟨.asSequence, first ++ second⟩ :: rest) := by
  change normaliseOne ⟨.asSequence, first⟩ (normaliseOne ⟨.asSequence, second⟩
    (assegmentNormalise rest)) = normaliseOne ⟨.asSequence,
      first ++ second⟩ (assegmentNormalise rest)
  generalize assegmentNormalise rest = followers
  unfold normaliseOne
  rcases followers with _ | ⟨⟨_ | _ | _ | _, as⟩, followers⟩ <;> simp

/-! ## Segments on the wire -/

/-- The member as it is read back from the wire. -/
def onWire (use32bit : Bool) (member : U32) : U32 :=
  if use32bit then member
  else if member ≤ bgpAsMax then member else bgpAsTrans.setWidth 32

/-- The segment as it is read back from the wire. -/
def Assegment.onWire (use32bit : Bool) (seg : Assegment) : Assegment :=
  ⟨seg.type, seg.as.map (PathCodec.onWire use32bit)⟩

/-- The octets of a segment that needs no splitting. -/
def segmentOctets (use32bit : Bool) (seg : Assegment) : List U8 :=
  assegmentHeaderPut seg.type seg.as.length ++ assegmentDataPut use32bit seg.as

/-- A segment in pieces of at most 255 members. -/
def pieces (type : SegmentType) : Nat → List U32 → List Assegment
  | 0, as => [⟨type, as⟩]
  | fuel + 1, as =>
    if as.length > asSegmentMax then
      ⟨type, as.take asSegmentMax⟩ :: pieces type fuel (as.drop asSegmentMax)
    else [⟨type, as⟩]

/-- The segments of a path as they stand on the wire. -/
def wireSegments (segments : List Assegment) : List Assegment :=
  segments.flatMap fun seg => pieces seg.type seg.as.length seg.as

/-- The octets of a path. -/
def wireOctets (use32bit : Bool) (segments : List Assegment) : List U8 :=
  (wireSegments segments).flatMap (segmentOctets use32bit)

theorem segmentOctets_length (seg : Assegment) :
    (segmentOctets use32bit seg).length = assegmentSize seg.as.length use32bit := by
  simp only [segmentOctets, assegmentHeaderPut, List.length_append, List.length_cons,
    List.length_nil, assegmentDataPut_length, assegmentSize]

/-- Every piece fits the wire and holds a member, if the fuel is enough. -/
theorem pieces_bounds (type : SegmentType) (fuel : Nat) (as : List U32) (enough : as.length ≤ fuel)
    (filled : as ≠ []) :
    ∀ piece ∈ pieces type fuel as, piece.as.length ≤ asSegmentMax ∧ piece.as ≠ [] := by
  induction fuel generalizing as with
  | zero => exact absurd (List.eq_nil_of_length_eq_zero (Nat.le_zero.mp enough)) filled
  | succ fuel ih =>
    intro piece member
    unfold pieces at member
    split at member
    · rename_i long
      rcases List.mem_cons.mp member with rfl | later
      · refine ⟨List.length_take_le .., ?_⟩
        intro none
        have := congrArg List.length none
        simp only [List.length_take, asSegmentMax, List.length_nil] at this long
        omega
      · refine ih (as.drop asSegmentMax) ?_ ?_ piece later
        · simp only [List.length_drop, asSegmentMax]
          omega
        · intro none
          have := congrArg List.length none
          simp only [List.length_drop, asSegmentMax, List.length_nil] at this long
          omega
    · rename_i short
      obtain rfl : piece = ⟨type, as⟩ := List.mem_singleton.mp member
      exact ⟨Nat.le_of_not_lt short, filled⟩

/-- A segment that fits the wire is its only piece. -/
theorem pieces_short (type : SegmentType) (fuel : Nat) (as : List U32)
    (short : as.length ≤ asSegmentMax) : pieces type fuel as = [⟨type, as⟩] := by
  cases fuel with
  | zero => rfl
  | succ fuel => exact if_neg (Nat.not_lt.mpr short)

/-- The pieces of a sequence are joined again. -/
theorem normalise_pieces (fuel : Nat) (as : List U32) (rest : List Assegment) :
    assegmentNormalise (pieces .asSequence fuel as ++ rest) =
      assegmentNormalise (⟨.asSequence, as⟩ :: rest) := by
  induction fuel generalizing as with
  | zero => rfl
  | succ fuel ih =>
    unfold pieces
    split
    · have joined := normalise_join (as.take asSegmentMax) (as.drop asSegmentMax) rest
      rw [List.take_append_drop] at joined
      rw [← joined, List.cons_append]
      exact congrArg (normaliseOne ⟨.asSequence, as.take asSegmentMax⟩)
        (ih (as.drop asSegmentMax))
    · rfl

/-! ## Writing -/

theorem wireOctets_cons (seg : Assegment) (rest : List Assegment) :
    wireOctets use32bit (seg :: rest) =
      (pieces seg.type seg.as.length seg.as).flatMap (segmentOctets use32bit)
        ++ wireOctets use32bit rest := by
  simp [wireOctets, wireSegments]

/-- Of a segment that is split at most once the loop writes all pieces but the
last, which it leaves to the caller. -/
theorem putOverlength_pieces (seg : Assegment) (short : seg.as.length ≤ 510) (fuel : Nat) :
    (putOverlength use32bit seg fuel 0).1.octets
        ++ segmentOctets use32bit ⟨seg.type, seg.as.drop (putOverlength use32bit seg fuel 0).2⟩ =
      (pieces seg.type fuel seg.as).flatMap (segmentOctets use32bit) := by
  cases fuel with
  | zero => simp [putOverlength, pieces]
  | succ fuel =>
    by_cases long : seg.as.length > asSegmentMax
    · have rest : seg.as.length - (0 + asSegmentMax) ≤ asSegmentMax := by
        simp only [asSegmentMax]
        omega
      have whole : (seg.as.take asSegmentMax).length = asSegmentMax :=
        List.length_take_of_le (Nat.le_of_lt long)
      unfold pieces
      rw [putOverlength_turn use32bit seg fuel 0 long, if_pos long,
        putOverlength_stops use32bit seg fuel _ rest,
        pieces_short seg.type fuel _ (by rw [List.length_drop]; omega)]
      simp [Put.append, overlengthChunk, segmentOctets, whole]
    · rw [putOverlength_stops use32bit seg _ 0 (by omega),
        pieces_short seg.type _ seg.as (Nat.le_of_not_lt long)]
      simp

/-- A segment that nothing is packed behind and that is split at most once is written in
its pieces. -/
theorem putSegment_octets (seg : Assegment) (short : seg.as.length ≤ 510) :
    (putSegment use32bit seg []).octets =
      (pieces seg.type seg.as.length seg.as).flatMap (segmentOctets use32bit) := by
  rw [← putOverlength_pieces use32bit seg short seg.as.length]
  simp [putSegment, Put.append, segmentOctets, assegmentDataPut]

/-- The pieces take at least the room of the whole. -/
theorem pieces_room (type : SegmentType) (fuel : Nat) (as : List U32) :
    assegmentSize as.length use32bit ≤
      ((pieces type fuel as).flatMap (segmentOctets use32bit)).length := by
  induction fuel generalizing as with
  | zero => simp [pieces, segmentOctets_length]
  | succ fuel ih =>
    unfold pieces
    split
    · rename_i long
      have rest := ih (as.drop asSegmentMax)
      have whole : (as.take asSegmentMax).length = asSegmentMax :=
        List.length_take_of_le (Nat.le_of_lt long)
      rw [List.flatMap_cons, List.length_append, segmentOctets_length, whole]
      simp only [assegmentSize, assegmentDataSize, List.length_drop] at rest ⊢
      have parts : as.length = asSegmentMax + (as.length - asSegmentMax) := by omega
      rw [parts, Nat.add_mul]
      omega
    · simp [segmentOctets_length]

/-- Nothing is packed behind a segment of a chain in normal form. -/
theorem nothing_packed {next : List Assegment} (apart : (seg :: next).IsChain Unjoinable) :
    next.takeWhile (assegmentsPackable seg) = [] := by
  rcases next with _ | ⟨follower, next⟩
  · rfl
  · refine List.takeWhile_cons_of_neg fun packable => ?_
    obtain ⟨same, sequence, _⟩ := of_decide_eq_true packable
    exact (List.isChain_cons_cons.mp apart).1 ⟨sequence, same ▸ sequence⟩

/-- A chain in normal form that fits is written whole, if no segment is split more than
once. -/
theorem putSegments_octets (fuel writeable : Nat) (segments : List Assegment)
    (apart : segments.IsChain Unjoinable) (short : ∀ seg ∈ segments, seg.as.length ≤ 510)
    (enough : segments.length ≤ fuel) (fits : (wireOctets use32bit segments).length ≤ writeable) :
    (putSegments use32bit fuel writeable segments).octets = wireOctets use32bit segments := by
  induction segments generalizing fuel writeable with
  | nil => cases fuel <;> rfl
  | cons seg next ih =>
    obtain ⟨fuel, rfl⟩ : ∃ fuel', fuel = fuel' + 1 :=
      ⟨fuel - 1, by rw [List.length_cons] at enough; omega⟩
    rw [wireOctets_cons, List.length_append] at fits
    have room := pieces_room use32bit seg.type seg.as.length seg.as
    unfold putSegments
    rw [if_pos (by omega), nothing_packed apart, wireOctets_cons]
    simp only [Put.append, putSegment_octets use32bit seg (short seg List.mem_cons_self),
      List.length_nil, List.drop_zero]
    rw [ih fuel _ apart.tail (fun other member => short other (.tail _ member))
      (by rw [List.length_cons] at enough; omega) (by omega)]

/-- `aspath_put` writes a path in normal form that fits whole, if no segment is split more
than once. -/
theorem aspathPut_octets (writeable : Nat) (path : Aspath) (normal : Normal path.segments)
    (short : ∀ seg ∈ path.segments, seg.as.length ≤ 510)
    (fits : (wireOctets use32bit path.segments).length ≤ writeable) :
    (aspathPut writeable path use32bit).octets = wireOctets use32bit path.segments := by
  obtain ⟨segments⟩ := path
  unfold aspathPut
  rcases segments with _ | ⟨seg, rest⟩
  · rfl
  · have filled : seg.as.length ≠ 0 := fun none =>
      normal.filled seg List.mem_cons_self (List.eq_nil_of_length_eq_zero none)
    simp only [if_neg filled]
    exact putSegments_octets use32bit _ writeable (seg :: rest) normal.apart short (Nat.le_refl _)
      fits

/-! ## Reading -/

theorem getMembers_dataPut (as : List U32) (rest : List U8) :
    getMembers use32bit as.length (assegmentDataPut use32bit as ++ rest) =
      as.map (onWire use32bit) := by
  induction as with
  | nil => rfl
  | cons member as ih =>
    cases use32bit with
    | true =>
      have split : assegmentDataPut true (member :: as) ++ rest =
          putl member ++ (assegmentDataPut true as ++ rest) := by
        simp [assegmentDataPut]
      rw [split]
      simp only [List.length_cons, getMembers, if_true, getl_putl, List.map_cons]
      have behind : (putl member ++ (assegmentDataPut true as ++ rest)).drop 4 =
          assegmentDataPut true as ++ rest := rfl
      rw [behind, ih]
      rfl
    | false =>
      have split : assegmentDataPut false (member :: as) ++ rest =
          putw (if member ≤ bgpAsMax then member.setWidth 16 else bgpAsTrans)
            ++ (assegmentDataPut false as ++ rest) := by
        simp only [assegmentDataPut, List.flatMap_cons, Bool.false_eq_true, if_false]
        split <;> rw [List.append_assoc]
      have behind (word : U16) : (putw word ++ (assegmentDataPut false as ++ rest)).drop 2 =
          assegmentDataPut false as ++ rest := rfl
      rw [split]
      simp only [List.length_cons, getMembers, Bool.false_eq_true, if_false, getw_putw,
        List.map_cons, behind, ih]
      congr 1
      unfold onWire
      by_cases small : member ≤ bgpAsMax
      · simp only [Bool.false_eq_true, if_false, if_pos small]
        apply BitVec.eq_of_toNat_eq
        have bound : member.toNat ≤ 65535 := small
        simp only [BitVec.toNat_setWidth]
        omega
      · simp [if_neg small]

/-- Segments that fit the wire are read one by one. -/
theorem assegmentsLoop_octets (segments : List Assegment)
    (bounds : ∀ seg ∈ segments, seg.as.length ≤ asSegmentMax ∧ seg.as ≠ []) (fuel : Nat)
    (enough : (segments.flatMap (segmentOctets use32bit)).length ≤ fuel) :
    assegmentsLoop use32bit fuel (segments.flatMap (segmentOctets use32bit)) =
      some (segments.map (Assegment.onWire use32bit)) := by
  induction segments generalizing fuel with
  | nil => cases fuel <;> rfl
  | cons seg rest ih =>
    obtain ⟨short, filled⟩ := bounds seg List.mem_cons_self
    have members : 0 < seg.as.length := List.length_pos_iff.mpr filled
    have back : (BitVec.ofNat 8 seg.as.length).toNat = seg.as.length := by
      rw [BitVec.toNat_ofNat]
      exact Nat.mod_eq_of_lt (by simp only [asSegmentMax] at short; omega)
    have notZero : BitVec.ofNat 8 seg.as.length ≠ 0 := by
      intro zero
      rw [zero] at back
      exact absurd back (Nat.ne_of_lt members)
    have size := assegmentDataPut_length use32bit seg.as
    rw [List.flatMap_cons, List.length_append, segmentOctets_length] at enough
    obtain ⟨fuel, rfl⟩ : ∃ fuel', fuel = fuel' + 1 :=
      ⟨fuel - 1, by simp only [assegmentSize] at enough; omega⟩
    have code : SegmentType.ofCode seg.type.code = some seg.type := by cases seg.type <;> rfl
    have shape : (seg :: rest).flatMap (segmentOctets use32bit) =
        seg.type.code :: BitVec.ofNat 8 seg.as.length ::
          (assegmentDataPut use32bit seg.as ++ rest.flatMap (segmentOctets use32bit)) := by
      simp [segmentOctets, assegmentHeaderPut]
    have data : 0 < assegmentDataSize seg.as.length use32bit := by
      unfold assegmentDataSize
      split <;> omega
    have behind : (assegmentDataPut use32bit seg.as ++ rest.flatMap (segmentOctets use32bit)).drop
        (assegmentDataSize seg.as.length use32bit) = rest.flatMap (segmentOctets use32bit) := by
      rw [← size]
      exact List.drop_left
    rw [shape]
    unfold assegmentsLoop
    simp only [back, List.length_append, size]
    rw [if_neg (by omega), if_neg, code]
    · dsimp only
      rw [behind, ih (fun other member => bounds other (.tail _ member)) fuel (by
        simp only [assegmentSize] at enough
        omega), getMembers_dataPut]
      rfl
    · simp only [assegmentSize, notZero, or_false]
      omega

/-- The octets of a path are read back as its segments on the wire, joined and
sorted. -/
theorem aspathParse_wire (segments : List Assegment) (filled : ∀ seg ∈ segments, seg.as ≠ []) :
    aspathParse (wireOctets use32bit segments) use32bit =
      some ⟨assegmentNormalise ((wireSegments segments).map (Assegment.onWire use32bit))⟩ := by
  have bounds : ∀ piece ∈ wireSegments segments,
      piece.as.length ≤ asSegmentMax ∧ piece.as ≠ [] := by
    intro piece member
    obtain ⟨seg, inside, split⟩ := List.mem_flatMap.mp member
    exact pieces_bounds seg.type _ seg.as (Nat.le_refl _) (filled seg inside) piece split
  have even : (wireOctets use32bit segments).length % 2 = 0 := by
    unfold wireOctets
    generalize wireSegments segments = wire
    induction wire with
    | nil => rfl
    | cons seg rest ih =>
      rw [List.flatMap_cons, List.length_append, segmentOctets_length]
      unfold assegmentSize assegmentDataSize
      split <;> omega
  unfold aspathParse
  rw [if_neg (by omega)]
  have read := assegmentsLoop_octets use32bit (wireSegments segments) bounds _ (Nat.le_refl _)
  unfold wireOctets
  rw [read]
  rfl

/-! ## A path that comes back -/

/-- Only sequences may need splitting, since sets cannot be joined again. -/
def Splittable (segments : List Assegment) : Prop :=
  ∀ seg ∈ segments, seg.type = .asSequence ∨ seg.as.length ≤ asSegmentMax

theorem normalise_wire (splittable : Splittable segments) :
    assegmentNormalise (wireSegments segments) = assegmentNormalise segments := by
  induction segments with
  | nil => rfl
  | cons seg rest ih =>
    have others := ih fun other member => splittable other (.tail _ member)
    have joined : assegmentNormalise (pieces seg.type seg.as.length seg.as ++ wireSegments rest) =
        assegmentNormalise (seg :: wireSegments rest) := by
      rcases splittable seg List.mem_cons_self with sequence | short
      · rw [sequence, normalise_pieces, ← sequence]
      · rw [pieces_short seg.type _ seg.as short]
        rfl
    calc assegmentNormalise (wireSegments (seg :: rest))
        = assegmentNormalise (seg :: wireSegments rest) := joined
      _ = normaliseOne seg (assegmentNormalise (wireSegments rest)) := rfl
      _ = assegmentNormalise (seg :: rest) := by rw [others]; rfl

theorem pieces_onWire (type : SegmentType) (fuel : Nat) (as : List U32) :
    (pieces type fuel as).map (Assegment.onWire use32bit) =
      pieces type fuel (as.map (onWire use32bit)) := by
  induction fuel generalizing as with
  | zero => rfl
  | succ fuel ih =>
    unfold pieces
    rw [List.length_map]
    split
    · rw [List.map_cons, ih, List.map_drop, ← List.map_take]
      rfl
    · rfl

theorem wireSegments_onWire (segments : List Assegment) :
    (wireSegments segments).map (Assegment.onWire use32bit) =
      wireSegments (segments.map (Assegment.onWire use32bit)) := by
  induction segments with
  | nil => rfl
  | cons seg rest ih =>
    simp only [wireSegments, List.flatMap_cons, List.map_append, List.map_cons] at ih ⊢
    rw [ih, pieces_onWire]
    simp [Assegment.onWire]

/-- What is read back is the normal form of the segments as the wire shows
them. -/
theorem aspathParse_sent (normal : Normal segments) (splittable : Splittable segments) :
    aspathParse (wireOctets use32bit segments) use32bit =
      some ⟨assegmentNormalise (segments.map (Assegment.onWire use32bit))⟩ := by
  rw [aspathParse_wire use32bit segments normal.filled, wireSegments_onWire, normalise_wire]
  intro seg member
  obtain ⟨original, inside, rfl⟩ := List.mem_map.mp member
  simpa [Assegment.onWire] using splittable original inside

theorem map_onWire_true (segments : List Assegment) :
    segments.map (Assegment.onWire true) = segments := by
  have same : Assegment.onWire true = id := by
    funext seg
    have members : seg.as.map (onWire true) = seg.as := List.map_id' seg.as
    unfold Assegment.onWire
    rw [members]
    rfl
  rw [same, List.map_id]

theorem map_onWire_small (small : aspathHasAs4 ⟨segments⟩ = false) :
    segments.map (Assegment.onWire false) = segments := by
  have members {seg : Assegment} (inside : seg ∈ segments) :
      seg.as.map (onWire false) = seg.as := by
    have all : ∀ member ∈ seg.as, onWire false member = member := by
      intro member within
      have bound : ¬ bgpAsMax < member := by
        have none := List.any_eq_false.mp small seg inside
        have notLarge := List.any_eq_false.mp (Bool.eq_false_iff.mpr none) member within
        simpa using notLarge
      unfold onWire
      rw [if_neg (by decide), if_pos (BitVec.not_lt.mp bound)]
    exact (List.map_congr_left all).trans (List.map_id' seg.as)
  have same : ∀ seg ∈ segments, Assegment.onWire false seg = seg := by
    intro seg inside
    unfold Assegment.onWire
    rw [members inside]
  exact (List.map_congr_left same).trans (List.map_id' segments)

/-- With four octets a path in normal form comes back as it is. -/
theorem aspathParse_four (normal : Normal segments) (splittable : Splittable segments) :
    aspathParse (wireOctets true segments) true = some ⟨segments⟩ := by
  rw [aspathParse_sent true normal splittable, map_onWire_true, normal.fixed]

/-- With two octets it does so without large AS numbers. -/
theorem aspathParse_two (normal : Normal segments) (splittable : Splittable segments)
    (small : aspathHasAs4 ⟨segments⟩ = false) :
    aspathParse (wireOctets false segments) false = some ⟨segments⟩ := by
  rw [aspathParse_sent false normal splittable, map_onWire_small small, normal.fixed]

/-! ## Hops -/

theorem countHops_normaliseOne (seg : Assegment) (rest : List Assegment) :
    aspathCountHops ⟨normaliseOne seg rest⟩ = aspathCountHops ⟨seg :: rest⟩ := by
  obtain ⟨type, as⟩ := seg
  unfold normaliseOne
  cases type with
  | asSet => simp [aspathCountHops]
  | asConfedSet => simp [aspathCountHops]
  | asConfedSequence => rfl
  | asSequence =>
    rcases rest with _ | ⟨⟨_ | _ | _ | _, as'⟩, rest⟩ <;>
      simp [aspathCountHops, Nat.add_assoc]

theorem countConfeds_normaliseOne (seg : Assegment) (rest : List Assegment) :
    aspathCountConfeds ⟨normaliseOne seg rest⟩ = aspathCountConfeds ⟨seg :: rest⟩ := by
  obtain ⟨type, as⟩ := seg
  unfold normaliseOne
  cases type with
  | asSet => simp [aspathCountConfeds]
  | asConfedSet => simp [aspathCountConfeds]
  | asConfedSequence => rfl
  | asSequence =>
    rcases rest with _ | ⟨⟨_ | _ | _ | _, as'⟩, rest⟩ <;> simp [aspathCountConfeds]

/-- Hops do not depend on the form a chain is in, nor on its members. -/
theorem countHops_wire (segments : List Assegment) :
    aspathCountHops ⟨assegmentNormalise (segments.map (Assegment.onWire use32bit))⟩ =
      aspathCountHops ⟨segments⟩ := by
  induction segments with
  | nil => rfl
  | cons seg rest ih =>
    have step := countHops_normaliseOne (Assegment.onWire use32bit seg)
      (assegmentNormalise (rest.map (Assegment.onWire use32bit)))
    refine step.trans ?_
    simp only [aspathCountHops, List.map_cons, List.sum_cons] at ih ⊢
    rw [ih]
    simp [Assegment.onWire]

theorem countConfeds_wire (segments : List Assegment) :
    aspathCountConfeds ⟨assegmentNormalise (segments.map (Assegment.onWire use32bit))⟩ =
      aspathCountConfeds ⟨segments⟩ := by
  induction segments with
  | nil => rfl
  | cons seg rest ih =>
    have step := countConfeds_normaliseOne (Assegment.onWire use32bit seg)
      (assegmentNormalise (rest.map (Assegment.onWire use32bit)))
    refine step.trans ?_
    simp only [aspathCountConfeds, List.map_cons, List.sum_cons] at ih ⊢
    rw [ih]
    simp [Assegment.onWire]

theorem countConfeds_plain (plain : ∀ seg ∈ segments, seg.confed = false) :
    aspathCountConfeds ⟨segments⟩ = 0 := by
  induction segments with
  | nil => rfl
  | cons seg rest ih =>
    have others := ih fun other member => plain other (.tail _ member)
    have here := plain seg List.mem_cons_self
    simp only [aspathCountConfeds, List.map_cons, List.sum_cons] at others ⊢
    rw [others]
    rcases seg with ⟨_ | _ | _ | _, as⟩
    · rfl
    · rfl
    · cases here
    · cases here

/-- Both paths stand for the same hops, so the four-octet one is taken. -/
theorem aspathReconcileAs4_plain (plain : ∀ seg ∈ segments, seg.confed = false) :
    aspathReconcileAs4 ⟨assegmentNormalise (segments.map (Assegment.onWire false))⟩ ⟨segments⟩ =
      ⟨segments⟩ := by
  unfold aspathReconcileAs4
  rw [countHops_wire, countConfeds_wire, countConfeds_plain plain]
  simp

/-- A small member AS in front is the one hop the four-octet path lacks. -/
theorem aspathReconcileAs4_confed {asno : U32} (plain : ∀ seg ∈ segments, seg.confed = false)
    (small : asno ≤ bgpAsMax) (normal : Normal (⟨.asConfedSequence, [asno]⟩ :: segments)) :
    aspathReconcileAs4 ⟨assegmentNormalise
        ((⟨.asConfedSequence, [asno]⟩ :: segments).map (Assegment.onWire false))⟩ ⟨segments⟩ =
      ⟨⟨.asConfedSequence, [asno]⟩ :: segments⟩ := by
  have first :
      Assegment.onWire false ⟨.asConfedSequence, [asno]⟩ = ⟨.asConfedSequence, [asno]⟩ := by
    simp [Assegment.onWire, onWire, small]
  have hops : aspathCountHops ⟨⟨.asConfedSequence, [asno]⟩ :: segments⟩ =
      aspathCountHops ⟨segments⟩ := by
    simp [aspathCountHops]
  have confeds : aspathCountConfeds ⟨⟨.asConfedSequence, [asno]⟩ :: segments⟩ = 1 := by
    have others := countConfeds_plain plain
    simp only [aspathCountConfeds, List.map_cons, List.sum_cons] at others ⊢
    rw [others]
    rfl
  unfold aspathReconcileAs4
  rw [countHops_wire, countConfeds_wire, hops, confeds]
  have one : ((aspathCountHops ⟨segments⟩ : Int) + ((1 : Nat) : Int) - aspathCountHops ⟨segments⟩) =
      1 := by
    omega
  rw [one, if_neg (by omega), if_neg (by omega)]
  have copied (rest : List Assegment) :
      reconcileHops (⟨.asConfedSequence, [asno]⟩ :: rest) 1 = [⟨.asConfedSequence, [asno]⟩] := by
    cases rest <;> simp [reconcileHops]
  have shape : assegmentNormalise
      ((⟨.asConfedSequence, [asno]⟩ :: segments).map (Assegment.onWire false)) =
      ⟨.asConfedSequence, [asno]⟩ :: assegmentNormalise
          (segments.map (Assegment.onWire false)) := by
    rw [List.map_cons, first]
    rfl
  rw [shape, copied, List.singleton_append, normal.fixed]

end Bgpd.PathCodec
