import Bgpd.LearnedMetric
import Bgpd.Announce

/-!
# Reading back what was sent

The section that `bgp_packet_attribute` writes starts with the attributes up to
the preference. If their lengths are right and the section is accepted at all,
then the receiver has read each of them, whatever follows: the types behind
them cannot repeat theirs.

The lengths are right whenever no segment of the AS path has more than 510
members. Beyond that the writer reports more octets than it wrote.
-/

namespace Bgpd.SentSection

open Octets Prefixes AsPath Attributes Neighbors AttrParse AttrSection HandlerEffects
  LearnedMetric Announce

variable (use32bit : Bool) (seg : Assegment)

/-! ## The reported size of a path -/

/-- Members take four or two octets each. -/
theorem assegmentDataPut_length (as : List U32) :
    (assegmentDataPut use32bit as).length = assegmentDataSize as.length use32bit := by
  unfold assegmentDataPut assegmentDataSize
  induction as with
  | nil => simp
  | cons member rest ih =>
    rw [List.flatMap_cons, List.length_append, ih, List.length_cons, Nat.succ_mul, Nat.add_comm]
    congr 1
    cases use32bit with
    | true => rfl
    | false =>
      simp only [Bool.false_eq_true, if_false]
      split <;> rfl

/-- Where no more than 255 members are left to write, the loop is over. -/
theorem putOverlength_stops (fuel written : Nat) (rest : seg.as.length - written ≤ asSegmentMax) :
    putOverlength use32bit seg fuel written = (⟨[], 0⟩, written) := by
  cases fuel with
  | zero => rfl
  | succ fuel =>
    unfold putOverlength
    rw [if_neg (by omega)]

/-- The chunk that a turn of the loop writes, with what it reports for it. -/
def overlengthChunk (use32bit : Bool) (seg : Assegment) (written : Nat) : Put :=
  ⟨assegmentHeaderPut seg.type asSegmentMax
      ++ assegmentDataPut use32bit (seg.as.take asSegmentMax),
    assegmentSize (written + asSegmentMax) use32bit⟩

/-- Where more are left, the loop writes a chunk and goes on behind it. -/
theorem putOverlength_turn (fuel written : Nat) (left : seg.as.length - written > asSegmentMax) :
    putOverlength use32bit seg (fuel + 1) written =
      ((overlengthChunk use32bit seg written).append
          (putOverlength use32bit seg fuel (written + asSegmentMax)).1,
        (putOverlength use32bit seg fuel (written + asSegmentMax)).2) := by
  conv => lhs; unfold putOverlength
  rw [if_pos left]
  rfl

/-- A chunk is a full segment. -/
theorem overlengthChunk_length {use32bit : Bool} {seg : Assegment} {written : Nat}
    (left : seg.as.length - written > asSegmentMax) :
    (overlengthChunk use32bit seg written).octets.length = assegmentSize asSegmentMax use32bit := by
  have long : asSegmentMax ≤ seg.as.length := by omega
  simp only [overlengthChunk, assegmentHeaderPut, List.length_append, assegmentDataPut_length,
    assegmentSize, List.length_cons, List.length_nil, List.length_take, Nat.min_eq_left long]

/-- A segment of at most 510 members is split at most once, and then the size
reported for the first piece is its own. -/
theorem putOverlength_exact (short : seg.as.length ≤ 510) (fuel : Nat) :
    (putOverlength use32bit seg fuel 0).1.bytes =
      (putOverlength use32bit seg fuel 0).1.octets.length := by
  cases fuel with
  | zero => rfl
  | succ fuel =>
    by_cases long : seg.as.length > asSegmentMax
    · have rest : seg.as.length - (0 + asSegmentMax) ≤ asSegmentMax := by
        simp only [asSegmentMax]
        omega
      have left : seg.as.length - 0 > asSegmentMax := long
      rw [putOverlength_turn use32bit seg fuel 0 left, putOverlength_stops use32bit seg fuel _ rest]
      simp only [Put.append, List.append_nil, Nat.add_zero, overlengthChunk_length left]
      simp [overlengthChunk]
    · rw [putOverlength_stops use32bit seg _ 0 (by omega)]
      rfl

/-- The size reported for one turn of the outer loop is right for such a
segment, whatever is packed behind it. -/
theorem putSegment_exact (packed : List Assegment) (short : seg.as.length ≤ 510) :
    (putSegment use32bit seg packed).bytes = (putSegment use32bit seg packed).octets.length := by
  have chunks := putOverlength_exact use32bit seg short seg.as.length
  simp only [putSegment, Put.append, chunks, List.length_append, assegmentDataPut_length,
    assegmentHeaderPut, List.length_cons, List.length_nil, assegmentSize, assegmentDataSize,
    Nat.add_mul]
  omega

theorem putSegments_exact (use32bit : Bool) (fuel writeable : Nat) (segments : List Assegment)
    (short : ∀ seg ∈ segments, seg.as.length ≤ 510) :
    (putSegments use32bit fuel writeable segments).bytes =
      (putSegments use32bit fuel writeable segments).octets.length := by
  induction fuel generalizing writeable segments with
  | zero => cases segments <;> rfl
  | succ fuel ih =>
    cases segments with
    | nil => rfl
    | cons seg next =>
      unfold putSegments
      split
      · have here := putSegment_exact use32bit seg (next.takeWhile (assegmentsPackable seg))
          (short seg List.mem_cons_self)
        have later := ih (writeable - (putSegment use32bit seg
            (next.takeWhile (assegmentsPackable seg))).octets.length)
          (next.drop (next.takeWhile (assegmentsPackable seg)).length)
          (fun other member => short other (List.mem_cons_of_mem seg (List.mem_of_mem_drop member)))
        simp [Put.append, here, later]
      · rfl

/-- `aspath_put` reports the octets it wrote when no segment has more than 510
members. -/
theorem aspathPut_exact (writeable : Nat) (path : Aspath) (use32bit : Bool)
    (short : ∀ seg ∈ path.segments, seg.as.length ≤ 510) :
    (aspathPut writeable path use32bit).bytes =
      (aspathPut writeable path use32bit).octets.length := by
  unfold aspathPut
  split
  · rfl
  · split
    · rfl
    · exact putSegments_exact use32bit _ writeable path.segments short

/-! ## The first attributes -/

variable (bgp : Bgp) (peer : Peer) (cap : PeerCap)

/-- The section starts with the attributes up to the preference. -/
theorem packet_encode_core (writeable : Nat) (attr : Attr) (p : Prefix) (safi : Safi)
    (source : Option Peer) (prd tag : List U8) :
    ∃ rest, (bgpPacketAttribute bgp peer cap writeable attr p safi source prd tag).encode =
      encodeAll (packetCore bgp peer cap writeable attr p safi) ++ rest := by
  unfold bgpPacketAttribute Packet.encode packetRest encodeAll
  simp only [List.flatMap_append, List.append_assoc]
  exact ⟨_, rfl⟩

/-- An accepted section whose first attributes are framed was walked over those
and over further ones of other types. -/
theorem accepted_core (localMed : U32) (core : List Tlv) (rest : List U8) (final : ParseState)
    (framed : ∀ tlv ∈ core, tlv.Framed)
    (parsed : bgpAttrParse bgp peer cap localMed (encodeAll core ++ rest) = (final, .proceed)) :
    ∃ more walked, takeAll bgp peer cap (core ++ more) (.start localMed) = (walked, none) ∧
      Keeps walked final := by
  obtain ⟨walked, finished, kept⟩ := bgpAttrParse_walk bgp peer cap localMed _ final parsed
  obtain ⟨next, first, behind⟩ := walk_prefix bgp peer cap core rest _ walked framed finished
  obtain ⟨more, -, -, others⟩ := walk_takeAll bgp peer cap rest next walked behind
  exact ⟨more, walked, takeAll_append bgp peer cap core more _ next walked first others, kept⟩

/-- What the receiver of an accepted section learns from a MED and a preference
among its first attributes. -/
theorem accepted_core_metric (localMed : U32) (core : List Tlv) (rest : List U8)
    (final : ParseState) (framed : ∀ tlv ∈ core, tlv.Framed) (med pref : Tlv) (hasMed : med ∈ core)
    (hasPref : pref ∈ core) (isMed : med.type = AttrType.multiExitDisc.code)
    (isPref : pref.type = AttrType.localPref.code)
    (parsed : bgpAttrParse bgp peer cap localMed (encodeAll core ++ rest) = (final, .proceed)) :
    metric final =
      ⟨medValue med + learned localMed (localPrefValue pref), localPrefValue pref,
        learned localMed (localPrefValue pref)⟩ := by
  obtain ⟨more, walked, turns, kept⟩ :=
    accepted_core bgp peer cap localMed core rest final framed parsed
  obtain ⟨distinct, -, effect, -⟩ := takeAll_next bgp peer cap _ _ walked turns
  rw [kept.metric, effect]
  exact absorb_both (core ++ more) localMed med pref distinct
    (List.mem_append_left more hasMed) (List.mem_append_left more hasPref) isMed isPref _ rfl

end Bgpd.SentSection
