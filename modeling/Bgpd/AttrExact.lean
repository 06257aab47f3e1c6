import Bgpd.AttrBounds

/-!
# The attribute section is parsed exactly

For every buffer, every section inside its data and every neighbour,
`bgp_attr_parse` returns and touches no octet outside the section. When it lets
the message proceed, the attributes it met tile the section: each begins where
the one before it ended, with the header that stands there, and its handler has
consumed the length of that header. No type was met twice, and a slice handed
on lies in the body of an MP attribute.

The walk turns over the section, so the invariant is about the attributes met
so far, and every turn moves the read pointer.
-/

namespace Bgpd.AttrExact

open Octets Attributes Neighbors InputStream AttrStream AttrBounds
open AttrParse (ParseState ParseRet)

/-- Attributes one behind the other, from a position to another. -/
def Tiles : Nat → List Met → Nat → Prop
  | first, [], last => first = last
  | first, piece :: rest, last => piece.startp = first ∧ Tiles piece.stop rest last

theorem Tiles.snoc {first : Nat} {met : List Met} (piece : Met)
    (tiles : Tiles first met piece.startp) : Tiles first (met ++ [piece]) piece.stop := by
  induction met generalizing first with
  | nil => exact ⟨tiles.symm, rfl⟩
  | cons head rest ih => exact ⟨tiles.1, ih tiles.2⟩

/-- The header of an attribute is the one that stands in the stream. -/
def Announced (s : Stream) (hdr : Header) (body : Nat) : Prop :=
  AttrParse.bgpAttrHeader (s.data.drop hdr.startp) =
    some (hdr.flag, hdr.type, hdr.length, s.data.drop body)

/-- A slice lies in the body of an attribute of the given type. -/
def Held (type : AttrType) (met : List Met) (filled : Option Slice) : Prop :=
  ∀ slice, filled = some slice → ∃ piece ∈ met, AttrType.ofCode piece.type = some type ∧
    Slice.Inside piece.body piece.stop slice

/-- Between two attributes: those met so far are whole, and the next one begins
at `here`. -/
structure Walked (s : Stream) (last here : Nat) (r : Reading) : Prop where
  within : Within s.getp last s r.stream
  backed : Backed r.st.attr
  tiled : Tiles s.getp r.met here
  bitmap : r.st.seen = (r.met.map (·.type)).reverse
  once : (r.met.map (·.type)).Nodup
  announced : ∀ piece ∈ r.met, Announced s piece.toHeader piece.body
  consumed : ∀ piece ∈ r.met, piece.stop = piece.body + piece.length
  mpUpdate : Held .mpReachNlri r.met r.mpUpdate
  mpWithdraw : Held .mpUnreachNlri r.met r.mpWithdraw

/-- A verdict of a turn. The walk goes on only with whole attributes, and a turn
never ends the walk with the verdict to proceed. -/
structure Turned (s : Stream) (last here : Nat) (out : Reading × Option ParseRet) : Prop where
  within : Within s.getp last s out.1.stream
  verdict : out.2 ≠ some .proceed
  onward : out.2 = none → Walked s last out.1.stream.getp out.1 ∧ here < out.1.stream.getp

variable {s : Stream} {last here : Nat} {r : Reading}
variable (bgp : Bgp) (peer : Peer) (cap : PeerCap)

/-- A walk that ends with an error. -/
theorem Turned.failed {out : Reading} (within : Within s.getp last s out.stream) :
    Turned s last here (out, some .error) :=
  ⟨within, nofun, nofun⟩

/-- A slice filled before the newest attribute stays in its attribute, and one
filled by its handler is in the newest. -/
theorem Held.snoc {type : AttrType} {met : List Met} {before after : Option Slice}
    (held : Held type met before) (newest : Met)
    (filled : after = before ∨ AttrType.ofCode newest.type = some type ∧
      ∃ slice, after = some slice ∧ Slice.Inside newest.body newest.stop slice) :
    Held type (met ++ [newest]) after := by
  intro slice present
  rcases filled with same | ⟨code, own, filled, inside⟩
  · obtain ⟨piece, known, rest⟩ := held slice (same ▸ present)
    exact ⟨piece, List.mem_append_left _ known, rest⟩
  · cases filled.symm.trans present
    exact ⟨newest, by simp, code, inside⟩

/-- Behind the header: the attribute is refused, or it is met whole. -/
theorem bgpAttrRead_turned {hdr : Header} (room : last ≤ s.endp)
    (walked : Walked s last hdr.startp r) (behind : hdr.startp + hdr.width = r.stream.getp)
    (first : s.getp ≤ hdr.startp) (announced : Announced s hdr r.stream.getp) :
    Ensures (bgpAttrRead bgp peer cap last hdr r) (Turned s last hdr.startp) := by
  unfold bgpAttrRead
  split
  · exact .intro (.failed walked.within)
  · rename_i unseen
    dsimp only
    split
    · exact .intro (.failed walked.within)
    · rename_i fits
      have same_end : r.stream.endp = s.endp := walked.within.endp
      have placed : Placed hdr { r with st := { r.st with seen := hdr.type :: r.st.seen } } :=
        ⟨behind, by dsimp only; omega⟩
      refine .bind (bgpAttrHandle_inside bgp peer cap placed) ?_
      rintro ⟨after, ret⟩ inside
      have within : Within s.getp last s after.stream :=
        walked.within.trans (inside.within.widen first (by dsimp only; omega))
      cases ret with
      | error => exact .intro (.failed within)
      | withdraw => exact .intro ⟨within, nofun, nofun⟩
      | proceed =>
        dsimp only
        split
        · exact .intro (.failed within)
        · rename_i fetched
          have fetched : after.stream.getp = r.stream.getp + hdr.length := not_not.mp fetched
          have header : hdr.startp < r.stream.getp := by
            unfold Header.width at behind
            split at behind <;> omega
          refine .intro ⟨within, nofun, fun _ => ⟨?_, by dsimp only; omega⟩⟩
          have met : after.met = r.met := inside.met
          have bitmap : after.st.seen = hdr.type :: r.st.seen := inside.seen
          have fresh : hdr.type ∉ r.met.map (·.type) := by
            rwa [walked.bitmap, List.mem_reverse] at unseen
          exact {
            within
            backed := inside.backed walked.backed
            tiled := by
              rw [met]
              exact Tiles.snoc { hdr with body := _, stop := _ } walked.tiled
            bitmap := by
              rw [bitmap, met, walked.bitmap, List.map_append, List.reverse_append]
              rfl
            once := by
              rw [met, List.map_append]
              exact walked.once.append (List.nodup_singleton _)
                (by simpa [List.disjoint_singleton] using fresh)
            announced := by
              intro piece known
              rcases List.mem_append.mp (met ▸ known) with earlier | newest
              · exact walked.announced piece earlier
              · cases List.mem_singleton.mp newest
                exact announced
            consumed := by
              intro piece known
              rcases List.mem_append.mp (met ▸ known) with earlier | newest
              · exact walked.consumed piece earlier
              · cases List.mem_singleton.mp newest
                exact fetched
            mpUpdate := by
              rw [met]
              exact walked.mpUpdate.snoc _ (by rw [fetched]; exact inside.mpUpdate)
            mpWithdraw := by
              rw [met]
              exact walked.mpWithdraw.snoc _ (by rw [fetched]; exact inside.mpWithdraw) }

/-- An octet of the buffer, read through the stream. -/
theorem streamGetc_octet {t : Stream} {octet : U8} {rest : List U8} (room : t.getp + 1 ≤ t.endp)
    (shape : t.data.drop t.getp = octet :: rest) : t.streamGetc = some (octet, t.advance 1) := by
  rw [t.streamGetc_eq room, Stream.octetsAt, shape]
  rfl

/-- Passing octets of the buffer. -/
theorem advance_shape {t : Stream} {rest : List U8} (front : List U8)
    (shape : t.data.drop t.getp = front ++ rest) :
    (t.advance front.length).data.drop (t.advance front.length).getp = rest := by
  rw [Stream.advance_data, Stream.advance_getp, ← List.drop_drop, shape, List.drop_left]

/-- The walk behind a header whose last octets end at the read pointer. -/
theorem headed (room : last ≤ s.endp) (walked : Walked s last r.stream.getp r) {flag type : U8}
    {length : Nat} {front rest : List U8} {t : Stream}
    (shape : r.stream.data.drop r.stream.getp = front ++ rest)
    (header : AttrParse.bgpAttrHeader (front ++ rest) = some (flag, type, length, rest))
    (width : (Header.mk r.stream.getp flag type length).width = front.length)
    (moved : t.getp = r.stream.getp + front.length) (read : Within s.getp last s t) :
    Ensures (bgpAttrRead bgp peer cap last ⟨r.stream.getp, flag, type, length⟩
      { r with stream := t, st := { r.st with flag } }) (Turned s last r.stream.getp) := by
  have original : s.data.drop r.stream.getp = front ++ rest :=
    (drop_ahead walked.within le_rfl).symm.trans shape
  have behind : s.data.drop t.getp = rest := by
    rw [moved, ← List.drop_drop, original, List.drop_left]
  refine bgpAttrRead_turned bgp peer cap room { walked with within := read } ?_
    walked.within.forward ?_
  · rw [width, moved]
  · unfold Announced
    rw [original, header, behind]

/-- A turn reads the header that stands at the read pointer. -/
theorem bgpAttrTurn_turned (room : last ≤ s.endp) (walked : Walked s last r.stream.getp r) :
    Ensures (bgpAttrTurn bgp peer cap last r) (Turned s last r.stream.getp) := by
  have forward := walked.within.forward
  have same_end := walked.within.endp
  unfold bgpAttrTurn
  dsimp only
  split
  · exact .intro (.failed walked.within)
  · rename_i long
    have sized := r.stream.sized
    have enough : 3 ≤ (r.stream.data.drop r.stream.getp).length := by
      rw [List.length_drop]
      omega
    obtain ⟨flag, type, low, rest, shape⟩ :
        ∃ flag type low rest, r.stream.data.drop r.stream.getp = flag :: type :: low :: rest := by
      match r.stream.data.drop r.stream.getp, enough with
      | flag :: type :: low :: rest, _ => exact ⟨flag, type, low, rest, rfl⟩
    have read : Within s.getp last s ((r.stream.advance 1).advance 1) :=
      walked.within.trans (.twice forward (by omega))
    have flag_read : r.stream.streamGetc = some (flag, r.stream.advance 1) :=
      streamGetc_octet (by omega) shape
    have type_read : (r.stream.advance 1).streamGetc =
        some (type, (r.stream.advance 1).advance 1) :=
      streamGetc_octet (Stream.advance_room (by omega))
        (advance_shape [flag] shape)
    have at_length : ((r.stream.advance 1).advance 1).data.drop
        ((r.stream.advance 1).advance 1).getp = low :: rest :=
      advance_shape [type] (advance_shape [flag] shape)
    refine .bind (.of_eq flag_read) ?_
    rintro _ rfl
    refine .bind (.of_eq type_read) ?_
    rintro _ rfl
    dsimp only
    generalize stepped : (r.stream.advance 1).advance 1 = t at read at_length ⊢
    have getp : t.getp = r.stream.getp + 2 := by rw [← stepped]; rfl
    have endp : t.endp = s.endp := read.endp
    split
    · exact .intro (.failed read)
    · rename_i short
      unfold getLength
      cases extlen : FlagWord.check flag attrFlagExtlen with
      | false =>
        rw [if_neg Bool.false_ne_true, streamGetc_octet (by omega) at_length]
        refine @headed _ _ _ bgp peer cap room walked _ _ _ [flag, type, low] _ _ shape ?_ ?_ ?_
          (read.advance (by omega) (by omega))
        · simp [AttrParse.bgpAttrHeader, extlen]
        · simp [Header.width, extlen]
        · rw [Stream.advance_getp, getp]
          rfl
      | true =>
        have extended : ¬last - r.stream.getp < 4 := fun less => short ⟨extlen, less⟩
        obtain ⟨high, rest, rfl⟩ : ∃ high behind, rest = high :: behind := by
          have four : 2 ≤ (t.data.drop t.getp).length := by
            have := t.sized
            rw [List.length_drop]
            omega
          rw [at_length] at four
          match rest, four with
          | high :: behind, _ => exact ⟨high, behind, rfl⟩
        rw [if_pos rfl, Stream.streamGetw_eq _ (by omega), Stream.octetsAt, at_length]
        refine @headed _ _ _ bgp peer cap room walked _ _ _ [flag, type, low,
          high] _ _ shape ?_ ?_ ?_
          (read.advance (by omega) (by omega))
        · simp [AttrParse.bgpAttrHeader, extlen]
        · simp [Header.width, extlen]
        · rw [Stream.advance_getp, getp]
          rfl

/-- A walk that has reached the end of the section is at the end. -/
theorem Walked.finished (walked : Walked s last r.stream.getp r)
    (reached : ¬r.stream.getp < last) : Walked s last last r ∧ r.stream.getp = last := by
  have at_end : r.stream.getp = last := by
    have := walked.within.stops
    omega
  exact ⟨at_end ▸ walked, at_end⟩

/-- The loop turns until the section ends. Every turn that goes on moves the
read pointer, so the octets left bound the number of turns. -/
theorem bgpAttrLoop_walked (room : last ≤ s.endp) (fuel : Nat) (r : Reading)
    (enough : last - r.stream.getp ≤ fuel) (walked : Walked s last r.stream.getp r) :
    Ensures (bgpAttrLoop bgp peer cap last fuel r) fun out =>
      Within s.getp last s out.1.stream ∧
        (out.2 = .proceed → Walked s last last out.1 ∧ out.1.stream.getp = last) := by
  induction fuel generalizing r with
  | zero =>
    have reached : ¬r.stream.getp < last := by omega
    rw [bgpAttrLoop, if_neg reached]
    exact .intro ⟨walked.within, fun _ => walked.finished reached⟩
  | succ fuel ih =>
    rw [bgpAttrLoop]
    split
    · refine .bind (bgpAttrTurn_turned bgp peer cap room walked) ?_
      rintro ⟨next, verdict⟩ turned
      cases verdict with
      | some ret =>
        refine .intro ⟨turned.within, fun proceeds => absurd ?_ turned.verdict⟩
        rw [← proceeds]
      | none =>
        obtain ⟨onward, moved⟩ := turned.onward rfl
        dsimp only at onward moved
        exact ih next (by omega) onward
    · rename_i reached
      exact .intro ⟨walked.within, fun _ => walked.finished reached⟩

/-- What the verdict to proceed means: the section is at its end, the attributes
met tile it, each with the header that stands in the stream and consumed as far
as that header says, no type twice, and the slices lie in MP attributes. -/
structure Exact (s : Stream) (last : Nat) (r : Reading) : Prop where
  finished : r.stream.getp = last
  tiled : Tiles s.getp r.met last
  announced : ∀ piece ∈ r.met, Announced s piece.toHeader piece.body
  consumed : ∀ piece ∈ r.met, piece.stop = piece.body + piece.length
  once : (r.met.map (·.type)).Nodup
  mpUpdate : Held .mpReachNlri r.met r.mpUpdate
  mpWithdraw : Held .mpUnreachNlri r.met r.mpWithdraw

theorem Walked.exact {st : ParseState} (walked : Walked s last last r)
    (at_end : r.stream.getp = last) : Exact s last { r with st } :=
  { walked with finished := at_end }

/-- The assertion on the extra block holds. -/
theorem mungeAs4Attrs_asserted {st : ParseState} (backed : Backed st.attr) :
    bgpAttrMungeAs4Attrs bgp peer cap st =
      some (AttrParse.bgpAttrMungeAs4Attrs bgp peer cap st) := by
  refine if_neg ?_
  rintro ⟨_, _, _, flagged, missing⟩
  rw [Option.isNone_iff_eq_none] at missing
  have present := backed flagged
  rw [missing] at present
  exact absurd present Bool.false_ne_true

/-- A section inside the data of its stream is parsed, nothing outside it is
touched, and if the message may proceed the parse is exact. The result is there for
every section, since each turn of the loop takes octets from it. -/
theorem bgpAttrParse_exact (bgp : Bgp) (peer : Peer) (cap : PeerCap) (localMed : U32) (s : Stream)
    (size : U16) (letThrough : s.getp + size.toNat ≤ s.endp) :
    ∃ r ret, bgpAttrParse bgp peer cap localMed s size = some (r, ret) ∧
      (∀ pos ∈ r.stream.touched,
        pos ∈ s.touched ∨ (s.getp ≤ pos ∧ pos < s.getp + size.toNat)) ∧
      (ret = .proceed → Exact s (s.getp + size.toNat) r) := by
  have begun : Walked s (s.getp + size.toNat) s.getp (.start s localMed) :=
    ⟨.refl (Nat.le_add_right _ _), fun flagged => (nomatch (Attr.has_zero _).symm.trans flagged),
      rfl, rfl, .nil, nofun, nofun, nofun, nofun⟩
  have parsed : Ensures (bgpAttrParse bgp peer cap localMed s size) fun out =>
      Within s.getp (s.getp + size.toNat) s out.1.stream ∧
        (out.2 = .proceed → Exact s (s.getp + size.toNat) out.1) := by
    unfold bgpAttrParse
    refine .bind (bgpAttrLoop_walked bgp peer cap letThrough size.toNat _
      (by show s.getp + size.toNat - s.getp ≤ size.toNat; omega) begun) ?_
    rintro ⟨r, ret⟩ ⟨within, proceeds⟩
    cases ret with
    | error => exact .intro ⟨within, nofun⟩
    | withdraw => exact .intro ⟨within, nofun⟩
    | proceed =>
      obtain ⟨walked, at_end⟩ := proceeds rfl
      dsimp only at within at_end ⊢
      rw [if_neg (not_not_intro at_end), mungeAs4Attrs_asserted bgp peer cap walked.backed]
      refine .bind (.of_eq rfl) ?_
      rintro _ rfl
      split
      · exact .intro ⟨within, nofun⟩
      · split
        · exact .intro ⟨within, fun _ => walked.exact at_end⟩
        · exact .intro ⟨within, fun _ => walked.exact at_end⟩
  obtain ⟨⟨r, ret⟩, returned, within, exact_section⟩ := parsed
  exact ⟨r, ret, returned, within.touched, exact_section⟩

/-- A buffer that holds, behind two other octets, the section of ORIGIN, an
empty AS_PATH and an MP_UNREACH_NLRI for `10.0.0.0/8`, and one octet more. -/
def sample : Stream where
  data := [0, 13, 0x40, 1, 1, 0, 0x40, 2, 0, 0x80, 15, 5, 0, 1, 1, 8, 10, 7]
  getp := 2
  endp := 18
  touched := []
  sized := by decide

/-- The section of the sample is let through, and its parse is exact. -/
theorem bgpAttrParse_exact_sample :
    ∃ r, bgpAttrParse (.plain 65001 1) (.plain 3 65002 65001) {} 0 sample 15 =
        some (r, .proceed) ∧
      (∀ pos ∈ r.stream.touched, pos ∈ sample.touched ∨ (2 ≤ pos ∧ pos < 17)) ∧
      Exact sample 17 r := by
  have proceeds : (bgpAttrParse (.plain 65001 1) (.plain 3 65002 65001) {} 0 sample 15).map
      Prod.snd = some .proceed := by decide +kernel
  obtain ⟨r, ret, returned, touched, exact_section⟩ :=
    bgpAttrParse_exact (.plain 65001 1) (.plain 3 65002 65001) {} 0 sample 15 (by decide)
  rw [returned] at proceeds
  cases proceeds
  exact ⟨r, returned, touched, exact_section rfl⟩

end Bgpd.AttrExact
