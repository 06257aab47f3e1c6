import Bgpd.As4RoundTrip

/-!
# What an attribute changes

Every attribute that is read changes the set so far in a way of its own, so the set
that comes out of a section is the composition of the changes. Between two routers
with four-octet AS numbers nothing is translated, and each change puts the value that
was written.
-/

namespace Bgpd.AttrChanges

open Octets AsPath Attributes Neighbors AttrParse AttrSection Announce Encoding
open As4RoundTrip (sized_framed)
open As4Transition (read_accepted)

/-! ## Bodies -/

theorem words_putl (values : List U32) : words (values.flatMap putl) = values := by
  induction values with
  | nil => rfl
  | cons value rest ih =>
    rw [List.flatMap_cons]
    have first : words (putl value ++ rest.flatMap putl) =
        getl (putl value) :: words (rest.flatMap putl) := rfl
    rw [first, getl_putl_exact, ih]

theorem flatMap_putl_length (values : List U32) :
    (values.flatMap putl).length = 4 * values.length := by
  induction values with
  | nil => rfl
  | cons value rest ih =>
    rw [List.flatMap_cons, List.length_append, ih, putl_length, List.length_cons]
    omega

theorem doubleWords_putEcommunity (values : List (BitVec 64)) :
    doubleWords (values.flatMap putEcommunity) = values := by
  induction values with
  | nil => rfl
  | cons value rest ih =>
    rw [List.flatMap_cons]
    have first : doubleWords (putEcommunity value ++ rest.flatMap putEcommunity) =
        (getl (putl (value.extractLsb' 32 32)) ++ getl (putl (value.extractLsb' 0 32))) ::
          doubleWords (rest.flatMap putEcommunity) := rfl
    have halves : value.extractLsb' 32 32 ++ value.extractLsb' 0 32 = value := by
      ext i hi
      simp only [BitVec.getElem_append, BitVec.getElem_extractLsb']
      split <;> rw [← BitVec.getLsbD_eq_getElem] <;> congr 1 <;> omega
    rw [first, getl_putl_exact, getl_putl_exact, ih, halves]

theorem flatMap_putEcommunity_length (values : List (BitVec 64)) :
    (values.flatMap putEcommunity).length = 8 * values.length := by
  induction values with
  | nil => rfl
  | cons value rest ih =>
    rw [List.flatMap_cons, List.length_append, ih, List.length_cons]
    have eight : (putEcommunity value).length = 8 := rfl
    omega

/-- Sorting what is sorted and without repetition changes nothing. -/
theorem sort_strictly {w : Nat} {values : List (BitVec w)} (sorted : values.Pairwise (· < ·)) :
    values.dedup.insertionSort (· ≤ ·) = values := by
  rw [List.Nodup.dedup (sorted.imp fun less same => by
    rw [same] at less
    exact BitVec.lt_irrefl _ less)]
  exact List.Pairwise.insertionSort_eq (sorted.imp BitVec.le_of_lt)

/-! ## One attribute -/

section Reading

variable (bgp : Bgp) (peer : Peer) (cap : PeerCap)

/-- The receiver reads the attribute, and it changes the set so far. Without a
preference the neighbour's metric stays as it is. -/
def Changes (tlv : Tlv) (change : Attr → Attr) : Prop :=
  tlv.Framed ∧ ∀ st, st.localMed = 0 → ∃ next, bgpAttrRead bgp peer cap tlv st = (next, none) ∧
    next.attr = change st.attr ∧ next.localMed = 0

variable {bgp peer cap}
variable {tlv : Tlv} (type : AttrType) (body : List U8)

theorem changes_of_accepted {type : AttrType} {change : Attr → Attr} (framed : tlv.Framed)
    (handled : ∀ st, st.localMed = 0 → ∃ st', st'.localMed = 0 ∧
      bgpAttrHandle bgp peer cap tlv st = accepted type st' (change st.attr) tlv.length) :
    Changes bgp peer cap tlv fun attr => (change attr).mark type := by
  refine ⟨framed, fun st none => ?_⟩
  obtain ⟨st', none', handled⟩ := handled st none
  exact ⟨_, read_accepted bgp peer cap handled, rfl, none'⟩

theorem wellKnown_framed (short : body.length < 256) : (Tlv.wellKnown type body).Framed := by
  have oneOctet : FlagWord.check attrFlagTrans attrFlagExtlen = false := by decide
  exact ⟨rfl, short.trans_eq (if_neg (Bool.eq_false_iff.mp oneOctet)).symm⟩

theorem changes_origin {origin : U8}
    (known : origin = bgpOriginIgp ∨ origin = bgpOriginEgp ∨ origin = bgpOriginIncomplete) :
    Changes bgp peer cap (.wellKnown .origin [origin]) fun attr =>
      ({ attr with origin }).mark .origin := by
  refine changes_of_accepted (wellKnown_framed _ _ (by simp)) fun st none => ⟨st, none, ?_⟩
  have handled : bgpAttrHandle bgp peer cap (.wellKnown .origin [origin]) st =
      if origin ≠ bgpOriginIgp ∧ origin ≠ bgpOriginEgp ∧ origin ≠ bgpOriginIncomplete then
        malformed bgp peer .origin attrFlagTrans notifyUpdateInvalOrigin
          (Tlv.wellKnown .origin [origin]).encode { st with attr := { st.attr with origin } } 1
      else accepted .origin st { st.attr with origin } 1 := rfl
  rw [handled, if_neg]
  · rfl
  · rintro ⟨notIgp, notEgp, notIncomplete⟩
    rcases known with igp | egp | incomplete
    · exact notIgp igp
    · exact notEgp egp
    · exact notIncomplete incomplete

theorem changes_asPath {path : Aspath} (four : cap.as4Rcv = true) (framed : tlv.Framed)
    (type : tlv.type = AttrType.asPath.code)
    (flag : tlv.flag = FlagWord.set attrFlagTrans attrFlagExtlen)
    (parsed : aspathParse tlv.body true = some path) :
    Changes bgp peer cap tlv fun attr => ({ attr with aspath := some path }).mark .asPath := by
  refine changes_of_accepted framed fun st none => ⟨st, none, ?_⟩
  have flags : (FlagWord.check (FlagWord.set attrFlagTrans attrFlagExtlen) attrFlagOptional ||
      !FlagWord.check (FlagWord.set attrFlagTrans attrFlagExtlen) attrFlagTrans) = false := by
    decide
  simp only [bgpAttrHandle, type, AttrType.ofCode_code, bgpAttrAspath, flag, flags, four, parsed,
    Bool.false_eq_true, if_false, Option.isNone_some]

theorem changes_nextHop (nexthop : U32) :
    Changes bgp peer cap (.wellKnown .nextHop (putl nexthop)) fun attr =>
      ({ attr with nexthop }).mark .nextHop := by
  refine changes_of_accepted (wellKnown_framed _ _ (by simp)) fun st none => ⟨st, none, ?_⟩
  have flags : (FlagWord.check attrFlagTrans attrFlagOptional ||
      !FlagWord.check attrFlagTrans attrFlagTrans) = false := by decide
  simp [bgpAttrHandle, Tlv.wellKnown, AttrType.ofCode_code, bgpAttrNexthop, flags, putl_length,
    getl_putl_exact]

theorem changes_med (med : U32) :
    Changes bgp peer cap (.wellKnown .multiExitDisc (putl med)) fun attr =>
      ({ attr with med }).mark .multiExitDisc := by
  refine changes_of_accepted (wellKnown_framed _ _ (by simp)) fun st none => ⟨st, none, ?_⟩
  have flags : (!FlagWord.check attrFlagTrans attrFlagTrans ||
      FlagWord.check attrFlagTrans attrFlagOptional ||
      FlagWord.check attrFlagTrans attrFlagPartial) = false := by decide
  simp [bgpAttrHandle, Tlv.wellKnown, AttrType.ofCode_code, bgpAttrMed, flags, putl_length,
    getl_putl_exact, none]

/-- A preference of zero leaves the metric, and with it the MED. -/
theorem changes_localPref :
    Changes bgp peer cap (.wellKnown .localPref (putl 0)) fun attr =>
      ({ attr with localPref := 0 }).mark .localPref := by
  refine changes_of_accepted (wellKnown_framed _ _ (by simp)) fun st none =>
    ⟨{ st with localMed := 0 }, rfl, ?_⟩
  have handled : bgpAttrHandle bgp peer cap (.wellKnown .localPref (putl 0)) st =
      if st.localMed = 0 then
        accepted .localPref { st with localMed := 0 }
          { st.attr with localPref := 0, med := st.attr.med + 0 } 4
      else accepted .localPref st { st.attr with localPref := 0 } 4 := rfl
  have same : st.attr.med + 0 = st.attr.med := BitVec.add_zero st.attr.med
  rw [handled, if_pos none, same]
  rfl

theorem changes_atomic :
    Changes bgp peer cap (.wellKnown .atomicAggregate []) fun attr => attr.mark .atomicAggregate :=
  changes_of_accepted (wellKnown_framed _ _ (by simp)) fun st none => ⟨st, none, rfl⟩

theorem changes_aggregator (four : cap.as4Rcv = true) (as address : U32) :
    Changes bgp peer cap
      (sized (FlagWord.set attrFlagOptional attrFlagTrans) .aggregator 8 (putl as ++ putl address))
      fun attr => (attr.withExtra fun extra =>
        { extra with aggregatorAs := as, aggregatorAddr := address }).mark .aggregator := by
  have plain :
      FlagWord.check (FlagWord.set attrFlagOptional attrFlagTrans) attrFlagExtlen = false :=
    by decide
  refine changes_of_accepted (sized_framed plain (by decide) (by simp) _) fun st none =>
    ⟨{ st with attr := st.attr.withExtra id }, none, ?_⟩
  have first : getl (putl as ++ putl address) = as := getl_putl as _
  have second : getl ((putl as ++ putl address).drop 4) = address := getl_putl_exact address
  simp only [bgpAttrHandle, sized, AttrType.ofCode_code, bgpAttrAggregator, four, if_true, ne_eq,
    not_true_eq_false, if_false, first, second]
  rfl

/-- An attribute of any length that has a handler. -/
theorem variableLength_framed (fits : body.length < 65536) : (variableLength type body).Framed := by
  have extended : FlagWord.check (FlagWord.set (FlagWord.set attrFlagOptional attrFlagTrans)
      attrFlagExtlen) attrFlagExtlen = true := by decide
  have plain :
      FlagWord.check (FlagWord.set attrFlagOptional attrFlagTrans) attrFlagExtlen = false :=
    by decide
  unfold variableLength
  split
  · exact ⟨rfl, fits.trans_eq (if_pos extended).symm⟩
  · exact sized_framed plain (by omega) rfl _

theorem variableLength_fields :
    (variableLength type body).type = type.code ∧ (variableLength type body).length = body.length ∧
      (variableLength type body).body = body := by
  unfold variableLength
  split <;> exact ⟨rfl, rfl, rfl⟩

theorem changes_communities {com : List U32} (filled : com ≠ []) (sorted : com.Pairwise (· < ·))
    (fits : 4 * com.length < 65536) :
    Changes bgp peer cap (variableLength .communities (com.flatMap putl)) fun attr =>
      ({ attr with community := some com }).mark .communities := by
  obtain ⟨type, length, body⟩ := variableLength_fields .communities (com.flatMap putl)
  have size := flatMap_putl_length com
  have positive := List.length_pos_iff.mpr filled
  refine changes_of_accepted (variableLength_framed _ _ (size ▸ fits)) fun st none =>
    ⟨st, none, ?_⟩
  have parsed : communityParse (com.flatMap putl) = some com := by
    unfold communityParse
    rw [if_neg (by omega), words_putl, sort_strictly sorted]
  have some_octets : ¬ (com.flatMap putl).length = 0 := by omega
  simp only [bgpAttrHandle, type, AttrType.ofCode_code, bgpAttrCommunity, length, body,
    if_neg some_octets, parsed, Option.isNone_some, Bool.false_eq_true, if_false]

theorem changes_originatorId (originatorId : U32) :
    Changes bgp peer cap (sized attrFlagOptional .originatorId 4 (putl originatorId)) fun attr =>
      (attr.withExtra fun extra => { extra with originatorId }).mark .originatorId := by
  have plain : FlagWord.check attrFlagOptional attrFlagExtlen = false := by decide
  refine changes_of_accepted (sized_framed plain (by decide) (by simp) _) fun st none =>
    ⟨st, none, ?_⟩
  simp [bgpAttrHandle, sized, AttrType.ofCode_code, bgpAttrOriginatorId, getl_putl_exact]

/-- One octet holds the length of up to sixty-three identifiers. -/
theorem changes_clusterList {cluster : List U32} (short : cluster.length ≤ 63) :
    Changes bgp peer cap
      (sized attrFlagOptional .clusterList (cluster.flatMap putl).length (cluster.flatMap putl))
      fun attr =>
        (attr.withExtra fun extra => { extra with cluster := some cluster }).mark .clusterList := by
  have plain : FlagWord.check attrFlagOptional attrFlagExtlen = false := by decide
  have size := flatMap_putl_length cluster
  refine changes_of_accepted (sized_framed plain (by omega) rfl _) fun st none => ⟨st, none, ?_⟩
  have whole : ¬ (cluster.flatMap putl).length % 4 ≠ 0 := by omega
  simp only [bgpAttrHandle, sized, AttrType.ofCode_code, bgpAttrClusterList, if_neg whole,
    words_putl]

theorem changes_extCommunities {ecom : List (BitVec 64)} (filled : ecom ≠ [])
    (sorted : ecom.Pairwise (· < ·)) (fits : 8 * ecom.length < 65536) :
    Changes bgp peer cap (variableLength .extCommunities (ecom.flatMap putEcommunity)) fun attr =>
      (attr.withExtra fun extra => { extra with ecommunity := some ecom }).mark
        .extCommunities := by
  obtain ⟨type, length, body⟩ := variableLength_fields .extCommunities (ecom.flatMap putEcommunity)
  have size := flatMap_putEcommunity_length ecom
  have positive := List.length_pos_iff.mpr filled
  refine changes_of_accepted (variableLength_framed _ _ (size ▸ fits)) fun st none =>
    ⟨st, none, ?_⟩
  have parsed : ecommunityParse (ecom.flatMap putEcommunity) = some ecom := by
    unfold ecommunityParse
    rw [if_neg (by omega), doubleWords_putEcommunity, sort_strictly sorted]
  have some_octets : ¬ (ecom.flatMap putEcommunity).length = 0 := by omega
  simp only [bgpAttrHandle, type, AttrType.ofCode_code, bgpAttrExtCommunities, length, body,
    if_neg some_octets, parsed, Option.isNone_some, Bool.false_eq_true, if_false]

/-- An attribute of an unknown type as it is passed on: optional, transitive and
flagged as partial. -/
structure PassedOn (tlv : Tlv) : Prop where
  framed : tlv.Framed
  unhandled : AttrType.ofCode tlv.type = none
  optional : FlagWord.check tlv.flag attrFlagOptional = true
  transitive : FlagWord.check tlv.flag attrFlagTrans = true
  partial_ : FlagWord.check tlv.flag attrFlagPartial = true

/-- The octets of an unknown attribute go behind those that are kept. -/
def keepUnknown (tlv : Tlv) (attr : Attr) : Attr :=
  attr.withExtra fun extra => { extra with transit := some (extra.transit.getD [] ++ tlv.encode) }

theorem set_partial {flag : U8} (partial_ : FlagWord.check flag attrFlagPartial = true) :
    FlagWord.set flag attrFlagPartial = flag := by
  revert flag
  unfold FlagWord.check FlagWord.set attrFlagPartial
  decide

theorem changes_unknown (passed : PassedOn tlv) : Changes bgp peer cap tlv (keepUnknown tlv) := by
  obtain ⟨framed, unhandled, optional, transitive, partial_⟩ := passed
  refine ⟨framed, fun st none => ⟨{ st with attr := keepUnknown tlv st.attr }, ?_, rfl, none⟩⟩
  have handled : bgpAttrHandle bgp peer cap tlv st =
      ⟨{ st with attr := keepUnknown tlv st.attr }, .proceed, tlv.length⟩ := by
    simp only [bgpAttrHandle, unhandled, bgpAttrUnknown, optional, transitive, Bool.not_true,
      Bool.false_eq_true, if_false, set_partial partial_]
    rfl
  unfold bgpAttrRead
  rw [handled]
  exact if_pos rfl

end Reading

/-! ## A section -/

section Section

variable {bgp : Bgp} {peer : Peer} {cap : PeerCap}

/-- A section of attributes of distinct types is read to its end, and the changes
follow each other. -/
theorem takeAll_changes (steps : List (Tlv × (Attr → Attr)))
    (each : ∀ step ∈ steps, Changes bgp peer cap step.1 step.2)
    (distinct : (steps.map fun step => step.1.type).Nodup) (st : ParseState)
    (none_ : st.localMed = 0) (fresh : ∀ step ∈ steps, step.1.type ∉ st.seen) :
    ∃ final, takeAll bgp peer cap (steps.map Prod.fst) st = (final, none) ∧
      final.attr = steps.foldl (fun attr step => step.2 attr) st.attr := by
  induction steps generalizing st with
  | nil => exact ⟨st, rfl, rfl⟩
  | cons step rest ih =>
    obtain ⟨framed, reads⟩ := each step List.mem_cons_self
    obtain ⟨next, read, attr, kept⟩ :=
      reads { st with flag := step.1.flag, seen := step.1.type :: st.seen } none_
    have seen := (HandlerEffects.bgpAttrRead_frame bgp peer cap step.1 _ next read).1
    obtain ⟨apart, distinctRest⟩ := List.nodup_cons.mp distinct
    obtain ⟨final, others, total⟩ := ih (fun other member => each other (.tail _ member))
      distinctRest next kept (by
        intro other member
        rw [seen, List.mem_cons, not_or]
        exact ⟨fun same => apart (List.mem_map.mpr ⟨other, member, same⟩),
          fresh other (.tail _ member)⟩)
    refine ⟨final, ?_, ?_⟩
    · have turn : take bgp peer cap step.1 st = (next, none) := by
        unfold take
        rw [if_neg (fresh step List.mem_cons_self)]
        exact read
      simp [takeAll, turn, others]
    · rw [total, attr]
      rfl

end Section

end Bgpd.AttrChanges
