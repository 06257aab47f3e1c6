import Bgpd.AttrSection

/-!
# What the handlers leave alone

Two handlers communicate through the neighbour's metric: the MED handler adds
the metric to what it stores, and the LOCAL_PREF handler sets the metric when
it is still zero and adds it to the MED, whether or not the MED was read
before. Nothing else in the parser touches the three values.

Every other handler is framed by one relation: the three values and the bitmap
stay as they are, and no attribute loses its flag. A turn of the walk that goes
on acts on the three values as one small function of the attribute.
-/

namespace Bgpd.HandlerEffects

open Octets AsPath Attributes Neighbors AttrParse AttrSection

/-- The three values the two handlers exchange. -/
structure Metric where
  med : U32
  localPref : U32
  localMed : U32
  deriving DecidableEq, Repr

/-- The metric part of a parse. -/
def metric (st : ParseState) : Metric := ⟨st.attr.med, st.attr.localPref, st.localMed⟩

/-- The MED an attribute carries. -/
def medValue (tlv : Tlv) : U32 := getl tlv.body

/-- The preference an attribute carries; a body of another length counts as
zero. -/
def localPrefValue (tlv : Tlv) : U32 := if tlv.length = 4 then getl tlv.body else 0

/-- What one attribute does to the three values. -/
def absorb (m : Metric) (tlv : Tlv) : Metric :=
  if tlv.type = AttrType.multiExitDisc.code then { m with med := medValue tlv + m.localMed }
  else if tlv.type = AttrType.localPref.code then
    if m.localMed = 0 then
      ⟨m.med + localPrefValue tlv, localPrefValue tlv, localPrefValue tlv⟩
    else { m with localPref := localPrefValue tlv }
  else m

/-- One state of a parse carries on from another: the metric is as it was, the
bitmap too, and no flag was lost. -/
structure Keeps (before after : ParseState) : Prop where
  metric : metric after = metric before
  seen : after.seen = before.seen
  flags : ∀ type, before.attr.has type = true → after.attr.has type = true

namespace Keeps

theorem refl (st : ParseState) : Keeps st st := ⟨rfl, rfl, fun _ held => held⟩

theorem trans {first second third : ParseState} (left : Keeps first second)
    (right : Keeps second third) : Keeps first third :=
  ⟨right.metric.trans left.metric, right.seen.trans left.seen,
    fun type held => right.flags type (left.flags type held)⟩

/-- Only the attribute set changes, and neither its metric fields nor its
flags. -/
theorem ofAttr (st : ParseState) (attr : Attr) (med : attr.med = st.attr.med)
    (localPref : attr.localPref = st.attr.localPref)
    (flags : ∀ type, st.attr.has type = true → attr.has type = true) : Keeps st { st with attr } :=
  ⟨by simp only [HandlerEffects.metric, med, localPref], rfl, flags⟩

end Keeps

variable (bgp : Bgp) (peer : Peer) (cap : PeerCap)
variable (tlv : Tlv) (type : AttrType) (st : ParseState)

theorem notify_keeps (subcode : U8) (data : List U8) :
    Keeps st (st.notify subcode data) := ⟨rfl, rfl, fun _ held => held⟩

/-- Giving up on an attribute at most adds a notification. -/
theorem bgpAttrMalformed_keeps (type flag subcode : U8) (data : List U8) (st : ParseState) :
    Keeps st (bgpAttrMalformed bgp peer type flag subcode data st).1 := by
  unfold bgpAttrMalformed
  split
  · exact notify_keeps st subcode data
  · split
    · exact Keeps.refl st
    · exact Keeps.refl st
    · exact Keeps.refl st
    · split <;> exact Keeps.refl st
    · split <;> exact Keeps.refl st
    · exact notify_keeps st subcode data

theorem malformed_keeps (flag subcode : U8) (data : List U8) (st : ParseState) (fetched : Nat) :
    Keeps st (malformed bgp peer type flag subcode data st fetched).state :=
  bgpAttrMalformed_keeps bgp peer type.code flag subcode data st

/-- Reading an attribute keeps what the attribute set it stores keeps. -/
theorem accepted_keeps (attr : Attr) (fetched : Nat) (kept : Keeps st { st with attr }) :
    Keeps st (accepted type st attr fetched).state :=
  ⟨kept.metric, kept.seen, fun other held => by
    simp only [accepted, Attr.has_mark, kept.flags other held, Bool.true_or]⟩

/-- Allocating or changing the extra block touches neither. -/
theorem withExtra_keeps (attr : Attr) (change : AttrExtra → AttrExtra)
    (kept : Keeps st { st with attr }) : Keeps st { st with attr := attr.withExtra change } :=
  ⟨kept.metric, kept.seen, kept.flags⟩

theorem bgpAttrOrigin_keeps :
    Keeps st (bgpAttrOrigin bgp peer tlv st).state := by
  have stored (origin : U8) : Keeps st { st with attr := { st.attr with origin } } :=
    Keeps.ofAttr st _ rfl rfl fun _ held => held
  unfold bgpAttrOrigin
  split
  · exact malformed_keeps bgp peer ..
  · split
    · exact malformed_keeps bgp peer ..
    · dsimp only
      split
      · exact (stored _).trans (malformed_keeps bgp peer ..)
      · exact accepted_keeps _ _ _ _ (stored _)

theorem bgpAttrAspath_keeps :
    Keeps st (bgpAttrAspath bgp peer cap tlv st).state := by
  have stored (aspath : Option Aspath) : Keeps st { st with attr := { st.attr with aspath } } :=
    Keeps.ofAttr st _ rfl rfl fun _ held => held
  unfold bgpAttrAspath
  split
  · exact malformed_keeps bgp peer ..
  · dsimp only
    split
    · exact (stored _).trans (malformed_keeps bgp peer ..)
    · exact accepted_keeps _ _ _ _ (stored _)

theorem bgpAttrAs4Path_keeps :
    Keeps st (bgpAttrAs4Path bgp peer tlv st).state := by
  have stored (as4Path : Option Aspath) : Keeps st { st with as4Path } :=
    ⟨rfl, rfl, fun _ held => held⟩
  unfold bgpAttrAs4Path
  split
  · exact malformed_keeps bgp peer ..
  · dsimp only
    split
    · exact (stored _).trans (malformed_keeps bgp peer ..)
    · exact (stored _).trans (accepted_keeps _ _ _ _ (Keeps.refl _))

theorem bgpAttrNexthop_keeps :
    Keeps st (bgpAttrNexthop bgp peer tlv st).state := by
  unfold bgpAttrNexthop
  split
  · exact malformed_keeps bgp peer ..
  · split
    · exact malformed_keeps bgp peer ..
    · exact accepted_keeps _ _ _ _ (Keeps.ofAttr st _ rfl rfl fun _ held => held)

theorem bgpAttrAtomic_keeps :
    Keeps st (bgpAttrAtomic bgp peer tlv st).state := by
  unfold bgpAttrAtomic
  split
  · exact notify_keeps ..
  · split
    · exact notify_keeps ..
    · split
      · exact notify_keeps ..
      · split
        · exact malformed_keeps bgp peer ..
        · exact accepted_keeps _ _ _ _ (Keeps.refl st)

theorem bgpAttrAggregator_keeps :
    Keeps st (bgpAttrAggregator bgp peer cap tlv st).state := by
  have allocated : Keeps st { st with attr := st.attr.withExtra id } :=
    withExtra_keeps st st.attr id (Keeps.refl st)
  have stored (change : AttrExtra → AttrExtra) (fetched : Nat) : Keeps st
      (accepted .aggregator { st with attr := st.attr.withExtra id }
        ((st.attr.withExtra id).withExtra change) fetched).state :=
    allocated.trans (accepted_keeps _ _ _ _ (withExtra_keeps _ _ _ (Keeps.refl _)))
  unfold bgpAttrAggregator
  generalize (if cap.as4Rcv then 8 else 6) = wantedlen
  by_cases wanted : tlv.length ≠ wantedlen
  · rw [if_pos wanted]
    exact allocated.trans (malformed_keeps bgp peer ..)
  · rw [if_neg wanted]
    exact stored _ _

theorem bgpAttrAs4Aggregator_keeps :
    Keeps st (bgpAttrAs4Aggregator bgp peer tlv st).state := by
  unfold bgpAttrAs4Aggregator
  split
  · exact malformed_keeps bgp peer ..
  · have stored : Keeps st { st with
        as4Aggregator := getl tlv.body, as4AggregatorAddr := getl (tlv.body.drop 4) } :=
      ⟨rfl, rfl, fun _ held => held⟩
    exact stored.trans (accepted_keeps _ _ _ _ (Keeps.refl _))

theorem bgpAttrCommunity_keeps :
    Keeps st (bgpAttrCommunity bgp peer tlv st).state := by
  have stored (community : Option (List U32)) :
      Keeps st { st with attr := { st.attr with community } } :=
    Keeps.ofAttr st _ rfl rfl fun _ held => held
  unfold bgpAttrCommunity
  split
  · exact stored none
  · dsimp only
    split
    · exact (stored _).trans (malformed_keeps bgp peer ..)
    · exact accepted_keeps _ _ _ _ (stored _)

theorem bgpAttrOriginatorId_keeps :
    Keeps st (bgpAttrOriginatorId bgp peer tlv st).state := by
  unfold bgpAttrOriginatorId
  split
  · exact malformed_keeps bgp peer ..
  · exact accepted_keeps _ _ _ _ (withExtra_keeps st st.attr _ (Keeps.refl st))

theorem bgpAttrClusterList_keeps :
    Keeps st (bgpAttrClusterList bgp peer tlv st).state := by
  unfold bgpAttrClusterList
  split
  · exact malformed_keeps bgp peer ..
  · exact accepted_keeps _ _ _ _ (withExtra_keeps st st.attr _ (Keeps.refl st))

/-- The next hop part writes the extra block and possibly the next hop. -/
theorem mpReachNexthop_keeps (attr after : Attr) (octets : List U8) (length : U8)
    (kept : Keeps st { st with attr }) (stored : mpReachNexthop attr octets length = some after) :
    Keeps st { st with attr := after } := by
  unfold mpReachNexthop at stored
  split at stored
  · dsimp only at stored
    split at stored <;> cases Option.some.inj stored
    · exact ⟨kept.metric, kept.seen, kept.flags⟩
    · exact withExtra_keeps st attr _ kept
  · cases Option.some.inj stored
    exact withExtra_keeps st attr _ kept
  · cases Option.some.inj stored
    exact withExtra_keeps st attr _ kept
  · cases Option.some.inj stored
    exact withExtra_keeps st attr _ kept
  · cases stored

theorem bgpMpReachParse_keeps :
    Keeps st (bgpMpReachParse tlv st).state := by
  unfold bgpMpReachParse
  dsimp only
  split
  · exact Keeps.refl st
  · split
    · exact Keeps.refl st
    · split
      · exact Keeps.refl st
      · rename_i after stored
        have kept : Keeps st { st with attr := after } :=
          mpReachNexthop_keeps st _ after _ _
            (withExtra_keeps st st.attr _ (Keeps.refl st)) stored
        split
        · exact Keeps.refl st
        · split
          · exact Keeps.refl st
          · split
            · exact notify_keeps ..
            · exact ⟨kept.metric, kept.seen, kept.flags⟩

theorem bgpMpUnreachParse_keeps :
    Keeps st (bgpMpUnreachParse tlv st).state := by
  unfold bgpMpUnreachParse
  dsimp only
  split
  · exact Keeps.refl st
  · split
    · exact notify_keeps ..
    · exact ⟨rfl, rfl, fun _ held => held⟩

theorem bgpAttrExtCommunities_keeps :
    Keeps st (bgpAttrExtCommunities bgp peer tlv st).state := by
  have stored (change : AttrExtra → AttrExtra) :
      Keeps st { st with attr := st.attr.withExtra change } :=
    withExtra_keeps st st.attr change (Keeps.refl st)
  unfold bgpAttrExtCommunities
  dsimp only
  split
  · exact Keeps.ofAttr st _ rfl rfl fun _ held => held
  · split
    · exact (stored _).trans (malformed_keeps bgp peer ..)
    · exact accepted_keeps _ _ _ _ (stored _)

theorem bgpAttrUnknown_keeps :
    Keeps st (bgpAttrUnknown bgp peer tlv st).state := by
  unfold bgpAttrUnknown
  split
  · exact bgpAttrMalformed_keeps bgp peer ..
  · split
    · exact Keeps.refl st
    · exact withExtra_keeps st st.attr _ (Keeps.refl st)

/-- Every handler but the two that exchange the metric leaves it alone. -/
theorem bgpAttrHandle_keeps (notMed : tlv.type ≠ AttrType.multiExitDisc.code)
    (notLocalPref : tlv.type ≠ AttrType.localPref.code) :
    Keeps st (bgpAttrHandle bgp peer cap tlv st).state := by
  unfold bgpAttrHandle
  split
  · exact bgpAttrOrigin_keeps bgp peer tlv st
  · exact bgpAttrAspath_keeps bgp peer cap tlv st
  · exact bgpAttrAs4Path_keeps bgp peer tlv st
  · exact bgpAttrNexthop_keeps bgp peer tlv st
  · rename_i code
    exact absurd (AttrType.ofCode_eq code) notMed
  · rename_i code
    exact absurd (AttrType.ofCode_eq code) notLocalPref
  · exact bgpAttrAtomic_keeps bgp peer tlv st
  · exact bgpAttrAggregator_keeps bgp peer cap tlv st
  · exact bgpAttrAs4Aggregator_keeps bgp peer tlv st
  · exact bgpAttrCommunity_keeps bgp peer tlv st
  · exact bgpAttrOriginatorId_keeps bgp peer tlv st
  · exact bgpAttrClusterList_keeps bgp peer tlv st
  · exact bgpMpReachParse_keeps tlv st
  · exact bgpMpUnreachParse_keeps tlv st
  · exact bgpAttrExtCommunities_keeps bgp peer tlv st
  · exact bgpAttrUnknown_keeps bgp peer tlv st

/-! ## The two handlers that exchange the metric -/

/-- Malformed attributes that are skipped, or that withdraw the routes, are of
these types; every other known type resets the session. -/
def lenient : AttrType → Bool
  | .as4Aggregator | .aggregator | .atomicAggregate | .as4Path => true
  | _ => false

/-- Giving up on an attribute that is not treated leniently is a hard error. -/
theorem malformed_ret (strict : lenient type = false) (flag subcode : U8) (data : List U8)
    (st : ParseState) (fetched : Nat) :
    (malformed bgp peer type flag subcode data st fetched).ret = .error := by
  change (bgpAttrMalformed bgp peer type.code flag subcode data st).2 = .error
  unfold bgpAttrMalformed
  rw [AttrType.ofCode_code]
  by_cases outside : peerSort bgp peer ≠ .ebgp
  · rw [if_pos outside]
  · rw [if_neg outside]
    cases type <;> first | rfl | cases strict

/-- A read that goes on had a handler that proceeded. -/
theorem bgpAttrRead_proceed (st next : ParseState)
    (read : bgpAttrRead bgp peer cap tlv st = (next, none)) :
    (bgpAttrHandle bgp peer cap tlv st).ret = .proceed ∧
      (bgpAttrHandle bgp peer cap tlv st).state = next := by
  unfold bgpAttrRead at read
  dsimp only at read
  split at read
  · cases read
  · cases read
  · rename_i proceeded
    split at read
    · exact ⟨proceeded, congrArg Prod.fst read⟩
    · cases read

/-- The MED handler proceeds only when it has stored the sum. -/
theorem bgpAttrMed_proceed (proceeded : (bgpAttrMed bgp peer tlv st).ret = .proceed) :
    (bgpAttrMed bgp peer tlv st).state =
      { st with attr :=
        ({ st.attr with med := medValue tlv + st.localMed } : Attr).mark .multiExitDisc } := by
  unfold bgpAttrMed at proceeded ⊢
  split at proceeded
  · cases proceeded
  · split at proceeded
    · rw [malformed_ret bgp peer _ rfl] at proceeded
      cases proceeded
    · rename_i plain exact_
      rw [if_neg plain, if_neg exact_]
      rfl

/-- The effect of a read that goes on, on the three values. -/
theorem bgpAttrRead_metric (st next : ParseState)
    (read : bgpAttrRead bgp peer cap tlv st = (next, none)) :
    metric next = absorb (metric st) tlv := by
  obtain ⟨proceeded, rfl⟩ := bgpAttrRead_proceed bgp peer cap tlv st next read
  unfold absorb
  by_cases isMed : tlv.type = AttrType.multiExitDisc.code
  · have dispatch : bgpAttrHandle bgp peer cap tlv st = bgpAttrMed bgp peer tlv st := by
      simp only [bgpAttrHandle, isMed, AttrType.ofCode_code]
    rw [if_pos isMed, dispatch, bgpAttrMed_proceed bgp peer tlv st (dispatch ▸ proceeded)]
    rfl
  · rw [if_neg isMed]
    by_cases isLocalPref : tlv.type = AttrType.localPref.code
    · have dispatch : bgpAttrHandle bgp peer cap tlv st = bgpAttrLocalPref tlv st := by
        simp only [bgpAttrHandle, isLocalPref, AttrType.ofCode_code]
      rw [if_pos isLocalPref, dispatch]
      rw [dispatch] at proceeded
      unfold bgpAttrLocalPref at proceeded ⊢
      split at proceeded
      · cases proceeded
      · split at proceeded
        · cases proceeded
        · rename_i notOptional transitive
          rw [if_neg notOptional, if_neg transitive]
          by_cases fresh : st.localMed = 0
          · have zero : (metric st).localMed = 0 := fresh
            rw [if_pos zero]
            simp only [metric, if_pos fresh, accepted, localPrefValue, Attr.mark_med,
              Attr.mark_localPref]
          · have nonzero : (metric st).localMed ≠ 0 := fresh
            rw [if_neg nonzero]
            simp only [metric, if_neg fresh, accepted, localPrefValue, Attr.mark_med,
              Attr.mark_localPref]
    · rw [if_neg isLocalPref]
      exact (bgpAttrHandle_keeps bgp peer cap tlv st isMed isLocalPref).metric

/-- A read never takes a flag away and leaves the bitmap alone. -/
theorem bgpAttrRead_frame (tlv : Tlv) (st next : ParseState)
    (read : bgpAttrRead bgp peer cap tlv st = (next, none)) :
    next.seen = st.seen ∧ ∀ type, st.attr.has type = true → next.attr.has type = true := by
  obtain ⟨proceeded, rfl⟩ := bgpAttrRead_proceed bgp peer cap tlv st next read
  by_cases isMed : tlv.type = AttrType.multiExitDisc.code
  · have dispatch : bgpAttrHandle bgp peer cap tlv st = bgpAttrMed bgp peer tlv st := by
      simp only [bgpAttrHandle, isMed, AttrType.ofCode_code]
    rw [dispatch, bgpAttrMed_proceed bgp peer tlv st (dispatch ▸ proceeded)]
    refine ⟨rfl, fun type held => ?_⟩
    rw [Attr.has_mark, Bool.or_eq_true]
    exact Or.inl held
  · by_cases isLocalPref : tlv.type = AttrType.localPref.code
    · have dispatch : bgpAttrHandle bgp peer cap tlv st = bgpAttrLocalPref tlv st := by
        simp only [bgpAttrHandle, isLocalPref, AttrType.ofCode_code]
      rw [dispatch]
      unfold bgpAttrLocalPref
      split
      · exact ⟨rfl, fun type held => held⟩
      · split
        · exact ⟨rfl, fun type held => held⟩
        · dsimp only
          split
          all_goals
            refine ⟨rfl, fun type held => ?_⟩
            rw [accepted, Attr.has_mark, Bool.or_eq_true]
            exact Or.inl held
    · have kept := bgpAttrHandle_keeps bgp peer cap tlv st isMed isLocalPref
      exact ⟨kept.seen, kept.flags⟩

/-! ## From turns to whole walks -/

/-- A turn that goes on met a new type, entered it, and acted on the metric. -/
theorem take_next (tlv : Tlv) (st next : ParseState)
    (advanced : take bgp peer cap tlv st = (next, none)) :
    tlv.type ∉ st.seen ∧ next.seen = tlv.type :: st.seen ∧
      metric next = absorb (metric st) tlv ∧
      ∀ type, st.attr.has type = true → next.attr.has type = true := by
  unfold take at advanced
  split at advanced
  · cases advanced
  · rename_i fresh
    have frame := bgpAttrRead_frame bgp peer cap tlv _ next advanced
    exact ⟨fresh, frame.1, 
      (bgpAttrRead_metric bgp peer cap tlv _ next advanced).trans rfl, frame.2⟩

/-- Each turn enters one type that was not met before; so the types of a walk
that goes on are distinct, and all of them are in the bitmap at its end. -/
theorem takeAll_next (tlvs : List Tlv) (st final : ParseState)
    (advanced : takeAll bgp peer cap tlvs st = (final, none)) :
    (tlvs.map Tlv.type).Nodup ∧ (∀ tlv ∈ tlvs, tlv.type ∉ st.seen) ∧
      metric final = tlvs.foldl absorb (metric st) ∧
      ∀ type, st.attr.has type = true → final.attr.has type = true := by
  induction tlvs generalizing st with
  | nil =>
    cases advanced
    exact ⟨List.nodup_nil, by simp, rfl, fun _ held => held⟩
  | cons tlv rest ih =>
    simp only [takeAll] at advanced
    cases turn : take bgp peer cap tlv st with
    | mk next verdict =>
      rw [turn] at advanced
      cases verdict with
      | some ret => cases advanced
      | none =>
        obtain ⟨fresh, seen, effect, flags⟩ := take_next bgp peer cap tlv st next turn
        obtain ⟨distinct, unseen, total, kept⟩ := ih next advanced
        refine ⟨?_, ?_, ?_, fun type held => kept type (flags type held)⟩
        · refine List.nodup_cons.mpr ⟨?_, distinct⟩
          intro repeated
          obtain ⟨other, member, same⟩ := List.mem_map.mp repeated
          exact unseen other member (by rw [seen, same]; exact List.mem_cons_self)
        · intro other member
          rcases List.mem_cons.mp member with rfl | later
          · exact fresh
          · intro before
            exact unseen other later (by rw [seen]; exact List.mem_cons_of_mem _ before)
        · rw [total, effect, List.foldl_cons]

/-- Walking over one list and then another is walking over both. -/
theorem takeAll_append (first second : List Tlv) (st next final : ParseState)
    (firstWalk : takeAll bgp peer cap first st = (next, none))
    (secondWalk : takeAll bgp peer cap second next = (final, none)) :
    takeAll bgp peer cap (first ++ second) st = (final, none) := by
  induction first generalizing st with
  | nil =>
    cases firstWalk
    exact secondWalk
  | cons tlv rest ih =>
    simp only [takeAll, List.cons_append] at firstWalk ⊢
    cases turn : take bgp peer cap tlv st with
    | mk after verdict =>
      rw [turn] at firstWalk
      cases verdict with
      | some ret => cases firstWalk
      | none => exact ih after firstWalk

/-- A read that ends the walk ends it with an error or a withdrawal. -/
theorem bgpAttrRead_stop (st next : ParseState) (ret : ParseRet)
    (stopped : bgpAttrRead bgp peer cap tlv st = (next, some ret)) : ret ≠ .proceed := by
  unfold bgpAttrRead at stopped
  dsimp only at stopped
  split at stopped
  · cases stopped
    exact ParseRet.noConfusion
  · cases stopped
    exact ParseRet.noConfusion
  · split at stopped
    · cases stopped
    · cases stopped
      exact ParseRet.noConfusion

/-- A turn that ends the walk does so as well. -/
theorem bgpAttrStep_stop (octets : List U8) (st next : ParseState) (ret : ParseRet)
    (stopped : bgpAttrStep bgp peer cap octets st = (next, .inl ret)) : ret ≠ .proceed := by
  unfold bgpAttrStep at stopped
  split at stopped
  · cases stopped
    exact ParseRet.noConfusion
  · split at stopped
    · cases stopped
      exact ParseRet.noConfusion
    · dsimp only at stopped
      split at stopped
      · cases stopped
        exact ParseRet.noConfusion
      · split at stopped
        · rename_i read
          cases stopped
          exact bgpAttrRead_stop bgp peer cap _ _ _ _ read
        · cases stopped

/-- Whatever the octets are, a turn that goes on is a turn on a framed attribute
that the section starts with. -/
theorem bgpAttrStep_take (octets rest : List U8) (st next : ParseState)
    (advanced : bgpAttrStep bgp peer cap octets st = (next, .inr rest)) :
    ∃ tlv : Tlv, tlv.Framed ∧ octets = tlv.encode ++ rest ∧
      take bgp peer cap tlv st = (next, none) := by
  unfold bgpAttrStep at advanced
  split at advanced
  · cases advanced
  · rename_i flag type length behind read
    split at advanced
    · cases advanced
    · rename_i fresh
      dsimp only at advanced
      split at advanced
      · cases advanced
      · rename_i room
        have decoded := bgpAttrHeader_decode octets behind flag type length read (by omega)
        refine ⟨⟨flag, type, length, behind.take length⟩, decoded.1, ?_⟩
        unfold take
        rw [if_neg fresh]
        split at advanced
        · cases advanced
        · rename_i after goesOn
          cases advanced
          exact ⟨decoded.2, goesOn⟩

/-- A walk over any octets that is not stopped is a walk over framed attributes,
and the octets are exactly theirs. -/
theorem walk_takeAll (octets : List U8) (st final : ParseState)
    (finished : walk bgp peer cap octets st = (final, .proceed)) :
    ∃ tlvs : List Tlv, (∀ tlv ∈ tlvs, tlv.Framed) ∧ octets = encodeAll tlvs ∧
      takeAll bgp peer cap tlvs st = (final, none) := by
  induction length : octets.length using Nat.strong_induction_on generalizing octets st with
  | _ n ih =>
    cases octets with
    | nil =>
      cases finished
      exact ⟨[], by simp, rfl, rfl⟩
    | cons octet more =>
      rw [walk_step bgp peer cap _ st (List.cons_ne_nil octet more)] at finished
      cases turn : bgpAttrStep bgp peer cap (octet :: more) st with
      | mk next outcome =>
        rw [turn] at finished
        cases outcome with
        | inl ret =>
          have stopped := bgpAttrStep_stop bgp peer cap _ st next ret turn
          exact absurd (Prod.mk.inj finished).2 stopped
        | inr rest =>
          obtain ⟨tlv, framed, split_, first⟩ := bgpAttrStep_take bgp peer cap _ rest st next turn
          have shorter := bgpAttrStep_shorter bgp peer cap _ rest st next turn
          obtain ⟨tlvs, allFramed, octetsEq, others⟩ :=
            ih rest.length (length ▸ shorter) rest next finished rfl
          refine ⟨tlv :: tlvs, ?_, ?_, by simp only [takeAll, first, others]⟩
          · intro other member
            rcases List.mem_cons.mp member with rfl | later
            · exact framed
            · exact allFramed other later
          · rw [split_, octetsEq, encodeAll_cons]

/-- A walk over a list of attributes that is stopped is not stopped with
success. -/
theorem takeAll_stop (tlvs : List Tlv) (st next : ParseState) (ret : ParseRet)
    (stopped : takeAll bgp peer cap tlvs st = (next, some ret)) : ret ≠ .proceed := by
  induction tlvs generalizing st with
  | nil => cases stopped
  | cons tlv rest ih =>
    simp only [takeAll] at stopped
    cases turn : take bgp peer cap tlv st with
    | mk after verdict =>
      rw [turn] at stopped
      cases verdict with
      | none => exact ih after stopped
      | some found =>
        cases stopped
        unfold take at turn
        split at turn
        · cases turn
          exact ParseRet.noConfusion
        · exact bgpAttrRead_stop bgp peer cap _ _ _ _ turn

/-- A walk that is not stopped went through the framed attributes the section
starts with, and then through the rest. -/
theorem walk_prefix (tlvs : List Tlv) (rest : List U8) (st final : ParseState)
    (framed : ∀ tlv ∈ tlvs, tlv.Framed)
    (finished : walk bgp peer cap (encodeAll tlvs ++ rest) st = (final, .proceed)) :
    ∃ next, takeAll bgp peer cap tlvs st = (next, none) ∧
      walk bgp peer cap rest next = (final, .proceed) := by
  rw [walk_encodeAll bgp peer cap tlvs rest st framed] at finished
  cases turns : takeAll bgp peer cap tlvs st with
  | mk next verdict =>
    rw [turns] at finished
    cases verdict with
    | none => exact ⟨next, rfl, finished⟩
    | some ret =>
      exact absurd (Prod.mk.inj finished).2 (takeAll_stop bgp peer cap tlvs st next ret turns)

/-! ## The steps behind the walk -/

/-- Merging the two-octet and four-octet attributes leaves the metric alone and
loses no flag. -/
theorem bgpAttrMungeAs4Attrs_keeps :
    Keeps st (bgpAttrMungeAs4Attrs bgp peer cap st).1 := by
  have aggregator : Keeps st { st with attr := mungeAggregator st } := by
    unfold mungeAggregator
    split
    · split
      · split
        · exact Keeps.refl st
        · exact withExtra_keeps st st.attr _ (Keeps.refl st)
      · exact accepted_keeps .aggregator st _ 0 (withExtra_keeps st st.attr _ (Keeps.refl st))
    · exact Keeps.refl st
  unfold bgpAttrMungeAs4Attrs
  split
  · exact Keeps.refl st
  · split
    · exact bgpAttrMalformed_keeps bgp peer ..
    · exact ⟨aggregator.metric, aggregator.seen, aggregator.flags⟩

/-- The checks on the path do so too. -/
theorem bgpAttrAspathCheck_keeps :
    Keeps st (bgpAttrAspathCheck bgp peer st).1 := by
  unfold bgpAttrAspathCheck
  dsimp only
  split
  · exact bgpAttrMalformed_keeps bgp peer ..
  · split
    · exact bgpAttrMalformed_keeps bgp peer ..
    · split
      · exact Keeps.ofAttr st _ rfl rfl fun _ held => held
      · exact Keeps.refl st

/-- An accepted section is a list of framed attributes; the walk over them is
not stopped, and the steps behind it keep what it found. -/
theorem bgpAttrParse_walk (localMed : U32) (octets : List U8) (final : ParseState)
    (parsed : bgpAttrParse bgp peer cap localMed octets = (final, .proceed)) :
    ∃ walked, walk bgp peer cap octets (.start localMed) = (walked, .proceed) ∧
      Keeps walked final := by
  unfold bgpAttrParse at parsed
  split at parsed
  · cases parsed
  · cases parsed
  · rename_i walked finished
    refine ⟨walked, finished, ?_⟩
    have merging := bgpAttrMungeAs4Attrs_keeps bgp peer cap walked
    split at parsed
    · cases parsed
    · cases parsed
    · rename_i merged merge
      rw [merge] at merging
      split at parsed
      · have checking := bgpAttrAspathCheck_keeps bgp peer merged
        rw [parsed] at checking
        exact merging.trans checking
      · cases parsed
        exact merging

end Bgpd.HandlerEffects
