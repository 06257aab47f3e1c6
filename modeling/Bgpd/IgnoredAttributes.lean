import Bgpd.HandlerEffects

/-!
# Malformed attributes that are ignored

`bgp_attr_malformed` lets a neighbour outside the AS send an aggregator attribute, or an
atomic aggregate, of a wrong length. Its caller then says that the parse goes on, without
having fetched a single octet of the attribute, and the loop compares the read pointer with
the end of the attribute. So only an attribute without octets gets past.

Two parses are compared by their states without what such an attribute leaves there: its
type in the bitmap, its flags as those seen last, and a block of further attributes that
holds no value.
-/

namespace Bgpd.IgnoredAttributes

open Octets Attributes Neighbors AttrParse AttrSection HandlerEffects

/-- An attribute of a wrong length whose handler gets as far as `bgp_attr_malformed`, which
decides to ignore it. -/
def Ignored (cap : PeerCap) (tlv : Tlv) : Bool :=
  match AttrType.ofCode tlv.type with
  | some .atomicAggregate =>
    !FlagWord.check tlv.flag attrFlagOptional && FlagWord.check tlv.flag attrFlagTrans &&
      !FlagWord.check tlv.flag attrFlagPartial && decide (tlv.length ≠ 0)
  | some .aggregator => decide (tlv.length ≠ if cap.as4Rcv then 8 else 6)
  | some .as4Aggregator => decide (tlv.length ≠ 8)
  | _ => false

/-- The section without the ignored attributes. -/
def stripped (cap : PeerCap) (tlvs : List Tlv) : List Tlv := tlvs.filter fun tlv => !Ignored cap tlv

/-- The ignored attributes have no octets, and no type stands in the section twice. -/
structure Harmless (cap : PeerCap) (tlvs : List Tlv) : Prop where
  empty : ∀ tlv ∈ tlvs, Ignored cap tlv = true → tlv.length = 0
  distinct : (tlvs.map Tlv.type).Nodup

instance (cap : PeerCap) (tlvs : List Tlv) : Decidable (Harmless cap tlvs) :=
  decidable_of_iff
    ((∀ tlv ∈ tlvs, Ignored cap tlv = true → tlv.length = 0) ∧ (tlvs.map Tlv.type).Nodup)
    ⟨fun both => ⟨both.1, both.2⟩, fun harmless => ⟨harmless.empty, harmless.distinct⟩⟩

/-- The state without the flags and the types met, and with a block of further attributes. -/
def bare (st : ParseState) : ParseState :=
  { st with attr := st.attr.withExtra id, seen := [], flag := 0 }

/-- What a handler leaves, so. -/
def bareHandled (h : Handled) : Handled := { h with state := bare h.state }

variable (bgp : Bgp) (peer : Peer) (cap : PeerCap)

/-! ## Handlers see the bare state -/

theorem bgpAttrMalformed_bare (type flag subcode : U8) (data : List U8) (st : ParseState) :
    bare (bgpAttrMalformed bgp peer type flag subcode data (bare st)).1 =
        bare (bgpAttrMalformed bgp peer type flag subcode data st).1 ∧
      (bgpAttrMalformed bgp peer type flag subcode data (bare st)).2 =
        (bgpAttrMalformed bgp peer type flag subcode data st).2 := by
  simp only [bgpAttrMalformed]
  split
  · exact ⟨rfl, rfl⟩
  · split
    · exact ⟨rfl, rfl⟩
    · exact ⟨rfl, rfl⟩
    · exact ⟨rfl, rfl⟩
    · split <;> exact ⟨rfl, rfl⟩
    · split <;> exact ⟨rfl, rfl⟩
    · exact ⟨rfl, rfl⟩

section Handlers

variable {bgp : Bgp} {peer : Peer} {cap : PeerCap} {tlv : Tlv} {st st' : ParseState}

theorem malformed_bare {type : AttrType} {flag subcode : U8} {data : List U8} {fetched : Nat}
    (alike : bare st = bare st') :
    bareHandled (malformed bgp peer type flag subcode data st fetched) =
      bareHandled (malformed bgp peer type flag subcode data st' fetched) := by
  have left := bgpAttrMalformed_bare bgp peer type.code flag subcode data st
  have right := bgpAttrMalformed_bare bgp peer type.code flag subcode data st'
  simp only [bareHandled, malformed, ← left.1, ← left.2, ← right.1, ← right.2, alike]

theorem bgpAttrLocalPref_bare :
    bareHandled (bgpAttrLocalPref tlv (bare st)) = bareHandled (bgpAttrLocalPref tlv st) := by
  have heard : (bare st).localMed = st.localMed := rfl
  simp only [bgpAttrLocalPref, heard]
  split_ifs <;> rfl

theorem bgpMpReachParse_bare :
    bareHandled (bgpMpReachParse tlv (bare st)) = bareHandled (bgpMpReachParse tlv st) := by
  have block (change : AttrExtra → AttrExtra) :
      (bare st).attr.withExtra change = st.attr.withExtra change := rfl
  simp only [bgpMpReachParse, block]
  split
  · rfl
  · split
    · rfl
    · split
      · rfl
      · split_ifs <;> rfl

theorem bgpAttrExtCommunities_bare :
    bareHandled (bgpAttrExtCommunities bgp peer tlv (bare st)) =
      bareHandled (bgpAttrExtCommunities bgp peer tlv st) := by
  simp only [bgpAttrExtCommunities]
  split_ifs
  · obtain ⟨⟨aspath, community, extra, flag, nexthop, med, localPref, origin⟩, _⟩ := st
    cases extra <;> rfl
  · exact malformed_bare rfl
  · rfl

theorem bgpAttrUnknown_bare :
    bareHandled (bgpAttrUnknown bgp peer tlv (bare st)) =
      bareHandled (bgpAttrUnknown bgp peer tlv st) := by
  have gaveUp :=
    bgpAttrMalformed_bare bgp peer tlv.type tlv.flag notifyUpdateUnrecAttr tlv.encode st
  simp only [bgpAttrUnknown]
  split_ifs
  · rw [bareHandled, bareHandled, gaveUp.1, gaveUp.2]
  · rfl
  · rfl

/-- No handler looks at what is left out. -/
theorem bgpAttrHandle_bare :
    bareHandled (bgpAttrHandle bgp peer cap tlv (bare st)) =
      bareHandled (bgpAttrHandle bgp peer cap tlv st) := by
  simp only [bgpAttrHandle]
  split
  · simp only [bgpAttrOrigin]
    split_ifs <;> first | rfl | exact malformed_bare rfl
  · simp only [bgpAttrAspath]
    split_ifs <;> first | rfl | exact malformed_bare rfl
  · simp only [bgpAttrAs4Path]
    split_ifs <;> first | rfl | exact malformed_bare rfl
  · simp only [bgpAttrNexthop]
    split_ifs <;> first | rfl | exact malformed_bare rfl
  · simp only [bgpAttrMed]
    split_ifs <;> first | rfl | exact malformed_bare rfl
  · exact bgpAttrLocalPref_bare
  · simp only [bgpAttrAtomic]
    split_ifs <;> first | rfl | exact malformed_bare rfl
  · simp only [bgpAttrAggregator]
    split_ifs <;> first | rfl | exact malformed_bare rfl
  · simp only [bgpAttrAs4Aggregator]
    split_ifs <;> first | rfl | exact malformed_bare rfl
  · simp only [bgpAttrCommunity]
    split_ifs <;> first | rfl | exact malformed_bare rfl
  · simp only [bgpAttrOriginatorId]
    split_ifs <;> first | rfl | exact malformed_bare rfl
  · simp only [bgpAttrClusterList]
    split_ifs <;> first | rfl | exact malformed_bare rfl
  · exact bgpMpReachParse_bare
  · simp only [bgpMpUnreachParse]
    split_ifs <;> rfl
  · exact bgpAttrExtCommunities_bare
  · exact bgpAttrUnknown_bare

end Handlers

section Reads

variable {bgp : Bgp} {peer : Peer} {cap : PeerCap} {tlv : Tlv} {st st' : ParseState}

theorem bgpAttrHandle_alike (alike : bare st = bare st') :
    bareHandled (bgpAttrHandle bgp peer cap tlv st) =
      bareHandled (bgpAttrHandle bgp peer cap tlv st') := by
  rw [← bgpAttrHandle_bare, alike, bgpAttrHandle_bare]

theorem notify_bare (subcode : U8) (data : List U8) :
    bare (st.notify subcode data) = (bare st).notify subcode data := rfl

variable (bgp peer cap tlv) in
/-- Alike states are read alike. -/
theorem bgpAttrRead_alike (alike : bare st = bare st') :
    bare (bgpAttrRead bgp peer cap tlv st).1 = bare (bgpAttrRead bgp peer cap tlv st').1 ∧
      (bgpAttrRead bgp peer cap tlv st).2 = (bgpAttrRead bgp peer cap tlv st').2 := by
  have handled : bareHandled (bgpAttrHandle bgp peer cap tlv st) =
      bareHandled (bgpAttrHandle bgp peer cap tlv st') := bgpAttrHandle_alike alike
  obtain ⟨state, ret, fetched⟩ := Handled.mk.inj handled
  simp only [bgpAttrRead, ret, fetched]
  split
  · exact ⟨by rw [notify_bare, notify_bare, state], rfl⟩
  · exact ⟨state, rfl⟩
  · split
    · exact ⟨state, rfl⟩
    · exact ⟨by rw [notify_bare, notify_bare, state], rfl⟩

end Reads

/-! ## Who proceeds has sent nothing -/

section Quiet

variable {bgp : Bgp} {peer : Peer} {cap : PeerCap} {tlv : Tlv} {st : ParseState}

/-- What a handler that lets the parse go on has sent. -/
def Quiet (st : ParseState) (h : Handled) : Prop :=
  h.ret = .proceed → h.state.notifications = st.notifications

theorem Quiet.failed {h : Handled} (ret : h.ret = .error) : Quiet st h := by
  intro proceeded
  rw [ret] at proceeded
  contradiction

theorem bgpAttrMalformed_quiet (type flag subcode : U8) (data : List U8) :
    (bgpAttrMalformed bgp peer type flag subcode data st).2 = .proceed →
      (bgpAttrMalformed bgp peer type flag subcode data st).1.notifications = st.notifications := by
  simp only [bgpAttrMalformed]
  split
  · exact nofun
  · split
    · exact fun _ => rfl
    · exact fun _ => rfl
    · exact fun _ => rfl
    · split <;> exact nofun
    · split <;> exact nofun
    · exact nofun

theorem malformed_quiet {type : AttrType} {flag subcode : U8} {data : List U8} {st' : ParseState}
    {fetched : Nat} (same : st'.notifications = st.notifications) :
    Quiet st (malformed bgp peer type flag subcode data st' fetched) := fun proceeded =>
  (bgpAttrMalformed_quiet type.code flag subcode data proceeded).trans same

theorem bgpMpReachParse_quiet : Quiet st (bgpMpReachParse tlv st) := by
  simp only [bgpMpReachParse]
  split
  · exact .failed rfl
  · split
    · exact .failed rfl
    · split
      · exact .failed rfl
      · split_ifs
        · exact .failed rfl
        · exact .failed rfl
        · exact .failed rfl
        · exact fun _ => rfl

theorem bgpAttrUnknown_quiet : Quiet st (bgpAttrUnknown bgp peer tlv st) := by
  simp only [bgpAttrUnknown]
  split_ifs
  · exact fun proceeded => bgpAttrMalformed_quiet _ _ _ _ proceeded
  · exact fun _ => rfl
  · exact fun _ => rfl

theorem bgpAttrHandle_quiet : Quiet st (bgpAttrHandle bgp peer cap tlv st) := by
  simp only [bgpAttrHandle]
  split
  · simp only [bgpAttrOrigin]
    split_ifs <;> first | exact fun _ => rfl | exact malformed_quiet rfl
  · simp only [bgpAttrAspath]
    split_ifs <;> first | exact fun _ => rfl | exact malformed_quiet rfl
  · simp only [bgpAttrAs4Path]
    split_ifs <;> first | exact fun _ => rfl | exact malformed_quiet rfl
  · simp only [bgpAttrNexthop]
    split_ifs <;> first | exact fun _ => rfl | exact malformed_quiet rfl
  · simp only [bgpAttrMed]
    split_ifs <;> first | exact fun _ => rfl | exact .failed rfl | exact malformed_quiet rfl
  · simp only [bgpAttrLocalPref]
    split_ifs <;> first | exact fun _ => rfl | exact .failed rfl
  · simp only [bgpAttrAtomic]
    split_ifs <;> first | exact fun _ => rfl | exact .failed rfl | exact malformed_quiet rfl
  · simp only [bgpAttrAggregator]
    split_ifs <;> first | exact fun _ => rfl | exact malformed_quiet rfl
  · simp only [bgpAttrAs4Aggregator]
    split_ifs <;> first | exact fun _ => rfl | exact malformed_quiet rfl
  · simp only [bgpAttrCommunity]
    split_ifs <;> first | exact fun _ => rfl | exact malformed_quiet rfl
  · simp only [bgpAttrOriginatorId]
    split_ifs <;> first | exact fun _ => rfl | exact malformed_quiet rfl
  · simp only [bgpAttrClusterList]
    split_ifs <;> first | exact fun _ => rfl | exact malformed_quiet rfl
  · exact bgpMpReachParse_quiet
  · simp only [bgpMpUnreachParse]
    split_ifs <;> first | exact fun _ => rfl | exact .failed rfl
  · simp only [bgpAttrExtCommunities]
    split_ifs <;> first | exact fun _ => rfl | exact malformed_quiet rfl
  · exact bgpAttrUnknown_quiet

end Quiet

/-! ## Walks -/

section Walks

variable {bgp : Bgp} {peer : Peer} {cap : PeerCap} {st st' : ParseState}
variable {tlvs : List Tlv} {final : ParseState}

theorem takeAll_quiet (advanced : takeAll bgp peer cap tlvs st = (final, none)) :
    final.notifications = st.notifications := by
  induction tlvs generalizing st with
  | nil =>
    obtain ⟨rfl, -⟩ := Prod.mk.inj advanced
    rfl
  | cons tlv rest ih =>
    rw [takeAll] at advanced
    cases turn : take bgp peer cap tlv st with
    | mk next verdict =>
      rw [turn] at advanced
      cases verdict with
      | some ret => cases advanced
      | none =>
        rw [ih advanced]
        rw [take] at turn
        split at turn
        · cases turn
        · obtain ⟨proceeded, rfl⟩ := bgpAttrRead_proceed bgp peer cap tlv _ next turn
          exact bgpAttrHandle_quiet proceeded

/-- The types that are ignored. -/
def inconsequential : AttrType → Bool
  | .as4Aggregator | .aggregator | .atomicAggregate => true
  | _ => false

theorem malformed_ignored (type : AttrType) {flag subcode : U8} {data : List U8} {fetched : Nat}
    (ebgp : peerSort bgp peer = .ebgp) (lenient : inconsequential type = true) :
    malformed bgp peer type flag subcode data st fetched = ⟨st, .proceed, fetched⟩ := by
  simp only [malformed, bgpAttrMalformed, if_neg (not_not_intro ebgp), AttrType.ofCode_code]
  cases type <;> first | rfl | contradiction

variable {tlv : Tlv}

/-- The handler of an ignored attribute lets the parse go on, and leaves the state as it was. -/
theorem bgpAttrHandle_ignored (ebgp : peerSort bgp peer = .ebgp)
    (ignored : Ignored cap tlv = true) :
    bareHandled (bgpAttrHandle bgp peer cap tlv st) = ⟨bare st, .proceed, 0⟩ := by
  simp only [Ignored] at ignored
  split at ignored
  · rename_i code
    simp only [Bool.and_eq_true, Bool.not_eq_true', decide_eq_true_eq] at ignored
    obtain ⟨⟨⟨optional, transitive⟩, complete⟩, long⟩ := ignored
    simp only [bgpAttrHandle, code, bgpAttrAtomic, optional, transitive, complete, if_pos long,
      malformed_ignored .atomicAggregate ebgp rfl]
    rfl
  · rename_i code
    simp only [bgpAttrHandle, code, bgpAttrAggregator, if_pos (of_decide_eq_true ignored),
      malformed_ignored .aggregator ebgp rfl]
    rfl
  · rename_i code
    simp only [bgpAttrHandle, code, bgpAttrAs4Aggregator, if_pos (of_decide_eq_true ignored),
      malformed_ignored .as4Aggregator ebgp rfl]
    rfl
  · contradiction

variable (st) in
/-- The read of an ignored attribute goes on exactly where it has no octets. -/
theorem bgpAttrRead_ignored (ebgp : peerSort bgp peer = .ebgp) (ignored : Ignored cap tlv = true) :
    ((bgpAttrRead bgp peer cap tlv st).2 = none ↔ tlv.length = 0) ∧
      (tlv.length = 0 → bare (bgpAttrRead bgp peer cap tlv st).1 = bare st) := by
  have handled : bareHandled (bgpAttrHandle bgp peer cap tlv st) = ⟨bare st, .proceed, 0⟩ :=
    bgpAttrHandle_ignored ebgp ignored
  obtain ⟨state, ret, fetched⟩ := Handled.mk.inj handled
  simp only [bgpAttrRead, ret, fetched]
  by_cases empty : tlv.length = 0
  · rw [if_pos empty.symm]
    exact ⟨⟨fun _ => empty, fun _ => rfl⟩, fun _ => state⟩
  · rw [if_neg (Ne.symm empty)]
    exact ⟨⟨nofun, fun none => absurd none empty⟩, fun none => absurd none empty⟩

/-- The state that an attribute of a new type is read in. -/
def entered (tlv : Tlv) (st : ParseState) : ParseState :=
  { st with flag := tlv.flag, seen := tlv.type :: st.seen }

theorem take_fresh (fresh : tlv.type ∉ st.seen) :
    take bgp peer cap tlv st = bgpAttrRead bgp peer cap tlv (entered tlv st) := if_neg fresh

variable {rest : List Tlv}

theorem takeAll_cons_iff :
    takeAll bgp peer cap (tlv :: rest) st = (final, none) ↔
      ∃ next, take bgp peer cap tlv st = (next, none) ∧
        takeAll bgp peer cap rest next = (final, none) := by
  rw [takeAll]
  cases turn : take bgp peer cap tlv st with
  | mk next verdict =>
    cases verdict with
    | some ret => simp
    | none => simp

theorem stripped_cons_ignored (ignored : Ignored cap tlv = true) :
    stripped cap (tlv :: rest) = stripped cap rest := by
  simp [stripped, ignored]

theorem stripped_cons (kept : Ignored cap tlv = false) :
    stripped cap (tlv :: rest) = tlv :: stripped cap rest := by
  simp [stripped, kept]

/-- Harmless attributes change nothing: where the walk over the others gets to the end, the
walk over all does so too, in a state alike. -/
theorem takeAll_harmless (ebgp : peerSort bgp peer = .ebgp) (harmless : Harmless cap tlvs)
    (fresh : ∀ tlv ∈ tlvs, tlv.type ∉ st.seen) (alike : bare st = bare st') {final' : ParseState}
    (others : takeAll bgp peer cap (stripped cap tlvs) st' = (final', none)) :
    ∃ final, takeAll bgp peer cap tlvs st = (final, none) ∧ bare final = bare final' := by
  induction tlvs generalizing st st' with
  | nil =>
    obtain ⟨rfl, -⟩ := Prod.mk.inj others
    exact ⟨st, rfl, alike⟩
  | cons tlv rest ih =>
    have ⟨new, distinct⟩ := List.nodup_cons.mp harmless.distinct
    have later : Harmless cap rest :=
      ⟨fun other member => harmless.empty other (List.mem_cons_of_mem tlv member), distinct⟩
    have first := fresh tlv List.mem_cons_self
    have ahead : ∀ {next}, take bgp peer cap tlv st = (next, none) →
        ∀ other ∈ rest, other.type ∉ next.seen := by
      intro next turn other member
      rw [(take_next bgp peer cap tlv st next turn).2.1, List.mem_cons]
      rintro (same | met)
      · exact new (List.mem_map.mpr ⟨other, member, same⟩)
      · exact fresh other (List.mem_cons_of_mem tlv member) met
    cases ignored : Ignored cap tlv with
    | true =>
      rw [stripped_cons_ignored ignored] at others
      have empty := harmless.empty tlv List.mem_cons_self ignored
      obtain ⟨goesOn, same⟩ := bgpAttrRead_ignored (entered tlv st) ebgp ignored
      have turn : take bgp peer cap tlv st =
          ((bgpAttrRead bgp peer cap tlv (entered tlv st)).1, none) := by
        rw [take_fresh first, ← goesOn.mpr empty]
      obtain ⟨final, walk, alikeFinal⟩ := ih later (ahead turn) ((same empty).trans alike) others
      exact ⟨final, takeAll_cons_iff.mpr ⟨_, turn, walk⟩, alikeFinal⟩
    | false =>
      rw [stripped_cons ignored] at others
      obtain ⟨next', turn', walk'⟩ := takeAll_cons_iff.mp others
      have unmet := (take_next bgp peer cap tlv st' next' turn').1
      rw [take_fresh unmet] at turn'
      have entering : bare (entered tlv st) = bare (entered tlv st') := alike
      obtain ⟨state, verdict⟩ := bgpAttrRead_alike bgp peer cap tlv entering
      rw [turn'] at state verdict
      have turn : take bgp peer cap tlv st =
          ((bgpAttrRead bgp peer cap tlv (entered tlv st)).1, none) :=
        (take_fresh first).trans (Prod.ext rfl verdict)
      obtain ⟨final, walk, alikeFinal⟩ := ih later (ahead turn) state walk'
      exact ⟨final, takeAll_cons_iff.mpr ⟨_, turn, walk⟩, alikeFinal⟩

/-- A walk that gets to the end met harmless attributes only. -/
theorem harmless_of_takeAll (ebgp : peerSort bgp peer = .ebgp)
    (walk : takeAll bgp peer cap tlvs st = (final, none)) : Harmless cap tlvs := by
  refine ⟨?_, (takeAll_next bgp peer cap tlvs st final walk).1⟩
  induction tlvs generalizing st with
  | nil => exact nofun
  | cons tlv rest ih =>
    obtain ⟨next, turn, walk⟩ := takeAll_cons_iff.mp walk
    intro other member ignored
    rcases List.mem_cons.mp member with rfl | later
    · rw [take_fresh (take_next bgp peer cap other st next turn).1] at turn
      exact (bgpAttrRead_ignored _ ebgp ignored).1.mp (congrArg Prod.snd turn)
    · exact ih walk other later ignored

end Walks

/-! ## Behind the walk -/

section Behind

variable {bgp : Bgp} {peer : Peer} {cap : PeerCap} {st st' : ParseState}

/-- A verdict and the bare state it comes with. -/
def bareResult (r : ParseState × ParseRet) : ParseState × ParseRet := (bare r.1, r.2)

/-- A malformed AS_PATH is never ignored, whatever its flags. -/
theorem malformedPath_bare (flag flag' subcode : U8) :
    bareResult (bgpAttrMalformed bgp peer AttrType.asPath.code flag subcode [] (bare st)) =
      bareResult (bgpAttrMalformed bgp peer AttrType.asPath.code flag' subcode [] st) := by
  simp only [bgpAttrMalformed, AttrType.ofCode_code]
  split <;> rfl

theorem bgpAttrMungeAs4Attrs_bare :
    bareResult (bgpAttrMungeAs4Attrs bgp peer cap (bare st)) =
      bareResult (bgpAttrMungeAs4Attrs bgp peer cap st) := by
  have flags (type : AttrType) : (bare st).attr.has type = st.attr.has type := rfl
  have ignores : ignoreAs4Path (bare st) = ignoreAs4Path st := rfl
  simp only [bgpAttrMungeAs4Attrs, mungeAggregator, mungeAspath, flags, ignores]
  split_ifs <;> first | rfl | exact malformedPath_bare _ _ _

theorem bgpAttrAspathCheck_bare :
    bareResult (bgpAttrAspathCheck bgp peer (bare st)) =
      bareResult (bgpAttrAspathCheck bgp peer st) := by
  have path : (bare st).attr.aspath = st.attr.aspath := rfl
  simp only [bgpAttrAspathCheck, path]
  split_ifs <;> first | rfl | exact malformedPath_bare _ _ _

/-- What `bgp_attr_parse` does behind its loop. -/
def behind (bgp : Bgp) (peer : Peer) (cap : PeerCap) (st : ParseState) : ParseState × ParseRet :=
  match bgpAttrMungeAs4Attrs bgp peer cap st with
  | (st, .error) | (st, .withdraw) => (st, .error)
  | (st, .proceed) =>
    if st.attr.has .asPath then bgpAttrAspathCheck bgp peer st else (st, .proceed)

theorem behind_alike (alike : bare st = bare st') :
    bareResult (behind bgp peer cap st) = bareResult (behind bgp peer cap st') := by
  have merged : bareResult (bgpAttrMungeAs4Attrs bgp peer cap st) =
      bareResult (bgpAttrMungeAs4Attrs bgp peer cap st') := by
    rw [← bgpAttrMungeAs4Attrs_bare, alike, bgpAttrMungeAs4Attrs_bare]
  simp only [behind]
  generalize bgpAttrMungeAs4Attrs bgp peer cap st = left at merged ⊢
  generalize bgpAttrMungeAs4Attrs bgp peer cap st' = right at merged ⊢
  obtain ⟨next, ret⟩ := left
  obtain ⟨next', ret'⟩ := right
  obtain ⟨state, rfl⟩ := Prod.mk.inj merged
  have flags : next.attr.has .asPath = next'.attr.has .asPath :=
    congrArg (fun st => st.attr.has .asPath) state
  cases ret with
  | proceed =>
    dsimp only
    rw [flags]
    split
    · rw [← bgpAttrAspathCheck_bare, show bare next = bare next' from state,
        bgpAttrAspathCheck_bare]
    · exact merged
  | error => exact congrArg (·, ParseRet.error) state
  | withdraw => exact congrArg (·, ParseRet.error) state

theorem behind_quiet (proceeded : (behind bgp peer cap st).2 = .proceed) :
    (behind bgp peer cap st).1.notifications = st.notifications := by
  have merging : (bgpAttrMungeAs4Attrs bgp peer cap st).2 = .proceed →
      (bgpAttrMungeAs4Attrs bgp peer cap st).1.notifications = st.notifications := by
    simp only [bgpAttrMungeAs4Attrs]
    split_ifs
    · exact fun _ => rfl
    · exact bgpAttrMalformed_quiet _ _ _ _
    · exact fun _ => rfl
  have checking (st : ParseState) : (bgpAttrAspathCheck bgp peer st).2 = .proceed →
      (bgpAttrAspathCheck bgp peer st).1.notifications = st.notifications := by
    simp only [bgpAttrAspathCheck]
    split_ifs
    · exact bgpAttrMalformed_quiet _ _ _ _
    · exact bgpAttrMalformed_quiet _ _ _ _
    · exact fun _ => rfl
    · exact fun _ => rfl
  simp only [behind] at proceeded ⊢
  generalize bgpAttrMungeAs4Attrs bgp peer cap st = merged at merging proceeded ⊢
  obtain ⟨next, ret⟩ := merged
  cases ret with
  | proceed =>
    dsimp only at proceeded ⊢
    split at proceeded
    · rename_i path
      rw [if_pos path, checking next proceeded]
      exact merging rfl
    · rename_i pathless
      rw [if_neg pathless]
      exact merging rfl
  | error => contradiction
  | withdraw => contradiction

end Behind

/-! ## Sections -/

section Sections

variable {bgp : Bgp} {peer : Peer} {cap : PeerCap} {localMed : U32} {tlvs : List Tlv}

/-- The parse of framed attributes goes over them first. -/
theorem bgpAttrParse_encodeAll (framed : ∀ tlv ∈ tlvs, tlv.Framed) :
    bgpAttrParse bgp peer cap localMed (encodeAll tlvs) =
      match takeAll bgp peer cap tlvs (.start localMed) with
      | (st, none) => behind bgp peer cap st
      | (st, some ret) => (st, ret) := by
  have walked := walk_encodeAll bgp peer cap tlvs [] (.start localMed) framed
  rw [List.append_nil] at walked
  have parsed : bgpAttrParse bgp peer cap localMed (encodeAll tlvs) =
      match walk bgp peer cap (encodeAll tlvs) (.start localMed) with
      | (st, .proceed) => behind bgp peer cap st
      | (st, .error) => (st, .error)
      | (st, .withdraw) => (st, .withdraw) := by
    simp only [bgpAttrParse, walk]
    generalize bgpAttrLoop bgp peer cap _ _ _ = looped
    obtain ⟨st, ret⟩ := looped
    cases ret <;> rfl
  rw [parsed, walked]
  cases turns : takeAll bgp peer cap tlvs (.start localMed) with
  | mk st verdict =>
    cases verdict with
    | none => rfl
    | some ret =>
      cases ret with
      | proceed => exact absurd rfl (takeAll_stop bgp peer cap tlvs _ st _ turns)
      | error => rfl
      | withdraw => rfl

/-- A parse that proceeds took all attributes, and sent nothing. -/
theorem bgpAttrParse_proceed (framed : ∀ tlv ∈ tlvs, tlv.Framed)
    (proceeded : (bgpAttrParse bgp peer cap localMed (encodeAll tlvs)).2 = .proceed) :
    ∃ final, takeAll bgp peer cap tlvs (.start localMed) = (final, none) ∧
      bgpAttrParse bgp peer cap localMed (encodeAll tlvs) = behind bgp peer cap final ∧
      (behind bgp peer cap final).1.notifications = [] := by
  rw [bgpAttrParse_encodeAll framed] at proceeded ⊢
  cases turns : takeAll bgp peer cap tlvs (.start localMed) with
  | mk final verdict =>
    rw [turns] at proceeded
    cases verdict with
    | none => exact ⟨final, rfl, rfl, (behind_quiet proceeded).trans (takeAll_quiet turns)⟩
    | some ret => exact absurd proceeded (takeAll_stop bgp peer cap tlvs _ final ret turns)

/-- What a caller is left with: a verdict, the values of the attributes, the prefixes, and the
metric of the neighbour. -/
structure Outcome where
  ret : ParseRet
  attr : Attr
  mpUpdate : BgpNlri
  mpWithdraw : BgpNlri
  localMed : U32
  deriving DecidableEq

def outcome (r : ParseState × ParseRet) : Outcome :=
  ⟨r.2, r.1.attr.withExtra id, r.1.mpUpdate, r.1.mpWithdraw, r.1.localMed⟩

theorem outcome_alike {r r' : ParseState × ParseRet} (alike : bareResult r = bareResult r') :
    outcome r = outcome r' := by
  obtain ⟨state, ret⟩ := Prod.mk.inj alike
  have attr := congrArg ParseState.attr state
  have update := congrArg ParseState.mpUpdate state
  have withdraw := congrArg ParseState.mpWithdraw state
  have metric := congrArg ParseState.localMed state
  simp only [outcome, Outcome.mk.injEq]
  exact ⟨ret, attr, update, withdraw, metric⟩

/-- The ignored attributes are as if they were not there. -/
structure Unnoticed (bgp : Bgp) (peer : Peer) (cap : PeerCap) (localMed : U32) (tlvs : List Tlv) :
    Prop where
  proceeds : (bgpAttrParse bgp peer cap localMed (encodeAll tlvs)).2 = .proceed
  same : outcome (bgpAttrParse bgp peer cap localMed (encodeAll tlvs)) =
    outcome (bgpAttrParse bgp peer cap localMed (encodeAll (stripped cap tlvs)))
  quiet : (bgpAttrParse bgp peer cap localMed (encodeAll tlvs)).1.notifications = []

end Sections

variable (localMed : U32) (tlvs : List Tlv)

/-- Where the section is valid without them, ignored attributes are as if they were not there
exactly where they have no octets, and no type occurs twice. -/
theorem unnoticed_iff_harmless (ebgp : peerSort bgp peer = .ebgp)
    (framed : ∀ tlv ∈ tlvs, tlv.Framed)
    (valid : (bgpAttrParse bgp peer cap localMed (encodeAll (stripped cap tlvs))).2 = .proceed) :
    Unnoticed bgp peer cap localMed tlvs ↔ Harmless cap tlvs := by
  constructor
  · intro unnoticed
    obtain ⟨final, walk, -⟩ := bgpAttrParse_proceed framed unnoticed.proceeds
    exact harmless_of_takeAll ebgp walk
  · intro harmless
    have framedOthers : ∀ tlv ∈ stripped cap tlvs, tlv.Framed := fun tlv kept =>
      framed tlv (List.mem_filter.mp kept).1
    obtain ⟨final', others, parsed', -⟩ := bgpAttrParse_proceed framedOthers valid
    obtain ⟨final, walk, alike⟩ := takeAll_harmless ebgp harmless
      (fun _ _ => List.not_mem_nil) rfl others
    have parsed :
        bgpAttrParse bgp peer cap localMed (encodeAll tlvs) = behind bgp peer cap final := by
      rw [bgpAttrParse_encodeAll framed, walk]
    have same : bareResult (bgpAttrParse bgp peer cap localMed (encodeAll tlvs)) =
        bareResult (bgpAttrParse bgp peer cap localMed (encodeAll (stripped cap tlvs))) := by
      rw [parsed, parsed', behind_alike alike]
    have proceeds := (congrArg Prod.snd same).trans valid
    obtain ⟨_, _, again, quiet⟩ := bgpAttrParse_proceed framed proceeds
    exact ⟨proceeds, outcome_alike same, again ▸ quiet⟩

/-- An origin with an AGGREGATOR without octets behind it, and with an ATOMIC_AGGREGATE of one
octet. -/
def emptyAggregator : List Tlv := [.wellKnown .origin [0], ⟨0xC0, 7, 0, []⟩]
def longAtomic : List Tlv := [.wellKnown .origin [0], ⟨0x40, 6, 1, [0]⟩]

/-- The first is ignored. -/
theorem unnoticed_iff_harmless_emptyAggregator :
    Unnoticed (.plain 65001 1) (.plain 1 65002 65001) {} 0 emptyAggregator :=
  (unnoticed_iff_harmless (.plain 65001 1) (.plain 1 65002 65001) {} 0 emptyAggregator
    (by decide) (by decide) (by decide)).mpr (by decide)

/-- The second ends the session. -/
theorem longAtomic_noticed :
    peerSort (.plain 65001 1) (.plain 1 65002 65001) = .ebgp ∧
      (∀ tlv ∈ longAtomic, tlv.Framed) ∧
      (bgpAttrParse (.plain 65001 1) (.plain 1 65002 65001) {} 0
        (encodeAll (stripped {} longAtomic))).2 = .proceed ∧
      ¬ Unnoticed (.plain 65001 1) (.plain 1 65002 65001) {} 0 longAtomic := by
  refine ⟨by decide, by decide, by decide, fun unnoticed => ?_⟩
  exact absurd unnoticed.proceeds (by decide)

end Bgpd.IgnoredAttributes
