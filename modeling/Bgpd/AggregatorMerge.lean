import Bgpd.As4Transition
import Bgpd.IgnoredAttributes

/-!
# The aggregator of a two-octet session

A neighbour without four-octet AS numbers sends the aggregator in up to two attributes, and
the path in up to two more. The parser keeps what it read of each, whatever their order, and
merges them behind its loop. AS and address of the aggregator are copied apart there, and
where only the four-octet attribute came the address is not.

`merges_iff_addressed` compares the merged values with the attributes that were received.
-/

namespace Bgpd.AggregatorMerge

open Octets AsPath Attributes Neighbors AttrParse AttrSection HandlerEffects As4Transition
open IgnoredAttributes PathStore

/-! ## What was received -/

/-- The first attribute of a type and a length. -/
def isAggregator (tlv : Tlv) : Bool := tlv.type = AttrType.aggregator.code ∧ tlv.length = 6
def isAs4Aggregator (tlv : Tlv) : Bool := tlv.type = AttrType.as4Aggregator.code ∧ tlv.length = 8
def isAsPath (tlv : Tlv) : Bool := tlv.type = AttrType.asPath.code
def isAs4Path (tlv : Tlv) : Bool := tlv.type = AttrType.as4Path.code

/-- The values of AGGREGATOR, if it was received. -/
def aggregatorIn (tlvs : List Tlv) : Option (U32 × U32) :=
  (tlvs.find? isAggregator).map fun tlv =>
    ((getw tlv.body).setWidth 32, getl (tlv.body.drop 2))

/-- The values of AS4_AGGREGATOR, if it was received. -/
def as4AggregatorIn (tlvs : List Tlv) : Option (U32 × U32) :=
  (tlvs.find? isAs4Aggregator).map fun tlv => (getl tlv.body, getl (tlv.body.drop 4))

/-- The two paths. -/
def asPathIn (tlvs : List Tlv) : Option Aspath :=
  (tlvs.find? isAsPath).bind fun tlv => aspathParse tlv.body false

def as4PathIn (tlvs : List Tlv) : Option Aspath :=
  (tlvs.find? isAs4Path).bind fun tlv => aspathParse tlv.body true

/-- The attribute that the aggregator is to be taken from: AS4_AGGREGATOR, where it came and
AGGREGATOR did not or carried `AS_TRANS`, and AGGREGATOR otherwise. -/
def chosen (tlvs : List Tlv) : Option (U32 × U32) :=
  match as4AggregatorIn tlvs, aggregatorIn tlvs with
  | some four, none => some four
  | some four, some two => if two.1 = bgpAsTrans.setWidth 32 then some four else some two
  | none, two => two

/-- AGGREGATOR with an AS of its own came beside AS4_AGGREGATOR. -/
def OwnAggregator (tlvs : List Tlv) : Prop :=
  (as4AggregatorIn tlvs).isSome = true ∧
    ∃ two, aggregatorIn tlvs = some two ∧ two.1 ≠ bgpAsTrans.setWidth 32

/-- The path that is to result: AS4_PATH counts unless it is to be ignored. -/
def Path (tlvs : List Tlv) (path merged : Aspath) : Prop :=
  (OwnAggregator tlvs → merged = path) ∧
    (¬ OwnAggregator tlvs →
      merged = ((as4PathIn tlvs).map (aspathReconcileAs4 path)).getD path)

/-- An AS of the local configuration is put in front of a path that is accepted. -/
def prepended (peer : Peer) (path : Aspath) : Aspath :=
  if peer.changeLocalAs ≠ 0 ∧ !peer.localAsNoPrepend then aspathAddSeq path peer.changeLocalAs
  else path

/-- The result has the aggregator that is to be taken, and its path is the merged one. -/
structure Merges (peer : Peer) (tlvs : List Tlv) (attr : Attr) : Prop where
  aggregator : attr.has .aggregator = true → aggregatorOf attr = chosen tlvs
  aspath : ∀ path, asPathIn tlvs = some path →
    ∃ merged, Path tlvs path merged ∧ attr.aspath = some (prepended peer merged)

/-- Where AS4_AGGREGATOR came alone, its address is the one that a new block has. -/
def Addressed (tlvs : List Tlv) : Prop :=
  ∀ four, as4AggregatorIn tlvs = some four → aggregatorIn tlvs = none → four.2 = 0

/-! ## What the handlers leave -/

/-- The aggregator of the block of further attributes, whether or not it is flagged. -/
def block (st : ParseState) : U32 × U32 :=
  let extra := st.attr.extra.getD .zero
  (extra.aggregatorAs, extra.aggregatorAddr)

/-- Without the flag, the block has no aggregator. -/
def Blank (st : ParseState) : Prop := st.attr.has .aggregator = false → block st = (0, 0)

/-- What an attribute does to the four values: an aggregator of a wrong length does nothing. -/
def gather (t : Transition) (tlv : Tlv) : Transition where
  aspath := if isAsPath tlv then aspathParse tlv.body false else t.aspath
  as4Path := if isAs4Path tlv then aspathParse tlv.body true else t.as4Path
  aggregator :=
    if isAggregator tlv then some ((getw tlv.body).setWidth 32, getl (tlv.body.drop 2))
    else t.aggregator
  as4Aggregator :=
    if isAs4Aggregator tlv then some (getl tlv.body, getl (tlv.body.drop 4)) else t.as4Aggregator

section Handlers

variable (bgp : Bgp) (peer : Peer) (cap : PeerCap)

theorem bgpAttrMalformed_block (type flag subcode : U8) (data : List U8) (st : ParseState) :
    block (bgpAttrMalformed bgp peer type flag subcode data st).1 = block st := by
  simp only [bgpAttrMalformed]
  split
  · rfl
  · split <;> first | rfl | (split <;> rfl)

theorem mpReachNexthop_block {attr after : Attr} {octets : List U8} {length : U8} (st : ParseState)
    (stored : mpReachNexthop attr octets length = some after) :
    block { st with attr := after } = block { st with attr } := by
  simp only [mpReachNexthop] at stored
  split at stored
  · split at stored <;> cases Option.some.inj stored <;> rfl
  · cases Option.some.inj stored; rfl
  · cases Option.some.inj stored; rfl
  · cases Option.some.inj stored; rfl
  · cases stored

/-- The handlers of all other types leave the aggregator of the block. -/
theorem bgpAttrHandle_block (tlv : Tlv) (st : ParseState)
    (other : tlv.type ≠ AttrType.aggregator.code) :
    block (bgpAttrHandle bgp peer cap tlv st).state = block st := by
  have gaveUp (type : AttrType) (flag subcode : U8) (data : List U8) (st : ParseState)
      (fetched : Nat) :
      block (malformed bgp peer type flag subcode data st fetched).state = block st :=
    bgpAttrMalformed_block ..
  simp only [bgpAttrHandle]
  split
  · simp only [bgpAttrOrigin]
    split_ifs <;> first | rfl | exact gaveUp ..
  · simp only [bgpAttrAspath]
    split_ifs <;> first | rfl | exact gaveUp ..
  · simp only [bgpAttrAs4Path]
    split_ifs <;> first | rfl | exact gaveUp ..
  · simp only [bgpAttrNexthop]
    split_ifs <;> first | rfl | exact gaveUp ..
  · simp only [bgpAttrMed]
    split_ifs <;> first | rfl | exact gaveUp ..
  · simp only [bgpAttrLocalPref]
    split_ifs <;> rfl
  · simp only [bgpAttrAtomic]
    split_ifs <;> first | rfl | exact gaveUp ..
  · rename_i code
    exact absurd (AttrType.ofCode_eq code) other
  · simp only [bgpAttrAs4Aggregator]
    split_ifs <;> first | rfl | exact gaveUp ..
  · simp only [bgpAttrCommunity]
    split_ifs <;> first | rfl | exact gaveUp ..
  · simp only [bgpAttrOriginatorId]
    split_ifs <;> first | rfl | exact gaveUp ..
  · simp only [bgpAttrClusterList]
    split_ifs <;> first | rfl | exact gaveUp ..
  · simp only [bgpMpReachParse]
    split
    · rfl
    · split
      · rfl
      · split
        · rfl
        · rename_i stored
          have kept := mpReachNexthop_block st stored
          split_ifs <;> first | rfl | exact kept
  · simp only [bgpMpUnreachParse]
    split_ifs <;> rfl
  · simp only [bgpAttrExtCommunities]
    split_ifs
    · obtain ⟨⟨aspath, community, extra, flag, nexthop, med, localPref, origin⟩, _⟩ := st
      cases extra <;> rfl
    · exact gaveUp ..
    · rfl
  · simp only [bgpAttrUnknown]
    split_ifs
    · exact bgpAttrMalformed_block ..
    · rfl
    · rfl

end Handlers

/-! ## The walk -/

section Walk

variable {bgp : Bgp} {peer : Peer} {cap : PeerCap}
variable (st : ParseState) {tlv : Tlv}

/-- A handler that accepts leaves the values of its attribute. -/
theorem accepted_asPath (path : Option Aspath) (fetched : Nat) :
    transition (accepted .asPath st { st.attr with aspath := path } fetched).state =
      { transition st with aspath := path } := by
  have unflagged (wanted : AttrType) :
      ({ st.attr with aspath := path } : Attr).has wanted = st.attr.has wanted := rfl
  have extra : (({ st.attr with aspath := path } : Attr).mark .asPath).extra = st.attr.extra := rfl
  simp [transition, aggregatorOf, accepted, unflagged, extra]

theorem accepted_as4Path (path : Option Aspath) (fetched : Nat) :
    transition (accepted .as4Path { st with as4Path := path } st.attr fetched).state =
      { transition st with as4Path := path } := by
  have extra : (st.attr.mark .as4Path).extra = st.attr.extra := rfl
  simp [transition, aggregatorOf, accepted, extra]

theorem accepted_aggregator (as addr : U32) (fetched : Nat) :
    transition (accepted .aggregator st (st.attr.withExtra fun extra =>
        { extra with aggregatorAs := as, aggregatorAddr := addr }) fetched).state =
      { transition st with aggregator := some (as, addr) } := by
  have extra (attr : Attr) (change : AttrExtra → AttrExtra) :
      ((attr.withExtra change).mark .aggregator).extra =
        some (change (attr.extra.getD .zero)) := rfl
  simp [transition, aggregatorOf, accepted, extra]

theorem accepted_as4Aggregator (as addr : U32) (fetched : Nat) :
    transition (accepted .as4Aggregator
        { st with as4Aggregator := as, as4AggregatorAddr := addr } st.attr fetched).state =
      { transition st with as4Aggregator := some (as, addr) } := by
  have extra : (st.attr.mark .as4Aggregator).extra = st.attr.extra := rfl
  simp [transition, aggregatorOf, accepted, extra]

/-- A flag is its own attribute's: other handlers do not set that of the aggregator. -/
theorem blank_kept {st : ParseState} (other : tlv.type ≠ AttrType.aggregator.code)
    (flags : ∀ type, st.attr.has type = true →
      (bgpAttrHandle bgp peer cap tlv st).state.attr.has type = true)
    (blank : Blank st) : Blank (bgpAttrHandle bgp peer cap tlv st).state := by
  intro unflagged
  rw [bgpAttrHandle_block bgp peer cap tlv st other]
  apply blank
  by_contra flagged
  rw [flags .aggregator (by simpa using flagged)] at unflagged
  contradiction

theorem malformed_state (type : AttrType) (flag subcode : U8) (data : List U8) (st : ParseState)
    (fetched : Nat) : (malformed bgp peer type flag subcode data st fetched).state =
      (bgpAttrMalformed bgp peer type.code flag subcode data st).1 := rfl

theorem bgpAttrAspath_gather (old : cap.as4Rcv = false) {st : ParseState}
    (proceeded : (bgpAttrAspath bgp peer cap tlv st).ret = .proceed) :
    transition (bgpAttrAspath bgp peer cap tlv st).state =
      { transition st with aspath := aspathParse tlv.body false } := by
  simp only [bgpAttrAspath, old] at proceeded ⊢
  split_ifs at proceeded ⊢
  · rw [malformed_ret bgp peer _ rfl] at proceeded
    contradiction
  · rw [malformed_ret bgp peer _ rfl] at proceeded
    contradiction
  · exact accepted_asPath st _ _

theorem bgpAttrAs4Path_gather {st : ParseState}
    (proceeded : (bgpAttrAs4Path bgp peer tlv st).ret = .proceed) :
    transition (bgpAttrAs4Path bgp peer tlv st).state =
      { transition st with as4Path := aspathParse tlv.body true } := by
  simp only [bgpAttrAs4Path] at proceeded ⊢
  split_ifs at proceeded ⊢
  · rw [malformed_ret bgp peer _ rfl] at proceeded
    contradiction
  · -- an AS4_PATH is not among the attributes that are ignored
    simp only [malformed, bgpAttrMalformed, AttrType.ofCode_code] at proceeded
    split_ifs at proceeded
  · exact accepted_as4Path st _ _

theorem bgpAttrAggregator_gather (old : cap.as4Rcv = false) (tlv : Tlv) (st : ParseState) :
    (tlv.length = 6 ∧
      (bgpAttrAggregator bgp peer cap tlv st).state.attr.has .aggregator = true ∧
      transition (bgpAttrAggregator bgp peer cap tlv st).state =
        { transition st with
          aggregator := some ((getw tlv.body).setWidth 32, getl (tlv.body.drop 2)) }) ∨
    (tlv.length ≠ 6 ∧ transition (bgpAttrAggregator bgp peer cap tlv st).state = transition st ∧
      block (bgpAttrAggregator bgp peer cap tlv st).state = block st ∧
      ((bgpAttrAggregator bgp peer cap tlv st).state.attr.has .aggregator = true →
        st.attr.has .aggregator = true)) := by
  simp only [bgpAttrAggregator, old, Bool.false_eq_true, if_false]
  by_cases length : tlv.length = 6
  · rw [if_neg (not_not_intro length)]
    refine Or.inl ⟨length, by simp [accepted], ?_⟩
    exact accepted_aggregator { st with attr := st.attr.withExtra id } _ _ _
  · rw [if_pos length]
    refine Or.inr ⟨length, ?_, ?_, ?_⟩
    · rw [malformed_state, bgpAttrMalformed_transition]
      rfl
    · rw [malformed_state, bgpAttrMalformed_block]
      rfl
    · intro flagged
      simp only [malformed, bgpAttrMalformed, AttrType.ofCode_code] at flagged
      split_ifs at flagged <;> exact flagged

theorem bgpAttrAs4Aggregator_gather (tlv : Tlv) (st : ParseState) :
    transition (bgpAttrAs4Aggregator bgp peer tlv st).state =
      { transition st with
        as4Aggregator := if tlv.length = 8 then some (getl tlv.body, getl (tlv.body.drop 4))
          else (transition st).as4Aggregator } := by
  simp only [bgpAttrAs4Aggregator]
  by_cases length : tlv.length = 8
  · rw [if_neg (not_not_intro length), if_pos length]
    exact accepted_as4Aggregator st _ _ _
  · rw [if_pos length, if_neg length, malformed_state, bgpAttrMalformed_transition]

/-- An attribute of a type that is none of the four gathers nothing. -/
theorem gather_foreign (foreign : Foreign tlv) (t : Transition) : gather t tlv = t := by
  simp [gather, isAsPath, isAs4Path, isAggregator, isAs4Aggregator, foreign .asPath rfl,
    foreign .as4Path rfl, foreign .aggregator rfl, foreign .as4Aggregator rfl]

/-- A read that goes on does to the four values what the attribute is to do. -/
theorem bgpAttrRead_gather (old : cap.as4Rcv = false) {st next : ParseState}
    (read : bgpAttrRead bgp peer cap tlv st = (next, none)) :
    transition next = gather (transition st) tlv ∧ (Blank st → Blank next) := by
  have ⟨_, flags⟩ := bgpAttrRead_frame bgp peer cap tlv st next read
  obtain ⟨proceeded, rfl⟩ := bgpAttrRead_proceed bgp peer cap tlv st next read
  by_cases aggregator : tlv.type = AttrType.aggregator.code
  · have handled : bgpAttrHandle bgp peer cap tlv st = bgpAttrAggregator bgp peer cap tlv st := by
      simp only [bgpAttrHandle, aggregator, AttrType.ofCode_code]
    rw [handled] at flags ⊢
    rcases bgpAttrAggregator_gather old tlv st with
      ⟨length, flagged, values⟩ | ⟨length, values, blocks, unflagged⟩
    · refine ⟨?_, fun _ missing => ?_⟩
      · rw [values]
        simp [gather, isAsPath, isAs4Path, isAggregator, isAs4Aggregator, aggregator, length,
          AttrType.code]
      · rw [flagged] at missing
        contradiction
    · refine ⟨?_, fun blank missing => ?_⟩
      · rw [values]
        simp [gather, isAsPath, isAs4Path, isAggregator, isAs4Aggregator, aggregator, length,
          AttrType.code]
      · rw [blocks]
        apply blank
        by_contra flagged
        rw [flags .aggregator (by simpa using flagged)] at missing
        contradiction
  refine ⟨?_, blank_kept aggregator flags⟩
  by_cases asPath : tlv.type = AttrType.asPath.code
  · have handled : bgpAttrHandle bgp peer cap tlv st = bgpAttrAspath bgp peer cap tlv st := by
      simp only [bgpAttrHandle, asPath, AttrType.ofCode_code]
    rw [handled] at proceeded ⊢
    rw [bgpAttrAspath_gather old proceeded]
    simp [gather, isAsPath, isAs4Path, isAggregator, isAs4Aggregator, asPath, AttrType.code]
  by_cases as4Path : tlv.type = AttrType.as4Path.code
  · have handled : bgpAttrHandle bgp peer cap tlv st = bgpAttrAs4Path bgp peer tlv st := by
      simp only [bgpAttrHandle, as4Path, AttrType.ofCode_code]
    rw [handled] at proceeded ⊢
    rw [bgpAttrAs4Path_gather proceeded]
    simp [gather, isAsPath, isAs4Path, isAggregator, isAs4Aggregator, as4Path, AttrType.code]
  by_cases as4Aggregator : tlv.type = AttrType.as4Aggregator.code
  · have handled : bgpAttrHandle bgp peer cap tlv st = bgpAttrAs4Aggregator bgp peer tlv st := by
      simp only [bgpAttrHandle, as4Aggregator, AttrType.ofCode_code]
    rw [handled, bgpAttrAs4Aggregator_gather]
    simp [gather, isAsPath, isAs4Path, isAggregator, isAs4Aggregator, as4Aggregator, AttrType.code]
  have foreign : Foreign tlv := by
    intro type among
    cases type <;> first | assumption | contradiction
  rw [gather_foreign foreign]
  exact bgpAttrHandle_transition bgp peer cap tlv st foreign

/-- A walk that gets to the end gathered the four values from its attributes. -/
theorem takeAll_gather (old : cap.as4Rcv = false) {tlvs : List Tlv} {st final : ParseState}
    (walk : takeAll bgp peer cap tlvs st = (final, none)) :
    transition final = tlvs.foldl gather (transition st) ∧ (Blank st → Blank final) := by
  induction tlvs generalizing st with
  | nil =>
    obtain ⟨rfl, -⟩ := Prod.mk.inj walk
    exact ⟨rfl, id⟩
  | cons tlv rest ih =>
    obtain ⟨next, turn, walk⟩ := takeAll_cons_iff.mp walk
    have fresh := (take_next bgp peer cap tlv st next turn).1
    rw [take_fresh fresh] at turn
    obtain ⟨values, blank⟩ := bgpAttrRead_gather old turn
    obtain ⟨total, blanks⟩ := ih walk
    refine ⟨?_, fun empty => blanks (blank empty)⟩
    rw [total, values, List.foldl_cons]
    rfl

end Walk

/-! ## Each type once -/

section Found

variable {tlvs : List Tlv}

/-- A place that one attribute writes at most has what the first such attribute writes. -/
theorem foldl_write {α : Type} (p : Tlv → Bool) (f : Tlv → α) (v : α)
    (single : tlvs.Pairwise fun a b => ¬(p a = true ∧ p b = true)) :
    tlvs.foldl (fun v tlv => if p tlv then f tlv else v) v = ((tlvs.find? p).map f).getD v := by
  induction tlvs generalizing v with
  | nil => rfl
  | cons tlv rest ih =>
    have ⟨apart, later⟩ := List.pairwise_cons.mp single
    rw [List.foldl_cons, ih _ later]
    by_cases here : p tlv = true
    · have absent : rest.find? p = none :=
        List.find?_eq_none.mpr fun other member there => apart other member ⟨here, there⟩
      simp [here, absent]
    · simp [here]

theorem single_of_type {p : Tlv → Bool} {code : U8} (typed : ∀ tlv, p tlv = true → tlv.type = code)
    (distinct : (tlvs.map Tlv.type).Nodup) :
    tlvs.Pairwise fun a b => ¬(p a = true ∧ p b = true) := by
  refine (List.pairwise_map.mp distinct).imp ?_
  rintro a b apart ⟨left, right⟩
  exact apart ((typed a left).trans (typed b right).symm)

/-- The four values that a section leaves. -/
def gathered (tlvs : List Tlv) : Transition :=
  ⟨asPathIn tlvs, as4PathIn tlvs, aggregatorIn tlvs, as4AggregatorIn tlvs⟩

theorem Transition.ext {t u : Transition} (aspath : t.aspath = u.aspath)
    (as4Path : t.as4Path = u.as4Path) (aggregator : t.aggregator = u.aggregator)
    (as4Aggregator : t.as4Aggregator = u.as4Aggregator) : t = u := by
  cases t
  cases u
  simp_all

theorem map_getD_none {α β : Type} (o : Option α) (f : α → Option β) :
    (o.map f).getD none = o.bind f := by
  cases o <;> rfl

/-- A value of which one attribute at most is the source is what that attribute gives. -/
theorem foldl_gather_get {α : Type} (get : Transition → Option α) (p : Tlv → Bool)
    (f : Tlv → Option α) (code : U8) (typed : ∀ tlv, p tlv = true → tlv.type = code)
    (writes : ∀ t tlv, get (gather t tlv) = if p tlv then f tlv else get t)
    (start : get ⟨none, none, none, none⟩ = none) (distinct : (tlvs.map Tlv.type).Nodup) :
    get (tlvs.foldl gather ⟨none, none, none, none⟩) = (tlvs.find? p).bind f := by
  have along (tlvs : List Tlv) (t : Transition) : get (tlvs.foldl gather t) =
      tlvs.foldl (fun v tlv => if p tlv then f tlv else v) (get t) := by
    induction tlvs generalizing t with
    | nil => rfl
    | cons tlv rest ih => rw [List.foldl_cons, ih, writes, List.foldl_cons]
  rw [along, start, foldl_write p f none (single_of_type typed distinct), map_getD_none]

theorem foldl_gather (distinct : (tlvs.map Tlv.type).Nodup) :
    tlvs.foldl gather ⟨none, none, none, none⟩ = gathered tlvs := by
  have aspath := foldl_gather_get Transition.aspath isAsPath _ AttrType.asPath.code
    (fun _ is => of_decide_eq_true is) (fun _ _ => rfl) rfl distinct
  have as4Path := foldl_gather_get Transition.as4Path isAs4Path _ AttrType.as4Path.code
    (fun _ is => of_decide_eq_true is) (fun _ _ => rfl) rfl distinct
  have aggregator := foldl_gather_get Transition.aggregator isAggregator _ AttrType.aggregator.code
    (fun _ is => (of_decide_eq_true is).1) (fun _ _ => rfl) rfl distinct
  have as4Aggregator := foldl_gather_get Transition.as4Aggregator isAs4Aggregator _
    AttrType.as4Aggregator.code (fun _ is => (of_decide_eq_true is).1) (fun _ _ => rfl) rfl distinct
  rw [gathered, asPathIn, as4PathIn, aggregatorIn, as4AggregatorIn, Option.map_eq_bind,
    Option.map_eq_bind]
  exact Transition.ext aspath as4Path aggregator as4Aggregator

end Found

/-! ## The merge -/

section Merge

variable {bgp : Bgp} {peer : Peer} {cap : PeerCap} {st : ParseState} {tlvs : List Tlv}

/-- What the walk leaves of a section. -/
structure Walked (st : ParseState) (tlvs : List Tlv) : Prop where
  values : transition st = gathered tlvs
  blank : Blank st

theorem Walked.as4Aggregator (walked : Walked st tlvs) :
    as4AggregatorIn tlvs =
      if st.attr.has .as4Aggregator then some (st.as4Aggregator, st.as4AggregatorAddr) else none :=
  (congrArg Transition.as4Aggregator walked.values).symm

theorem Walked.aggregator (walked : Walked st tlvs) :
    aggregatorIn tlvs = if st.attr.has .aggregator then some (block st) else none :=
  (congrArg Transition.aggregator walked.values).symm

theorem Walked.aspath (walked : Walked st tlvs) :
    asPathIn tlvs = if st.attr.has .asPath then st.attr.aspath else none :=
  (congrArg Transition.aspath walked.values).symm

theorem Walked.as4Path (walked : Walked st tlvs) :
    as4PathIn tlvs = if st.attr.has .as4Path then st.as4Path else none :=
  (congrArg Transition.as4Path walked.values).symm

theorem Walked.ignores_iff (walked : Walked st tlvs) :
    ignoreAs4Path st = true ↔ OwnAggregator tlvs := by
  rw [OwnAggregator, walked.as4Aggregator, walked.aggregator]
  cases four : st.attr.has .as4Aggregator <;> cases two : st.attr.has .aggregator <;>
    simp [ignoreAs4Path, four, two, block]

/-- The aggregator behind the merge. Where only AS4_AGGREGATOR came, its address is none. -/
theorem Walked.mungeAggregator (walked : Walked st tlvs) :
    aggregatorOf (mungeAggregator st) =
      match as4AggregatorIn tlvs, aggregatorIn tlvs with
      | some four, none => some (four.1, 0)
      | some four, some two => if two.1 = bgpAsTrans.setWidth 32 then some four else some two
      | none, two => two := by
  have extra (attr : Attr) (change : AttrExtra → AttrExtra) :
      (attr.withExtra change).extra = some (change (attr.extra.getD .zero)) := rfl
  rw [walked.as4Aggregator, walked.aggregator]
  cases four : st.attr.has .as4Aggregator with
  | false => simp [AttrParse.mungeAggregator, four, aggregatorOf, block]
  | true =>
    cases two : st.attr.has .aggregator with
    | false =>
      have zero := congrArg Prod.snd (walked.blank two)
      have address : (st.attr.extra.getD .zero).aggregatorAddr = 0 := zero
      have marked (attr : Attr) : (attr.mark .aggregator).extra = attr.extra := rfl
      simp [AttrParse.mungeAggregator, four, two, aggregatorOf, extra, marked, address]
    | true =>
      by_cases own : (st.attr.extra.getD .zero).aggregatorAs = bgpAsTrans.setWidth 32
      · simp [AttrParse.mungeAggregator, ignoreAs4Path, four, two, aggregatorOf, extra, block, own]
      · simp [AttrParse.mungeAggregator, ignoreAs4Path, four, two, aggregatorOf, block, own]

/-- The path behind the merge. -/
theorem Walked.mungeAspath (walked : Walked st tlvs) {path : Aspath}
    (received : asPathIn tlvs = some path) :
    ∃ merged, Path tlvs path merged ∧ mungeAspath st st.attr.aspath = some merged := by
  have flagged : st.attr.has .asPath = true := by
    by_contra missing
    rw [walked.aspath, if_neg missing] at received
    contradiction
  have stored : st.attr.aspath = some path := by
    rw [walked.aspath, if_pos flagged] at received
    exact received
  by_cases own : OwnAggregator tlvs
  · refine ⟨path, ⟨fun _ => rfl, fun other => absurd own other⟩, ?_⟩
    simp [AttrParse.mungeAspath, walked.ignores_iff.mpr own, stored]
  · have counts : ignoreAs4Path st = false := by
      rw [← Bool.not_eq_true]
      exact mt walked.ignores_iff.mp own
    refine ⟨_, ⟨fun is => absurd is own, fun _ => rfl⟩, ?_⟩
    rw [walked.as4Path]
    cases as4 : st.attr.has .as4Path <;> cases four : st.as4Path <;>
      simp [AttrParse.mungeAspath, counts, stored, as4, four]

theorem mungeAggregator_kept (st : ParseState) :
    (mungeAggregator st).aspath = st.attr.aspath ∧
      (mungeAggregator st).has .asPath = st.attr.has .asPath := by
  simp only [AttrParse.mungeAggregator]
  split_ifs <;> simp

/-- The state that is checked, where the merge lets the parse go on. -/
def mergedState (st : ParseState) : ParseState :=
  { st with attr :=
    { mungeAggregator st with aspath := AttrParse.mungeAspath st (mungeAggregator st).aspath } }

theorem bgpAttrMungeAs4Attrs_proceed (old : cap.as4Rcv = false) {next : ParseState}
    (proceeded : bgpAttrMungeAs4Attrs bgp peer cap st = (next, .proceed)) :
    next = mergedState st := by
  simp only [bgpAttrMungeAs4Attrs, old, Bool.false_eq_true, if_false] at proceeded
  split at proceeded
  · have refused := malformed_ret bgp peer .asPath rfl st.flag notifyUpdateMalAttr [] st 0
    simp only [malformed, proceeded] at refused
    contradiction
  · exact (congrArg Prod.fst proceeded).symm

variable {final : ParseState}

/-- The checks on a path that is accepted prepend to it, and leave the rest. -/
theorem bgpAttrAspathCheck_proceed
    (proceeded : bgpAttrAspathCheck bgp peer st = (final, .proceed)) :
    final.attr.has .aggregator = st.attr.has .aggregator ∧
      aggregatorOf final.attr = aggregatorOf st.attr ∧
      ∀ path, st.attr.aspath = some path → final.attr.aspath = some (prepended peer path) := by
  have refused := malformed_ret bgp peer .asPath rfl st.flag notifyUpdateMalAsPath [] st 0
  simp only [malformed] at refused
  simp only [bgpAttrAspathCheck] at proceeded
  split_ifs at proceeded with misplaced other prepends
  · rw [proceeded] at refused
    contradiction
  · rw [proceeded] at refused
    contradiction
  · obtain rfl := congrArg Prod.fst proceeded
    refine ⟨rfl, rfl, fun path stored => ?_⟩
    rw [prepended, if_pos prepends]
    simp [stored]
  · obtain rfl := congrArg Prod.fst proceeded
    refine ⟨rfl, rfl, fun path stored => ?_⟩
    rw [prepended, if_neg prepends]
    exact stored

/-- A parse that proceeds behind its loop has what was merged, with the path prepended. -/
theorem behind_merges (old : cap.as4Rcv = false)
    (accepted : behind bgp peer cap st = (final, .proceed)) :
    final.attr.has .aggregator = (mungeAggregator st).has .aggregator ∧
      aggregatorOf final.attr = aggregatorOf (mungeAggregator st) ∧
      (st.attr.has .asPath = true →
        ∀ merged, AttrParse.mungeAspath st st.attr.aspath = some merged →
        final.attr.aspath = some (prepended peer merged)) := by
  have ⟨aspath, path⟩ := mungeAggregator_kept st
  simp only [behind] at accepted
  cases merging : bgpAttrMungeAs4Attrs bgp peer cap st with
  | mk next ret =>
    rw [merging] at accepted
    cases ret with
    | error => cases accepted
    | withdraw => cases accepted
    | proceed =>
      obtain rfl := bgpAttrMungeAs4Attrs_proceed old merging
      have has : (mergedState st).attr.has .asPath = st.attr.has .asPath := path
      dsimp only at accepted
      rw [has] at accepted
      split at accepted
      · obtain ⟨flag, values, paths⟩ := bgpAttrAspathCheck_proceed accepted
        refine ⟨flag, values, fun _ merged stored => paths merged ?_⟩
        rw [← aspath] at stored
        exact stored
      · rename_i pathless
        obtain rfl := congrArg Prod.fst accepted
        exact ⟨rfl, rfl, fun flagged => absurd flagged pathless⟩

/-- What a section leaves behind the walk. -/
theorem walked_of_takeAll (old : cap.as4Rcv = false) {localMed : U32}
    (walk : takeAll bgp peer cap tlvs (.start localMed) = (st, none)) : Walked st tlvs := by
  obtain ⟨values, blank⟩ := takeAll_gather old walk
  constructor
  · have start : transition (.start localMed) = ⟨none, none, none, none⟩ := by
      simp [transition, aggregatorOf, ParseState.start]
    rw [values, start, foldl_gather (takeAll_next bgp peer cap tlvs _ st walk).1]
  · exact blank fun _ => rfl

/-- The merged aggregator is the one to be taken exactly where AS4_AGGREGATOR did not come
alone with an address. -/
theorem Walked.chosen_iff (walked : Walked st tlvs) :
    aggregatorOf (AttrParse.mungeAggregator st) = chosen tlvs ↔ Addressed tlvs := by
  rw [walked.mungeAggregator, chosen, Addressed]
  cases as4AggregatorIn tlvs with
  | none => exact ⟨fun _ => nofun, fun _ => rfl⟩
  | some four =>
    cases aggregatorIn tlvs with
    | some two => exact ⟨fun _ _ _ => nofun, fun _ => rfl⟩
    | none =>
      constructor
      · intro same other alone _
        obtain rfl := Option.some.inj alone
        exact (congrArg Prod.snd (Option.some.inj same)).symm
      · intro addressed
        have zero := addressed four rfl rfl
        rw [← zero]

end Merge

variable (bgp : Bgp) (peer : Peer) (cap : PeerCap)

/-- A section that is accepted is one of framed attributes. Its aggregator is the one of a single
attribute, the one it is to be taken from, and its paths are merged as they are to be, exactly
where AS4_AGGREGATOR did not come without AGGREGATOR and with an address. -/
theorem merges_iff_addressed (old : cap.as4Rcv = false) (localMed : U32) (octets : List U8)
    (final : ParseState)
    (accepted : bgpAttrParse bgp peer cap localMed octets = (final, .proceed)) :
    (∃ tlvs : List Tlv, (∀ tlv ∈ tlvs, tlv.Framed) ∧ octets = encodeAll tlvs) ∧
      ∀ tlvs : List Tlv, (∀ tlv ∈ tlvs, tlv.Framed) → octets = encodeAll tlvs →
        (Merges peer tlvs final.attr ↔ Addressed tlvs) := by
  constructor
  · obtain ⟨st, walk, -⟩ := bgpAttrParse_walk bgp peer cap localMed octets final accepted
    obtain ⟨tlvs, framed, same, -⟩ := walk_takeAll bgp peer cap octets _ st walk
    exact ⟨tlvs, framed, same⟩
  rintro tlvs framed rfl
  have proceeded := congrArg Prod.snd accepted
  obtain ⟨st, taken, parsed, -⟩ := bgpAttrParse_proceed framed proceeded
  rw [parsed] at accepted
  have walked := walked_of_takeAll old taken
  obtain ⟨flag, values, paths⟩ := behind_merges old accepted
  rw [← walked.chosen_iff, ← values]
  constructor
  · intro merges
    by_cases flagged : final.attr.has .aggregator = true
    · exact merges.aggregator flagged
    · have none : aggregatorOf final.attr = none := by simp [aggregatorOf, flagged]
      rw [none]
      -- without the flag neither attribute came
      have nothing := walked.mungeAggregator
      rw [← values, none] at nothing
      rw [chosen]
      cases four : as4AggregatorIn tlvs with
      | none =>
        rw [four] at nothing
        exact nothing
      | some four' =>
        rw [four] at nothing
        cases two : aggregatorIn tlvs with
        | none =>
          rw [two] at nothing
          cases nothing
        | some two' =>
          rw [two] at nothing
          exact nothing
  · intro same
    refine ⟨fun _ => same, fun path received => ?_⟩
    obtain ⟨merged, isPath, stored⟩ := walked.mungeAspath received
    have flagged : st.attr.has .asPath = true := by
      by_contra missing
      rw [walked.aspath, if_neg missing] at received
      contradiction
    exact ⟨merged, isPath, paths flagged merged stored⟩

/-- AS4_AGGREGATOR of 65540 and 10.0.0.9, alone and behind an AGGREGATOR of `AS_TRANS`. -/
def alone : List Tlv := [⟨0xC0, 18, 8, [0, 1, 0, 4, 10, 0, 0, 9]⟩]
def both : List Tlv :=
  [⟨0xC0, 7, 6, [0x5B, 0xA0, 10, 0, 0, 9]⟩, ⟨0xC0, 18, 8, [0, 1, 0, 4, 10, 0, 0, 9]⟩]

/-- The second section gives the aggregator that was sent. -/
theorem merges_iff_addressed_both :
    Merges (.plain 1 65002 65001) both
      (bgpAttrParse (.plain 65001 1) (.plain 1 65002 65001) {} 0 (encodeAll both)).1.attr :=
  ((merges_iff_addressed (.plain 65001 1) (.plain 1 65002 65001) {} rfl 0 (encodeAll both) _
    (by decide)).2 both (by decide) rfl).mpr fun _ _ absent => absurd absent (by decide)

/-- The first gives its AS with no address. -/
theorem alone_loses_address :
    (bgpAttrParse (.plain 65001 1) (.plain 1 65002 65001) {} 0 (encodeAll alone)).2 = .proceed ∧
      (∀ tlv ∈ alone, tlv.Framed) ∧
      ¬ Merges (.plain 1 65002 65001) alone
        (bgpAttrParse (.plain 65001 1) (.plain 1 65002 65001) {} 0 (encodeAll alone)).1.attr := by
  refine ⟨by decide, by decide, fun merges => ?_⟩
  exact absurd (merges.aggregator (by decide)) (by decide)

end Bgpd.AggregatorMerge
