import Bgpd.Encoding
import Bgpd.PathCodec

/-!
# Across a two-octet session

Four attributes carry the AS path and the aggregator to a neighbour without
four-octet AS numbers: the two old ones, with `AS_TRANS` in the place of large
AS numbers, and two new ones where there is something to replace. The parser
reads each of the four into its own place and merges them when the walk is
over, so their order in the section plays no part.

For a path in normal form, the merged path is the path that was sent and the
merged aggregator is the aggregator that was sent.
-/

namespace Bgpd.As4Transition

open Octets AsPath Attributes Neighbors AttrParse AttrSection HandlerEffects

/-! ## What the four attributes leave in a parse -/

/-- The four values, each present when its attribute is flagged. -/
structure Transition where
  aspath : Option Aspath
  as4Path : Option Aspath
  aggregator : Option (U32 × U32)
  as4Aggregator : Option (U32 × U32)
  deriving DecidableEq, Repr

/-- The aggregator of an attribute set. -/
def aggregatorOf (attr : Attr) : Option (U32 × U32) :=
  let extra := attr.extra.getD .zero
  if attr.has .aggregator then some (extra.aggregatorAs, extra.aggregatorAddr) else none

/-- The four values of a parse. -/
def transition (st : ParseState) : Transition where
  aspath := if st.attr.has .asPath then st.attr.aspath else none
  as4Path := if st.attr.has .as4Path then st.as4Path else none
  aggregator := aggregatorOf st.attr
  as4Aggregator :=
    if st.attr.has .as4Aggregator then some (st.as4Aggregator, st.as4AggregatorAddr) else none

/-- The types of the four attributes. -/
def transitional : AttrType → Bool
  | .asPath | .as4Path | .aggregator | .as4Aggregator => true
  | _ => false

/-- What an attribute from a two-octet session does to the four values. -/
def carry (t : Transition) (tlv : Tlv) : Transition where
  aspath := if tlv.type = AttrType.asPath.code then aspathParse tlv.body false else t.aspath
  as4Path := if tlv.type = AttrType.as4Path.code then aspathParse tlv.body true else t.as4Path
  aggregator :=
    if tlv.type = AttrType.aggregator.code then
      some ((getw tlv.body).setWidth 32, getl (tlv.body.drop 2))
    else t.aggregator
  as4Aggregator :=
    if tlv.type = AttrType.as4Aggregator.code then some (getl tlv.body, getl (tlv.body.drop 4))
    else t.as4Aggregator

/-- An attribute of a type that is none of the four. -/
def Foreign (tlv : Tlv) : Prop := ∀ type, transitional type = true → tlv.type ≠ type.code

theorem carry_foreign {tlv : Tlv} (foreign : Foreign tlv) (t : Transition) : carry t tlv = t := by
  unfold carry
  rw [if_neg (foreign .asPath rfl), if_neg (foreign .as4Path rfl), if_neg (foreign .aggregator rfl),
    if_neg (foreign .as4Aggregator rfl)]

/-- Two writes to a place are in either order the write that concerns it. -/
theorem write_comm {α : Type} (first second : Tlv) (distinct : first.type ≠ second.type) (code : U8)
    (left right before : α) :
    (if second.type = code then right else if first.type = code then left else before) =
      if first.type = code then left else if second.type = code then right else before := by
  by_cases isFirst : first.type = code
  · have notSecond : ¬ second.type = code := fun same => distinct (isFirst.trans same.symm)
    rw [if_neg notSecond, if_pos isFirst, if_pos isFirst]
  · rw [if_neg isFirst, if_neg isFirst]

/-- Attributes of distinct types can be carried in either order. -/
theorem carry_comm (t : Transition) (first second : Tlv) (distinct : first.type ≠ second.type) :
    carry (carry t first) second = carry (carry t second) first := by
  simp only [carry, Transition.mk.injEq]
  exact ⟨write_comm first second distinct .., write_comm first second distinct ..,
    write_comm first second distinct .., write_comm first second distinct ..⟩

theorem carry_perm (first second : List Tlv) (t : Transition)
    (distinct : (first.map Tlv.type).Nodup) (permuted : first.Perm second) :
    first.foldl carry t = second.foldl carry t := by
  apply permuted.foldl_eq'
  intro left inLeft right inRight current
  by_cases same : left.type = right.type
  · rw [List.inj_on_of_nodup_map distinct inLeft inRight same]
  · exact carry_comm current left right same

/-! ## The other handlers -/

variable (bgp : Bgp) (peer : Peer) (cap : PeerCap)
variable (tlv : Tlv) (st : ParseState)

/-- Giving up on an attribute leaves the four values. -/
theorem bgpAttrMalformed_transition (type flag subcode : U8) (data : List U8) (st : ParseState) :
    transition (bgpAttrMalformed bgp peer type flag subcode data st).1 = transition st := by
  unfold bgpAttrMalformed
  split
  · rfl
  · split
    · rfl
    · rfl
    · rfl
    · split <;> rfl
    · split <;> rfl
    · rfl

variable {type : AttrType}

/-- Flagging another attribute does so too. -/
theorem accepted_transition (other : transitional type = false) (st : ParseState) (attr : Attr)
    (fetched : Nat) (kept : transition { st with attr } = transition st) :
    transition (accepted type st attr fetched).state = transition st := by
  rw [← kept]
  have flag (wanted : AttrType) (among : transitional wanted = true) :
      (attr.mark type).has wanted = attr.has wanted := by
    have apart : type ≠ wanted := by
      rintro rfl
      rw [among] at other
      cases other
    rw [Attr.has_mark, decide_eq_false apart, Bool.or_false]
  have extra : (attr.mark type).extra = attr.extra := rfl
  simp only [transition, aggregatorOf, accepted, flag .asPath rfl, flag .as4Path rfl,
    flag .aggregator rfl, flag .as4Aggregator rfl, Attr.mark_aspath, extra]

theorem mpReachNexthop_transition (attr after : Attr) (octets : List U8) (length : U8)
    (kept : transition { st with attr } = transition st)
    (stored : mpReachNexthop attr octets length = some after) :
    transition { st with attr := after } = transition st := by
  rw [← kept]
  unfold mpReachNexthop at stored
  split at stored
  · dsimp only at stored
    split at stored <;> cases Option.some.inj stored <;> rfl
  · cases Option.some.inj stored
    rfl
  · cases Option.some.inj stored
    rfl
  · cases Option.some.inj stored
    rfl
  · cases stored

theorem bgpMpReachParse_transition :
    transition (bgpMpReachParse tlv st).state = transition st := by
  unfold bgpMpReachParse
  dsimp only
  split
  · rfl
  · split
    · rfl
    · split
      · rfl
      · rename_i after stored
        have kept := mpReachNexthop_transition st _ after _ _ (by rfl) stored
        split
        · rfl
        · split
          · rfl
          · split
            · rfl
            · exact kept

theorem clearEcommunity_transition :
    transition { st with attr := { st.attr with
      extra := st.attr.extra.map fun extra => { extra with ecommunity := none } } } =
      transition st := by
  obtain ⟨⟨aspath, community, extra, flag, nexthop, med, localPref, origin⟩, _⟩ := st
  cases extra <;> rfl

/-- The handlers of all other types leave the four values. -/
theorem bgpAttrHandle_transition (foreign : Foreign tlv) :
    transition (bgpAttrHandle bgp peer cap tlv st).state = transition st := by
  have gaveUp {type : AttrType} {flag subcode : U8} {data : List U8} {after : ParseState}
      {fetched : Nat} (kept : transition after = transition st) :
      transition (malformed bgp peer type flag subcode data after fetched).state = transition st :=
    (bgpAttrMalformed_transition bgp peer ..).trans kept
  have ours {type : AttrType} (among : transitional type = true)
      (code : AttrType.ofCode tlv.type = some type) : False :=
    foreign type among (AttrType.ofCode_eq code)
  unfold bgpAttrHandle
  split
  · unfold bgpAttrOrigin
    split
    · exact gaveUp rfl
    · split
      · exact gaveUp rfl
      · dsimp only
        split
        · exact gaveUp rfl
        · exact accepted_transition rfl _ _ _ rfl
  · rename_i code
    exact (ours rfl code).elim
  · rename_i code
    exact (ours rfl code).elim
  · unfold bgpAttrNexthop
    split
    · exact gaveUp rfl
    · split
      · exact gaveUp rfl
      · exact accepted_transition rfl _ _ _ rfl
  · unfold bgpAttrMed
    split
    · rfl
    · split
      · exact gaveUp rfl
      · exact accepted_transition rfl _ _ _ rfl
  · unfold bgpAttrLocalPref
    split
    · rfl
    · split
      · rfl
      · dsimp only
        split
        · exact accepted_transition rfl _ _ _ rfl
        · exact accepted_transition rfl _ _ _ rfl
  · unfold bgpAttrAtomic
    split
    · rfl
    · split
      · rfl
      · split
        · rfl
        · split
          · exact gaveUp rfl
          · exact accepted_transition rfl _ _ _ rfl
  · rename_i code
    exact (ours rfl code).elim
  · rename_i code
    exact (ours rfl code).elim
  · unfold bgpAttrCommunity
    split
    · rfl
    · dsimp only
      split
      · exact gaveUp rfl
      · exact accepted_transition rfl _ _ _ rfl
  · unfold bgpAttrOriginatorId
    split
    · exact gaveUp rfl
    · exact accepted_transition rfl _ _ _ rfl
  · unfold bgpAttrClusterList
    split
    · exact gaveUp rfl
    · exact accepted_transition rfl _ _ _ rfl
  · exact bgpMpReachParse_transition tlv st
  · unfold bgpMpUnreachParse
    dsimp only
    split
    · rfl
    · split <;> rfl
  · unfold bgpAttrExtCommunities
    dsimp only
    split
    · exact clearEcommunity_transition st
    · split
      · exact gaveUp rfl
      · exact accepted_transition rfl _ _ _ rfl
  · unfold bgpAttrUnknown
    split
    · exact bgpAttrMalformed_transition bgp peer ..
    · split
      · rfl
      · rfl

/-! ## Reading the four -/

/-- The receiver reads the attribute and goes on, whatever came before, and the
attribute leaves its value in its place. -/
def Reads (tlv : Tlv) : Prop :=
  ∀ st, ∃ next, bgpAttrRead bgp peer cap tlv st = (next, none) ∧
    transition next = carry (transition st) tlv

/-- Another attribute only has to be read. -/
theorem reads_foreign {tlv : Tlv} (foreign : Foreign tlv)
    (goesOn : ∀ st, (bgpAttrRead bgp peer cap tlv st).2 = none) : Reads bgp peer cap tlv := by
  intro st
  rcases read : bgpAttrRead bgp peer cap tlv st with ⟨next, verdict⟩
  have none := goesOn st
  rw [read] at none
  cases none
  refine ⟨next, rfl, ?_⟩
  obtain ⟨_, rfl⟩ := bgpAttrRead_proceed bgp peer cap tlv st next read
  rw [carry_foreign foreign]
  exact bgpAttrHandle_transition bgp peer cap tlv st foreign

/-- A handler that accepts the whole attribute lets the walk go on. -/
theorem read_accepted {tlv : Tlv} {st st' : ParseState} {attr : Attr}
    (handled : bgpAttrHandle bgp peer cap tlv st = accepted type st' attr tlv.length) :
    bgpAttrRead bgp peer cap tlv st = ({ st' with attr := attr.mark type }, none) := by
  unfold bgpAttrRead
  rw [handled]
  exact if_pos rfl

variable {path : Aspath}

theorem reads_asPath {tlv : Tlv} (old : cap.as4Rcv = false) (type : tlv.type = AttrType.asPath.code)
    (flag : tlv.flag = FlagWord.set attrFlagTrans attrFlagExtlen)
    (parsed : aspathParse tlv.body false = some path) : Reads bgp peer cap tlv := by
  intro st
  have handled : bgpAttrHandle bgp peer cap tlv st =
      accepted .asPath st { st.attr with aspath := some path } tlv.length := by
    have flags : (FlagWord.check (FlagWord.set attrFlagTrans attrFlagExtlen) attrFlagOptional ||
        !FlagWord.check (FlagWord.set attrFlagTrans attrFlagExtlen) attrFlagTrans) = false := by
      decide
    simp only [bgpAttrHandle, type, AttrType.ofCode_code, bgpAttrAspath, flag, flags, old, parsed,
      Bool.false_eq_true, if_false, Option.isNone_some]
  refine ⟨_, read_accepted bgp peer cap handled, ?_⟩
  have unflagged (wanted : AttrType) :
      ({ st.attr with aspath := some path } : Attr).has wanted = st.attr.has wanted := rfl
  have extra : (({ st.attr with aspath := some path } : Attr).mark .asPath).extra =
      st.attr.extra := rfl
  simp [transition, carry, aggregatorOf, type, parsed, AttrType.code, unflagged, extra]

theorem reads_as4Path {tlv : Tlv} (type : tlv.type = AttrType.as4Path.code)
    (flag : tlv.flag = FlagWord.set (FlagWord.set attrFlagOptional attrFlagTrans) attrFlagExtlen)
    (parsed : aspathParse tlv.body true = some path) : Reads bgp peer cap tlv := by
  intro st
  have handled : bgpAttrHandle bgp peer cap tlv st =
      accepted .as4Path { st with as4Path := some path } st.attr tlv.length := by
    have flags : (!FlagWord.check (FlagWord.set (FlagWord.set attrFlagOptional attrFlagTrans)
          attrFlagExtlen) attrFlagOptional ||
        !FlagWord.check (FlagWord.set (FlagWord.set attrFlagOptional attrFlagTrans)
          attrFlagExtlen) attrFlagTrans) = false := by
      decide
    simp only [bgpAttrHandle, type, AttrType.ofCode_code, bgpAttrAs4Path, flag, flags, parsed,
      Bool.false_eq_true, if_false, Option.isNone_some]
  refine ⟨_, read_accepted bgp peer cap handled, ?_⟩
  have extra : (st.attr.mark .as4Path).extra = st.attr.extra := rfl
  simp [transition, carry, aggregatorOf, type, parsed, AttrType.code, extra]

theorem reads_aggregator {tlv : Tlv} (old : cap.as4Rcv = false)
    (type : tlv.type = AttrType.aggregator.code) (length : tlv.length = 6) :
    Reads bgp peer cap tlv := by
  intro st
  have handled : bgpAttrHandle bgp peer cap tlv st =
      accepted .aggregator { st with attr := st.attr.withExtra id }
        ((st.attr.withExtra id).withExtra fun extra =>
          { extra with
            aggregatorAs := (getw tlv.body).setWidth 32, aggregatorAddr := getl (tlv.body.drop 2) })
        tlv.length := by
    simp [bgpAttrHandle, type, bgpAttrAggregator, old, length]
  refine ⟨_, read_accepted bgp peer cap handled, ?_⟩
  have extra (attr : Attr) (change : AttrExtra → AttrExtra) :
      ((attr.withExtra change).mark .aggregator).extra =
        some (change (attr.extra.getD .zero)) := rfl
  simp [transition, carry, aggregatorOf, type, AttrType.code, extra]

theorem reads_as4Aggregator {tlv : Tlv} (type : tlv.type = AttrType.as4Aggregator.code)
    (length : tlv.length = 8) : Reads bgp peer cap tlv := by
  intro st
  have handled : bgpAttrHandle bgp peer cap tlv st =
      accepted .as4Aggregator { st with
        as4Aggregator := getl tlv.body, as4AggregatorAddr := getl (tlv.body.drop 4) } st.attr
        tlv.length := by
    simp [bgpAttrHandle, type, bgpAttrAs4Aggregator, length]
  refine ⟨_, read_accepted bgp peer cap handled, ?_⟩
  have extra : (st.attr.mark .as4Aggregator).extra = st.attr.extra := rfl
  simp [transition, carry, aggregatorOf, type, AttrType.code, extra]

/-! ## The walk -/

/-- A walk over attributes of distinct types that are all read carries them one
after the other. -/
theorem takeAll_reads (tlvs : List Tlv) (reads : ∀ tlv ∈ tlvs, Reads bgp peer cap tlv)
    (distinct : (tlvs.map Tlv.type).Nodup) (st : ParseState)
    (fresh : ∀ tlv ∈ tlvs, tlv.type ∉ st.seen) :
    ∃ final, takeAll bgp peer cap tlvs st = (final, none) ∧
      transition final = tlvs.foldl carry (transition st) := by
  induction tlvs generalizing st with
  | nil => exact ⟨st, rfl, rfl⟩
  | cons tlv rest ih =>
    obtain ⟨next, read, effect⟩ := reads tlv List.mem_cons_self
      { st with flag := tlv.flag, seen := tlv.type :: st.seen }
    have seen := (bgpAttrRead_frame bgp peer cap tlv _ next read).1
    obtain ⟨apart, distinctRest⟩ := List.nodup_cons.mp distinct
    obtain ⟨final, others, total⟩ := ih (fun other member => reads other (.tail _ member))
      distinctRest next (by
        intro other member
        rw [seen, List.mem_cons, not_or]
        exact ⟨fun same => apart (List.mem_map.mpr ⟨other, member, same⟩),
          fresh other (.tail _ member)⟩)
    refine ⟨final, ?_, ?_⟩
    · have turn : take bgp peer cap tlv st = (next, none) := by
        unfold take
        rw [if_neg (fresh tlv List.mem_cons_self)]
        exact read
      simp only [takeAll, turn, others]
    · rw [total, effect]
      rfl

/-- An attribute of one of the four types. -/
def isFour (tlv : Tlv) : Bool :=
  match AttrType.ofCode tlv.type with
  | some type => transitional type
  | none => false

theorem foreign_iff : Foreign tlv ↔ isFour tlv = false := by
  unfold isFour
  constructor
  · intro foreign
    rcases code : AttrType.ofCode tlv.type with _ | type
    · rfl
    · exact Bool.eq_false_iff.mpr fun among => foreign type among (AttrType.ofCode_eq code)
  · intro none type among same
    rw [same, AttrType.ofCode_code] at none
    exact Bool.noConfusion (among.symm.trans none)

/-- Only the four count. -/
theorem foldl_carry_filter (tlvs : List Tlv) (t : Transition) :
    tlvs.foldl carry t = (tlvs.filter isFour).foldl carry t := by
  induction tlvs generalizing t with
  | nil => rfl
  | cons tlv rest ih =>
    rw [List.foldl_cons, ih]
    by_cases four : isFour tlv = true
    · rw [List.filter_cons_of_pos four]
      rfl
    · rw [List.filter_cons_of_neg four,
        carry_foreign ((foreign_iff tlv).mpr (Bool.eq_false_iff.mpr four))]

/-! ## Merging -/

/-- A four-octet aggregator counts when the two-octet one is `AS_TRANS`. -/
def Agrees (t : Transition) : Prop :=
  ∀ four, t.as4Aggregator = some four →
    ∃ address, t.aggregator = some (bgpAsTrans.setWidth 32, address)

theorem ignoreAs4Path_agrees {st : ParseState} (agrees : Agrees (transition st)) :
    ignoreAs4Path st = false := by
  unfold ignoreAs4Path
  by_cases four : st.attr.has .as4Aggregator = true
  · obtain ⟨address, two⟩ := agrees (st.as4Aggregator, st.as4AggregatorAddr) (if_pos four)
    by_cases flagged : st.attr.has .aggregator = true
    · have values : ((st.attr.extra.getD .zero).aggregatorAs,
          (st.attr.extra.getD .zero).aggregatorAddr) = (bgpAsTrans.setWidth 32, address) := by
        simpa [transition, aggregatorOf, flagged] using two
      simp [(Prod.mk.inj values).1]
    · simp [flagged]
  · simp [four]

theorem mungeAggregator_agrees {st : ParseState} (agrees : Agrees (transition st)) :
    (mungeAggregator st).aspath = st.attr.aspath ∧
      (mungeAggregator st).has .asPath = st.attr.has .asPath ∧
      aggregatorOf (mungeAggregator st) =
        (transition st).as4Aggregator.orElse fun _ => (transition st).aggregator := by
  unfold mungeAggregator
  by_cases four : st.attr.has .as4Aggregator = true
  · obtain ⟨address, two⟩ := agrees (st.as4Aggregator, st.as4AggregatorAddr) (if_pos four)
    have flagged : st.attr.has .aggregator = true := by
      by_contra missing
      simp [transition, aggregatorOf, missing] at two
    rw [if_pos four, if_pos flagged, ignoreAs4Path_agrees agrees]
    have extra (change : AttrExtra → AttrExtra) :
        (st.attr.withExtra change).extra = some (change (st.attr.extra.getD .zero)) := rfl
    refine ⟨rfl, rfl, ?_⟩
    simp [transition, aggregatorOf, four, flagged, extra]
  · rw [if_neg four]
    refine ⟨rfl, rfl, ?_⟩
    simp [transition, four]

/-- The four-octet attributes are taken where they are there, provided that the
two-octet aggregator beside a four-octet one is `AS_TRANS`. -/
theorem bgpAttrMungeAs4Attrs_merges (old : cap.as4Rcv = false) (st : ParseState)
    (paths : (transition st).aspath = some path) (agrees : Agrees (transition st)) :
    ∃ after, bgpAttrMungeAs4Attrs bgp peer cap st = (after, .proceed) ∧
      after.attr.has .asPath = true ∧
      after.attr.aspath = some (((transition st).as4Path.map (aspathReconcileAs4 path)).getD path) ∧
      aggregatorOf after.attr =
        (transition st).as4Aggregator.orElse fun _ => (transition st).aggregator := by
  have flagged : st.attr.has .asPath = true := by
    by_contra missing
    simp [transition, missing] at paths
  have stored : st.attr.aspath = some path := by simpa [transition, flagged] using paths
  obtain ⟨aspath, flags, aggregator⟩ := mungeAggregator_agrees agrees
  unfold bgpAttrMungeAs4Attrs
  simp only [old, flagged, Bool.false_eq_true, if_false, Bool.not_true, Bool.and_false]
  refine ⟨_, rfl, flags.trans flagged, ?_, aggregator⟩
  rw [aspath, stored]
  unfold mungeAspath
  rw [ignoreAs4Path_agrees agrees]
  by_cases four : st.attr.has .as4Path = true
  · rcases as4Path : st.as4Path with _ | as4path <;> simp [transition, four, as4Path]
  · simp [transition, four]

end Bgpd.As4Transition
