import Bgpd.RefCounts
import Bgpd.UpdateReceive

/-!
# What an UPDATE does to the intern tables

The parsers of the attributes intern what they read: each takes a reference in a
table for its kind of object. `bgp_update_receive` gives these references back with
`bgp_attr_unintern_sub`, but not where `bgp_attr_parse` ends with an error, and there
only the path of an AS4_PATH is given back, and only at some of the exits. Unknown
attributes are interned at the end of a parse, and given back even where that was not
reached. The neighbour's metric is never put back.
-/

namespace Bgpd.AttrTables

open Octets AsPath Attributes Neighbors AttrParse HandlerEffects UpdateReceive RefCounts

/-! ## The tables -/

/-- The content of an object in one of the tables. -/
inductive Interned
  | aspath (path : Aspath)
  | community (values : List U32)
  | ecommunity (values : List (BitVec 64))
  | cluster (values : List U32)
  | transit (octets : List U8)
  deriving DecidableEq, Repr

/-- The reference counts of all tables. -/
abbrev Tables : Type := Interned → Nat

/-- The pointers to objects of the tables that the parser writes. Unknown attributes are
interned at the end. -/
structure Objects where
  aspath : Option Aspath
  as4Path : Option Aspath
  community : Option (List U32)
  ecommunity : Option (List (BitVec 64))
  cluster : Option (List U32)
  transit : Option (List U8)
  deriving DecidableEq, Repr

/-- The pointers of a state. -/
def objects (st : ParseState) : Objects where
  aspath := st.attr.aspath
  as4Path := st.as4Path
  community := st.attr.community
  ecommunity := st.attr.extra.bind AttrExtra.ecommunity
  cluster := st.attr.extra.bind AttrExtra.cluster
  transit := st.attr.extra.bind AttrExtra.transit

/-- What an attribute's type has stored. -/
def Objects.slot (o : Objects) : AttrType → List Interned
  | .asPath => o.aspath.toList.map .aspath
  | .as4Path => o.as4Path.toList.map .aspath
  | .communities => o.community.toList.map .community
  | .extCommunities => o.ecommunity.toList.map .ecommunity
  | .clusterList => o.cluster.toList.map .cluster
  | _ => []

/-- The pointers of the attribute set itself. -/
def Objects.stored (o : Objects) : List Interned :=
  o.slot .asPath ++ o.slot .communities ++ o.slot .extCommunities ++ o.slot .clusterList

/-- The unknown attributes. -/
def Objects.unknown (o : Objects) : List Interned := o.transit.toList.map .transit

variable (bgp : Bgp) (peer : Peer) (cap : PeerCap)

/-- What the parser that the handler of an attribute calls interns: `aspath_parse`,
`community_parse`, `ecommunity_parse` and `cluster_parse`. -/
def interned (tlv : Tlv) : List Interned :=
  match AttrType.ofCode tlv.type with
  | some .asPath =>
    if FlagWord.check tlv.flag attrFlagOptional || !FlagWord.check tlv.flag attrFlagTrans then []
    else (aspathParse tlv.body cap.as4Rcv).toList.map .aspath
  | some .as4Path =>
    if !FlagWord.check tlv.flag attrFlagOptional || !FlagWord.check tlv.flag attrFlagTrans then []
    else (aspathParse tlv.body true).toList.map .aspath
  | some .communities =>
    if tlv.length = 0 then [] else (communityParse tlv.body).toList.map .community
  | some .extCommunities =>
    if tlv.length = 0 then [] else (ecommunityParse tlv.body).toList.map .ecommunity
  | some .clusterList => if tlv.length % 4 ≠ 0 then [] else [.cluster (words tlv.body)]
  | _ => []

/-- One turn of `bgp_attr_parse`, as what it does to the tables. The exits in front of
the handler leave an AS4_PATH where it is, those behind it give it back. -/
def tablesStep (octets : List U8) (st : ParseState) (t : Tables) : Tables :=
  match bgpAttrHeader octets with
  | none => t
  | some (flag, type, length, rest) =>
    if type ∈ st.seen then t
    else if rest.length < length then t
    else
      let tlv : Tlv := ⟨flag, type, length, rest.take length⟩
      let t := takeAll t (interned cap tlv)
      match bgpAttrRead bgp peer cap tlv { st with flag, seen := type :: st.seen } with
      | (st, some _) => giveAll t ((objects st).slot .as4Path)
      | (_, none) => t

/-- The loop of `bgp_attr_parse`, as what it does to the tables. -/
def tablesLoop : Nat → List U8 → ParseState → Tables → Tables
  | fuel + 1, octet :: more, st, t =>
    let t := tablesStep bgp peer cap (octet :: more) st t
    match bgpAttrStep bgp peer cap (octet :: more) st with
    | (_, .inl _) => t
    | (st, .inr rest) => tablesLoop fuel rest st t
  | _, _, _, t => t

/-- A path that is replaced: the old one is given back, the new one interned. -/
def swap (t : Tables) (before after : ParseState) : Tables :=
  takeAll (giveAll t ((objects before).slot .asPath)) ((objects after).slot .asPath)

/-- `bgp_attr_munge_as4_attrs`, as what it does to the tables. -/
def tablesMunge (st : ParseState) (t : Tables) : Tables :=
  if cap.as4Rcv then t
  else if st.attr.has .as4Path && !st.attr.has .asPath then t
  else if !ignoreAs4Path st && st.attr.has .as4Path then
    swap t st (bgpAttrMungeAs4Attrs bgp peer cap st).1
  else t

/-- `bgp_attr_aspath_check`, as what it does to the tables. -/
def tablesAspathCheck (st : ParseState) (t : Tables) : Tables :=
  if (bgpAttrAspathCheck bgp peer st).2 = .proceed ∧ peer.changeLocalAs ≠ 0
      ∧ !peer.localAsNoPrepend then
    swap t st (bgpAttrAspathCheck bgp peer st).1
  else t

/-- `bgp_attr_parse`, as what it does to the tables. -/
def tablesParse (localMed : U32) (octets : List U8) (t : Tables) : Tables :=
  let t := tablesLoop bgp peer cap octets.length octets (.start localMed) t
  match bgpAttrLoop bgp peer cap octets.length octets (.start localMed) with
  | (st, .proceed) =>
    let t := giveAll (tablesMunge bgp peer cap st t) ((objects st).slot .as4Path)
    match bgpAttrMungeAs4Attrs bgp peer cap st with
    | (st, .proceed) =>
      if st.attr.has .asPath then
        let t := tablesAspathCheck bgp peer st t
        match bgpAttrAspathCheck bgp peer st with
        | (st, .proceed) => takeAll t (objects st).unknown
        | _ => t
      else takeAll t (objects st).unknown
    | _ => t
  | _ => t

/-- `bgp_attr_unintern_sub`. An unknown attribute that was not interned has no
references, so whatever object of the table equals it is taken out of the table. -/
def bgpAttrUninternSub (st : ParseState) (ret : ParseRet) (t : Tables) : Tables :=
  let t := giveAll t (objects st).stored
  if ret = .proceed then giveAll t (objects st).unknown else forgetAll t (objects st).unknown

/-- What a call for routes does to the tables: the references that routes give up and
those that they take. -/
structure Exchange where
  gone : List Interned
  new : List Interned

/-- The calls that a message makes, as what they do to the tables. -/
def exchange (routes : RibCall → Exchange) (calls : List RibCall) (t : Tables) : Tables :=
  calls.foldl (fun t call => takeAll (giveAll t (routes call).gone) (routes call).new) t

/-- `bgp_update_receive`, as what it does to the tables, given what its calls do. -/
def tablesReceive (routes : RibCall → Exchange) (localMed : U32) (message : List U8)
    (t : Tables) : Tables :=
  match updateParts message with
  | .error _ => t
  | .ok parts =>
    let t := if parts.attributes = [] then t
      else tablesParse bgp peer cap localMed parts.attributes t
    match (if parts.attributes = [] then (ParseState.start localMed, ParseRet.proceed)
      else bgpAttrParse bgp peer cap localMed parts.attributes) with
    | (_, .error) => t
    | (st, ret) =>
      let parts := { parts with nlri := updateNlri bgp peer cap localMed parts ret }
      if bgpNlriSanityCheck 1 parts.nlri = false then bgpAttrUninternSub st ret t
      else
        bgpAttrUninternSub st ret
          (exchange routes (updateCalls peer parts st (ret = .withdraw)).2 t)

/-! ## What the handlers store -/

/-- The unknown attributes after one more: a transitive optional one is appended. -/
def keepUnknown (transit : Option (List U8)) (tlv : Tlv) : Option (List U8) :=
  if AttrType.ofCode tlv.type = none ∧ FlagWord.check tlv.flag attrFlagOptional = true
      ∧ FlagWord.check tlv.flag attrFlagTrans = true then
    some (transit.getD [] ++
      { tlv with flag := FlagWord.set tlv.flag attrFlagPartial : Tlv }.encode)
  else transit

/-- The pointers after an attribute. -/
def Objects.store (o : Objects) (tlv : Tlv) : Objects :=
  match AttrType.ofCode tlv.type with
  | some .asPath =>
    if FlagWord.check tlv.flag attrFlagOptional || !FlagWord.check tlv.flag attrFlagTrans then o
    else { o with aspath := aspathParse tlv.body cap.as4Rcv }
  | some .as4Path =>
    if !FlagWord.check tlv.flag attrFlagOptional || !FlagWord.check tlv.flag attrFlagTrans then o
    else { o with as4Path := aspathParse tlv.body true }
  | some .communities =>
    { o with community := if tlv.length = 0 then none else communityParse tlv.body }
  | some .extCommunities =>
    { o with ecommunity := if tlv.length = 0 then none else ecommunityParse tlv.body }
  | some .clusterList =>
    if tlv.length % 4 ≠ 0 then o else { o with cluster := some (words tlv.body) }
  | some _ => o
  | none => { o with transit := keepUnknown o.transit tlv }

theorem objects_malformed (type : AttrType) (flag subcode : U8) (data : List U8) (st : ParseState)
    (fetched : Nat) :
    objects (malformed bgp peer type flag subcode data st fetched).state = objects st := by
  unfold malformed bgpAttrMalformed
  dsimp only
  split
  · rfl
  · split <;> first | rfl | (split <;> rfl)

variable {tlv : Tlv}

theorem objects_unknown (unknown : AttrType.ofCode tlv.type = none) (st : ParseState) :
    objects (bgpAttrUnknown bgp peer tlv st).state =
      { objects st with transit := keepUnknown (objects st).transit tlv } := by
  unfold bgpAttrUnknown keepUnknown
  cases optional : FlagWord.check tlv.flag attrFlagOptional with
  | false =>
    rw [if_pos (by rfl), if_neg (by simp)]
    unfold bgpAttrMalformed
    dsimp only
    split
    · rfl
    · split <;> first | rfl | (split <;> rfl)
  | true =>
    cases transitive : FlagWord.check tlv.flag attrFlagTrans with
    | false =>
      rw [if_neg (by decide), if_pos (by rfl), if_neg (by simp)]
    | true =>
      rw [if_neg (by decide), if_neg (by decide), if_pos ⟨unknown, rfl, rfl⟩]
      unfold objects Attr.withExtra
      cases st.attr.extra <;> rfl

variable {attr : Attr}
variable {next : Attr} {octets : List U8} {length : U8}

/-- The next hop is written to other fields. -/
theorem mpReachNexthop_objects (read : mpReachNexthop attr octets length = some next) :
    next.aspath = attr.aspath ∧ next.community = attr.community ∧
      next.extra.bind AttrExtra.ecommunity = attr.extra.bind AttrExtra.ecommunity ∧
      next.extra.bind AttrExtra.cluster = attr.extra.bind AttrExtra.cluster ∧
      next.extra.bind AttrExtra.transit = attr.extra.bind AttrExtra.transit := by
  unfold mpReachNexthop Attr.withExtra at read
  split at read
  · dsimp only at read
    split at read <;> cases read <;> cases attr.extra <;> exact ⟨rfl, rfl, rfl, rfl, rfl⟩
  · cases read
    cases attr.extra <;> exact ⟨rfl, rfl, rfl, rfl, rfl⟩
  · cases read
    cases attr.extra <;> exact ⟨rfl, rfl, rfl, rfl, rfl⟩
  · cases read
    cases attr.extra <;> exact ⟨rfl, rfl, rfl, rfl, rfl⟩
  · cases read

theorem objects_mpReach (tlv : Tlv) (st : ParseState) :
    objects (bgpMpReachParse tlv st).state = objects st := by
  unfold bgpMpReachParse
  dsimp only
  split
  · rfl
  · split
    · rfl
    · split
      · rfl
      · rename_i attr read
        obtain ⟨path, community, ecommunity, cluster, transit⟩ := mpReachNexthop_objects read
        have kept : attr.extra.bind AttrExtra.ecommunity =
              st.attr.extra.bind AttrExtra.ecommunity ∧
            attr.extra.bind AttrExtra.cluster = st.attr.extra.bind AttrExtra.cluster ∧
            attr.extra.bind AttrExtra.transit = st.attr.extra.bind AttrExtra.transit := by
          rw [ecommunity, cluster, transit]
          unfold Attr.withExtra
          cases st.attr.extra <;> exact ⟨rfl, rfl, rfl⟩
        split
        · rfl
        · split
          · rfl
          · split
            · rfl
            · unfold objects
              rw [kept.1, kept.2.1, kept.2.2, path, community]
              rfl

/-- Every handler stores what its parser returns, whether it goes on or not. -/
theorem objects_handle (tlv : Tlv) (st : ParseState) :
    objects (bgpAttrHandle bgp peer cap tlv st).state = (objects st).store cap tlv := by
  unfold bgpAttrHandle Objects.store
  cases named : AttrType.ofCode tlv.type with
  | none => exact objects_unknown bgp peer named st
  | some type =>
    cases type with
    | mpReachNlri => exact objects_mpReach tlv st
    | _ =>
      dsimp only [bgpAttrOrigin, bgpAttrAspath, bgpAttrAs4Path, bgpAttrNexthop, bgpAttrMed,
        bgpAttrLocalPref, bgpAttrAtomic, bgpAttrAggregator, bgpAttrAs4Aggregator, bgpAttrCommunity,
        bgpAttrOriginatorId, bgpAttrClusterList, bgpAttrExtCommunities, bgpMpUnreachParse]
      split_ifs <;> first
        | rfl
        | exact objects_malformed bgp peer _ _ _ _ _ _
        | -- the extra block is made where there was none
          (unfold objects accepted Attr.withExtra; cases st.attr.extra <;> rfl)
        | (refine (objects_malformed bgp peer _ _ _ _ _ _).trans ?_
           unfold objects Attr.withExtra
           cases st.attr.extra <;> rfl)
        | (unfold objects; cases st.attr.extra <;> rfl)

theorem objects_read (tlv : Tlv) (st : ParseState) :
    objects (bgpAttrRead bgp peer cap tlv st).1 = (objects st).store cap tlv := by
  rw [← objects_handle bgp peer cap tlv st]
  unfold bgpAttrRead
  dsimp only
  split
  · rfl
  · rfl
  · split <;> rfl

variable {cap}
variable {type : AttrType}
variable {o : Objects}

/-- An attribute stores nothing in the place of another type. -/
theorem store_other (other : tlv.type ≠ type.code) : (o.store cap tlv).slot type = o.slot type := by
  unfold Objects.store
  cases named : AttrType.ofCode tlv.type with
  | none => rfl
  | some own =>
    have different : own ≠ type := by
      rintro rfl
      exact other (AttrType.ofCode_eq named)
    cases own <;> dsimp only <;> first
      | rfl
      | (split_ifs <;> first | rfl | (cases type <;> first | rfl | exact absurd rfl different))

/-- What it stores in its own place is what it has interned. -/
theorem store_own (own : tlv.type = type.code) (empty : o.slot type = []) :
    (o.store cap tlv).slot type = interned cap tlv := by
  unfold Objects.store interned
  rw [own, AttrType.ofCode_code]
  cases type <;> dsimp only <;> first
    | rfl
    | exact empty
    | (split_ifs <;> first | rfl | exact empty)

/-! ## The attributes in front of the end -/

variable (cap)

theorem malformed_verdict (type : AttrType) (flag subcode : U8) (data : List U8)
    (st st' : ParseState) (fetched : Nat) :
    (malformed bgp peer type flag subcode data st fetched).ret =
      (malformed bgp peer type flag subcode data st' fetched).ret := by
  unfold malformed bgpAttrMalformed
  dsimp only
  split
  · rfl
  · split <;> first | rfl | (split <;> rfl)

theorem mpReachNexthop_isSome (attr attr' : Attr) (octets : List U8) (length : U8) :
    (mpReachNexthop attr octets length).isSome = (mpReachNexthop attr' octets length).isSome := by
  unfold mpReachNexthop
  split <;> first | rfl | (dsimp only; split <;> split <;> rfl)

/-- Whether an attribute is refused does not depend on the state. -/
theorem handle_verdict (tlv : Tlv) (st st' : ParseState) :
    (bgpAttrHandle bgp peer cap tlv st).ret = (bgpAttrHandle bgp peer cap tlv st').ret ∧
      (bgpAttrHandle bgp peer cap tlv st).fetched =
        (bgpAttrHandle bgp peer cap tlv st').fetched := by
  unfold bgpAttrHandle
  cases AttrType.ofCode tlv.type with
  | none =>
    unfold bgpAttrUnknown bgpAttrMalformed
    dsimp only
    split
    · split
      · exact ⟨rfl, rfl⟩
      · split <;> first | exact ⟨rfl, rfl⟩ | (split <;> exact ⟨rfl, rfl⟩)
    · split <;> exact ⟨rfl, rfl⟩
  | some type =>
    cases type with
    | mpReachNlri =>
      have same := mpReachNexthop_isSome
        (st.attr.withExtra fun extra => { extra with mpNexthopLen := getc (tlv.body.drop 3) })
        (st'.attr.withExtra fun extra => { extra with mpNexthopLen := getc (tlv.body.drop 3) })
        (tlv.body.drop 4) (getc (tlv.body.drop 3))
      dsimp only [bgpMpReachParse]
      split
      · exact ⟨rfl, rfl⟩
      · split
        · exact ⟨rfl, rfl⟩
        · split <;> rename_i read <;> rw [read] at same
          · rw [Option.not_isSome_iff_eq_none.mp (Bool.eq_false_iff.mp same.symm)]
            exact ⟨rfl, rfl⟩
          · obtain ⟨attr, read'⟩ := Option.isSome_iff_exists.mp same.symm
            rw [read']
            split_ifs <;> exact ⟨rfl, rfl⟩
    | _ =>
      dsimp only [bgpAttrOrigin, bgpAttrAspath, bgpAttrAs4Path, bgpAttrNexthop, bgpAttrMed,
        bgpAttrLocalPref, bgpAttrAtomic, bgpAttrAggregator, bgpAttrAs4Aggregator, bgpAttrCommunity,
        bgpAttrOriginatorId, bgpAttrClusterList, bgpAttrExtCommunities, bgpMpUnreachParse]
      split_ifs <;> first
        | exact ⟨rfl, rfl⟩
        | exact ⟨malformed_verdict bgp peer _ _ _ _ _ _ _, rfl⟩

theorem read_verdict (tlv : Tlv) (st st' : ParseState) :
    (bgpAttrRead bgp peer cap tlv st).2 = (bgpAttrRead bgp peer cap tlv st').2 := by
  obtain ⟨ret, fetched⟩ := handle_verdict bgp peer cap tlv st st'
  unfold bgpAttrRead
  dsimp only
  rw [ret, fetched]
  split
  · rfl
  · rfl
  · split <;> rfl

variable {bgp peer cap} {tlv : Tlv} {st : ParseState}

/-- An attribute that is refused has interned nothing. -/
theorem interned_refused (refused : (bgpAttrRead bgp peer cap tlv st).2 ≠ none) :
    interned cap tlv = [] := by
  by_contra some_
  refine refused ?_
  have through : (bgpAttrHandle bgp peer cap tlv st).ret = .proceed ∧
      (bgpAttrHandle bgp peer cap tlv st).fetched = tlv.length := by
    unfold interned at some_
    unfold bgpAttrHandle
    cases named : AttrType.ofCode tlv.type with
    | none =>
      rw [named] at some_
      exact absurd rfl some_
    | some type =>
      rw [named] at some_
      cases type with
      | asPath =>
        dsimp only at some_ ⊢
        split_ifs at some_ with bad
        · exact absurd rfl some_
        · unfold bgpAttrAspath
          cases parsed : aspathParse tlv.body cap.as4Rcv with
          | none => simp [parsed] at some_
          | some path =>
            rw [if_neg bad]
            exact ⟨rfl, rfl⟩
      | as4Path =>
        dsimp only at some_ ⊢
        split_ifs at some_ with bad
        · exact absurd rfl some_
        · unfold bgpAttrAs4Path
          cases parsed : aspathParse tlv.body true with
          | none => simp [parsed] at some_
          | some path =>
            rw [if_neg bad]
            exact ⟨rfl, rfl⟩
      | communities =>
        dsimp only at some_ ⊢
        split_ifs at some_ with nothing
        · exact absurd rfl some_
        · unfold bgpAttrCommunity
          cases parsed : communityParse tlv.body with
          | none => simp [parsed] at some_
          | some values =>
            rw [if_neg nothing]
            exact ⟨rfl, rfl⟩
      | extCommunities =>
        dsimp only at some_ ⊢
        split_ifs at some_ with nothing
        · exact absurd rfl some_
        · unfold bgpAttrExtCommunities
          cases parsed : ecommunityParse tlv.body with
          | none => simp [parsed] at some_
          | some values =>
            rw [if_neg nothing]
            exact ⟨rfl, rfl⟩
      | clusterList =>
        dsimp only at some_ ⊢
        split_ifs at some_ with odd
        · exact absurd rfl some_
        · unfold bgpAttrClusterList
          rw [if_neg odd]
          exact ⟨rfl, rfl⟩
      | _ => exact absurd rfl some_
  unfold bgpAttrRead
  dsimp only
  rw [through.1, if_pos through.2]

/-- What has been kept of unknown attributes is kept. -/
theorem store_transit (o : Objects) (tlv : Tlv) :
    (o.store cap tlv).transit = keepUnknown o.transit tlv := by
  unfold Objects.store
  cases named : AttrType.ofCode tlv.type with
  | none => rfl
  | some type =>
    have known : keepUnknown o.transit tlv = o.transit :=
      if_neg fun unknown => by rw [named] at unknown; cases unknown.1
    rw [known]
    cases type <;> dsimp only <;> split_ifs <;> rfl

/-- An unknown attribute that is refused is not kept. -/
theorem keepUnknown_refused (refused : (bgpAttrRead bgp peer cap tlv st).2 ≠ none)
    (transit : Option (List U8)) : keepUnknown transit tlv = transit := by
  refine if_neg fun ⟨unknown, optional, transitive⟩ => refused ?_
  unfold bgpAttrRead bgpAttrHandle bgpAttrUnknown
  rw [unknown, optional, transitive]
  simp

/-- An AS_PATH that is not refused is interned. -/
theorem interned_asPath (named : tlv.type = AttrType.asPath.code)
    (read : (bgpAttrRead bgp peer cap tlv st).2 = none) : interned cap tlv ≠ [] := by
  have proceeded := (bgpAttrRead_proceed bgp peer cap tlv st _ (Prod.ext rfl read)).1
  unfold bgpAttrHandle at proceeded
  unfold interned
  rw [named, AttrType.ofCode_code] at proceeded ⊢
  have gaveUp (subcode : U8) (data : List U8) (st : ParseState) :
      (malformed bgp peer .asPath tlv.flag subcode data st 0).ret ≠ .proceed := by
    rw [malformed_ret bgp peer _ rfl]
    nofun
  dsimp only [bgpAttrAspath] at proceeded ⊢
  split_ifs at proceeded with bad failed
  · exact absurd proceeded (gaveUp _ _ _)
  · exact absurd proceeded (gaveUp _ _ _)
  · rw [if_neg bad]
    cases parsed : aspathParse tlv.body cap.as4Rcv with
    | none => exact absurd (by rw [parsed]; rfl) failed
    | some path => exact List.cons_ne_nil _ _

theorem malformed_attr (type : AttrType) (flag subcode : U8) (data : List U8) (fetched : Nat) :
    (malformed bgp peer type flag subcode data st fetched).state.attr = st.attr := by
  unfold malformed bgpAttrMalformed
  dsimp only
  split
  · rfl
  · split <;> first | rfl | (split <;> rfl)

theorem mpReachNexthop_flag (read : mpReachNexthop attr octets length = some next) :
    next.flag = attr.flag := by
  unfold mpReachNexthop at read
  split at read
  · dsimp only at read
    split at read <;> cases read <;> rfl
  · cases read
    rfl
  · cases read
    rfl
  · cases read
    rfl
  · cases read

theorem accepted_has {fetched : Nat} (different : type ≠ .asPath) :
    (accepted type st attr fetched).state.attr.has .asPath = attr.has .asPath := by
  rw [accepted, Attr.has_mark, decide_eq_false different, Bool.or_false]

theorem has_congr {attr' : Attr} (same : attr.flag = attr'.flag) :
    attr.has type = attr'.has type := by
  unfold Attr.has
  rw [same]

/-- Only an AS_PATH flags one. -/
theorem handle_flagged (other : tlv.type ≠ AttrType.asPath.code) :
    (bgpAttrHandle bgp peer cap tlv st).state.attr.has .asPath = st.attr.has .asPath := by
  unfold bgpAttrHandle
  cases named : AttrType.ofCode tlv.type with
  | none =>
    unfold bgpAttrUnknown bgpAttrMalformed
    dsimp only
    split
    · split
      · rfl
      · split <;> first | rfl | (split <;> rfl)
    · split <;> rfl
  | some type =>
    cases type with
    | asPath => exact absurd (AttrType.ofCode_eq named) other
    | mpReachNlri =>
      dsimp only [bgpMpReachParse]
      split
      · rfl
      · split
        · rfl
        · split
          · rfl
          · rename_i attr read
            have kept : attr.has .asPath = st.attr.has .asPath := by
              rw [Attr.has, mpReachNexthop_flag read]
              rfl
            split_ifs <;> first | exact kept | rfl
    | _ =>
      dsimp only [bgpAttrOrigin, bgpAttrAs4Path, bgpAttrNexthop, bgpAttrMed, bgpAttrLocalPref,
        bgpAttrAtomic, bgpAttrAggregator, bgpAttrAs4Aggregator, bgpAttrCommunity,
        bgpAttrOriginatorId, bgpAttrClusterList, bgpAttrExtCommunities, bgpMpUnreachParse]
      split_ifs
      all_goals try rw [malformed_attr]
      all_goals try rw [accepted_has (by decide)]
      all_goals exact has_congr rfl

theorem read_flagged (other : tlv.type ≠ AttrType.asPath.code) :
    (bgpAttrRead bgp peer cap tlv st).1.attr.has .asPath = st.attr.has .asPath := by
  rw [← @handle_flagged bgp peer cap tlv st other]
  unfold bgpAttrRead
  dsimp only
  split
  · rfl
  · rfl
  · split <;> rfl

theorem refused_flagged (refused : (bgpAttrRead bgp peer cap tlv st).2 ≠ none) :
    (bgpAttrRead bgp peer cap tlv st).1.attr.has .asPath = st.attr.has .asPath := by
  by_cases own : tlv.type = AttrType.asPath.code
  · have nothing := interned_refused refused
    have dispatch : bgpAttrHandle bgp peer cap tlv st = bgpAttrAspath bgp peer cap tlv st := by
      simp only [bgpAttrHandle, own, AttrType.ofCode_code]
    have kept : (bgpAttrAspath bgp peer cap tlv st).state.attr.has .asPath =
        st.attr.has .asPath := by
      unfold interned at nothing
      rw [own, AttrType.ofCode_code] at nothing
      dsimp only at nothing
      unfold bgpAttrAspath
      split_ifs at nothing ⊢ with bad
      · rw [malformed_attr]
      · have failed : aspathParse tlv.body cap.as4Rcv = none :=
          Option.toList_eq_nil_iff.mp (List.map_eq_nil_iff.mp nothing)
        rw [failed, if_pos Option.isNone_none, malformed_attr]
        exact has_congr rfl
    rw [← kept, ← dispatch]
    unfold bgpAttrRead
    dsimp only
    split
    · rfl
    · rfl
    · split <;> rfl
  · exact read_flagged own

/-- What an attribute does to the neighbour's metric. -/
def heard (localMed : U32) (tlv : Tlv) : U32 :=
  if tlv.type = AttrType.localPref.code ∧ localMed = 0 then localPrefValue tlv else localMed

theorem read_heard (read : (bgpAttrRead bgp peer cap tlv st).2 = none) :
    (bgpAttrRead bgp peer cap tlv st).1.localMed = heard st.localMed tlv := by
  have effect := bgpAttrRead_metric bgp peer cap tlv st _ (Prod.ext rfl read)
  have same : (bgpAttrRead bgp peer cap tlv st).1.localMed = (absorb (metric st) tlv).localMed :=
    congrArg Metric.localMed effect
  rw [same]
  unfold absorb heard metric
  by_cases isMed : tlv.type = AttrType.multiExitDisc.code
  · have other : ¬ (tlv.type = AttrType.localPref.code ∧ st.localMed = 0) := by
      rintro ⟨isPref, _⟩
      rw [isMed] at isPref
      exact absurd isPref (by decide)
    rw [if_pos isMed, if_neg other]
  · rw [if_neg isMed]
    by_cases isPref : tlv.type = AttrType.localPref.code
    · by_cases fresh : st.localMed = 0
      · rw [if_pos isPref, if_pos fresh, if_pos ⟨isPref, fresh⟩]
      · rw [if_pos isPref, if_neg fresh, if_neg fun both => fresh both.2]
    · rw [if_neg isPref, if_neg fun both => isPref both.1]

/-- A preference is fetched, or the metric stays. -/
theorem bgpAttrLocalPref_fetched (tlv : Tlv) (st : ParseState) :
    ((bgpAttrLocalPref tlv st).ret = .proceed ∧ (bgpAttrLocalPref tlv st).fetched = tlv.length) ∨
      (bgpAttrLocalPref tlv st).state.localMed = st.localMed := by
  by_cases optional : FlagWord.check tlv.flag attrFlagOptional = true
  · right
    unfold bgpAttrLocalPref
    rw [if_pos optional]
    rfl
  · by_cases local_ : (!FlagWord.check tlv.flag attrFlagTrans) = true
    · right
      unfold bgpAttrLocalPref
      rw [if_neg optional, if_pos local_]
      rfl
    · unfold bgpAttrLocalPref
      rw [if_neg optional, if_neg local_]
      by_cases whole : tlv.length = 4
      · left
        split_ifs <;> exact ⟨rfl, whole.symm⟩
      · right
        rw [if_neg whole]
        split_ifs with fresh
        · exact fresh.symm
        · rfl

/-- A refused attribute leaves the metric as it is. -/
theorem read_refused (refused : (bgpAttrRead bgp peer cap tlv st).2 ≠ none) :
    (bgpAttrRead bgp peer cap tlv st).1.localMed = st.localMed := by
  have same : (bgpAttrRead bgp peer cap tlv st).1.localMed =
      (bgpAttrHandle bgp peer cap tlv st).state.localMed := by
    unfold bgpAttrRead
    dsimp only
    split
    · rfl
    · rfl
    · split <;> rfl
  rw [same]
  by_cases isPref : tlv.type = AttrType.localPref.code
  · have dispatch : bgpAttrHandle bgp peer cap tlv st = bgpAttrLocalPref tlv st := by
      simp only [bgpAttrHandle, isPref, AttrType.ofCode_code]
    rw [dispatch]
    refine (bgpAttrLocalPref_fetched tlv st).resolve_left fun both => refused ?_
    obtain ⟨proceeded, fetched⟩ := both
    unfold bgpAttrRead
    rw [dispatch]
    dsimp only
    rw [proceeded, if_pos fetched]
  · by_cases isMed : tlv.type = AttrType.multiExitDisc.code
    · unfold bgpAttrHandle
      rw [isMed, AttrType.ofCode_code]
      dsimp only [bgpAttrMed]
      split_ifs
      · rfl
      · unfold malformed bgpAttrMalformed
        rw [AttrType.ofCode_code]
        dsimp only
        split <;> rfl
      · rfl
    · exact congrArg Metric.localMed (bgpAttrHandle_keeps bgp peer cap tlv st isMed isPref).metric

end Bgpd.AttrTables
