import Bgpd.AttrTables

/-!
# What a rejected UPDATE leaves behind

Whether an attribute is refused depends on the attribute alone. So the attributes in
front of the place where a parse ends can be read off the message, and with them what
the message has interned by then and what it has made of the neighbour's metric. A
rejected message leaves a trace exactly when one of these has interned an object that
its exit does not give back, or has set the metric.
-/

namespace Bgpd.RejectedUpdate

open Octets AsPath Attributes Neighbors AttrParse HandlerEffects UpdateReceive RefCounts AttrTables

variable (bgp : Bgp) (peer : Peer) (cap : PeerCap)

/-! ## The attributes in front of the end -/

/-- Where the loop of `bgp_attr_parse` stops: in front of a handler, behind one, or at
the end of the section. -/
inductive Stop
  | framing
  | handler (ret : ParseRet)
  | finished
  deriving DecidableEq, Repr

/-- What the loop returns there. -/
def Stop.ret : Stop → ParseRet
  | .framing => .error
  | .handler ret => ret
  | .finished => .proceed

/-- The attributes that the loop gets through, given the types that were met, and where
it stops. -/
def scan : Nat → List U8 → List U8 → List Tlv × Stop
  | _, [], _ => ([], .finished)
  | 0, _ :: _, _ => ([], .framing)
  | fuel + 1, octet :: more, seen =>
    match bgpAttrHeader (octet :: more) with
    | none => ([], .framing)
    | some (flag, type, length, rest) =>
      if type ∈ seen ∨ rest.length < length then ([], .framing)
      else
        let tlv : Tlv := ⟨flag, type, length, rest.take length⟩
        match (bgpAttrRead bgp peer cap tlv (.start 0)).2 with
        | some ret => ([], .handler ret)
        | none =>
          let behind := scan fuel (rest.drop length) (type :: seen)
          (tlv :: behind.1, behind.2)

variable {bgp peer cap}
variable {localMed : U32} {octets : List U8} {t after : Tables}

/-- What the attributes in front have made of a state. -/
structure Scanned (cap : PeerCap) (st final : ParseState) (front : List Tlv) : Prop where
  slots : ∀ type, (objects final).slot type = (objects st).slot type ++
    (front.filter fun tlv => tlv.type = type.code).flatMap (interned cap)
  flagged : final.attr.has .asPath = true →
    st.attr.has .asPath = true ∨ ∃ tlv ∈ front, tlv.type = AttrType.asPath.code
  transit : (objects final).transit = front.foldl keepUnknown (objects st).transit
  localMed : final.localMed = front.foldl heard st.localMed

/-- Types that were not met have stored nothing. -/
def Unmet (st : ParseState) : Prop :=
  ∀ type : AttrType, type.code ∉ st.seen → (objects st).slot type = []

variable {st final : ParseState}

theorem Scanned.same (attr : final.attr = st.attr) (as4Path : final.as4Path = st.as4Path)
    (localMed : final.localMed = st.localMed) : Scanned cap st final [] := by
  have stored : objects final = objects st := by
    unfold objects
    rw [attr, as4Path]
  exact ⟨fun type => by rw [stored]; exact (List.append_nil _).symm,
    fun held => Or.inl (attr ▸ held), congrArg Objects.transit stored, localMed⟩

variable {tlv : Tlv}

/-- One attribute that is got through. -/
theorem scanned_read (unmet : Unmet st) (fresh : tlv.type ∉ st.seen) {next : ParseState}
    (read : bgpAttrRead bgp peer cap tlv { st with flag := tlv.flag, seen := tlv.type :: st.seen } =
      (next, none)) : Scanned cap st next [tlv] ∧ Unmet next ∧ next.seen = tlv.type :: st.seen := by
  obtain ⟨seen, _⟩ := bgpAttrRead_frame bgp peer cap tlv _ next read
  have stored : objects next = (objects st).store cap tlv := by
    rw [← show _ = next from congrArg Prod.fst read]
    exact objects_read bgp peer cap tlv _
  have verdict : (bgpAttrRead bgp peer cap tlv
      { st with flag := tlv.flag, seen := tlv.type :: st.seen }).2 = none := by rw [read]
  have metric := read_heard verdict
  rw [read] at metric
  have slots (type : AttrType) : (objects next).slot type = (objects st).slot type ++
      ([tlv].filter fun tlv => tlv.type = type.code).flatMap (interned cap) := by
    rw [stored]
    by_cases own : tlv.type = type.code
    · have empty := unmet type (own ▸ fresh)
      rw [store_own own empty, List.filter_singleton, decide_eq_true own, empty]
      exact (List.append_nil _).symm
    · rw [store_other own, List.filter_singleton, decide_eq_false own]
      exact (List.append_nil _).symm
  have transit : (objects next).transit = keepUnknown (objects st).transit tlv := by
    rw [stored, store_transit]
  refine ⟨⟨slots, fun held => ?_, transit, metric⟩, fun type outside => ?_, seen⟩
  · by_cases own : tlv.type = AttrType.asPath.code
    · exact Or.inr ⟨tlv, List.mem_singleton_self tlv, own⟩
    · have same := @read_flagged bgp peer cap tlv
        { st with flag := tlv.flag, seen := tlv.type :: st.seen } own
      rw [read] at same
      exact Or.inl (same.symm.trans held)
  · rw [seen] at outside
    rw [stored, store_other fun own => outside (own ▸ List.mem_cons_self)]
    exact unmet type fun before => outside (.tail _ before)

variable {front : List Tlv}

theorem Scanned.trans {next : ParseState} {behind : List Tlv} (first : Scanned cap st next front)
    (second : Scanned cap next final behind) : Scanned cap st final (front ++ behind) := by
  refine ⟨fun type => ?_, fun held => ?_, ?_, ?_⟩
  · rw [second.slots, first.slots, List.filter_append, List.flatMap_append, List.append_assoc]
  · rcases second.flagged held with before | ⟨tlv, among, named⟩
    · refine (first.flagged before).imp_right ?_
      rintro ⟨tlv, among, named⟩
      exact ⟨tlv, List.mem_append_left _ among, named⟩
    · exact Or.inr ⟨tlv, List.mem_append_right _ among, named⟩
  · rw [second.transit, first.transit, List.foldl_append]
  · rw [second.localMed, first.localMed, List.foldl_append]

/-- An attribute that is refused leaves nothing. -/
theorem scanned_refused {ret : ParseRet} (unmet : Unmet st) (fresh : tlv.type ∉ st.seen)
    (read : bgpAttrRead bgp peer cap tlv { st with flag := tlv.flag, seen := tlv.type :: st.seen } =
      (final, some ret)) : Scanned cap st final [] := by
  have refused : (bgpAttrRead bgp peer cap tlv
      { st with flag := tlv.flag, seen := tlv.type :: st.seen }).2 ≠ none := by
    rw [read]
    nofun
  have stored : objects final = (objects st).store cap tlv := by
    rw [← show _ = final from congrArg Prod.fst read]
    exact objects_read bgp peer cap tlv _
  have flagged := refused_flagged refused
  have metric := read_refused refused
  rw [read] at flagged metric
  have transit : (objects final).transit = (objects st).transit := by
    rw [stored, store_transit, keepUnknown_refused refused]
  refine ⟨fun type => ?_, fun held => Or.inl (flagged.symm.trans held), transit, metric⟩
  rw [stored]
  by_cases own : tlv.type = type.code
  · have empty := unmet type (own ▸ fresh)
    rw [store_own own empty, interned_refused refused, empty]
    rfl
  · rw [store_other own]
    exact (List.append_nil _).symm

/-! ## The loop -/

/-- What the loop has done to the tables where it stops. -/
def loaded (cap : PeerCap) (t : Tables) (front : List Tlv) (stop : Stop) (final : ParseState) :
    Tables :=
  let t := takeAll t (front.flatMap (interned cap))
  match stop with
  | .handler _ => giveAll t ((objects final).slot .as4Path)
  | _ => t

theorem loop_scan (fuel : Nat) (octets : List U8) (st : ParseState) (t : Tables)
    (unmet : Unmet st) :
    let final := bgpAttrLoop bgp peer cap fuel octets st
    let scanned := scan bgp peer cap fuel octets st.seen
    Scanned cap st final.1 scanned.1 ∧ final.2 = scanned.2.ret ∧
      tablesLoop bgp peer cap fuel octets st t = loaded cap t scanned.1 scanned.2 final.1 := by
  induction fuel generalizing octets st t with
  | zero =>
    cases octets with
    | nil => exact ⟨.same rfl rfl rfl, rfl, rfl⟩
    | cons octet more => exact ⟨.same rfl rfl rfl, rfl, rfl⟩
  | succ fuel ih =>
    cases octets with
    | nil => exact ⟨.same rfl rfl rfl, rfl, rfl⟩
    | cons octet more =>
      unfold bgpAttrLoop scan tablesLoop bgpAttrStep tablesStep
      cases header : bgpAttrHeader (octet :: more) with
      | none => exact ⟨.same rfl rfl rfl, rfl, rfl⟩
      | some fields =>
        obtain ⟨flag, type, length, rest⟩ := fields
        by_cases met : type ∈ st.seen
        · simp only [if_pos met, if_pos (Or.inl met)]
          exact ⟨.same rfl rfl rfl, rfl, rfl⟩
        · by_cases short : rest.length < length
          · simp only [if_neg met, if_pos short, if_pos (Or.inr short)]
            exact ⟨.same rfl rfl rfl, rfl, rfl⟩
          · have framed : ¬ (type ∈ st.seen ∨ rest.length < length) := by
              rintro (met' | short')
              · exact met met'
              · exact short short'
            simp only [if_neg met, if_neg short, if_neg framed]
            have verdict := read_verdict bgp peer cap ⟨flag, type, length, rest.take length⟩
              { st with flag, seen := type :: st.seen } (.start 0)
            rw [← verdict]
            cases read : bgpAttrRead bgp peer cap ⟨flag, type, length, rest.take length⟩
              { st with flag, seen := type :: st.seen } with
            | mk next ret =>
              cases ret with
              | some ret =>
                have left := scanned_refused unmet met read
                have nothing :=
                  @interned_refused bgp peer cap ⟨flag, type, length, rest.take length⟩
                  { st with flag, seen := type :: st.seen }
                    (by rw [read]; exact Option.some_ne_none ret)
                rw [nothing]
                exact ⟨left, rfl, rfl⟩
              | none =>
                obtain ⟨left, unmet', seen⟩ := scanned_read unmet met read
                have behind := ih (rest.drop length) next
                  (takeAll t (interned cap ⟨flag, type, length, rest.take length⟩)) unmet'
                rw [seen] at behind
                obtain ⟨after, ret, tables⟩ := behind
                refine ⟨left.trans after, ret, tables.trans ?_⟩
                unfold loaded
                rw [List.flatMap_cons]
                unfold takeAll
                rw [List.foldl_append]

/-- The attributes that the loop gets through are not refused. -/
theorem scan_read {fuel : Nat} {seen : List U8}
    (among : tlv ∈ (scan bgp peer cap fuel octets seen).1) :
    (bgpAttrRead bgp peer cap tlv (.start 0)).2 = none := by
  induction fuel generalizing octets seen with
  | zero => cases octets <;> cases among
  | succ fuel ih =>
    cases octets with
    | nil => cases among
    | cons octet more =>
      unfold scan at among
      split at among
      · cases among
      · dsimp only at among
        split at among
        · cases among
        · split at among
          · cases among
          · rename_i read
            rcases List.mem_cons.mp among with rfl | behind
            · exact read
            · exact ih behind

theorem scan_handler {fuel : Nat} {seen : List U8} {ret : ParseRet}
    (stop : (scan bgp peer cap fuel octets seen).2 = .handler ret) : ret ≠ .proceed := by
  induction fuel generalizing octets seen with
  | zero => cases octets <;> cases stop
  | succ fuel ih =>
    cases octets with
    | nil => cases stop
    | cons octet more =>
      unfold scan at stop
      split at stop
      · cases stop
      · dsimp only at stop
        split at stop
        · cases stop
        · split at stop
          · rename_i read
            cases stop
            unfold bgpAttrRead at read
            dsimp only at read
            split at read
            · cases read
              nofun
            · cases read
              nofun
            · split at read <;> cases read
              nofun
          · exact ih stop

/-! ## Behind the loop -/

/-- The types whose attributes are interned. -/
def internedTypes : List AttrType :=
  [.asPath, .communities, .extCommunities, .clusterList, .as4Path]

theorem interned_type (filled : interned cap tlv ≠ []) :
    ∃ type ∈ internedTypes, tlv.type = type.code := by
  unfold interned at filled
  cases named : AttrType.ofCode tlv.type with
  | none =>
    rw [named] at filled
    exact absurd rfl filled
  | some type =>
    rw [named] at filled
    refine ⟨type, ?_, AttrType.ofCode_eq named⟩
    cases type <;> first | decide | exact absurd rfl filled

/-- The objects that were interned, by the types that did it. -/
theorem interned_count (front : List Tlv) (content : Interned) :
    (front.flatMap (interned cap)).count content =
      (internedTypes.flatMap fun type =>
        (front.filter fun tlv => tlv.type = type.code).flatMap (interned cap)).count content := by
  induction front with
  | nil => rfl
  | cons tlv later ih =>
    rw [List.flatMap_cons, List.count_append, ih]
    by_cases nothing : interned cap tlv = []
    · have same (type : AttrType) :
          ((tlv :: later).filter fun tlv => tlv.type = type.code).flatMap (interned cap) =
            (later.filter fun tlv => tlv.type = type.code).flatMap (interned cap) := by
        rw [List.filter_cons]
        split
        · rw [List.flatMap_cons, nothing, List.nil_append]
        · rfl
      simp [same, nothing]
    · obtain ⟨type, kind, named⟩ := interned_type nothing
      have own (other : AttrType) :
          (((tlv :: later).filter fun tlv => tlv.type = other.code).flatMap (interned cap)).count
            content = (if other = type then (interned cap tlv).count content else 0) +
              ((later.filter fun tlv => tlv.type = other.code).flatMap (interned cap)).count
                content := by
        rw [List.filter_cons]
        by_cases same : other = type
        · have here : tlv.type = other.code := same ▸ named
          rw [if_pos same, decide_eq_true here, if_pos rfl, List.flatMap_cons, List.count_append]
        · have apart : tlv.type ≠ other.code := by
            intro equal
            rw [named] at equal
            have decoded := congrArg AttrType.ofCode equal
            rw [AttrType.ofCode_code, AttrType.ofCode_code] at decoded
            exact same (Option.some.inj decoded).symm
          rw [if_neg same, decide_eq_false apart, if_neg Bool.false_ne_true, Nat.zero_add]
      simp only [internedTypes, List.flatMap_cons, List.flatMap_nil, List.append_nil,
        List.count_append, own]
      simp only [internedTypes, List.mem_cons, List.not_mem_nil, or_false] at kind
      rcases kind with rfl | rfl | rfl | rfl | rfl <;> simp <;> omega

/-- The state after the loop holds what was interned. -/
theorem loop_owes (t : Tables) (scanned : Scanned cap (.start localMed) final front) :
    Owes t (takeAll t (front.flatMap (interned cap)))
      ((objects final).stored ++ (objects final).slot .as4Path) := by
  have slots (type : AttrType) : (objects final).slot type =
      (front.filter fun tlv => tlv.type = type.code).flatMap (interned cap) := by
    rw [scanned.slots]
    cases type <;> rfl
  refine ((Owes.refl t).takeAll _).congr fun content => ?_
  rw [List.nil_append, interned_count]
  unfold Objects.stored internedTypes
  simp only [slots, List.flatMap_cons, List.flatMap_nil, List.append_nil, List.count_append]
  omega

/-- Nothing was stored for a type exactly when its attribute interned nothing. -/
theorem stored_nil_iff (scanned : Scanned cap (.start localMed) final front) :
    (objects final).stored = [] ↔
      ∀ tlv ∈ front, tlv.type = AttrType.as4Path.code ∨ interned cap tlv = [] := by
  have slots (type : AttrType) : (objects final).slot type = [] ↔
      ∀ tlv ∈ front, tlv.type = type.code → interned cap tlv = [] := by
    rw [scanned.slots]
    have start : (objects (ParseState.start localMed)).slot type = [] := by cases type <;> rfl
    rw [start, List.nil_append, List.flatMap_eq_nil_iff]
    simp [decide_eq_true_eq, and_imp]
  unfold Objects.stored
  simp only [List.append_eq_nil_iff, slots]
  constructor
  · rintro ⟨⟨⟨path, community⟩, ecommunity⟩, cluster⟩ tlv among
    by_cases nothing : interned cap tlv = []
    · exact Or.inr nothing
    · obtain ⟨type, kind, named⟩ := interned_type nothing
      simp only [internedTypes, List.mem_cons, List.not_mem_nil, or_false] at kind
      rcases kind with rfl | rfl | rfl | rfl | rfl
      · exact Or.inr (path tlv among named)
      · exact Or.inr (community tlv among named)
      · exact Or.inr (ecommunity tlv among named)
      · exact Or.inr (cluster tlv among named)
      · exact Or.inl named
  · intro each
    have other {type : AttrType} (different : type.code ≠ AttrType.as4Path.code) (tlv : Tlv)
        (among : tlv ∈ front) (named : tlv.type = type.code) : interned cap tlv = [] :=
      (each tlv among).resolve_left fun same => different (named.symm.trans same)
    exact ⟨⟨⟨other (by decide), other (by decide)⟩, other (by decide)⟩, other (by decide)⟩

/-- The second state differs in the path at most. -/
def Repathed (st final : ParseState) : Prop :=
  objects final = { objects st with aspath := final.attr.aspath }

theorem Repathed.refl (st : ParseState) : Repathed st st := rfl

theorem owes_swap {extra : List Interned} (repathed : Repathed st final)
    (owes : Owes t after ((objects st).stored ++ extra)) :
    Owes t (swap after st final) ((objects final).stored ++ extra) := by
  have old : ((objects st).stored ++ extra).Perm
      (((objects st).slot .communities ++ (objects st).slot .extCommunities ++
        (objects st).slot .clusterList ++ extra) ++ (objects st).slot .asPath) := by
    unfold Objects.stored
    simp only [List.append_assoc]
    exact List.perm_append_comm.trans (by simp only [List.append_assoc]; rfl)
  refine ((owes.perm old).giveAll.takeAll _).perm ?_
  rw [show (objects st).slot .communities = (objects final).slot .communities by rw [repathed]; rfl,
    show (objects st).slot .extCommunities = (objects final).slot .extCommunities by
      rw [repathed]; rfl,
    show (objects st).slot .clusterList = (objects final).slot .clusterList by rw [repathed]; rfl]
  unfold Objects.stored
  exact List.perm_append_comm.trans (by simp only [List.append_assoc]; rfl)

theorem bgpAttrMalformed_attr (type flag subcode : U8) (data : List U8) (st : ParseState) :
    (bgpAttrMalformed bgp peer type flag subcode data st).1.attr = st.attr ∧
      (bgpAttrMalformed bgp peer type flag subcode data st).1.as4Path = st.as4Path ∧
      (bgpAttrMalformed bgp peer type flag subcode data st).1.localMed = st.localMed := by
  unfold bgpAttrMalformed
  split
  · exact ⟨rfl, rfl, rfl⟩
  · split <;> first | exact ⟨rfl, rfl, rfl⟩ | (split <;> exact ⟨rfl, rfl, rfl⟩)

theorem Repathed.of_attr (attr : final.attr = st.attr) (as4Path : final.as4Path = st.as4Path) :
    Repathed st final := by
  unfold Repathed objects
  rw [attr, as4Path]

theorem mungeAggregator_frame (st : ParseState) :
    (mungeAggregator st).aspath = st.attr.aspath ∧
      (mungeAggregator st).community = st.attr.community ∧
      (mungeAggregator st).extra.bind AttrExtra.ecommunity =
        st.attr.extra.bind AttrExtra.ecommunity ∧
      (mungeAggregator st).extra.bind AttrExtra.cluster = st.attr.extra.bind AttrExtra.cluster ∧
      (mungeAggregator st).extra.bind AttrExtra.transit =
        st.attr.extra.bind AttrExtra.transit := by
  unfold mungeAggregator Attr.withExtra Attr.mark
  split_ifs <;> cases st.attr.extra <;> exact ⟨rfl, rfl, rfl, rfl, rfl⟩

theorem munge_repathed (st : ParseState) :
    Repathed st (bgpAttrMungeAs4Attrs bgp peer cap st).1 ∧
      (bgpAttrMungeAs4Attrs bgp peer cap st).1.localMed = st.localMed := by
  unfold bgpAttrMungeAs4Attrs
  split_ifs
  · exact ⟨.refl st, rfl⟩
  · obtain ⟨attr, as4Path, localMed⟩ := @bgpAttrMalformed_attr bgp peer AttrType.asPath.code st.flag
      notifyUpdateMalAttr [] st
    exact ⟨.of_attr attr as4Path, localMed⟩
  · obtain ⟨_, community, ecommunity, cluster, transit⟩ := mungeAggregator_frame st
    refine ⟨?_, rfl⟩
    unfold Repathed objects
    rw [community, ecommunity, cluster, transit]

theorem check_repathed (st : ParseState) :
    Repathed st (bgpAttrAspathCheck bgp peer st).1 ∧
      (bgpAttrAspathCheck bgp peer st).1.localMed = st.localMed := by
  obtain ⟨attr, as4Path, localMed⟩ := @bgpAttrMalformed_attr bgp peer AttrType.asPath.code st.flag
    notifyUpdateMalAsPath [] st
  unfold bgpAttrAspathCheck
  dsimp only
  split_ifs
  · exact ⟨.of_attr attr as4Path, localMed⟩
  · exact ⟨.of_attr attr as4Path, localMed⟩
  · exact ⟨rfl, rfl⟩
  · exact ⟨.refl st, rfl⟩

theorem munge_refused (refused : (bgpAttrMungeAs4Attrs bgp peer cap st).2 ≠ .proceed) :
    objects (bgpAttrMungeAs4Attrs bgp peer cap st).1 = objects st := by
  obtain ⟨attr, as4Path, _⟩ := @bgpAttrMalformed_attr bgp peer AttrType.asPath.code st.flag
    notifyUpdateMalAttr [] st
  revert refused
  unfold bgpAttrMungeAs4Attrs objects
  split_ifs
  · exact fun _ => rfl
  · intro _
    rw [attr, as4Path]
  · exact fun refused => absurd rfl refused

/-- Merging the paths leaves one where there was one, and flags none. -/
theorem munge_aspath (st : ParseState) :
    (bgpAttrMungeAs4Attrs bgp peer cap st).1.attr.has .asPath = st.attr.has .asPath ∧
      (st.attr.aspath.isSome = true →
        (bgpAttrMungeAs4Attrs bgp peer cap st).1.attr.aspath.isSome = true) := by
  obtain ⟨attr, _, _⟩ := @bgpAttrMalformed_attr bgp peer AttrType.asPath.code st.flag
    notifyUpdateMalAttr [] st
  unfold bgpAttrMungeAs4Attrs
  split_ifs
  · exact ⟨rfl, id⟩
  · rw [attr]
    exact ⟨rfl, id⟩
  · refine ⟨?_, ?_⟩
    · have kept : (mungeAggregator st).has .asPath = st.attr.has .asPath := by
        unfold mungeAggregator
        split_ifs
        · rfl
        · exact Attr.has_withExtra _ _ _
        · rw [Attr.has_mark, Attr.has_withExtra, decide_eq_false (by nofun), Bool.or_false]
        · rfl
      rw [← kept]
      exact has_congr rfl
    · intro held
      obtain ⟨path, held⟩ := Option.isSome_iff_exists.mp held
      dsimp only
      rw [(mungeAggregator_frame st).1, held]
      unfold mungeAspath
      split
      · split <;> rfl
      · rfl

/-- The check keeps the path of what it refuses. -/
theorem check_refused (refused : (bgpAttrAspathCheck bgp peer st).2 ≠ .proceed) :
    (bgpAttrAspathCheck bgp peer st).1.attr = st.attr := by
  have kept := (@bgpAttrMalformed_attr bgp peer AttrType.asPath.code st.flag
    notifyUpdateMalAsPath [] st).1
  revert refused
  unfold bgpAttrAspathCheck
  dsimp only
  split_ifs
  · exact fun _ => kept
  · exact fun _ => kept
  · exact fun refused => absurd rfl refused
  · exact fun _ => rfl

theorem owes_munge (owes : Owes t after ((objects st).stored ++ (objects st).slot .as4Path)) :
    let final := (bgpAttrMungeAs4Attrs bgp peer cap st).1
    Owes t (giveAll (tablesMunge bgp peer cap st after) ((objects st).slot .as4Path))
      (objects final).stored := by
  intro final
  have repathed : Repathed st final := (munge_repathed st).1
  have unchanged (path : final.attr.aspath = st.attr.aspath) :
      Owes t after ((objects final).stored ++ (objects st).slot .as4Path) := by
    have same : objects final = objects st := by
      rw [show objects final = _ from repathed, path]
      rfl
    rw [same]
    exact owes
  refine Owes.giveAll ?_
  unfold tablesMunge
  by_cases four : cap.as4Rcv = true
  · rw [if_pos four]
    refine unchanged ?_
    simp only [final, bgpAttrMungeAs4Attrs, if_pos four]
  · rw [if_neg four]
    by_cases alone : (st.attr.has .as4Path && !st.attr.has .asPath) = true
    · rw [if_pos alone]
      refine unchanged ?_
      simp only [final, bgpAttrMungeAs4Attrs, if_neg four, if_pos alone]
      exact congrArg Attr.aspath (bgpAttrMalformed_attr _ _ _ _ _).1
    · rw [if_neg alone]
      by_cases merged : (!ignoreAs4Path st && st.attr.has .as4Path) = true
      · rw [if_pos merged]
        exact owes_swap repathed owes
      · rw [if_neg merged]
        refine unchanged ?_
        simp only [final, bgpAttrMungeAs4Attrs, if_neg four, if_neg alone]
        unfold mungeAspath
        rw [if_neg merged]
        exact (mungeAggregator_frame st).1

theorem owes_check (owes : Owes t after (objects st).stored) :
    Owes t (tablesAspathCheck bgp peer st after)
      (objects (bgpAttrAspathCheck bgp peer st).1).stored := by
  have repathed := (@check_repathed bgp peer st).1
  unfold tablesAspathCheck
  split_ifs with replaced
  · have swapped := @owes_swap t after st _ [] repathed (by rw [List.append_nil]; exact owes)
    rw [List.append_nil] at swapped
    exact swapped
  · have path : (bgpAttrAspathCheck bgp peer st).1.attr.aspath = st.attr.aspath := by
      have kept := congrArg Attr.aspath (@bgpAttrMalformed_attr bgp peer AttrType.asPath.code
        st.flag notifyUpdateMalAsPath [] st).1
      revert replaced
      unfold bgpAttrAspathCheck
      dsimp only
      split_ifs with confed first prepend
      · exact fun _ => kept
      · exact fun _ => kept
      · exact fun replaced => absurd ⟨rfl, prepend⟩ replaced
      · exact fun _ => rfl
    rw [show objects (bgpAttrAspathCheck bgp peer st).1 = _ from repathed, path]
    exact owes

/-! ## The parse -/

/-- The attributes in front of the end of a section, and where its parse stops. -/
def scanned (bgp : Bgp) (peer : Peer) (cap : PeerCap) (octets : List U8) : List Tlv × Stop :=
  scan bgp peer cap octets.length octets []

/-- What a message that is refused for its attributes has given back is nothing but the
path of an AS4_PATH, and that only behind the framing of an attribute. -/
def LeavesNothing (bgp : Bgp) (peer : Peer) (cap : PeerCap) (octets : List U8) : Prop :=
  ∀ tlv ∈ (scanned bgp peer cap octets).1,
    interned cap tlv = [] ∨
      tlv.type = AttrType.as4Path.code ∧ (scanned bgp peer cap octets).2 ≠ .framing

theorem unmet_start (localMed : U32) : Unmet (.start localMed) := fun type _ => by
  cases type <;> rfl

/-- What is left where the parse ends in front of the AS path's check. -/
theorem leavesNothing_iff
    (left : Scanned cap (.start localMed) final (scanned bgp peer cap octets).1)
    (stop : (scanned bgp peer cap octets).2 ≠ .framing) :
    (objects final).stored = [] ↔ LeavesNothing bgp peer cap octets := by
  rw [stored_nil_iff left]
  exact forall₂_congr fun tlv _ => or_comm.trans (or_congr_right (and_iff_left stop).symm)

/-- What a parse comes to: the neighbour's metric, and what is owed to the tables. -/
structure Parsed (bgp : Bgp) (peer : Peer) (cap : PeerCap) (localMed : U32) (octets : List U8)
    (t after : Tables) (result : ParseState × ParseRet) : Prop where
  localMed : result.1.localMed = (scanned bgp peer cap octets).1.foldl heard localMed
  transit : (objects result.1).transit = (scanned bgp peer cap octets).1.foldl keepUnknown none
  owed : result.2 ≠ .error → Owes t after ((objects result.1).stored ++
    if result.2 = .proceed then (objects result.1).unknown else [])
  refused : result.2 = .error → (after = t ↔ LeavesNothing bgp peer cap octets)

/-- A path that was read has left something. -/
theorem asPath_left (left : Scanned cap (.start localMed) st (scanned bgp peer cap octets).1)
    (flagged : st.attr.has .asPath = true) :
    st.attr.aspath.isSome = true ∧ ¬ LeavesNothing bgp peer cap octets := by
  obtain ⟨tlv, among, named⟩ := (left.flagged flagged).resolve_left (by simp [ParseState.start])
  have filled := interned_asPath named (scan_read among)
  have slot := left.slots .asPath
  refine ⟨?_, fun nothing => ?_⟩
  · rw [Option.isSome_iff_ne_none]
    intro absent
    have empty : (objects st).slot .asPath = [] := by
      unfold objects Objects.slot
      rw [absent]
      rfl
    rw [empty] at slot
    have inside : tlv ∈ (scanned bgp peer cap octets).1.filter fun tlv =>
        tlv.type = AttrType.asPath.code := List.mem_filter.mpr ⟨among, decide_eq_true named⟩
    exact filled (List.flatMap_eq_nil_iff.mp (List.append_eq_nil_iff.mp slot.symm).2 tlv inside)
  · rcases nothing tlv among with empty | ⟨other, _⟩
    · exact filled empty
    · exact absurd (named.symm.trans other) (by decide)

variable {result : ParseState × ParseRet}

theorem Parsed.of_owes
    (metric : result.1.localMed = (scanned bgp peer cap octets).1.foldl heard localMed)
    (transit : (objects result.1).transit = (scanned bgp peer cap octets).1.foldl keepUnknown none)
    (ok : result.2 ≠ .error)
    (owes : Owes t after ((objects result.1).stored ++ if result.2 =
      .proceed then (objects result.1).unknown else [])) :
    Parsed bgp peer cap localMed octets t after result :=
  ⟨metric, transit, fun _ => owes, fun refused => absurd refused ok⟩

theorem Parsed.of_refused
    (metric : result.1.localMed = (scanned bgp peer cap octets).1.foldl heard localMed)
    (transit : (objects result.1).transit = (scanned bgp peer cap octets).1.foldl keepUnknown none)
    (error : result.2 = .error) (back : after = t ↔ LeavesNothing bgp peer cap octets) :
    Parsed bgp peer cap localMed octets t after result :=
  ⟨metric, transit, fun ok => absurd error ok, fun _ => back⟩

theorem parse_parsed (localMed : U32) (octets : List U8) (t : Tables) :
    Parsed bgp peer cap localMed octets t (tablesParse bgp peer cap localMed octets t)
      (bgpAttrParse bgp peer cap localMed octets) := by
  obtain ⟨left, ret, tables⟩ := @loop_scan bgp peer cap octets.length
    octets (.start localMed) t (unmet_start localMed)
  have seen : scan bgp peer cap octets.length octets (ParseState.start localMed).seen =
      scanned bgp peer cap octets := rfl
  unfold bgpAttrParse tablesParse
  rw [tables]
  rw [seen] at left ret ⊢
  have owed := loop_owes t left
  generalize bgpAttrLoop bgp peer cap octets.length octets (.start localMed) = result at *
  obtain ⟨st, verdict⟩ := result
  unfold loaded
  cases stop : (scanned bgp peer cap octets).2 with
  | framing =>
    rw [stop] at ret
    subst ret
    refine .of_refused left.localMed left.transit rfl (((Owes.refl t).takeAll _).eq_iff.trans ?_)
    rw [List.nil_append, List.flatMap_eq_nil_iff]
    refine forall₂_congr fun tlv _ => (or_iff_left ?_).symm
    rw [stop]
    exact fun behind => behind.2 rfl
  | handler ret' =>
    rw [stop] at ret
    subst ret
    have back : Owes t _ (objects st).stored := owed.giveAll
    cases verdict with
    | proceed => exact absurd rfl (scan_handler stop)
    | withdraw =>
      exact .of_owes left.localMed left.transit (by nofun)
        (by rw [if_neg (by nofun), List.append_nil]; exact back)
    | error =>
      exact .of_refused left.localMed left.transit rfl
        (back.eq_iff.trans (leavesNothing_iff left (by rw [stop]; nofun)))
  | finished =>
    rw [stop] at ret
    subst ret
    have framed : (scanned bgp peer cap octets).2 ≠ .framing := by rw [stop]; nofun
    have left' := left.localMed
    obtain ⟨repathed, metric⟩ := @munge_repathed bgp peer cap st
    have transit := (congrArg Objects.transit repathed).trans left.transit
    obtain ⟨flags, keeps⟩ := @munge_aspath bgp peer cap st
    have owed' := @owes_munge bgp peer cap _ _ _ owed
    have same := @munge_refused bgp peer cap st
    dsimp only [Stop.ret]
    generalize giveAll (tablesMunge bgp peer cap st _) _ = after at *
    generalize bgpAttrMungeAs4Attrs bgp peer cap st = result at *
    obtain ⟨st', ret⟩ := result
    cases ret with
    | error =>
      refine .of_refused (metric.trans left') transit rfl (owed'.eq_iff.trans ?_)
      rw [same (by nofun)]
      exact leavesNothing_iff left framed
    | withdraw =>
      refine .of_refused (metric.trans left') transit rfl (owed'.eq_iff.trans ?_)
      rw [same (by nofun)]
      exact leavesNothing_iff left framed
    | proceed =>
      dsimp only
      by_cases flagged : st'.attr.has .asPath = true
      · rw [if_pos flagged, if_pos flagged]
        obtain ⟨repathed', metric'⟩ := @check_repathed bgp peer st'
        have transit' := (congrArg Objects.transit repathed').trans transit
        have owed'' := @owes_check bgp peer _ _ _ owed'
        have kept := @check_refused bgp peer st'
        obtain ⟨held, trace⟩ := asPath_left left (flags.symm.trans flagged)
        generalize tablesAspathCheck bgp peer st' after = after' at *
        generalize bgpAttrAspathCheck bgp peer st' = result at *
        obtain ⟨st'', ret⟩ := result
        cases ret with
        | proceed =>
          refine .of_owes (metric'.trans (metric.trans left')) transit' (by nofun) ?_
          rw [if_pos rfl]
          exact owed''.takeAll _
        | withdraw =>
          refine .of_owes (metric'.trans (metric.trans left')) transit' (by nofun) ?_
          rw [if_neg (by nofun), List.append_nil]
          exact owed''
        | error =>
          refine .of_refused (metric'.trans (metric.trans left')) transit' rfl
            (owed''.eq_iff.trans ?_)
          refine iff_of_false (fun empty => ?_) trace
          obtain ⟨path, present⟩ := Option.isSome_iff_exists.mp (keeps held)
          rw [← kept (by nofun)] at present
          unfold Objects.stored Objects.slot objects at empty
          rw [present] at empty
          cases empty
      · rw [if_neg flagged, if_neg flagged]
        refine .of_owes (metric.trans left') transit (by nofun) ?_
        rw [if_pos rfl]
        exact owed'.takeAll _

/-! ## The message -/

theorem foldl_heard_set (set : localMed ≠ 0) (front : List Tlv) :
    front.foldl heard localMed = localMed := by
  induction front with
  | nil => rfl
  | cons tlv later ih =>
    have kept : heard localMed tlv = localMed := if_neg fun fresh => set fresh.2
    rw [List.foldl_cons, kept, ih]

/-- The metric stays when it is set already, or when no preference in front sets it. -/
theorem foldl_heard_iff (localMed : U32) (front : List Tlv) :
    front.foldl heard localMed = localMed ↔ (localMed = 0 → ∀ tlv ∈ front,
      tlv.type = AttrType.localPref.code → localPrefValue tlv = 0) := by
  by_cases fresh : localMed = 0
  · subst fresh
    refine Iff.trans ?_ (forall_prop_of_true rfl).symm
    induction front with
    | nil => simp
    | cons tlv later ih =>
      rw [List.foldl_cons, List.forall_mem_cons, ← ih]
      by_cases isPref : tlv.type = AttrType.localPref.code
      · have learned : heard 0 tlv = localPrefValue tlv := if_pos ⟨isPref, rfl⟩
        rw [learned]
        by_cases nothing : localPrefValue tlv = 0
        · rw [nothing]
          simp
        · rw [foldl_heard_set nothing]
          exact iff_of_false nothing fun each => nothing (each.1 isPref)
      · have kept : heard 0 tlv = 0 := if_neg fun pref => isPref pref.1
        rw [kept]
        simp [isPref]
  · exact iff_of_true (foldl_heard_set fresh front) fun zero => absurd zero fresh

/-- The unknown attributes that are kept of those in front. -/
def unknownIn (front : List Tlv) : List Interned :=
  (front.foldl keepUnknown none).toList.map .transit

/-- What a message does that is rejected behind its attributes. Those that were not
interned are taken out of the table. -/
theorem uninternSub_apply (parsed : Parsed bgp peer cap localMed octets t after result)
    (ok : result.2 ≠ .error) {effect : Exchange}
    (held : ∀ content, effect.gone.count content ≤ t content) (content : Interned) :
    bgpAttrUninternSub result.1 result.2 (takeAll (giveAll after effect.gone) effect.new) content =
      if result.2 = .withdraw ∧ content ∈ unknownIn (scanned bgp peer cap octets).1 then 0
      else t content - effect.gone.count content + effect.new.count content := by
  have owed := parsed.owed ok content
  have unknown : (objects result.1).unknown = unknownIn (scanned bgp peer cap octets).1 := by
    unfold Objects.unknown unknownIn
    rw [parsed.transit]
  have bound := held content
  unfold bgpAttrUninternSub
  by_cases proceeded : result.2 = .proceed
  · rw [if_pos proceeded, List.count_append] at owed
    have other : ¬ (result.2 = .withdraw ∧
        content ∈ unknownIn (scanned bgp peer cap octets).1) := by
      rw [proceeded]
      nofun
    rw [if_pos proceeded, if_neg other, giveAll_apply, giveAll_apply, takeAll_apply, giveAll_apply,
      owed]
    omega
  · have asked : result.2 = .withdraw := by
      cases ret : result.2 with
      | withdraw => rfl
      | proceed => exact absurd ret proceeded
      | error => exact absurd ret ok
    rw [if_neg proceeded, List.append_nil] at owed
    rw [if_neg proceeded, forgetAll_apply, unknown]
    by_cases kept : content ∈ unknownIn (scanned bgp peer cap octets).1
    · rw [if_pos kept, if_pos ⟨asked, kept⟩]
    · rw [if_neg kept, if_neg fun refused => kept refused.2, giveAll_apply, takeAll_apply,
        giveAll_apply, owed]
      omega

/-- The tables are what they were when no object was taken out and the routes have taken
as many references as they gave up. -/
theorem uninternSub_iff (parsed : Parsed bgp peer cap localMed octets t after result)
    (ok : result.2 ≠ .error) {effect : Exchange}
    (held : ∀ content, effect.gone.count content ≤ t content) :
    bgpAttrUninternSub result.1 result.2 (takeAll (giveAll after effect.gone) effect.new) = t ↔
      (result.2 = .withdraw →
        ∀ content ∈ unknownIn (scanned bgp peer cap octets).1, t content = 0) ∧
      ∀ content, ¬ (result.2 = .withdraw ∧
          content ∈ unknownIn (scanned bgp peer cap octets).1) →
        effect.gone.count content = effect.new.count content := by
  rw [funext_iff]
  simp only [uninternSub_apply parsed ok held]
  constructor
  · refine fun each => ⟨fun asked content kept => ?_, fun content other => ?_⟩
    · have here := each content
      rw [if_pos ⟨asked, kept⟩] at here
      exact here.symm
    · have here := each content
      have bound := held content
      rw [if_neg other] at here
      omega
  · rintro ⟨unknown, balanced⟩ content
    split_ifs with taken
    · exact (unknown taken.1 content taken.2).symm
    · have same := balanced content taken
      have bound := held content
      omega

section Message

variable (bgp : Bgp) (peer : Peer) (cap : PeerCap) (routes : RibCall → Exchange) (localMed : U32)

/-- The call for the withdrawn routes of a message. -/
def withdrawal (parts : UpdateParts) : RibCall :=
  .nlri none .ip .unicast (bgpNlriParse .ip .unicast parts.withdrawn)

/-- A message leaves nothing when it is rejected: no preference in front of the end sets
the metric; if its attributes are refused, no attribute in front has interned an object
that is not given back; if they ask for a withdrawal, no unknown attribute in front
equals an object of the table; and if routes are withdrawn first, that changes nothing.

Withdrawals give up references where `bgp_adj_in_unset` drops what an inbound neighbour sent,
and where an aggregate of the route is made anew or goes. -/
structure Traceless (parts : UpdateParts) (t : Tables) : Prop where
  metric : localMed = 0 → ∀ tlv ∈ (scanned bgp peer cap parts.attributes).1,
    tlv.type = AttrType.localPref.code → localPrefValue tlv = 0
  refused : (bgpAttrParse bgp peer cap localMed parts.attributes).2 = .error →
    LeavesNothing bgp peer cap parts.attributes
  unknown : (bgpAttrParse bgp peer cap localMed parts.attributes).2 = .withdraw →
    ∀ content ∈ unknownIn (scanned bgp peer cap parts.attributes).1, t content = 0
  withdrawn : parts.withdrawn ≠ [] →
    (bgpAttrParse bgp peer cap localMed parts.attributes).2 ≠ .error →
    bgpNlriSanityCheck 1 (updateNlri bgp peer cap localMed parts
      (bgpAttrParse bgp peer cap localMed parts.attributes).2) = true →
    ∀ content, ¬ ((bgpAttrParse bgp peer cap localMed parts.attributes).2 = .withdraw ∧
        content ∈ unknownIn (scanned bgp peer cap parts.attributes).1) →
      (routes (withdrawal parts)).gone.count content = (routes (withdrawal parts)).new.count content

variable {bgp peer cap routes localMed}

theorem parse_nil : bgpAttrParse bgp peer cap localMed [] = (.start localMed, .proceed) := by
  have nothing (type : AttrType) : (ParseState.start localMed).attr.has type = false :=
    Attr.has_zero type
  unfold bgpAttrParse bgpAttrMungeAs4Attrs
  rw [show bgpAttrLoop bgp peer cap ([] : List U8).length [] (.start localMed) =
    (.start localMed, .proceed) from rfl]
  cases cap.as4Rcv <;> simp [nothing, mungeAggregator, mungeAspath]

theorem tablesParse_nil (t : Tables) : tablesParse bgp peer cap localMed [] t = t := by
  have owed := (@parse_parsed bgp peer cap localMed [] t).owed
  rw [parse_nil] at owed
  exact funext fun content => (owed (by nofun) content).trans (Nat.add_zero _)

theorem updateCalls_rejected {parts : UpdateParts} {st : ParseState} {withdraw : Bool}
    (rejected : (updateCalls peer parts st withdraw).1 = false) :
    (updateCalls peer parts st withdraw).2 =
      if parts.withdrawn ≠ [] then [withdrawal parts] else [] := by
  revert rejected
  unfold updateCalls
  split_ifs <;> first | exact fun _ => rfl | exact nofun

/-- A message that is rejected behind its attributes. -/
theorem rejected_behind {parts : UpdateParts} {st : ParseState} {ret : ParseRet}
    (result : bgpAttrParse bgp peer cap localMed parts.attributes = (st, ret))
    (parsed : Parsed bgp peer cap localMed parts.attributes t after (st, ret)) (ok : ret ≠ .error)
    (held : ∀ call content, (routes call).gone.count content ≤ t content) :
    let parts' := { parts with nlri := updateNlri bgp peer cap localMed parts ret }
    (if bgpNlriSanityCheck 1 parts'.nlri = false then false
      else (updateCalls peer parts' st (ret = .withdraw)).1) = false →
    (st.localMed = localMed ∧
      (if bgpNlriSanityCheck 1 parts'.nlri = false then bgpAttrUninternSub st ret after
        else bgpAttrUninternSub st ret
          (exchange routes (updateCalls peer parts' st (ret = .withdraw)).2 after)) = t ↔
      Traceless bgp peer cap routes localMed parts t) := by
  intro parts' rejected
  have metric := foldl_heard_iff localMed (scanned bgp peer cap parts.attributes).1
  rw [← parsed.localMed] at metric
  have reads : Traceless bgp peer cap routes localMed parts t ↔
      (localMed = 0 → ∀ tlv ∈ (scanned bgp peer cap parts.attributes).1,
        tlv.type = AttrType.localPref.code → localPrefValue tlv = 0) ∧
      (ret = .withdraw →
        ∀ content ∈ unknownIn (scanned bgp peer cap parts.attributes).1, t content = 0) ∧
      (parts.withdrawn ≠ [] → bgpNlriSanityCheck 1 parts'.nlri = true →
        ∀ content, ¬ (ret = .withdraw ∧
            content ∈ unknownIn (scanned bgp peer cap parts.attributes).1) →
          (routes (withdrawal parts)).gone.count content =
            (routes (withdrawal parts)).new.count content) := by
    constructor
    · rintro ⟨metric, refused, unknown, withdrawn⟩
      rw [result] at unknown withdrawn
      exact ⟨metric, unknown, fun some_ => withdrawn some_ ok⟩
    · rintro ⟨metric, unknown, withdrawn⟩
      refine ⟨metric, ?_, ?_, ?_⟩ <;> rw [result]
      · exact fun error => absurd error ok
      · exact unknown
      · exact fun some_ _ => withdrawn some_
  have idle := @uninternSub_iff _ _ _ _ _ _ _ _ parsed ok ⟨[], []⟩ fun content => Nat.zero_le _
  rw [reads, metric]
  refine and_congr_right fun _ => ?_
  by_cases sane : bgpNlriSanityCheck 1 parts'.nlri = false
  · rw [if_pos sane]
    refine idle.trans (and_congr_right fun _ => iff_of_true (fun _ _ => rfl) fun _ other => ?_)
    rw [sane] at other
    cases other
  · rw [if_neg sane] at rejected ⊢
    have passed : bgpNlriSanityCheck 1 parts'.nlri = true := by simpa using sane
    rw [updateCalls_rejected rejected]
    by_cases some_ : parts.withdrawn ≠ []
    · rw [if_pos some_]
      refine (uninternSub_iff parsed ok (held _)).trans (and_congr_right fun _ => ?_)
      exact ⟨fun balanced _ _ => balanced, fun balanced => balanced some_ passed⟩
    · rw [if_neg some_]
      refine idle.trans (and_congr_right fun _ => iff_of_true (fun _ _ => rfl) fun other => ?_)
      exact absurd other some_

/-- A rejected message leaves the metric and the tables as they were exactly when it is
traceless, or has no attributes to be read. -/
theorem rejected_traceless_iff {message : List U8} {t : Tables}
    (rejected : (bgpUpdateReceive bgp peer cap localMed message).ok = false)
    (held : ∀ call content, (routes call).gone.count content ≤ t content) :
    ((bgpUpdateReceive bgp peer cap localMed message).localMed = localMed ∧
        tablesReceive bgp peer cap routes localMed message t = t) ↔
      ∀ parts, updateParts message = .ok parts →
        Traceless bgp peer cap routes localMed parts t := by
  cases split : updateParts message with
  | error subcode =>
    unfold bgpUpdateReceive tablesReceive
    rw [split]
    exact iff_of_true ⟨rfl, rfl⟩ nofun
  | ok parts =>
    have whole : (if parts.attributes = [] then (ParseState.start localMed, ParseRet.proceed)
        else bgpAttrParse bgp peer cap localMed parts.attributes) =
        bgpAttrParse bgp peer cap localMed parts.attributes := by
      split_ifs with empty
      · rw [empty, parse_nil]
      · rfl
    have whole' : (if parts.attributes = [] then t
        else tablesParse bgp peer cap localMed parts.attributes t) =
        tablesParse bgp peer cap localMed parts.attributes t := by
      split_ifs with empty
      · rw [empty, tablesParse_nil]
      · rfl
    have parsed := @parse_parsed bgp peer cap localMed parts.attributes t
    unfold bgpUpdateReceive at rejected ⊢
    unfold tablesReceive
    rw [split] at rejected ⊢
    dsimp only at rejected ⊢
    rw [whole] at rejected ⊢
    rw [whole']
    generalize tablesParse bgp peer cap localMed parts.attributes t = after at *
    cases result : bgpAttrParse bgp peer cap localMed parts.attributes with
    | mk st ret =>
      rw [result] at rejected parsed
      have metric := foldl_heard_iff localMed (scanned bgp peer cap parts.attributes).1
      rw [← parsed.localMed] at metric
      have each : (∀ parts', Except.ok (ε := U8) parts = .ok parts' →
          Traceless bgp peer cap routes localMed parts' t) ↔
          Traceless bgp peer cap routes localMed parts t :=
        ⟨fun all => all parts rfl, fun one parts' same => Except.ok.inj same ▸ one⟩
      rw [each]
      cases ret with
      | error =>
        rw [metric, parsed.refused rfl]
        constructor
        · intro ⟨stays, nothing⟩
          exact ⟨stays, fun _ => nothing, fun asked => (by rw [result] at asked; cases asked),
            fun _ ok => absurd (by rw [result]) ok⟩
        · exact fun traceless => ⟨traceless.metric, traceless.refused (by rw [result])⟩
      | proceed =>
        refine Iff.trans (and_congr ?_ Iff.rfl) (rejected_behind result parsed (by nofun) held ?_)
        · dsimp only
          split_ifs <;> rfl
        · revert rejected
          dsimp only
          split_ifs <;> exact id
      | withdraw =>
        refine Iff.trans (and_congr ?_ Iff.rfl) (rejected_behind result parsed (by nofun) held ?_)
        · dsimp only
          split_ifs <;> rfl
        · revert rejected
          dsimp only
          split_ifs <;> exact id

end Message

/-- A message with an empty AS_PATH, a LOCAL_PREF of 100 and an ORIGIN that does not
exist. -/
def misOriginated : List U8 :=
  [0, 0, 0, 14, 0x40, 2, 0, 0x40, 5, 4, 0, 0, 0, 100, 0x40, 1, 1, 5]

/-- The message is rejected for its last attribute. The path of the first one stays
interned and the preference of the second one stays in the metric. -/
theorem misOriginated_traces :
    let received := bgpUpdateReceive (.plain 65001 1) (.plain 1 65001 65001) {} 0 misOriginated
    let after := tablesReceive (.plain 65001 1) (.plain 1 65001 65001) {} (fun _ => ⟨[], []⟩) 0
      misOriginated fun _ => 0
    received.ok = false ∧ received.localMed = 100 ∧ after (.aspath aspathEmpty) = 1 ∧
      ¬ (received.localMed = 0 ∧ after = fun _ => 0) := by
  intro received after
  have metric : received.localMed = 100 := by decide
  have path : after (.aspath aspathEmpty) = 1 := by decide
  refine ⟨by decide, metric, path, fun clean => ?_⟩
  rw [clean.2] at path
  cases path

/-- A message with a LOCAL_PREF and a NEXT_HOP of three octets. -/
def shortNexthop : List U8 := [0, 0, 0, 13, 0x40, 5, 4, 0, 0, 0, 100, 0x40, 3, 3, 10, 0, 0]

/-- Where the metric is set already, it leaves nothing. -/
theorem rejected_traceless_shortNexthop :
    (bgpUpdateReceive (.plain 65001 1) (.plain 1 65001 65001) {} 7 shortNexthop).localMed = 7 ∧
      tablesReceive (.plain 65001 1) (.plain 1 65001 65001) {} (fun _ => ⟨[], []⟩) 7 shortNexthop
        (fun _ => 3) = fun _ => 3 := by
  refine (rejected_traceless_iff (by decide) fun _ _ => Nat.zero_le _).mpr fun parts split => ?_
  have known : parts = ⟨[], shortNexthop.drop 4, []⟩ := by
    have whole : updateParts shortNexthop = .ok ⟨[], shortNexthop.drop 4, []⟩ := by decide
    exact Except.ok.inj (split.symm.trans whole)
  subst known
  refine ⟨nofun, fun _ => ?_, by decide, fun some_ => absurd rfl some_⟩
  unfold LeavesNothing
  decide

end Bgpd.RejectedUpdate
