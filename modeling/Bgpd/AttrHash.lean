import Mathlib.Data.BitVec
import Bgpd.Actions
import Bgpd.InternTables
import Bgpd.PolicyFrame

/-!
# The hash table of attribute sets

`attrhash_key_make` and `attrhash_cmp` go through the fields of an attribute set
on their own, and so do the decision process and the encoder. The key mixes words
with the hash of `lib/jhash.c`, the comparison compares words and pointers. One
field the decision process and the encoder read is in neither of the two: the
originator of a reflected route.
-/

namespace Bgpd.AttrHash

open Octets Attributes Interning WorkingCopy PathStore SharedAttrs PolicyClauses InternTables
open PolicyFrame (pointers Held Pointers Interned countedAttr)

/-! ## `jhash` -/

/-- `JHASH_GOLDEN_RATIO`. -/
def jhashGoldenRatio : U32 := 0x9e3779b9

/-- One line of `__jhash_mix`: `a -= b; a -= c; a ^= (c shifted)`. -/
def jhashLine (a b c shifted : U32) : U32 := (a - b - c) ^^^ shifted

/-- `__jhash_mix`. -/
def jhashMix (a b c : U32) : U32 × U32 × U32 :=
  let a := jhashLine a b c (c >>> 13)
  let b := jhashLine b c a (a <<< 8)
  let c := jhashLine c a b (b >>> 13)
  let a := jhashLine a b c (c >>> 12)
  let b := jhashLine b c a (a <<< 16)
  let c := jhashLine c a b (b >>> 5)
  let a := jhashLine a b c (c >>> 3)
  let b := jhashLine b c a (a <<< 10)
  let c := jhashLine c a b (b >>> 15)
  (a, b, c)

/-- Octets as a word, the first one lowest. -/
def jhashWord (k0 k1 k2 k3 : U8) : U32 :=
  k0.setWidth 32 + (k1.setWidth 32 <<< 8) + (k2.setWidth 32 <<< 16) + (k3.setWidth 32 <<< 24)

/-- The loop of `jhash` over blocks of twelve octets, and what follows it. The
octets that are left are added where the switch falls through to them. -/
def jhashLoop (length : U32) : List U8 → U32 → U32 → U32 → U32
  | k0 :: k1 :: k2 :: k3 :: k4 :: k5 :: k6 :: k7 :: k8 :: k9 :: k10 :: k11 :: k, a, b, c =>
    let (a, b, c) := jhashMix (a + jhashWord k0 k1 k2 k3) (b + jhashWord k4 k5 k6 k7)
      (c + jhashWord k8 k9 k10 k11)
    jhashLoop length k a b c
  | k, a, b, c =>
    let rest (i : Nat) : U8 := k.getD i 0
    (jhashMix (a + jhashWord (rest 0) (rest 1) (rest 2) (rest 3))
      (b + jhashWord (rest 4) (rest 5) (rest 6) (rest 7))
      (c + length + jhashWord 0 (rest 8) (rest 9) (rest 10))).2.2

/-- `jhash`. -/
def jhash (key : List U8) (initval : U32) : U32 :=
  jhashLoop (BitVec.ofNat 32 key.length) key jhashGoldenRatio jhashGoldenRatio initval

/-- `jhash_3words`. -/
def jhash3words (a b c initval : U32) : U32 :=
  (jhashMix (a + jhashGoldenRatio) (b + jhashGoldenRatio) (c + initval)).2.2

/-- `jhash_1word`. -/
def jhash1word (a initval : U32) : U32 := jhash3words a 0 0 initval

/-! ## The key -/

/-- `aspath_key_make`. A path without its string gets it first. -/
def aspathKeyMake (aspath : PathData) : U32 :=
  let str := aspath.str.getD (aspathMakeStrCount aspath.segments)
  jhash (str.map fun c => BitVec.ofNat 8 c.toNat) 2334325

/-- `community_hash_make`: the sum of the octets. -/
def communityHashMake (com : List U32) : U32 :=
  ((com.flatMap putl).map (·.setWidth 32)).sum

/-- `ecommunity_hash_make`. -/
def ecommunityHashMake (ecom : List (BitVec 64)) : U32 :=
  ((ecom.flatMap Announce.putEcommunity).map (·.setWidth 32)).sum

/-- `cluster_hash_key_make`. -/
def clusterHashKeyMake (cluster : List U32) : U32 := jhash (cluster.flatMap putl) 0

/-- `transit_hash_key_make`. -/
def transitHashKeyMake (transit : List U8) : U32 := jhash transit 0

/-- Mix the hash of an object that may be missing. -/
def mixPointer {α : Type} (s : Store α) (hash : α → U32) (pointer : Option Nat) (key : U32) :
    Option U32 :=
  match pointer with
  | none => some key
  | some address => (s.read address).map fun value => jhash1word (hash value) key

section Key

/- How the machine reads the four octets of an address as a number. -/
variable (sAddr : U32 → U32) (s : Objects)

/-- `attrhash_key_make`. -/
def attrhashKeyMake (attr : AttrRef) : Option U32 := do
  let key := jhash1word (attr.origin.setWidth 32) 0
  let key := jhash1word (sAddr attr.nexthop) key
  let key := jhash1word attr.med key
  let key := jhash1word attr.localPref key
  let key := key + attr.origin.setWidth 32 + sAddr attr.nexthop + attr.med + attr.localPref
  let key := match attr.extra with
    | none => key
    | some extra =>
      let key := jhash1word extra.aggregatorAs key
      let key := jhash1word (sAddr extra.aggregatorAddr) key
      let key := jhash1word extra.weight key
      jhash1word (sAddr extra.mpNexthopGlobalIn) key
  let key ← mixPointer s.paths.store aspathKeyMake (some attr.aspath) key
  let key ← mixPointer s.communities communityHashMake attr.community key
  match attr.extra with
  | none => return key
  | some extra => do
    let key ← mixPointer s.ecommunities ecommunityHashMake extra.ecommunity key
    let key ← mixPointer s.clusters clusterHashKeyMake extra.cluster key
    let key ← mixPointer s.transits transitHashKeyMake extra.transit key
    let key := jhash1word (extra.mpNexthopLen.setWidth 32) key
    let key := jhash (Announce.putIpv6 extra.mpNexthopGlobal) key
    return jhash (Announce.putIpv6 extra.mpNexthopLocal) key

end Key

variable {m : Objects} {attr : AttrRef} {extra : Option ExtraRef}

/-! ## What is compared -/

/-- The pointers without the originator. -/
def sansOriginator (attr : AttrRef) : AttrRef :=
  { attr with extra := attr.extra.map fun extra => { extra with originatorId := 0 } }

/-- The values without the originator. -/
def valueSansOriginator (attr : Attr) : Attr :=
  { attr with extra := attr.extra.map fun extra => { extra with originatorId := 0 } }

/-- Two attribute sets that differ, and only in the originator. -/
def OriginatorAlone (first second : Attr) : Prop :=
  first ≠ second ∧ valueSansOriginator first = valueSansOriginator second

theorem attrhashCmp_iff (first second : AttrRef) :
    attrhashCmp first second = true ↔ sansOriginator first = sansOriginator second := by
  obtain ⟨aspath, community, extra, flag, nexthop, med, localPref, origin⟩ := first
  obtain ⟨aspath', community', extra', flag', nexthop', med', localPref', origin'⟩ := second
  rcases extra with _ | extra <;> rcases extra' with _ | extra' <;>
    simp [attrhashCmp, extraCmp, sansOriginator, AttrRef.mk.injEq, ExtraRef.mk.injEq]
  all_goals grind

theorem ribAttrhashCmp_iff (first second : Attr) :
    Rib.attrhashCmp first second = true ↔
      valueSansOriginator first = valueSansOriginator second := by
  obtain ⟨aspath, community, extra, flag, nexthop, med, localPref, origin⟩ := first
  obtain ⟨aspath', community', extra', flag', nexthop', med', localPref', origin'⟩ := second
  rcases extra with _ | extra <;> rcases extra' with _ | extra' <;>
    simp [Rib.attrhashCmp, valueSansOriginator, Attr.mk.injEq, AttrExtra.mk.injEq]
  all_goals grind

/-! ## Pointers and values -/

/-- The objects are canonical. The string of a path does not count. -/
structure CanonicalObjects (m : Objects) : Prop where
  paths : Canonical PathData.path m.paths.store
  communities : Canonical id m.communities
  ecommunities : Canonical id m.ecommunities
  clusters : Canonical id m.clusters
  transits : Canonical id m.transits

theorem aspathCmp_compares : Compares PathData.path aspathCmp := by
  intro first second
  simp [aspathCmp, PathData.path]

theorem valueCmp_compares {α : Type} [DecidableEq α] : Compares (id : α → α) valueCmp := by
  intro first second
  simp [valueCmp]

theorem ecommunityCmp_compares : Compares id ecommunityCmp := by
  intro first second
  simp [ecommunityCmp]

theorem attrhashCmp_compares : Compares sansOriginator attrhashCmp := attrhashCmp_iff

theorem follow_iff {α : Type} {s : Store α} {pointer : Option Nat} {seen : Option α} :
    follow s pointer = some seen ↔ At id s pointer seen := by
  cases pointer with
  | none => exact ⟨fun equal => (Option.some.inj equal).symm, fun equal => congrArg some equal.symm⟩
  | some address =>
    constructor
    · intro equal
      obtain ⟨value, read, rfl⟩ := Option.map_eq_some_iff.mp equal
      exact ⟨value, read, rfl⟩
    · rintro ⟨value, read, rfl⟩
      exact Option.map_eq_some_iff.mpr ⟨value, read, rfl⟩

/-- An extra block and its values. -/
def ExtraAt (m : Objects) : Option ExtraRef → Option AttrExtra → Prop
  | none, none => True
  | some extra, some value =>
    (At id m.ecommunities extra.ecommunity value.ecommunity ∧
      At id m.clusters extra.cluster value.cluster ∧
      At id m.transits extra.transit value.transit) ∧
    value.mpNexthopGlobal = extra.mpNexthopGlobal ∧ value.mpNexthopLocal = extra.mpNexthopLocal ∧
    value.mpNexthopGlobalIn = extra.mpNexthopGlobalIn ∧
    value.aggregatorAddr = extra.aggregatorAddr ∧ value.originatorId = extra.originatorId ∧
    value.weight = extra.weight ∧ value.aggregatorAs = extra.aggregatorAs ∧
    value.mpNexthopLen = extra.mpNexthopLen
  | _, _ => False

theorem resolveExtra_iff {seen : Option AttrExtra} :
    resolveExtra m extra = some seen ↔ ExtraAt m extra seen := by
  rcases extra with _ | extra <;> rcases seen with _ | seen
  · exact ⟨fun _ => trivial, fun _ => rfl⟩
  · exact ⟨nofun, nofun⟩
  · exact ⟨fun equal => (by simp [resolveExtra] at equal), nofun⟩
  · simp only [resolveExtra, Option.map_eq_some_iff, Option.some.injEq, exists_eq_right,
      ExtraRef.resolve, Option.bind_eq_bind, Option.bind_eq_some_iff, follow_iff, ExtraAt]
    constructor
    · rintro ⟨ecommunity, inEcommunities, cluster, inClusters, transit, inTransits, equal⟩
      cases equal
      exact ⟨⟨inEcommunities, inClusters, inTransits⟩, rfl, rfl, rfl, rfl, rfl, rfl, rfl, rfl⟩
    · rintro ⟨⟨inEcommunities, inClusters, inTransits⟩, h₁, h₂, h₃, h₄, h₅, h₆, h₇, h₈⟩
      refine ⟨_, inEcommunities, _, inClusters, _, inTransits, ?_⟩
      rw [← h₁, ← h₂, ← h₃, ← h₄, ← h₅, ← h₆, ← h₇, ← h₈]
      rfl

variable {seen : Attr}

/-- What the values of an attribute set are, field by field. -/
theorem resolve_iff :
    attr.resolve m = some seen ↔
      (At PathData.path m.paths.store (some attr.aspath) seen.aspath ∧
        At id m.communities attr.community seen.community ∧ ExtraAt m attr.extra seen.extra) ∧
      seen.flag = attr.flag ∧ seen.nexthop = attr.nexthop ∧ seen.med = attr.med ∧
      seen.localPref = attr.localPref ∧ seen.origin = attr.origin := by
  simp only [AttrRef.resolve, Option.bind_eq_bind, Option.bind_eq_some_iff, follow_iff,
    resolveExtra_iff]
  constructor
  · rintro ⟨data, read, community, inCommunities, extra, inExtra, equal⟩
    cases equal
    exact ⟨⟨⟨data, read, rfl⟩, inCommunities, inExtra⟩, rfl, rfl, rfl, rfl, rfl⟩
  · rintro ⟨⟨⟨data, read, path⟩, inCommunities, inExtra⟩, h₁, h₂, h₃, h₄, h₅⟩
    refine ⟨data, read, _, inCommunities, _, inExtra, ?_⟩
    rw [← path, ← h₁, ← h₂, ← h₃, ← h₄, ← h₅]
    rfl

/-- The objects of an extra block are interned. -/
structure HeldExtra (m : Objects) (extra : ExtraRef) : Prop where
  ecommunity : Shared m.ecommunities extra.ecommunity
  cluster : Shared m.clusters extra.cluster
  transit : Shared m.transits extra.transit

/-- The objects of an attribute set are interned. -/
structure HeldParts (m : Objects) (attr : AttrRef) : Prop where
  aspath : Shared m.paths.store (some attr.aspath)
  community : Shared m.communities attr.community
  extra : ∀ extra ∈ attr.extra, HeldExtra m extra

theorem extraAt_injective (canonical : CanonicalObjects m) {first second : Option ExtraRef}
    (held : ∀ extra ∈ first, HeldExtra m extra) (held' : ∀ extra ∈ second, HeldExtra m extra)
    {seen : Option AttrExtra} (leads : ExtraAt m first seen) (leads' : ExtraAt m second seen) :
    first = second := by
  rcases first with _ | first <;> rcases second with _ | second <;> rcases seen with _ | seen
  · rfl
  · rfl
  · exact leads'.elim
  · exact leads.elim
  · exact leads.elim
  · exact leads'.elim
  · exact leads.elim
  · obtain ⟨sharedE, sharedC, sharedT⟩ := held first rfl
    obtain ⟨sharedE', sharedC', sharedT'⟩ := held' second rfl
    obtain ⟨⟨e, c, t⟩, h₁, h₂, h₃, h₄, h₅, h₆, h₇, h₈⟩ := leads
    obtain ⟨⟨e', c', t'⟩, h₁', h₂', h₃', h₄', h₅', h₆', h₇', h₈'⟩ := leads'
    have sameE := canonical.ecommunities.at_injective sharedE sharedE' e e'
    have sameC := canonical.clusters.at_injective sharedC sharedC' c c'
    have sameT := canonical.transits.at_injective sharedT sharedT' t t'
    obtain ⟨⟩ := first
    obtain ⟨⟩ := second
    simp_all

variable {first second : AttrRef}

/-- Interned attribute sets with the same values are the same, pointer for pointer. -/
theorem resolve_injective (canonical : CanonicalObjects m) (held : HeldParts m first)
    (held' : HeldParts m second) (reads : first.resolve m = some seen)
    (reads' : second.resolve m = some seen) : first = second := by
  obtain ⟨⟨path, community, extra⟩, h₁, h₂, h₃, h₄, h₅⟩ := resolve_iff.mp reads
  obtain ⟨⟨path', community', extra'⟩, h₁', h₂', h₃', h₄', h₅'⟩ := resolve_iff.mp reads'
  have samePath := Option.some.inj
    (canonical.paths.at_injective held.aspath held'.aspath path path')
  have sameCommunity :=
    canonical.communities.at_injective held.community held'.community community community'
  have sameExtra := extraAt_injective canonical held.extra held'.extra extra extra'
  obtain ⟨⟩ := first
  obtain ⟨⟩ := second
  simp_all

/-- Interned attribute sets can be read. -/
theorem HeldParts.reads (held : HeldParts m attr) : ∃ seen, attr.resolve m = some seen := by
  have lead {α β : Type} (view : α → β) {s : Store α} {pointer : Option Nat}
      (shared : Shared s pointer) : ∃ seen, At view s pointer seen := by
    cases pointer with
    | none => exact ⟨none, rfl⟩
    | some address =>
      obtain ⟨count, value, live⟩ := shared address rfl
      refine ⟨some (view value), value, ?_, rfl⟩
      unfold Store.read
      rw [live]
      rfl
  obtain ⟨path, inPaths⟩ := lead PathData.path held.aspath
  obtain ⟨community, inCommunities⟩ := lead id held.community
  obtain ⟨extra, inExtra⟩ : ∃ extra, ExtraAt m attr.extra extra := by
    rcases block : attr.extra with _ | extra
    · exact ⟨none, trivial⟩
    · obtain ⟨sharedE, sharedC, sharedT⟩ := held.extra extra block
      obtain ⟨ecommunity, e⟩ := lead id sharedE
      obtain ⟨cluster, c⟩ := lead id sharedC
      obtain ⟨transit, t⟩ := lead id sharedT
      exact ⟨some ⟨_, _, ecommunity, cluster, transit, _, _, _, _, _, _⟩,
        ⟨e, c, t⟩, rfl, rfl, rfl, rfl, rfl, rfl, rfl, rfl⟩
  exact ⟨⟨path, community, extra, _, _, _, _, _⟩,
    resolve_iff.mpr ⟨⟨inPaths, inCommunities, inExtra⟩, rfl, rfl, rfl, rfl, rfl⟩⟩

theorem HeldParts.sansOriginator (held : HeldParts m attr) : HeldParts m (sansOriginator attr) := by
  refine ⟨held.aspath, held.community, fun extra block => ?_⟩
  obtain ⟨before, there, rfl⟩ := Option.map_eq_some_iff.mp block
  obtain ⟨ecommunity, cluster, transit⟩ := held.extra before there
  exact ⟨ecommunity, cluster, transit⟩

variable {value : Option AttrExtra}

theorem ExtraAt.sansOriginator (leads : ExtraAt m extra value) :
    ExtraAt m (extra.map fun extra => { extra with originatorId := 0 })
      (value.map fun value => { value with originatorId := 0 }) := by
  rcases extra with _ | extra <;> rcases value with _ | value
  · trivial
  · exact leads.elim
  · exact leads.elim
  · obtain ⟨pointers, h₁, h₂, h₃, h₄, _, h₆, h₇, h₈⟩ := leads
    exact ⟨pointers, h₁, h₂, h₃, h₄, rfl, h₆, h₇, h₈⟩

/-- Leaving the originator out of the pointers leaves it out of the values. -/
theorem resolve_sansOriginator (reads : attr.resolve m = some seen) :
    (sansOriginator attr).resolve m = some (valueSansOriginator seen) := by
  obtain ⟨⟨path, community, extra⟩, fields⟩ := resolve_iff.mp reads
  exact resolve_iff.mpr ⟨⟨path, community, extra.sansOriginator⟩, fields⟩

/-- On interned attribute sets the comparison of pointers is a comparison of values. -/
theorem attrhashCmp_values (canonical : CanonicalObjects m) (held : HeldParts m first)
    (held' : HeldParts m second) {seen' : Attr} (reads : first.resolve m = some seen)
    (reads' : second.resolve m = some seen') :
    attrhashCmp first second = true ↔ valueSansOriginator seen = valueSansOriginator seen' := by
  rw [attrhashCmp_iff]
  have left := resolve_sansOriginator reads
  have right := resolve_sansOriginator reads'
  constructor
  · intro same
    rw [same, right] at left
    exact (Option.some.inj left).symm
  · intro same
    rw [← same] at right
    exact resolve_injective canonical held.sansOriginator held'.sansOriginator left right

theorem originatorAlone_iff {first second : Attr}
    (same : valueSansOriginator first = valueSansOriginator second) :
    first = second ↔ ¬ OriginatorAlone first second := by
  constructor
  · exact fun equal apart => apart.1 equal
  · intro apart
    by_contra differ
    exact apart ⟨differ, same⟩

/-- The originator is not mixed into the key either. -/
theorem attrhashKeyMake_sansOriginator (sAddr : U32 → U32) (m : Objects) (attr : AttrRef) :
    attrhashKeyMake sAddr m (sansOriginator attr) = attrhashKeyMake sAddr m attr := by
  obtain ⟨aspath, community, extra, flag, nexthop, med, localPref, origin⟩ := attr
  rcases extra with _ | extra <;> rfl

/-! ## Interning -/

/-- Counting the objects of an attribute set keeps those there were. -/
structure ObjectsSettled (m t : Objects) : Prop where
  canonical : CanonicalObjects t
  paths : Retains PathData.path m.paths.store t.paths.store
  communities : Retains id m.communities t.communities
  ecommunities : Retains id m.ecommunities t.ecommunities
  clusters : Retains id m.clusters t.clusters
  transits : Retains id m.transits t.transits

variable {t : Objects}

theorem ObjectsSettled.held (settled : ObjectsSettled m t) (held : HeldParts m attr) :
    HeldParts t attr where
  aspath := settled.paths.shared held.aspath
  community := settled.communities.shared held.community
  extra extra block :=
    ⟨settled.ecommunities.shared (held.extra extra block).ecommunity,
      settled.clusters.shared (held.extra extra block).cluster,
      settled.transits.shared (held.extra extra block).transit⟩

/-- Interned attribute sets keep their values. -/
theorem ObjectsSettled.resolve (settled : ObjectsSettled m t) (held : HeldParts m attr)
    (reads : attr.resolve m = some seen) : attr.resolve t = some seen := by
  obtain ⟨⟨path, community, extra⟩, fields⟩ := resolve_iff.mp reads
  refine resolve_iff.mpr ⟨⟨settled.paths.at_ held.aspath path,
    settled.communities.at_ held.community community, ?_⟩, fields⟩
  rcases block : attr.extra with _ | extra' <;> rw [block] at extra <;>
    rcases value : seen.extra with _ | value' <;> rw [value] at extra
  · trivial
  · exact extra.elim
  · exact extra.elim
  · obtain ⟨sharedE, sharedC, sharedT⟩ := held.extra extra' block
    obtain ⟨⟨e, c, t⟩, fields⟩ := extra
    exact ⟨⟨settled.ecommunities.at_ sharedE e, settled.clusters.at_ sharedC c,
      settled.transits.at_ sharedT t⟩, fields⟩

variable {address : Nat}
variable {count found : Nat}

/-- `aspath_intern` settles; the string it may add is no part of the view. -/
theorem aspathIntern_settled {s t : Store PathData} (canonical : Canonical PathData.path s)
    {value : PathData} (live : s.cells address = some ⟨count, value⟩)
    (run : aspathIntern s address = some (found, t)) : Settled PathData.path s value found t := by
  unfold aspathIntern at run
  obtain ⟨⟨find, u⟩, interned, run⟩ := Option.bind_eq_some_iff.mp run
  obtain ⟨data, read, run⟩ := Option.bind_eq_some_iff.mp run
  have settled := intern_settled aspathCmp_compares canonical live interned
  rcases string : data.str with _ | str
  · rw [string] at run
    obtain ⟨written, write, run⟩ := Option.bind_eq_some_iff.mp run
    cases run
    obtain ⟨count', value', live', kept⟩ := settled.here
    unfold Store.read at read
    unfold Store.write at write
    rw [live'] at read write
    cases read
    cases write
    have retains : Retains PathData.path u (u.put found (some ⟨count' + 1,
        { value' with str := some (aspathMakeStrCount value'.segments) }⟩)) := by
      intro other count'' value'' live''
      by_cases here : other = found
      · subst here
        rw [live'] at live''
        cases live''
        exact ⟨_, _, u.put_here .., rfl⟩
      · exact ⟨_, _, (u.put_elsewhere _ _ here).trans live'', rfl⟩
    exact ⟨settled.retains.trans retains,
      settled.canonical.of_retained (put_retained live' (fun _ => Nat.succ_pos _) fun _ => rfl),
      _, _, u.put_here .., kept⟩
  · rw [string] at run
    cases run
    exact settled

theorem clusterIntern_settled {s t : Store (List U32)} (canonical : Canonical id s)
    {value : List U32} (live : s.cells address = some ⟨count, value⟩)
    (run : clusterIntern s address = some (found, t)) : Settled id s value found t := by
  unfold clusterIntern Store.read at run
  rw [live] at run
  exact internCopy_settled valueCmp_compares canonical run

/-- What is left of an attribute set whose objects were counted: its values, behind
interned pointers. -/
theorem interned_settled (canonical : CanonicalObjects m) {p : Pointers}
    (interned : Interned m attr p t) (reads : attr.resolve m = some seen) :
    ObjectsSettled m t ∧ HeldParts t (countedAttr attr p) ∧
      (countedAttr attr p).resolve t = some seen := by
  have path := internPointer_settled
    (fun _ _ _ _ live run => aspathIntern_settled canonical.paths live run) canonical.paths
    interned.aspath
  have community := internPointer_settled
    (fun _ _ _ _ live run => intern_settled valueCmp_compares canonical.communities live run)
    canonical.communities interned.community
  have ecommunity := internPointer_settled
    (fun _ _ _ _ live run =>
      intern_settled ecommunityCmp_compares canonical.ecommunities live run)
    canonical.ecommunities interned.ecommunity
  have cluster := internPointer_settled
    (fun _ _ _ _ live run => clusterIntern_settled canonical.clusters live run)
    canonical.clusters interned.cluster
  have transit := internPointer_settled
    (fun _ _ _ _ live run => intern_settled valueCmp_compares canonical.transits live run)
    canonical.transits interned.transit
  obtain ⟨⟨inPaths, inCommunities, inExtra⟩, fields⟩ := resolve_iff.mp reads
  refine ⟨⟨⟨path.canonical, community.canonical, ecommunity.canonical, cluster.canonical,
      transit.canonical⟩, path.retains, community.retains, ecommunity.retains, cluster.retains,
      transit.retains⟩, ⟨path.shared, community.shared, ?_⟩,
    resolve_iff.mpr ⟨⟨path.at_ _ inPaths, community.at_ _ inCommunities, ?_⟩, fields⟩⟩
  · rintro extra block
    obtain ⟨before, there, rfl⟩ := Option.map_eq_some_iff.mp block
    exact ⟨ecommunity.shared, cluster.shared, transit.shared⟩
  · have leadsE := ecommunity.at_
    have leadsC := cluster.at_
    have leadsT := transit.at_
    unfold pointers at leadsE leadsC leadsT
    unfold countedAttr
    revert inExtra leadsE leadsC leadsT
    generalize attr.extra = block
    generalize seen.extra = value
    intro inExtra leadsE leadsC leadsT
    rcases block with _ | block <;> rcases value with _ | value
    · trivial
    · exact inExtra.elim
    · exact inExtra.elim
    · obtain ⟨⟨e, c, t⟩, fields⟩ := inExtra
      exact ⟨⟨leadsE _ e, leadsC _ c, leadsT _ t⟩, fields⟩

/-- What holds of the memory between calls: equal objects are one, equal attribute
sets are one, and the objects of an attribute set in the table are interned. -/
structure Kept (m : Memory) : Prop where
  objects : CanonicalObjects m.objects
  attrs : Canonical sansOriginator m.attrs
  held : ∀ address count stored, m.attrs.cells address = some ⟨count + 1, stored⟩ →
    HeldParts m.objects stored

/-- An attribute set of the table differs from the given values in its originator
alone. -/
def Shadowed (m : Memory) (seen : Attr) : Prop :=
  ∃ address count stored other, m.attrs.cells address = some ⟨count + 1, stored⟩ ∧
    stored.resolve m.objects = some other ∧ OriginatorAlone other seen

/-- The attribute set that `bgp_attr_intern` returns has the values of the caller's
but for the originator, and all of them unless the table holds a set that differs
in the originator alone. -/
theorem bgpAttrIntern_values {m t : Memory} (kept : Kept m)
    (reads : attr.resolve m.objects = some seen) {find : Nat}
    (run : bgpAttrIntern m attr = some (find, t)) :
    Kept t ∧ ∃ stored got, t.attrs.read find = some stored ∧
      stored.resolve t.objects = some got ∧ valueSansOriginator got = valueSansOriginator seen ∧
      (got = seen ↔ ¬ Shadowed m seen) := by
  obtain ⟨p, interned, stored⟩ := PolicyFrame.bgpAttrIntern_iff.mp run
  obtain ⟨settled, heldCounted, counted⟩ := interned_settled kept.objects interned reads
  have canonical := (internCopy_settled attrhashCmp_compares kept.attrs stored).canonical
  -- a set of the table that has the caller's values but for the originator is found
  have equal : ∀ {address count : Nat} {set : AttrRef} {other : Attr},
      m.attrs.cells address = some ⟨count + 1, set⟩ → set.resolve m.objects = some other →
        (attrhashCmp set (countedAttr attr p) = true ↔
          valueSansOriginator other = valueSansOriginator seen) := by
    intro address count set other live setReads
    have heldSet := kept.held _ _ _ live
    exact attrhashCmp_values settled.canonical (settled.held heldSet) heldCounted
      (settled.resolve heldSet setReads) counted
  rcases internCopy_cases stored with ⟨count, there, live, same, table⟩ | ⟨miss, here, elsewhere⟩
  · have heldThere := kept.held _ _ _ live
    obtain ⟨got, gotReads⟩ := heldThere.reads
    have sans := (equal live gotReads).mp same
    refine ⟨⟨settled.canonical, canonical, fun address count' value live' => ?_⟩, there, got, ?_,
      settled.resolve heldThere gotReads, sans, ?_⟩
    · rw [table] at live'
      by_cases found : address = find
      · rw [found, Store.put_here] at live'
        cases live'
        exact settled.held heldThere
      · rw [Store.put_elsewhere _ _ _ found] at live'
        exact settled.held (kept.held _ _ _ live')
    · unfold Store.read
      rw [table, Store.put_here]
      rfl
    · rw [originatorAlone_iff sans, not_iff_not]
      constructor
      · exact fun alone => ⟨find, count, there, got, live, gotReads, alone⟩
      · rintro ⟨address, count', set, other, live', setReads, alone⟩
        -- the table has one set with these values
        have cmp := (equal live' setReads).mpr alone.2
        have one := kept.attrs live' live
          (((attrhashCmp_compares _ _).mp cmp).trans ((attrhashCmp_compares _ _).mp same).symm)
        rw [one, live] at live'
        cases live'
        rw [gotReads] at setReads
        cases setReads
        exact alone
  · refine ⟨⟨settled.canonical, canonical, fun address count' value live' => ?_⟩,
      countedAttr attr p, seen, ?_, counted, rfl, ?_⟩
    · by_cases found : address = find
      · rw [found, here] at live'
        cases live'
        exact heldCounted
      · rw [elsewhere _ found] at live'
        exact settled.held (kept.held _ _ _ live')
    · unfold Store.read
      rw [here]
      rfl
    · refine ⟨fun _ => ?_, fun _ => rfl⟩
      rintro ⟨address, count', set, other, live', setReads, alone⟩
      have cmp := (equal live' setReads).mpr alone.2
      rw [lookup_none miss live'] at cmp
      cases cmp

theorem aspathIntern_total {s : Store PathData} {value : PathData}
    (live : s.cells address = some ⟨0, value⟩) :
    ∃ found t, aspathIntern s address = some (found, t) := by
  have scratch : Scratch (s.put address none) address value s :=
    ⟨s.put_here .., live, fun other apart => (s.put_elsewhere _ _ apart).symm⟩
  obtain ⟨found, value', t, run, referred, _⟩ :=
    scratch.intern aspathCmp ((aspathCmp_compares value value).mpr rfl)
  obtain ⟨u, written, _⟩ := Store.write_some referred.read_here
    { value' with str := some (aspathMakeStrCount value'.segments) }
  rcases string : value'.str with _ | str
  · exact ⟨found, u, by simp [aspathIntern, run, referred.read_here, string, written]⟩
  · exact ⟨found, t, by simp [aspathIntern, run, referred.read_here, string]⟩

theorem clusterIntern_total {s : Store (List U32)} {value : List U32}
    (live : s.cells address = some ⟨0, value⟩) :
    ∃ found t, clusterIntern s address = some (found, t) := by
  obtain ⟨found, t, run⟩ := internCopy_total valueCmp_compares s value
  refine ⟨found, t, ?_⟩
  unfold clusterIntern Store.read
  rw [live]
  exact run

theorem ExtraAt.leads (extraAt : ExtraAt m extra value) : ∃ e c t,
      At id m.ecommunities (extra.getD ExtraRef.zero).ecommunity e ∧
      At id m.clusters (extra.getD ExtraRef.zero).cluster c ∧
      At id m.transits (extra.getD ExtraRef.zero).transit t := by
  rcases extra with _ | extra <;> rcases value with _ | value
  · exact ⟨none, none, none, rfl, rfl, rfl⟩
  · exact extraAt.elim
  · exact extraAt.elim
  · exact ⟨_, _, _, extraAt.1⟩

/-- Attributes that can be read can be interned. -/
theorem bgpAttrIntern_total {m : Memory} (reads : attr.resolve m.objects = some seen) :
    ∃ find t, bgpAttrIntern m attr = some (find, t) := by
  obtain ⟨⟨inPaths, inCommunities, inExtra⟩, _⟩ := resolve_iff.mp reads
  obtain ⟨aspath, paths, path, present⟩ :=
    internPointer_total (fun _ _ live => aspathIntern_total live) inPaths
  obtain ⟨aspath, rfl⟩ := Option.isSome_iff_exists.mp present
  obtain ⟨community, communities, inCommunities, _⟩ :=
    internPointer_total (fun _ _ live => intern_total valueCmp_compares live) inCommunities
  obtain ⟨e, c, t, leadsE, leadsC, leadsT⟩ := inExtra.leads
  obtain ⟨ecommunity, ecommunities, inEcommunities, _⟩ :=
    internPointer_total (fun _ _ live => intern_total ecommunityCmp_compares live) leadsE
  obtain ⟨cluster, clusters, inClusters, _⟩ :=
    internPointer_total (fun _ _ live => clusterIntern_total live) leadsC
  obtain ⟨transit, transits, inTransits, _⟩ :=
    internPointer_total (fun _ _ live => intern_total valueCmp_compares live) leadsT
  let p : Pointers := ⟨aspath, community, ecommunity, cluster, transit⟩
  obtain ⟨find, attrs, stored⟩ :=
    internCopy_total attrhashCmp_compares m.attrs (countedAttr attr p)
  exact ⟨find, ⟨⟨⟨paths, m.objects.paths.lost⟩, communities, ecommunities, clusters, transits⟩,
      attrs⟩, PolicyFrame.bgpAttrIntern_iff.mpr
    ⟨p, ⟨path, rfl, inCommunities, inEcommunities, inClusters, inTransits⟩, stored⟩⟩

/-! ## Duplicates -/

section Duplicates

open Rib Updates Admission

/-- The test of `bgp_update_main` for a duplicate. -/
def sameAttributeComesIn (w : World) (ri : BgpInfo) (changed : Attr) : Bool :=
  !ri.flags.removed && Rib.attrhashCmp ri.attr (w.intern changed)

/-- An update that says what the route says already: the attributes, and the label
of a VPN route. -/
def Repeats (ri : BgpInfo) (call : UpdateCall) (changed : Attr) : Prop :=
  ri.attr = changed ∧ (call.safi = .mplsVpn → (ri.extra.getD {}).tag = call.tag)

/-- An update that is taken for a duplicate and is none: it differs in the originator
alone, or in the label. -/
def Mistaken (ri : BgpInfo) (call : UpdateCall) (changed : Attr) : Prop :=
  ri.flags.removed = false ∧ valueSansOriginator ri.attr = valueSansOriginator changed ∧
    (ri.attr ≠ changed ∨ call.safi = .mplsVpn ∧ (ri.extra.getD {}).tag ≠ call.tag)

/-- Whatever set the table returns, what is compared are the values but for the
originator. -/
theorem sameAttributeComesIn_iff (w : World) (ri : BgpInfo) (changed : Attr) :
    sameAttributeComesIn w ri changed = true ↔
      ri.flags.removed = false ∧ valueSansOriginator ri.attr = valueSansOriginator changed := by
  have interned := (ribAttrhashCmp_iff _ _).mp (w.intern_cmp changed)
  unfold sameAttributeComesIn
  rw [Bool.and_eq_true, Bool.not_eq_true', ribAttrhashCmp_iff, interned]

/-- `bgp_update_main` for an admitted update of a route. -/
theorem bgpUpdateMain_update (env : Env) (w : World) (s : State) (call : UpdateCall)
    {changed : Attr} {ri : BgpInfo}
    (admitted : admitMain env.bgp (w.connected call.p.family) (env.config call.peer) call.p
      call.attr call.safi = some changed)
    (there : findInfo (bgpNodeGet s (call.node .main)) (call.node .main) call.peer call.type
      call.subType = some ri) :
    bgpUpdateMain env w s call =
      if sameAttributeComesIn w ri changed then
        updateDuplicate env w (bgpNodeGet s (call.node .main)) (call.node .main) ri
      else
        updateChanged env w (bgpNodeGet s (call.node .main)) (call.node .main) ri
          (w.intern changed) call.tag := by
  unfold bgpUpdateMain
  simp [admitted, there, sameAttributeComesIn]

theorem repeats_iff (w : World) (ri : BgpInfo) (call : UpdateCall) (changed : Attr) :
    (sameAttributeComesIn w ri changed = true → Repeats ri call changed) ↔
      ¬ Mistaken ri call changed := by
  rw [sameAttributeComesIn_iff]
  unfold Mistaken Repeats
  tauto

end Duplicates

/-! ## No two are conflated -/

/-- `attrhash_cmp` tells interned attribute sets apart by their values exactly where
they do not differ in the originator alone, and sets that it does not tell apart have
one key. The set that `bgp_attr_intern` returns has the values of the caller's exactly
where the table holds none that differs in the originator alone, and an update that
`bgp_update_main` drops as a duplicate is one exactly where it does not differ from
the route in the originator alone, or in the label of a VPN route. -/
theorem interning_exactly (sAddr : U32 → U32) {m : Memory} (kept : Kept m) :
    (∀ first second : AttrRef, HeldParts m.objects first → HeldParts m.objects second →
      ∃ seen seen', first.resolve m.objects = some seen ∧ second.resolve m.objects = some seen' ∧
        ((attrhashCmp first second = true ↔ seen = seen') ↔ ¬ OriginatorAlone seen seen') ∧
        (attrhashCmp first second = true →
          attrhashKeyMake sAddr m.objects first = attrhashKeyMake sAddr m.objects second)) ∧
    (∀ (attr : AttrRef) (seen : Attr), attr.resolve m.objects = some seen →
      ∃ find t stored got, bgpAttrIntern m attr = some (find, t) ∧ Kept t ∧
        t.attrs.read find = some stored ∧ stored.resolve t.objects = some got ∧
        (got = seen ↔ ¬ Shadowed m seen)) ∧
    ∀ (env : Rib.Env) (w : Updates.World) (s : Rib.State) (call : Updates.UpdateCall)
      (changed : Attr) (ri : Rib.BgpInfo),
      Admission.admitMain env.bgp (w.connected call.p.family) (env.config call.peer) call.p
        call.attr call.safi = some changed →
      Updates.findInfo (Rib.bgpNodeGet s (call.node .main)) (call.node .main) call.peer call.type
        call.subType = some ri →
      (Updates.bgpUpdateMain env w s call =
        if sameAttributeComesIn w ri changed then
          Updates.updateDuplicate env w (Rib.bgpNodeGet s (call.node .main)) (call.node .main) ri
        else
          Updates.updateChanged env w (Rib.bgpNodeGet s (call.node .main)) (call.node .main) ri
            (w.intern changed) call.tag) ∧
      ((sameAttributeComesIn w ri changed = true → Repeats ri call changed) ↔
        ¬ Mistaken ri call changed) := by
  refine ⟨fun first second held held' => ?_, fun attr seen reads => ?_,
    fun env w s call changed ri admitted there =>
      ⟨bgpUpdateMain_update env w s call admitted there, repeats_iff w ri call changed⟩⟩
  · obtain ⟨seen, reads⟩ := held.reads
    obtain ⟨seen', reads'⟩ := held'.reads
    refine ⟨seen, seen', reads, reads', ?_, fun same => ?_⟩
    · rw [attrhashCmp_values kept.objects held held' reads reads']
      unfold OriginatorAlone
      constructor
      · exact fun iff alone => alone.1 (iff.mp alone.2)
      · intro apart
        refine ⟨fun same => ?_, fun equal => equal ▸ rfl⟩
        by_contra differ
        exact apart ⟨differ, same⟩
    · rw [← attrhashKeyMake_sansOriginator, (attrhashCmp_iff _ _).mp same,
        attrhashKeyMake_sansOriginator]
  · obtain ⟨find, t, run⟩ := bgpAttrIntern_total reads
    obtain ⟨kept', stored, got, read, gotReads, _, exactly⟩ := bgpAttrIntern_values kept reads run
    exact ⟨find, t, stored, got, run, kept', read, gotReads, exactly⟩

theorem single_canonical {α β : Type} (view : α → β) (value : α) :
    Canonical view (PolicyFrame.single value) := by
  have nothing : Canonical view (Store.empty : Store α) := by
    intro _ _ _ _ _ _ live
    cases live
  refine nothing.of_new (Store.put_here ..) (fun other apart => Store.put_elsewhere _ _ _ apart) ?_
  intro other count value' live
  cases live

theorem empty_canonical {α β : Type} (view : α → β) : Canonical view (Store.empty : Store α) := by
  intro _ _ _ _ _ _ live
  cases live

/-- A reflected route with the given originator. -/
def reflected (originatorId : U32) : AttrRef where
  aspath := 0
  community := none
  extra := some { ExtraRef.zero with originatorId }
  flag := attrFlagBit .originatorId
  nexthop := 0
  med := 0
  localPref := 100
  origin := 0

/-- A table with the set of a reflected route. -/
def reflectedTable : Memory :=
  { PolicyFrame.oneRoute with attrs := PolicyFrame.single (reflected 1) }

theorem reflected_held (originatorId : U32) :
    HeldParts reflectedTable.objects (reflected originatorId) where
  aspath := PolicyFrame.single_shared PolicyFrame.twoAses
  community := nofun
  extra extra block := by
    cases block
    exact ⟨nofun, nofun, nofun⟩

theorem reflectedTable_kept : Kept reflectedTable where
  objects := ⟨single_canonical _ _, single_canonical _ _, single_canonical _ _, empty_canonical _,
    empty_canonical _⟩
  attrs := single_canonical _ _
  held := by
    intro address count stored live
    by_cases first : address = 0
    · subst first
      cases live
      exact reflected_held 1
    · rw [show reflectedTable.attrs = PolicyFrame.single (reflected 1) from rfl,
        PolicyFrame.single, Store.put_elsewhere _ _ _ first] at live
      cases live

/-- What is behind the pointers of a reflected route. -/
def reflectedValue (originatorId : U32) : Attr where
  aspath := some PolicyFrame.twoAses.path
  community := none
  extra := some { AttrExtra.zero with originatorId }
  flag := attrFlagBit .originatorId
  nexthop := 0
  med := 0
  localPref := 100
  origin := 0

theorem reflected_reads (originatorId : U32) :
    (reflected originatorId).resolve reflectedTable.objects = some (reflectedValue originatorId) :=
  rfl

/-- An update from a neighbour. -/
def heardCall : Updates.UpdateCall :=
  (Actions.plainRoute 1 (Prefixes.Prefix.default .ip) (Actions.plainAttr 0x0A000001 0)).toUpdateCall

/-- The route of an earlier one, with another MED. -/
def heardInfo : Rib.BgpInfo where
  id := 0
  peer := 1
  type := .bgp
  subType := .normal
  attr := Actions.plainAttr 0x0A000001 5
  extra := none
  flags := {}

/-- The same set again is found with its own values, two originators make two sets,
and the update is no duplicate. -/
theorem interning_exactly_sample :
    (∃ find t stored got, bgpAttrIntern reflectedTable (reflected 1) = some (find, t) ∧ Kept t ∧
      t.attrs.read find = some stored ∧ stored.resolve t.objects = some got ∧
      (got = reflectedValue 1 ↔ ¬ Shadowed reflectedTable (reflectedValue 1))) ∧
    (∃ seen seen', (reflected 1).resolve reflectedTable.objects = some seen ∧
      (reflected 2).resolve reflectedTable.objects = some seen' ∧
      ((attrhashCmp (reflected 1) (reflected 2) = true ↔ seen = seen') ↔
        ¬ OriginatorAlone seen seen') ∧
      (attrhashCmp (reflected 1) (reflected 2) = true →
        attrhashKeyMake id reflectedTable.objects (reflected 1) =
          attrhashKeyMake id reflectedTable.objects (reflected 2))) ∧
    ((sameAttributeComesIn (Actions.plainWorld 0) heardInfo heardCall.attr = true →
        Repeats heardInfo heardCall heardCall.attr) ↔
      ¬ Mistaken heardInfo heardCall heardCall.attr) :=
  ⟨(interning_exactly id reflectedTable_kept).2.1 (reflected 1) _ (reflected_reads 1),
    (interning_exactly id reflectedTable_kept).1 _ _ (reflected_held 1) (reflected_held 2),
    ((interning_exactly id reflectedTable_kept).2.2 (Actions.plainEnv [1]) (Actions.plainWorld 0)
      { Rib.State.empty with infos := fun _ => [heardInfo] } heardCall heardCall.attr heardInfo
      (by decide) (by decide)).2⟩

/-- Routes with two originators have one attribute set: the second one gets the
originator of the first. -/
theorem originators_conflated :
    attrhashCmp (reflected 1) (reflected 2) = true ∧
      (reflected 1).resolve reflectedTable.objects ≠ (reflected 2).resolve reflectedTable.objects ∧
      ∃ find t stored, bgpAttrIntern reflectedTable (reflected 2) = some (find, t) ∧
        t.attrs.read find = some stored ∧
        stored.resolve t.objects = some (reflectedValue 1) := by
  refine ⟨by decide, by decide, ?_⟩
  have run : (bgpAttrIntern reflectedTable (reflected 2)).bind (fun found =>
      (found.2.attrs.read found.1).bind (·.resolve found.2.objects)) =
        some (reflectedValue 1) := by decide
  obtain ⟨⟨find, t⟩, interned, run⟩ := Option.bind_eq_some_iff.mp run
  obtain ⟨stored, read, resolved⟩ := Option.bind_eq_some_iff.mp run
  exact ⟨find, t, stored, interned, read, resolved⟩

end Bgpd.AttrHash
