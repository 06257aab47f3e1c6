import Bgpd.Attributes
import Bgpd.PathStore

/-!
# Attributes in memory

An attribute set as the daemon holds it: its AS path, communities, extended
communities, cluster list and unknown attributes are pointers to counted
objects. The values behind the pointers are the attribute set of
`Bgpd.Attributes`; copying the set copies the pointers.
-/

namespace Bgpd.SharedAttrs

open Octets Attributes Interning PathStore

/-- The objects attribute sets point to. -/
structure Objects where
  paths : Paths
  communities : Store (List U32)
  ecommunities : Store (List (BitVec 64))
  clusters : Store (List U32)
  transits : Store (List U8)

/-- No object was written, freed, leaked or counted differently. -/
structure Objects.Same (s t : Objects) : Prop where
  paths : s.paths.Same t.paths
  communities : Interning.Same s.communities t.communities
  ecommunities : Interning.Same s.ecommunities t.ecommunities
  clusters : Interning.Same s.clusters t.clusters
  transits : Interning.Same s.transits t.transits

/-- `struct attr_extra`, its objects as pointers. -/
structure ExtraRef where
  mpNexthopGlobal : BitVec 128
  mpNexthopLocal : BitVec 128
  ecommunity : Option Nat
  cluster : Option Nat
  transit : Option Nat
  mpNexthopGlobalIn : U32
  aggregatorAddr : U32
  originatorId : U32
  weight : U32
  aggregatorAs : U32
  mpNexthopLen : U8
  deriving DecidableEq, Repr

/-- `struct attr`, its objects as pointers. The path is never null once the
attributes are complete. -/
structure AttrRef where
  aspath : Nat
  community : Option Nat
  extra : Option ExtraRef
  flag : U32
  nexthop : U32
  med : U32
  localPref : U32
  origin : U8
  deriving DecidableEq, Repr

/-- The value behind a pointer that may be null. -/
def follow {α : Type} (s : Store α) : Option Nat → Option (Option α)
  | none => some none
  | some address => (s.read address).map some

/-- The values of an extra block. -/
def ExtraRef.resolve (s : Objects) (extra : ExtraRef) : Option AttrExtra := do
  let ecommunity ← follow s.ecommunities extra.ecommunity
  let cluster ← follow s.clusters extra.cluster
  let transit ← follow s.transits extra.transit
  return {
    mpNexthopGlobal := extra.mpNexthopGlobal
    mpNexthopLocal := extra.mpNexthopLocal
    ecommunity
    cluster
    transit
    mpNexthopGlobalIn := extra.mpNexthopGlobalIn
    aggregatorAddr := extra.aggregatorAddr
    originatorId := extra.originatorId
    weight := extra.weight
    aggregatorAs := extra.aggregatorAs
    mpNexthopLen := extra.mpNexthopLen }

/-- The values of an extra block that may be missing. -/
def resolveExtra (s : Objects) : Option ExtraRef → Option (Option AttrExtra)
  | none => some none
  | some extra => (extra.resolve s).map some

/-- The values of an attribute set; `none` where a pointer dangles. -/
def AttrRef.resolve (s : Objects) (attr : AttrRef) : Option Attr := do
  let data ← s.paths.store.read attr.aspath
  let community ← follow s.communities attr.community
  let extra ← resolveExtra s attr.extra
  return {
    aspath := some data.path
    community
    extra
    flag := attr.flag
    nexthop := attr.nexthop
    med := attr.med
    localPref := attr.localPref
    origin := attr.origin }

/-- Attributes that can be read have a path that can be read. -/
theorem AttrRef.resolve_path {s : Objects} {attr : AttrRef} {seen : Attr}
    (reads : attr.resolve s = some seen) :
    ∃ data, s.paths.store.read attr.aspath = some data ∧ seen.aspath = some data.path := by
  unfold AttrRef.resolve at reads
  obtain ⟨data, read, reads⟩ := Option.bind_eq_some_iff.mp reads
  obtain ⟨community, _, reads⟩ := Option.bind_eq_some_iff.mp reads
  obtain ⟨extra, _, reads⟩ := Option.bind_eq_some_iff.mp reads
  cases reads
  exact ⟨data, read, rfl⟩

theorem Objects.Same.refl (s : Objects) : s.Same s :=
  ⟨Paths.Same.refl _, .refl _, .refl _, .refl _, .refl _⟩

theorem follow_same {α : Type} {s t : Store α} (same : Interning.Same s t) (pointer : Option Nat) :
    follow t pointer = follow s pointer := by
  cases pointer with
  | none => rfl
  | some address => exact congrArg (Option.map some) (same.read address)

/-- Attributes have the same values where the objects are the same. -/
theorem AttrRef.resolve_same {s t : Objects} (same : s.Same t) (attr : AttrRef) :
    attr.resolve t = attr.resolve s := by
  have extra : resolveExtra t attr.extra = resolveExtra s attr.extra := by
    cases attr.extra with
    | none => rfl
    | some extra =>
      simp only [resolveExtra, ExtraRef.resolve, follow_same same.ecommunities,
        follow_same same.clusters, follow_same same.transits]
  unfold AttrRef.resolve
  rw [same.paths.store.read, follow_same same.communities, extra]

end Bgpd.SharedAttrs
