import Bgpd.PolicyClauses

/-!
# What a policy leaves behind

A route's attributes are copied, a map is applied to the copy, and the copy is
interned and uninterned later, or flushed when the map denies the route. Every
set clause but three keeps the copy's pointers in order, and then nothing about
the objects has changed in the end.

A clause for extended communities takes a reference that the copy does not have.
A community clause that replaces what an earlier clause made leaves that behind.
And a path put in front of a confederation sequence reads what was just deleted.
-/

namespace Bgpd.PolicyFrame

open Octets AsPath Interning WorkingCopy PathStore SharedAttrs RouteMap PolicyClauses

/-! ## Pointers -/

/-- The pointers of an attribute set. -/
structure Pointers where
  aspath : Nat
  community : Option Nat
  ecommunity : Option Nat
  cluster : Option Nat
  transit : Option Nat
  deriving DecidableEq, Repr

def pointers (attr : AttrRef) : Pointers :=
  let extra := attr.extra.getD ExtraRef.zero
  ⟨attr.aspath, attr.community, extra.ecommunity, extra.cluster, extra.transit⟩

/-- The clauses that write fields and nothing else. -/
def fieldsOnly : SetClause → Bool
  | .asPathPrepend _ | .asPathExclude _ | .community _ | .commList _ | .extcommunityRt _
  | .extcommunitySoo _ => false
  | _ => true

variable (peer : MapPeer) (communityListLookup : String → Option (List U32 → List U32))

theorem pointers_withExtra (attr : AttrRef) (change : ExtraRef → ExtraRef)
    (ecommunity : ∀ extra, (change extra).ecommunity = extra.ecommunity)
    (cluster : ∀ extra, (change extra).cluster = extra.cluster)
    (transit : ∀ extra, (change extra).transit = extra.transit) :
    pointers (withExtra attr change) = pointers attr := by
  simp [pointers, withExtra, ecommunity, cluster, transit]

theorem routeSetIpNexthop_pointers (address : Option U32) (attr : AttrRef) :
    pointers (routeSetIpNexthop peer address attr) = pointers attr := by
  unfold routeSetIpNexthop
  split
  · rfl
  · split <;> rfl

theorem routeSetWeight_pointers (weight : U32) (attr : AttrRef) :
    pointers (routeSetWeight weight attr) = pointers attr := by
  unfold routeSetWeight
  split
  · exact pointers_withExtra attr _ (fun _ => rfl) (fun _ => rfl) fun _ => rfl
  · unfold pointers
    cases attr.extra <;> rfl

theorem routeSetMetric_pointers (rule : MetricRule) (attr : AttrRef) :
    pointers (routeSetMetric rule attr) = pointers attr := by
  cases rule <;> rfl

theorem applySet_fieldsOnly {clause : SetClause} (fields : fieldsOnly clause = true) (s : Subject) :
    ∃ attr, applySet peer communityListLookup clause s = some { s with attr } ∧
      pointers attr = pointers s.attr := by
  have extra (change : ExtraRef → ExtraRef)
      (ecommunity : ∀ extra, (change extra).ecommunity = extra.ecommunity)
      (cluster : ∀ extra, (change extra).cluster = extra.cluster)
      (transit : ∀ extra, (change extra).transit = extra.transit) :
      pointers (withExtra s.attr change) = pointers s.attr :=
    pointers_withExtra s.attr change ecommunity cluster transit
  cases clause with
  | ipNexthop address => exact ⟨_, rfl, routeSetIpNexthop_pointers peer address s.attr⟩
  | localPreference localPref => exact ⟨_, rfl, rfl⟩
  | weight weight => exact ⟨_, rfl, routeSetWeight_pointers weight s.attr⟩
  | metric rule => exact ⟨_, rfl, routeSetMetric_pointers rule s.attr⟩
  | asPathPrepend aspath => cases fields
  | asPathExclude excludePath => cases fields
  | origin origin => exact ⟨_, rfl, rfl⟩
  | atomicAggregate => exact ⟨_, rfl, rfl⟩
  | aggregatorAs as address => exact ⟨_, rfl, extra _ (fun _ => rfl) (fun _ => rfl) fun _ => rfl⟩
  | community rcs => cases fields
  | commList name => cases fields
  | vpnv4Nexthop address => exact ⟨_, rfl, extra _ (fun _ => rfl) (fun _ => rfl) fun _ => rfl⟩
  | originatorId address =>
    exact ⟨_, rfl, pointers_withExtra (mark s.attr .originatorId) _ (fun _ => rfl) (fun _ => rfl)
      fun _ => rfl⟩
  | extcommunityRt ecom => cases fields
  | extcommunitySoo ecom => cases fields
  | ipv6NexthopGlobal address => exact ⟨_, rfl, extra _ (fun _ => rfl) (fun _ => rfl) fun _ => rfl⟩
  | ipv6NexthopLocal address => exact ⟨_, rfl, extra _ (fun _ => rfl) (fun _ => rfl) fun _ => rfl⟩

/-! ## In order -/

/-- The objects of an attribute set are interned. -/
structure Held (m : Objects) (attr : AttrRef) : Prop where
  aspath : Shared m.paths.store (some attr.aspath)
  named : Named m.paths.store
  community : Shared m.communities attr.community
  ecommunity : Shared m.ecommunities (pointers attr).ecommunity
  cluster : Shared m.clusters (pointers attr).cluster
  transit : Shared m.transits (pointers attr).transit

/-- The path is the one there was, or an own one. -/
def PathInOrder (m : Paths) (origin aspath : Nat) (paths : Paths) : Prop :=
  paths.lost = m.lost ∧
    (aspath = origin ∧ Same m.store paths.store ∨ Own m.store aspath paths.store)

/-- The attributes of a copy are in order: the objects are the ones there were and
own ones. -/
structure InOrder (m : Objects) (attr : AttrRef) (s : Subject) : Prop where
  path : PathInOrder m.paths attr.aspath s.attr.aspath s.objects.paths
  community : Working m.communities attr.community s.attr.community s.objects.communities
  ecommunity : (pointers s.attr).ecommunity = (pointers attr).ecommunity ∧
    Same m.ecommunities s.objects.ecommunities
  cluster : (pointers s.attr).cluster = (pointers attr).cluster ∧
    Same m.clusters s.objects.clusters
  transit : (pointers s.attr).transit = (pointers attr).transit ∧
    Same m.transits s.objects.transits

/-- Something is lost for good: a community left behind, or a reference taken
away. -/
def Lost (m : Objects) (attr : AttrRef) (s : Subject) : Prop :=
  Leaked m.communities s.attr.community s.objects.communities ∨
    Swapped List.length m.ecommunities (pointers attr).ecommunity (pointers s.attr).ecommunity
      s.objects.ecommunities

theorem InOrder.refl {m : Objects} (attr : AttrRef) : InOrder m attr ⟨m, attr⟩ where
  path := ⟨rfl, Or.inl ⟨rfl, Same.refl _⟩⟩
  community := .kept (Same.refl _)
  ecommunity := ⟨rfl, Same.refl _⟩
  cluster := ⟨rfl, Same.refl _⟩
  transit := ⟨rfl, Same.refl _⟩

/-! ## The AS path -/

section Path

variable {m : Paths} {origin : Nat} {s : Subject}

/-- The path to be edited is an own one, with the segments there were. -/
theorem editablePath_own (shared : Shared m.store (some origin))
    (order : PathInOrder m origin s.attr.aspath s.objects.paths) :
    ∃ new paths, editablePath s = some (new, paths) ∧ Own m.store new paths.store ∧
      paths.lost = m.lost ∧
      (paths.store.read new).map (·.segments) =
        (s.objects.paths.store.read s.attr.aspath).map (·.segments) := by
  obtain ⟨lost, ⟨same_pointer, same⟩ | own⟩ := order
  · obtain ⟨count, data, live⟩ := shared origin rfl
    have here : s.objects.paths.store.cells s.attr.aspath = some ⟨count + 1, data⟩ := by
      rw [same_pointer, same origin]
      exact live
    have read : s.objects.paths.store.read s.attr.aspath = some data := by
      unfold Store.read
      rw [here]
      rfl
    obtain ⟨new, paths, copied, own, lost', segments⟩ := aspathDup_own read
    refine ⟨new, paths, ?_, ?_, lost'.trans lost, ?_⟩
    · simp [editablePath, here, copied]
    · obtain ⟨data', scratch, named⟩ := own
      exact ⟨data', scratch.of_same same, named⟩
    · rw [segments, read]
      rfl
  · obtain ⟨data, scratch, named⟩ := own
    refine ⟨s.attr.aspath, s.objects.paths, ?_, ⟨data, scratch, named⟩, lost, rfl⟩
    simp [editablePath, scratch.here]

variable {aspath : Aspath}

theorem routeSetAspathPrepend_inOrder (shared : Shared m.store (some origin))
    (order : PathInOrder m origin s.attr.aspath s.objects.paths)
    (live : ((s.objects.paths.store.read s.attr.aspath).any fun data =>
      readsDeleted aspath data.segments) = false) :
    ∃ new paths, routeSetAspathPrepend aspath s =
        some ⟨{ s.objects with paths }, { s.attr with aspath := new }⟩ ∧
      PathInOrder m origin new paths := by
  obtain ⟨new, paths, editable, own, lost, segments⟩ := editablePath_own shared order
  have kept : ∀ data, paths.store.read new = some data →
      readsDeleted aspath data.segments = false := by
    intro data read
    rw [read] at segments
    obtain ⟨before, readBefore, same⟩ := Option.map_eq_some_iff.mp segments.symm
    have segmentsSame : before.segments = data.segments := same
    rw [readBefore] at live
    exact segmentsSame ▸ live
  obtain ⟨paths', prepended, own', lost'⟩ := aspathPrepend_own own aspath kept
  refine ⟨new, paths', ?_, lost'.trans lost, Or.inr own'⟩
  simp [routeSetAspathPrepend, editable, prepended]

theorem routeSetAspathPrepend_deleted (shared : Shared m.store (some origin))
    (order : PathInOrder m origin s.attr.aspath s.objects.paths)
    (deleted : ((s.objects.paths.store.read s.attr.aspath).any fun data =>
      readsDeleted aspath data.segments) = true) : routeSetAspathPrepend aspath s = none := by
  obtain ⟨new, paths, editable, own, lost, segments⟩ := editablePath_own shared order
  obtain ⟨data, scratch, _⟩ := own
  have read := scratch.read_here
  rw [read] at segments
  obtain ⟨before, readBefore, same⟩ := Option.map_eq_some_iff.mp segments.symm
  have segmentsSame : before.segments = data.segments := same
  rw [readBefore] at deleted
  have none : aspathPrepend paths aspath new = none :=
    aspathPrepend_deleted read (segmentsSame ▸ deleted)
  simp [routeSetAspathPrepend, editable, none]

theorem routeSetAspathExclude_inOrder (shared : Shared m.store (some origin))
    (excludePath : Aspath) (order : PathInOrder m origin s.attr.aspath s.objects.paths) :
    ∃ new paths, routeSetAspathExclude excludePath s =
        some ⟨{ s.objects with paths }, { s.attr with aspath := new }⟩ ∧
      PathInOrder m origin new paths := by
  obtain ⟨new, paths, editable, own, lost, _⟩ := editablePath_own shared order
  obtain ⟨new', paths', filtered, own', lost'⟩ := aspathFilterExclude_own own excludePath
  refine ⟨new', paths', ?_, lost'.trans lost, Or.inr own'⟩
  simp [routeSetAspathExclude, editable, filtered]

end Path

/-! ## Communities -/

section Community

variable {α : Type} {m s : Store α} {origin : Option Nat} {old : Nat}

/-- A private object is made and the pointer that is worked on is given up: an own
object is freed, a shared one stays. -/
theorem freePrivate_working {t : Store α} {address : Nat} {value : α} (shared : Shared m origin)
    (working : Working m origin (some old) s) (scratch : Scratch s address value t) :
    ∃ u, freePrivate t old = some u ∧ Scratch m address value u := by
  unfold freePrivate
  rcases working.split shared with ⟨count, value', live, same⟩ | ⟨value', live, inner⟩
  · have here : t.cells old = some ⟨count + 1, value'⟩ :=
      (scratch.elsewhere old (scratch.apart live)).trans live
    exact ⟨t, by simp [here], scratch.of_same same⟩
  · obtain ⟨u, freed, after⟩ := scratch.free_under inner
    have here : t.cells old = some ⟨0, value'⟩ :=
      (scratch.elsewhere old (scratch.apart live)).trans live
    exact ⟨u, by simp [here, freed], after⟩

/-- A private object that is not freed itself stays. -/
theorem freePrivate_frame {t u : Store α} (freed : freePrivate t old = some u) {other : Nat}
    (apart : other ≠ old) : u.cells other = t.cells other := by
  obtain ⟨cell, _, freed⟩ := Option.bind_eq_some_iff.mp freed
  split at freed
  · exact free_frame freed apart
  · cases freed
    rfl

end Community

section CommunitySet

variable {m : Store (List U32)} {origin : Option Nat} {s : Subject}

/-- The part of a community clause that overwrites the pointer without a look at
what it points to. -/
def replaces (rcs : RmapComSet) : Bool := rcs.none || !rcs.additive

/-- The pointer leads to an own object. -/
def ownCommunity (s : Subject) : Bool :=
  (s.attr.community.bind s.objects.communities.cells).any fun cell => cell.refcnt = 0

theorem ownCommunity_false (shared : Shared m origin)
    (working : Working m origin s.attr.community s.objects.communities)
    (kept : ownCommunity s = false) : Same m s.objects.communities := by
  unfold ownCommunity at kept
  rcases held : s.attr.community with _ | old
  · rw [held] at working
    cases working with
    | kept same => exact same
    | cleared same => exact same
  · rw [held] at working kept
    rcases working.split shared with ⟨_, _, _, same⟩ | ⟨value, live, _⟩
    · exact same
    · simp [live] at kept

theorem ownCommunity_true (shared : Shared m origin)
    (working : Working m origin s.attr.community s.objects.communities)
    (own : ownCommunity s = true) :
    ∃ old value, s.attr.community = some old ∧ Scratch m old value s.objects.communities := by
  unfold ownCommunity at own
  rcases held : s.attr.community with _ | old
  · rw [held] at own
    cases own
  · rw [held] at working own
    rcases working.split shared with ⟨count, value, live, _⟩ | ⟨value, _, scratch⟩
    · simp [live] at own
    · exact ⟨old, value, rfl, scratch⟩

/-- The communities and the pointer after a community clause. -/
structure AfterCommunity (s s' : Subject) (communities : Store (List U32))
    (community : Option Nat) : Prop where
  objects : s'.objects = { s.objects with communities }
  pointers : pointers s'.attr = { pointers s.attr with community }

/-- The pointer set to an object, or cleared, and flagged accordingly. -/
theorem afterCommunity_set (s : Subject) (communities : Store (List U32)) (new : Nat) :
    AfterCommunity s ⟨{ s.objects with communities },
      { mark s.attr .communities with community := some new }⟩ communities (some new) := ⟨rfl, rfl⟩

theorem afterCommunity_clear (s : Subject) (communities : Store (List U32)) :
    AfterCommunity s ⟨{ s.objects with communities },
      { unmark s.attr .communities with community := none }⟩ communities none := ⟨rfl, rfl⟩

variable {rcs : RmapComSet}

/-- A clause that adds to what is there frees what it replaces. -/
theorem routeSetCommunity_additive (shared : Shared m origin)
    (working : Working m origin s.attr.community s.objects.communities)
    (adds : replaces rcs = false) :
    ∃ s' communities community, routeSetCommunity rcs s = some s' ∧
      AfterCommunity s s' communities community ∧ Working m origin community communities := by
  obtain ⟨com, additive, none⟩ := rcs
  obtain ⟨rfl, rfl⟩ : none = false ∧ additive = true := by simpa [replaces] using adds
  rcases held : s.attr.community with _ | old
  · rw [held] at working
    have same : Same m s.objects.communities := by
      cases working with
      | kept same => exact same
      | cleared same => exact same
    have scratch := alloc_scratch s.objects.communities com
    refine ⟨_, _, _, ?_, afterCommunity_set s _ _, .owned (scratch.of_same same)⟩
    simp only [routeSetCommunity, newCommunity, held, Bool.false_eq_true, if_false]
    rfl
  · rw [held] at working
    obtain ⟨cell, live⟩ := working.live shared
    have read : s.objects.communities.read old = some cell.value := by
      unfold Store.read
      rw [live]
      rfl
    -- the merged copy, without the old object, and the sorted one behind it
    have copy := alloc_scratch s.objects.communities cell.value
    obtain ⟨written, write, copy⟩ := copy.write (cell.value ++ com)
    obtain ⟨freed, free, copy⟩ := freePrivate_working shared working copy
    have sorted := alloc_scratch freed (communityUniqSort (cell.value ++ com))
    obtain ⟨last, release, sorted⟩ := sorted.free_under copy
    refine ⟨_, _, _, ?_, afterCommunity_set s _ _, .owned sorted⟩
    simp only [routeSetCommunity, newCommunity, held, read, Bool.false_eq_true, if_false,
      Option.bind_eq_bind, Option.bind_some, write, free, release]
    rfl

/-- A clause that replaces what is there does not. -/
theorem routeSetCommunity_replaces (replacing : replaces rcs = true) :
    ∃ s' communities community, routeSetCommunity rcs s = some s' ∧
      AfterCommunity s s' communities community ∧
      ((community = none ∧ communities = s.objects.communities) ∨
        ∃ address value, community = some address ∧
          Scratch s.objects.communities address value communities) := by
  obtain ⟨com, additive, none⟩ := rcs
  cases none with
  | true => exact ⟨_, _, _, rfl, afterCommunity_clear s s.objects.communities, Or.inl ⟨rfl, rfl⟩⟩
  | false =>
    obtain rfl : additive = false := by simpa [replaces] using replacing
    have scratch := alloc_scratch s.objects.communities com
    exact ⟨_, _, _, rfl, afterCommunity_set s _ _, Or.inr ⟨_, _, rfl, scratch⟩⟩

/-- Deleting communities frees what it replaces. -/
theorem routeSetCommunityDelete_working (shared : Shared m origin)
    (working : Working m origin s.attr.community s.objects.communities)
    (delete : Option (List U32 → List U32)) :
    ∃ s' communities community, routeSetCommunityDelete delete s = some s' ∧
      AfterCommunity s s' communities community ∧ Working m origin community communities := by
  rcases delete with _ | delete
  · exact ⟨s, s.objects.communities, s.attr.community, rfl, ⟨rfl, rfl⟩, working⟩
  · rcases held : s.attr.community with _ | old
    · refine ⟨s, s.objects.communities, s.attr.community, ?_, ⟨rfl, rfl⟩, working⟩
      simp [routeSetCommunityDelete, held]
    · rw [held] at working
      obtain ⟨cell, live⟩ := working.live shared
      have read : s.objects.communities.read old = some cell.value := by
        unfold Store.read
        rw [live]
        rfl
      have copy := alloc_scratch s.objects.communities cell.value
      obtain ⟨written, write, copy⟩ := copy.write (delete cell.value)
      have sorted := alloc_scratch written (communityUniqSort (delete cell.value))
      obtain ⟨released, release, sorted⟩ := sorted.free_under copy
      obtain ⟨freed, free, sorted⟩ := freePrivate_working shared working sorted
      by_cases empty : (communityUniqSort (delete cell.value)).isEmpty = true
      · obtain ⟨last, drop, same⟩ := sorted.free
        refine ⟨_, _, _, ?_, afterCommunity_clear s _, .cleared same⟩
        simp only [routeSetCommunityDelete, held, read, Option.bind_eq_bind, Option.bind_some,
          write, release, free, if_pos empty, drop]
        rfl
      · refine ⟨_, _, _, ?_, afterCommunity_set s _ _, .owned sorted⟩
        simp only [routeSetCommunityDelete, held, read, Option.bind_eq_bind, Option.bind_some,
          write, release, free, if_neg empty]
        rfl

end CommunitySet

/-! ## Extended communities -/

section Ecommunity

variable {m : Store (List (BitVec 64))} {origin : Option Nat} {s : Subject}

/-- The new object is larger than the one there was. -/
theorem mergedEcommunity_scratch {t : Store (List (BitVec 64))} {pointer : Option Nat}
    (live : ∀ old, pointer = some old → ∃ value, t.read old = some value) (ecom : EcommunityRule) :
    ∃ new value u, mergedEcommunity t pointer ecom = some (new, u) ∧ Scratch t new value u ∧
      ∀ old value', pointer = some old → t.read old = some value' →
        value'.length < value.length := by
  rcases pointer with _ | old
  · exact ⟨_, _, _, rfl, alloc_scratch t ecom.val, nofun⟩
  · obtain ⟨value, read⟩ := live old rfl
    obtain ⟨u, written, scratch⟩ := (alloc_scratch t value).write (value ++ ecom.val)
    refine ⟨_, _, u, ?_, scratch, ?_⟩
    · simp [mergedEcommunity, read, written]
    · intro other value' same read'
      cases same
      cases read.symm.trans read'
      have more := List.length_pos_of_ne_nil ecom.filled
      simp only [List.length_append]
      omega

/-- The extended communities and the pointer after a clause for them. -/
structure AfterEcommunity (s s' : Subject) (ecommunities : Store (List (BitVec 64)))
    (ecommunity : Option Nat) : Prop where
  objects : s'.objects = { s.objects with ecommunities }
  pointers : pointers s'.attr = { pointers s.attr with ecommunity }

/-- The clause takes a reference away, each time the one that its pointer came
with. -/
theorem routeSetEcommunityRt_swaps (shared : Shared m origin) (ecom : EcommunityRule)
    (before : (pointers s.attr).ecommunity = origin ∧ Same m s.objects.ecommunities ∨
      Swapped List.length m origin (pointers s.attr).ecommunity s.objects.ecommunities) :
    ∃ s' ecommunities ecommunity, routeSetEcommunityRt ecom s = some s' ∧
      AfterEcommunity s s' ecommunities ecommunity ∧
      Swapped List.length m origin ecommunity ecommunities := by
  have live : ∀ old, (pointers s.attr).ecommunity = some old →
      ∃ value, s.objects.ecommunities.read old = some value := by
    intro old held
    rcases before with ⟨same_pointer, same⟩ | swapped
    · obtain ⟨count, value, here⟩ := shared old (same_pointer.symm.trans held)
      refine ⟨value, ?_⟩
      unfold Store.read
      rw [same old, here]
      rfl
    · obtain ⟨address, count, value, there, here⟩ := swapped.counted
      cases held.symm.trans there
      refine ⟨value, ?_⟩
      unfold Store.read
      rw [here]
      rfl
  obtain ⟨new, value, made, merged, scratch, larger⟩ := mergedEcommunity_scratch live ecom
  have reflexive : ecommunityCmp value value = true := decide_eq_true rfl
  obtain ⟨found, value', counted, interned, referred, equal, _⟩ :=
    scratch.intern ecommunityCmp reflexive
  obtain rfl : value' = value := of_decide_eq_true equal
  -- the reference that goes is the one of the pointer there was
  have swap : ∃ ecommunities, uninternPointer counted (pointers s.attr).ecommunity =
      some ecommunities ∧ Swapped List.length m origin (some found) ecommunities := by
    rcases before with ⟨same_pointer, same⟩ | swapped
    · rw [same_pointer] at larger ⊢
      exact Swapped.first shared same referred fun first old held read =>
        larger first old held ((same.read first).trans read)
    · exact swapped.again referred larger
  obtain ⟨ecommunities, dropped, after⟩ := swap
  refine ⟨⟨{ s.objects with ecommunities }, mark (withExtra s.attr fun extra =>
    { extra with ecommunity := some found }) .extCommunities⟩, ecommunities, some found, ?_,
    ⟨rfl, rfl⟩, after⟩
  unfold pointers at merged dropped
  simp only [routeSetEcommunityRt, merged, Option.bind_eq_bind, Option.bind_some, interned, dropped]
  rfl

end Ecommunity

/-! ## What a clause does whatever came before -/

section Any

variable {s s' : Subject}

theorem routeSetAspathPrepend_shape {aspath : Aspath}
    (run : routeSetAspathPrepend aspath s = some s') :
    ∃ paths new, s' = ⟨{ s.objects with paths }, { s.attr with aspath := new }⟩ := by
  obtain ⟨⟨new, edited⟩, _, run⟩ := Option.bind_eq_some_iff.mp run
  obtain ⟨paths, _, run⟩ := Option.bind_eq_some_iff.mp run
  exact ⟨paths, new, (Option.some.inj run).symm⟩

theorem routeSetAspathExclude_shape {excludePath : Aspath}
    (run : routeSetAspathExclude excludePath s = some s') :
    ∃ paths new, s' = ⟨{ s.objects with paths }, { s.attr with aspath := new }⟩ := by
  obtain ⟨⟨new, edited⟩, _, run⟩ := Option.bind_eq_some_iff.mp run
  obtain ⟨⟨new', paths⟩, _, run⟩ := Option.bind_eq_some_iff.mp run
  exact ⟨paths, new', (Option.some.inj run).symm⟩

theorem routeSetEcommunityRt_shape {ecom : EcommunityRule}
    (run : routeSetEcommunityRt ecom s = some s') :
    ∃ ecommunities ecommunity, AfterEcommunity s s' ecommunities ecommunity := by
  obtain ⟨⟨new, merged⟩, _, run⟩ := Option.bind_eq_some_iff.mp run
  obtain ⟨⟨found, interned⟩, _, run⟩ := Option.bind_eq_some_iff.mp run
  obtain ⟨ecommunities, _, run⟩ := Option.bind_eq_some_iff.mp run
  cases run
  exact ⟨ecommunities, some found, rfl, rfl⟩

variable {m : Store (List U32)}

/-- A community left behind stays behind. -/
theorem routeSetCommunity_leaked {rcs : RmapComSet} (run : routeSetCommunity rcs s = some s') :
    ∃ communities community, AfterCommunity s s' communities community ∧
      (Leaked m s.attr.community s.objects.communities → Leaked m community communities) := by
  unfold routeSetCommunity at run
  split at run
  · cases run
    refine ⟨_, _, afterCommunity_clear s s.objects.communities, ?_⟩
    rintro ⟨address, value, fresh, live, _⟩
    exact ⟨address, value, fresh, live, nofun⟩
  · obtain ⟨⟨new, communities⟩, made, run⟩ := Option.bind_eq_some_iff.mp run
    cases run
    refine ⟨_, _, afterCommunity_set s communities new, ?_⟩
    rintro ⟨address, value, fresh, live, elsewhere⟩
    unfold newCommunity at made
    split at made
    · rename_i old _ held
      have apart : address ≠ old := fun same => elsewhere (held.trans (congrArg some same.symm))
      obtain ⟨merged, _, made⟩ := Option.bind_eq_some_iff.mp made
      obtain ⟨first, not_merge⟩ := alloc_frame s.objects.communities merged live
      obtain ⟨written, write, made⟩ := Option.bind_eq_some_iff.mp made
      obtain ⟨freed, free, made⟩ := Option.bind_eq_some_iff.mp made
      have second :=
        (freePrivate_frame free apart).trans ((write_frame write not_merge).trans first)
      obtain ⟨third, not_new⟩ := alloc_frame freed (communityUniqSort (merged ++ rcs.com)) second
      obtain ⟨last, release, made⟩ := Option.bind_eq_some_iff.mp made
      cases made
      exact ⟨address, value, fresh, (free_frame release not_merge).trans third,
        fun same => not_new (Option.some.inj same).symm⟩
    · cases made
      obtain ⟨first, not_new⟩ := alloc_frame s.objects.communities rcs.com live
      exact ⟨address, value, fresh, first, fun same => not_new (Option.some.inj same).symm⟩

theorem routeSetCommunityDelete_leaked {delete : Option (List U32 → List U32)}
    (run : routeSetCommunityDelete delete s = some s') :
    ∃ communities community, AfterCommunity s s' communities community ∧
      (Leaked m s.attr.community s.objects.communities → Leaked m community communities) := by
  unfold routeSetCommunityDelete at run
  split at run
  · rename_i delete old held
    obtain ⟨before, _, run⟩ := Option.bind_eq_some_iff.mp run
    obtain ⟨written, write, run⟩ := Option.bind_eq_some_iff.mp run
    obtain ⟨released, release, run⟩ := Option.bind_eq_some_iff.mp run
    obtain ⟨freed, free, run⟩ := Option.bind_eq_some_iff.mp run
    -- what was left behind is neither of the two new objects nor the old one
    have stays (address : Nat) (value : List U32)
        (live : s.objects.communities.cells address = some ⟨0, value⟩) (apart : address ≠ old) :
        freed.cells address = some ⟨0, value⟩ ∧
          address ≠ (written.alloc (communityUniqSort (delete before))).1 := by
      obtain ⟨first, not_merge⟩ := alloc_frame s.objects.communities before live
      have second := (write_frame write not_merge).trans first
      obtain ⟨third, not_new⟩ := alloc_frame written (communityUniqSort (delete before)) second
      exact ⟨(freePrivate_frame free apart).trans ((free_frame release not_merge).trans third),
        not_new⟩
    split at run
    · obtain ⟨last, drop, run⟩ := Option.bind_eq_some_iff.mp run
      cases run
      refine ⟨_, _, afterCommunity_clear s last, ?_⟩
      rintro ⟨address, value, fresh, live, elsewhere⟩
      obtain ⟨stayed, not_new⟩ := stays address value live fun same =>
        elsewhere (held.trans (congrArg some same.symm))
      exact ⟨address, value, fresh, (free_frame drop not_new).trans stayed, nofun⟩
    · cases run
      refine ⟨_, _, afterCommunity_set s freed _, ?_⟩
      rintro ⟨address, value, fresh, live, elsewhere⟩
      obtain ⟨stayed, not_new⟩ := stays address value live fun same =>
        elsewhere (held.trans (congrArg some same.symm))
      exact ⟨address, value, fresh, stayed, fun same => not_new (Option.some.inj same).symm⟩
  · cases run
    exact ⟨s.objects.communities, s.attr.community, ⟨rfl, rfl⟩, id⟩

end Any

/-! ## One clause -/

/-- The clause goes wrong where it is applied. -/
def atFault (clause : SetClause) (s : Subject) : Bool :=
  match clause with
  | .asPathPrepend aspath =>
    (s.objects.paths.store.read s.attr.aspath).any fun data => readsDeleted aspath data.segments
  | .community rcs => replaces rcs && ownCommunity s
  | .extcommunityRt _ | .extcommunitySoo _ => true
  | _ => false

section Clause

variable {m : Objects} {attr : AttrRef} {s s' : Subject}

theorem InOrder.of_pointers (order : InOrder m attr s) (objects : s'.objects = s.objects)
    (same : pointers s'.attr = pointers s.attr) : InOrder m attr s' := by
  have aspath : s'.attr.aspath = s.attr.aspath := congrArg Pointers.aspath same
  have community : s'.attr.community = s.attr.community := congrArg Pointers.community same
  refine ⟨?_, ?_, ?_, ?_, ?_⟩
  · rw [objects, aspath]
    exact order.path
  · rw [objects, community]
    exact order.community
  · rw [objects, same]
    exact order.ecommunity
  · rw [objects, same]
    exact order.cluster
  · rw [objects, same]
    exact order.transit

theorem InOrder.of_path (order : InOrder m attr s) {new : Nat} {paths : Paths}
    (path : PathInOrder m.paths attr.aspath new paths) :
    InOrder m attr ⟨{ s.objects with paths }, { s.attr with aspath := new }⟩ :=
  ⟨path, order.community, order.ecommunity, order.cluster, order.transit⟩

theorem InOrder.of_community (order : InOrder m attr s) {communities : Store (List U32)}
    {community : Option Nat} (after : AfterCommunity s s' communities community)
    (working : Working m.communities attr.community community communities) : InOrder m attr s' := by
  have aspath : s'.attr.aspath = s.attr.aspath := congrArg Pointers.aspath after.pointers
  have pointer : s'.attr.community = community := congrArg Pointers.community after.pointers
  refine ⟨?_, ?_, ?_, ?_, ?_⟩
  · rw [after.objects, aspath]
    exact order.path
  · rw [after.objects, pointer]
    exact working
  · rw [after.objects, after.pointers]
    exact order.ecommunity
  · rw [after.objects, after.pointers]
    exact order.cluster
  · rw [after.objects, after.pointers]
    exact order.transit

variable {clause : SetClause}

/-- A clause that does not go wrong keeps the copy in order. -/
theorem applySet_inOrder (held : Held m attr) (order : InOrder m attr s)
    (right : atFault clause s = false) :
    ∃ s', applySet peer communityListLookup clause s = some s' ∧ InOrder m attr s' := by
  by_cases fields : fieldsOnly clause = true
  · obtain ⟨after, run, same⟩ :=
      applySet_fieldsOnly peer communityListLookup fields s
    exact ⟨_, run, order.of_pointers rfl same⟩
  · cases clause with
    | asPathPrepend aspath =>
      obtain ⟨new, paths, run, path⟩ := routeSetAspathPrepend_inOrder held.aspath order.path right
      exact ⟨_, run, order.of_path path⟩
    | asPathExclude excludePath =>
      obtain ⟨new, paths, run, path⟩ :=
        routeSetAspathExclude_inOrder held.aspath excludePath order.path
      exact ⟨_, run, order.of_path path⟩
    | community rcs =>
      by_cases replacing : replaces rcs = true
      · have kept : ownCommunity s = false := by simpa [atFault, replacing] using right
        have same := ownCommunity_false held.community order.community kept
        obtain ⟨s', communities, community, run, after, made⟩ :=
          routeSetCommunity_replaces (s := s) replacing
        refine ⟨s', run, order.of_community after ?_⟩
        rcases made with ⟨rfl, rfl⟩ | ⟨address, value, rfl, scratch⟩
        · exact .cleared same
        · exact .owned (scratch.of_same same)
      · obtain ⟨s', communities, community, run, after, working⟩ :=
          routeSetCommunity_additive held.community order.community
            (Bool.eq_false_iff.mpr replacing)
        exact ⟨s', run, order.of_community after working⟩
    | commList name =>
      obtain ⟨s', communities, community, run, after, working⟩ :=
        routeSetCommunityDelete_working held.community order.community
          (name.bind communityListLookup)
      exact ⟨s', run, order.of_community after working⟩
    | extcommunityRt ecom => cases right
    | extcommunitySoo ecom => cases right
    | _ => exact absurd rfl fields

/-- One that does leaves something lost, if it returns at all. -/
theorem applySet_atFault (held : Held m attr) (order : InOrder m attr s)
    (fault : atFault clause s = true) (run : applySet peer communityListLookup clause s = some s') :
    Lost m attr s' := by
  have swapped {ecom : EcommunityRule} (run : routeSetEcommunityRt ecom s = some s') :
      Lost m attr s' := by
    obtain ⟨after, ecommunities, ecommunity, run', shape, swapped⟩ :=
      routeSetEcommunityRt_swaps held.ecommunity ecom (Or.inl order.ecommunity)
    cases run.symm.trans run'
    right
    rw [shape.objects, shape.pointers]
    exact swapped
  cases clause with
  | asPathPrepend aspath =>
    have none := routeSetAspathPrepend_deleted held.aspath order.path fault
    cases none.symm.trans run
  | community rcs =>
    obtain ⟨replacing, own⟩ := Bool.and_eq_true_iff.mp fault
    obtain ⟨old, value, pointed, scratch⟩ :=
      ownCommunity_true held.community order.community own
    obtain ⟨after, communities, community, run', shape, made⟩ :=
      routeSetCommunity_replaces (s := s) replacing
    cases run.symm.trans run'
    have pointer : s'.attr.community = community := congrArg Pointers.community shape.pointers
    left
    rw [shape.objects, pointer]
    rcases made with ⟨rfl, rfl⟩ | ⟨address, value', rfl, new⟩
    · exact leaked_of_scratch scratch nofun
    · have apart : old ≠ address := new.apart scratch.here
      exact ⟨old, value, scratch.fresh, (new.elsewhere old apart).trans scratch.here,
        fun same => apart (Option.some.inj same).symm⟩
  | extcommunityRt ecom => exact swapped run
  | extcommunitySoo ecom => exact swapped run
  | _ => cases fault

/-- What is lost stays lost. -/
theorem applySet_lost (held : Held m attr) (lost : Lost m attr s)
    (run : applySet peer communityListLookup clause s = some s') : Lost m attr s' := by
  -- a clause that leaves the communities and their pointers
  have kept (communities : s'.objects.communities = s.objects.communities)
      (ecommunities : s'.objects.ecommunities = s.objects.ecommunities)
      (community : (pointers s'.attr).community = (pointers s.attr).community)
      (ecommunity : (pointers s'.attr).ecommunity = (pointers s.attr).ecommunity) :
      Lost m attr s' := by
    have pointer : s'.attr.community = s.attr.community := community
    unfold Lost
    rw [communities, ecommunities, pointer, ecommunity]
    exact lost
  have inCommunity {communities : Store (List U32)} {community : Option Nat}
      (shape : AfterCommunity s s' communities community)
      (leaks : Leaked m.communities s.attr.community s.objects.communities →
        Leaked m.communities community communities) : Lost m attr s' := by
    have pointer : s'.attr.community = community := congrArg Pointers.community shape.pointers
    rcases lost with leaked | swapped
    · left
      rw [shape.objects, pointer]
      exact leaks leaked
    · right
      rw [shape.objects, shape.pointers]
      exact swapped
  have inEcommunity {ecom : EcommunityRule} (run : routeSetEcommunityRt ecom s = some s') :
      Lost m attr s' := by
    rcases lost with leaked | swapped
    · left
      obtain ⟨ecommunities, ecommunity, shape⟩ := routeSetEcommunityRt_shape run
      have pointer : s'.attr.community = s.attr.community :=
        congrArg Pointers.community shape.pointers
      rw [shape.objects, pointer]
      exact leaked
    · obtain ⟨after, ecommunities, ecommunity, run', shape, again⟩ :=
        routeSetEcommunityRt_swaps held.ecommunity ecom (Or.inr swapped)
      cases run.symm.trans run'
      right
      rw [shape.objects, shape.pointers]
      exact again
  by_cases fields : fieldsOnly clause = true
  · obtain ⟨after, run', same⟩ :=
      applySet_fieldsOnly peer communityListLookup fields s
    cases run.symm.trans run'
    exact kept rfl rfl (congrArg Pointers.community same) (congrArg Pointers.ecommunity same)
  · cases clause with
    | asPathPrepend aspath =>
      obtain ⟨paths, new, rfl⟩ := routeSetAspathPrepend_shape run
      exact kept rfl rfl rfl rfl
    | asPathExclude excludePath =>
      obtain ⟨paths, new, rfl⟩ := routeSetAspathExclude_shape run
      exact kept rfl rfl rfl rfl
    | community rcs =>
      obtain ⟨communities, community, shape, leaks⟩ := routeSetCommunity_leaked run
      exact inCommunity shape leaks
    | commList name =>
      obtain ⟨communities, community, shape, leaks⟩ := routeSetCommunityDelete_leaked run
      exact inCommunity shape leaks
    | extcommunityRt ecom => exact inEcommunity run
    | extcommunitySoo ecom => exact inEcommunity run
    | _ => exact absurd rfl fields

end Clause

/-! ## The two ways it ends -/

section Ends

variable {m : Objects} {attr : AttrRef} {s : Subject}
variable {aspath origin : Nat} {paths : Paths}

theorem PathInOrder.working {m : Paths} (order : PathInOrder m origin aspath paths) :
    Working m.store (some origin) (some aspath) paths.store := by
  obtain ⟨_, ⟨rfl, same⟩ | ⟨data, scratch, _⟩⟩ := order
  · exact .kept same
  · exact .owned scratch

theorem PathInOrder.interns {m : Paths} (named : Named m.store)
    (shared : Shared m.store (some origin)) (order : PathInOrder m origin aspath paths) :
    ∃ pointer t, internPointer aspathIntern paths.store (some aspath) = some (pointer, t) ∧
      Counted m.store pointer t := by
  refine order.working.intern ?_ shared
  intro address value scratch here
  cases here
  obtain ⟨_, ⟨rfl, same⟩ | own⟩ := order
  · obtain ⟨count, data, live⟩ := shared aspath rfl
    rw [scratch.fresh] at live
    cases live
  · exact aspathIntern_own named own

/-- Interning an own object of a kind without more to it. -/
theorem intern_own {α : Type} {same : α → α → Bool} (reflexive : ∀ value, same value value = true)
    {s t : Store α} (address : Nat) (value : α) (scratch : Scratch s address value t) :
    ∃ found value' u, t.intern same address = some (found, u) ∧ Referred s found value' u := by
  obtain ⟨found, value', u, interned, referred, _⟩ := scratch.intern same (reflexive value)
  exact ⟨found, value', u, interned, referred⟩

/-- Each pointer has one reference of its own. -/
structure AllCounted (m : Objects) (p : Pointers) (t : Objects) : Prop where
  aspath : Counted m.paths.store (some p.aspath) t.paths.store
  lost : t.paths.lost = m.paths.lost
  community : Counted m.communities p.community t.communities
  ecommunity : Counted m.ecommunities p.ecommunity t.ecommunities
  cluster : Counted m.clusters p.cluster t.clusters
  transit : Counted m.transits p.transit t.transits

theorem bgpAttrUninternSub_counted {t : Objects} (counted : AllCounted m (pointers attr) t) :
    ∃ u, bgpAttrUninternSub t attr = some u ∧ m.Same u := by
  obtain ⟨paths, path, samePaths⟩ := counted.aspath.unintern
  obtain ⟨communities, community, sameCommunities⟩ := counted.community.unintern
  obtain ⟨ecommunities, ecommunity, sameEcommunities⟩ := counted.ecommunity.unintern
  obtain ⟨clusters, cluster, sameClusters⟩ := counted.cluster.unintern
  obtain ⟨transits, transit, sameTransits⟩ := counted.transit.unintern
  have path' : t.paths.store.unintern attr.aspath = some paths := path
  have community' : uninternPointer t.communities attr.community = some communities := community
  unfold pointers at ecommunity cluster transit
  refine ⟨⟨{ t.paths with store := paths }, communities, ecommunities, clusters, transits⟩, ?_,
    ⟨samePaths, counted.lost⟩, sameCommunities, sameEcommunities, sameClusters, sameTransits⟩
  simp only [bgpAttrUninternSub, path', community', ecommunity, cluster, transit,
    Option.bind_eq_bind, Option.bind_some]
  rfl

theorem bgpAttrFlush_inOrder (held : Held m attr) (order : InOrder m attr s) :
    ∃ u, bgpAttrFlush s.objects s.attr = some u ∧ m.Same u := by
  obtain ⟨paths, path, samePaths⟩ := order.path.working.flush held.aspath
  obtain ⟨communities, community, sameCommunities⟩ := order.community.flush held.community
  -- the other pointers are the ones there were
  have kept {α : Type} {before now : Store α} {origin pointer : Option Nat}
      (shared : Shared before origin) (unmoved : pointer = origin ∧ Same before now) :
      ∃ u, flushPointer now pointer = some u ∧ Same before u := by
    obtain ⟨rfl, same⟩ := unmoved
    exact (Working.kept same).flush shared
  obtain ⟨ecommunities, ecommunity, sameEcommunities⟩ := kept held.ecommunity order.ecommunity
  obtain ⟨clusters, cluster, sameClusters⟩ := kept held.cluster order.cluster
  obtain ⟨transits, transit, sameTransits⟩ := kept held.transit order.transit
  unfold pointers at ecommunity cluster transit
  refine ⟨⟨{ s.objects.paths with store := paths }, communities, ecommunities, clusters, transits⟩,
    ?_, ⟨samePaths, order.path.1⟩, sameCommunities, sameEcommunities, sameClusters, sameTransits⟩
  simp only [bgpAttrFlush, path, community, ecommunity, cluster, transit,
    Option.bind_eq_bind, Option.bind_some]
  rfl

theorem extraCmp_pointers {first second : Option ExtraRef} (same : extraCmp first second = true) :
    (first.getD ExtraRef.zero).ecommunity = (second.getD ExtraRef.zero).ecommunity ∧
      (first.getD ExtraRef.zero).cluster = (second.getD ExtraRef.zero).cluster ∧
      (first.getD ExtraRef.zero).transit = (second.getD ExtraRef.zero).transit := by
  rcases first with _ | first <;> rcases second with _ | second
  · exact ⟨rfl, rfl, rfl⟩
  · cases same
  · cases same
  · obtain ⟨_, _, _, _, _, _, _, ecommunity, cluster, transit⟩ := of_decide_eq_true same
    exact ⟨ecommunity, cluster, transit⟩

/-- Attribute sets that are one for the hash table have the same pointers. -/
theorem attrhashCmp_pointers {first second : AttrRef} (same : attrhashCmp first second = true) :
    pointers first = pointers second := by
  unfold attrhashCmp at same
  split at same
  · rename_i fields
    obtain ⟨_, _, _, aspath, community, _, _⟩ := fields
    obtain ⟨ecommunity, cluster, transit⟩ := extraCmp_pointers same
    simp only [pointers, aspath, community, ecommunity, cluster, transit]
  · cases same

theorem attrhashCmp_refl (attr : AttrRef) : attrhashCmp attr attr = true := by
  unfold attrhashCmp
  rw [if_pos ⟨rfl, rfl, rfl, rfl, rfl, rfl, rfl⟩]
  rcases attr.extra with _ | extra
  · rfl
  · exact decide_eq_true ⟨rfl, rfl, rfl, rfl, rfl, rfl, rfl, rfl, rfl, rfl⟩

/-- The attribute set with the pointers that were counted. -/
def countedAttr (attr : AttrRef) (p : Pointers) : AttrRef :=
  { attr with
    aspath := p.aspath
    community := p.community
    extra := attr.extra.map fun extra =>
      { extra with ecommunity := p.ecommunity, cluster := p.cluster, transit := p.transit } }

variable {p : Pointers}

theorem countedAttr_pointers
    (absent : attr.extra = none → p.ecommunity = none ∧ p.cluster = none ∧ p.transit = none) :
    pointers (countedAttr attr p) = p := by
  obtain ⟨aspath, community, ecommunity, cluster, transit⟩ := p
  rcases extra : attr.extra with _ | block
  · obtain ⟨rfl, rfl, rfl⟩ := absent extra
    simp [pointers, countedAttr, extra, ExtraRef.zero]
  · simp [pointers, countedAttr, extra]

/-- What `bgp_attr_intern` does to the pointers, one after the other. -/
structure Interned (s : Objects) (attr : AttrRef) (p : Pointers) (t : Objects) : Prop where
  aspath : internPointer aspathIntern s.paths.store (some attr.aspath) =
    some (some p.aspath, t.paths.store)
  lost : t.paths.lost = s.paths.lost
  community : internPointer (Store.intern valueCmp) s.communities attr.community =
    some (p.community, t.communities)
  ecommunity : internPointer (Store.intern ecommunityCmp) s.ecommunities
    (pointers attr).ecommunity = some (p.ecommunity, t.ecommunities)
  cluster : internPointer clusterIntern s.clusters (pointers attr).cluster =
    some (p.cluster, t.clusters)
  transit : internPointer (Store.intern valueCmp) s.transits (pointers attr).transit =
    some (p.transit, t.transits)

/-- Without an extra block there is nothing to count in it. -/
theorem Interned.absent {s t : Objects} (interned : Interned s attr p t)
    (missing : attr.extra = none) : p.ecommunity = none ∧ p.cluster = none ∧ p.transit = none := by
  obtain ⟨_, _, _, ecommunity, cluster, transit⟩ := interned
  simp only [pointers, missing, Option.getD_none, ExtraRef.zero, internPointer, Option.some.injEq,
    Prod.mk.injEq] at ecommunity cluster transit
  exact ⟨ecommunity.1.symm, cluster.1.symm, transit.1.symm⟩

variable {find : Nat}

theorem bgpAttrIntern_iff {mem t : Memory} :
    bgpAttrIntern mem attr = some (find, t) ↔
      ∃ p, Interned mem.objects attr p t.objects ∧
        mem.attrs.internCopy attrhashCmp (countedAttr attr p) = some (find, t.attrs) := by
  constructor
  · intro run
    unfold bgpAttrIntern at run
    simp only [Option.bind_eq_bind] at run
    obtain ⟨⟨aspath', paths⟩, path, run⟩ := Option.bind_eq_some_iff.mp run
    obtain ⟨aspath, rfl, run⟩ := Option.bind_eq_some_iff.mp run
    obtain ⟨⟨community, communities⟩, inCommunities, run⟩ := Option.bind_eq_some_iff.mp run
    obtain ⟨⟨ecommunity, ecommunities⟩, inEcommunities, run⟩ := Option.bind_eq_some_iff.mp run
    obtain ⟨⟨cluster, clusters⟩, inClusters, run⟩ := Option.bind_eq_some_iff.mp run
    obtain ⟨⟨transit, transits⟩, inTransits, run⟩ := Option.bind_eq_some_iff.mp run
    obtain ⟨⟨find', attrs⟩, stored, run⟩ := Option.bind_eq_some_iff.mp run
    cases run
    exact ⟨⟨aspath, community, ecommunity, cluster, transit⟩,
      ⟨path, rfl, inCommunities, inEcommunities, inClusters, inTransits⟩, stored⟩
  · rintro ⟨⟨aspath, community, ecommunity, cluster, transit⟩, interned, stored⟩
    obtain ⟨⟨⟨paths, lost⟩, communities, ecommunities, clusters, transits⟩, attrs⟩ := t
    obtain ⟨path, sameLost, inCommunities, inEcommunities, inClusters, inTransits⟩ := interned
    unfold pointers at inEcommunities inClusters inTransits
    unfold countedAttr at stored
    subst sameLost
    simp only [bgpAttrIntern, path, inCommunities, inEcommunities, inClusters, inTransits,
      Option.bind_eq_bind, Option.bind_some, stored]
    rfl

/-- Attributes in order can be counted. -/
theorem interned_inOrder (held : Held m attr) (order : InOrder m attr s) :
    ∃ p t, Interned s.objects s.attr p t ∧ AllCounted m p t := by
  obtain ⟨path, paths, inPaths, countedPath⟩ := order.path.interns held.named held.aspath
  obtain ⟨aspath, rfl⟩ : ∃ aspath, path = some aspath := by
    rcases path with _ | aspath
    · obtain ⟨cell, live, run⟩ := Option.bind_eq_some_iff.mp inPaths
      split at run
      · obtain ⟨_, _, run⟩ := Option.bind_eq_some_iff.mp run
        cases run
      · obtain ⟨_, _, run⟩ := Option.bind_eq_some_iff.mp run
        cases run
    · exact ⟨aspath, rfl⟩
  have reflexive {α : Type} [DecidableEq α] (value : α) : valueCmp value value = true :=
    decide_eq_true rfl
  obtain ⟨community, communities, inCommunities, countedCommunity⟩ :=
    order.community.intern (fun address value scratch _ =>
      intern_own reflexive address value scratch) held.community
  -- the other pointers lead to what is shared
  have kept {α : Type} {before now : Store α} {origin pointer : Option Nat}
      (intern : Store α → Nat → Option (Nat × Store α)) (shared : Shared before origin)
      (unmoved : pointer = origin ∧ Same before now) :
      ∃ pointer' u, internPointer intern now pointer = some (pointer', u) ∧
        Counted before pointer' u := by
    obtain ⟨rfl, same⟩ := unmoved
    refine (Working.kept same).intern (fun address value scratch here => ?_) shared
    obtain ⟨count, value', live⟩ := shared address here
    rw [scratch.fresh] at live
    cases live
  obtain ⟨ecommunity, ecommunities, inEcommunities, countedEcommunity⟩ :=
    kept (Store.intern ecommunityCmp) held.ecommunity order.ecommunity
  obtain ⟨cluster, clusters, inClusters, countedCluster⟩ :=
    kept clusterIntern held.cluster order.cluster
  obtain ⟨transit, transits, inTransits, countedTransit⟩ :=
    kept (Store.intern valueCmp) held.transit order.transit
  exact ⟨⟨aspath, community, ecommunity, cluster, transit⟩,
    ⟨⟨paths, s.objects.paths.lost⟩, communities, ecommunities, clusters, transits⟩,
    ⟨inPaths, rfl, inCommunities, inEcommunities, inClusters, inTransits⟩,
    ⟨countedPath, order.path.1, countedCommunity, countedEcommunity, countedCluster,
      countedTransit⟩⟩

/-- Attributes in order are counted and uncounted without a trace. -/
theorem intern_unintern_inOrder {m : Memory} (held : Held m.objects attr)
    (order : InOrder m.objects attr s) :
    ∃ find t u, bgpAttrIntern { m with objects := s.objects } s.attr = some (find, t) ∧
      bgpAttrUnintern t find = some u ∧ m.Same u := by
  obtain ⟨p, objects, interned, counted⟩ := interned_inOrder held order
  obtain ⟨find, stored, attrs, inAttrs, referred, equal⟩ :=
    internCopy_referred attrhashCmp attrhashCmp_refl m.attrs (countedAttr s.attr p)
  have same : pointers stored = p :=
    (attrhashCmp_pointers equal).trans (countedAttr_pointers interned.absent)
  obtain ⟨attrs', dropped, sameAttrs⟩ := referred.unintern
  have countedHere : AllCounted m.objects (pointers stored) objects := same ▸ counted
  obtain ⟨objects', uncounted, sameObjects⟩ := bgpAttrUninternSub_counted countedHere
  refine ⟨find, ⟨objects, attrs⟩, ⟨objects', attrs'⟩, ?_, ?_, sameObjects, sameAttrs⟩
  · exact bgpAttrIntern_iff.mpr ⟨p, interned, inAttrs⟩
  · simp only [bgpAttrUnintern, referred.read_here, Option.bind_eq_bind, Option.bind_some, dropped,
      uncounted]
    rfl

/-- What is lost is not found again by counting and uncounting. -/
theorem intern_unintern_lost {m t u : Memory} (held : Held m.objects attr)
    (lost : Lost m.objects attr s)
    (counted : bgpAttrIntern { m with objects := s.objects } s.attr = some (find, t))
    (uncounted : bgpAttrUnintern t find = some u) : ¬ m.Same u := by
  obtain ⟨p, interned, inAttrs⟩ := bgpAttrIntern_iff.mp counted
  obtain ⟨find', stored, attrs, inAttrs', referred, equal⟩ :=
    internCopy_referred attrhashCmp attrhashCmp_refl m.attrs (countedAttr s.attr p)
  cases inAttrs.symm.trans inAttrs'
  have same : pointers stored = p :=
    (attrhashCmp_pointers equal).trans (countedAttr_pointers interned.absent)
  obtain ⟨tmp, read, uncounted⟩ := Option.bind_eq_some_iff.mp uncounted
  cases referred.read_here.symm.trans read
  obtain ⟨attrs', _, uncounted⟩ := Option.bind_eq_some_iff.mp uncounted
  obtain ⟨objects, dropped, uncounted⟩ := Option.bind_eq_some_iff.mp uncounted
  cases uncounted
  obtain ⟨paths, _, dropped⟩ := Option.bind_eq_some_iff.mp dropped
  obtain ⟨communities, inCommunities, dropped⟩ := Option.bind_eq_some_iff.mp dropped
  obtain ⟨ecommunities, inEcommunities, dropped⟩ := Option.bind_eq_some_iff.mp dropped
  obtain ⟨clusters, _, dropped⟩ := Option.bind_eq_some_iff.mp dropped
  obtain ⟨transits, _, dropped⟩ := Option.bind_eq_some_iff.mp dropped
  cases dropped
  rintro ⟨⟨_, sameCommunities, sameEcommunities, _, _⟩, _⟩
  rcases lost with leaked | swapped
  · have community : stored.community = p.community := congrArg Pointers.community same
    rw [community] at inCommunities
    have after := leaked.internPointer
      (fun _ _ _ _ _ _ run live apart => intern_frame run live apart) interned.community
    exact (after.uninternPointer inCommunities).not_same sameCommunities
  · have ecommunity : (pointers stored).ecommunity = p.ecommunity :=
      congrArg Pointers.ecommunity same
    have dropped : uninternPointer t.objects.ecommunities p.ecommunity = some ecommunities :=
      ecommunity ▸ inEcommunities
    exact (swapped.counted_uncounted interned.ecommunity dropped).not_same held.ecommunity
      sameEcommunities

theorem flush_lost {u : Objects} (held : Held m attr) (lost : Lost m attr s)
    (flushed : bgpAttrFlush s.objects s.attr = some u) : ¬ m.Same u := by
  unfold bgpAttrFlush at flushed
  simp only [Option.bind_eq_bind] at flushed
  obtain ⟨paths, _, flushed⟩ := Option.bind_eq_some_iff.mp flushed
  obtain ⟨communities, inCommunities, flushed⟩ := Option.bind_eq_some_iff.mp flushed
  obtain ⟨ecommunities, inEcommunities, flushed⟩ := Option.bind_eq_some_iff.mp flushed
  obtain ⟨clusters, _, flushed⟩ := Option.bind_eq_some_iff.mp flushed
  obtain ⟨transits, _, flushed⟩ := Option.bind_eq_some_iff.mp flushed
  cases flushed
  rintro ⟨_, sameCommunities, sameEcommunities, _, _⟩
  rcases lost with leaked | swapped
  · exact (leaked.flushPointer inCommunities).not_same sameCommunities
  · exact (swapped.flushed inEcommunities).not_same held.ecommunity sameEcommunities

end Ends

/-! ## A whole map -/

section Map

variable {Rule : Type}
    (routeMapLookupByName : String → Option (List (RouteMapIndex Rule SetClause)))
  (applyMatch : Rule → Subject → RouteMapResult) (left : Nat)
  (map : Option (List (RouteMapIndex Rule SetClause)))

/-- A set clause, and a note of it with what it was applied to. -/
def trackSet (clause : SetClause) (t : Option Subject × List (SetClause × Subject)) :
    Option Subject × List (SetClause × Subject) :=
  match t with
  | (none, log) => (none, log)
  | (some s, log) => (applySet peer communityListLookup clause s, (clause, s) :: log)

/-- The map applied with notes. -/
def tracked (s : Subject) : RouteMapResult × Option Subject × List (SetClause × Subject) :=
  routeMapApply routeMapLookupByName (fun rule t => matchObject applyMatch rule t.1)
    (okay (trackSet peer communityListLookup)) left map (some s, [])

/-- The set clauses a map runs on a route's attributes, each with what it is
applied to. -/
def executed (s : Subject) : List (SetClause × Subject) :=
  (tracked peer communityListLookup routeMapLookupByName applyMatch left map s).2.2

/-- No clause went wrong. -/
def AllRight (log : List (SetClause × Subject)) : Prop :=
  ∀ step ∈ log, atFault step.1 step.2 = false

/-- What the notes tell of the objects. -/
structure Accounted (m : Objects) (attr : AttrRef)
    (t : Option Subject × List (SetClause × Subject)) : Prop where
  right : AllRight t.2 → ∃ s, t.1 = some s ∧ InOrder m attr s
  wrong : ¬ AllRight t.2 → ∀ s, t.1 = some s → Lost m attr s

variable {m : Memory} {attr : AttrRef}

theorem trackSet_accounted {m : Objects} (held : Held m attr) (clause : SetClause)
    (t : Option Subject × List (SetClause × Subject)) (before : Accounted m attr t) :
    Accounted m attr (trackSet peer communityListLookup clause t) := by
  obtain ⟨object, log⟩ := t
  rcases object with _ | s
  · exact before
  · have cons : AllRight ((clause, s) :: log) ↔ atFault clause s = false ∧ AllRight log :=
      List.forall_mem_cons
    constructor
    · intro right
      obtain ⟨here, earlier⟩ := cons.mp right
      obtain ⟨s', there, order⟩ := before.right earlier
      cases there
      exact applySet_inOrder peer communityListLookup held order here
    · intro wrong s' run
      by_cases earlier : AllRight log
      · obtain ⟨s', there, order⟩ := before.right earlier
        cases there
        have fault : atFault clause s = true := by
          by_contra right
          exact wrong (cons.mpr ⟨Bool.eq_false_iff.mpr right, earlier⟩)
        exact applySet_atFault peer communityListLookup held order fault run
      · exact applySet_lost peer communityListLookup held (before.wrong earlier s rfl) run

/-- The notes change nothing about what the map does. -/
theorem tracked_result (s : Subject) :
    let plain := routeMapApply routeMapLookupByName (matchObject applyMatch)
      (okay (setObject peer communityListLookup)) left map (some s)
    let noted := tracked peer communityListLookup routeMapLookupByName applyMatch left map s
    plain.1 = noted.1 ∧ plain.2 = noted.2.1 := by
  let Related : Option Subject → Option Subject × List (SetClause × Subject) → Prop :=
    fun s t => s = t.1
  have matches_ : ∀ rule s t, Related s t →
      matchObject applyMatch rule s = matchObject applyMatch rule t.1 :=
    fun rule _ _ related => congrArg (matchObject applyMatch rule) related
  have sets :
    ∀ clause s t, Related s t → Alike Related (okay (setObject peer communityListLookup) clause s)
      (okay (trackSet peer communityListLookup) clause t) := by
    rintro clause s ⟨_, log⟩ rfl
    cases s <;> exact ⟨rfl, rfl⟩
  exact routeMapApply_simulates routeMapLookupByName matches_ sets left map rfl

theorem tracked_accounted (held : Held m.objects attr) :
    Accounted m.objects attr
      (tracked peer communityListLookup routeMapLookupByName applyMatch left map
        ⟨m.objects, attr⟩).2 := by
  have start : Accounted m.objects attr (some ⟨m.objects, attr⟩, []) :=
    ⟨fun _ => ⟨_, rfl, InOrder.refl attr⟩,
      fun wrong => (wrong (List.forall_mem_nil _)).elim⟩
  exact routeMapApply_preserves routeMapLookupByName
    (fun clause t before => trackSet_accounted peer communityListLookup held clause t before) left
    map start

/-- A policy leaves every object and every count exactly as before, and the
route's attributes their values, if and only if no clause it runs goes wrong. -/
theorem policy_preserves_iff (held : Held m.objects attr) :
    (∃ t, policyRun peer communityListLookup routeMapLookupByName applyMatch left map m attr =
        some t ∧ m.Same t ∧ attr.resolve t.objects = attr.resolve m.objects) ↔
      ∀ step ∈ executed peer communityListLookup routeMapLookupByName applyMatch left map
        ⟨m.objects, attr⟩, atFault step.1 step.2 = false := by
  have accounted := tracked_accounted peer communityListLookup routeMapLookupByName applyMatch left
    map held
  obtain ⟨result, object⟩ := tracked_result peer communityListLookup routeMapLookupByName applyMatch
    left map ⟨m.objects, attr⟩
  unfold policyRun executed bgpAttrDup
  generalize tracked peer communityListLookup routeMapLookupByName applyMatch left map
    ⟨m.objects, attr⟩ = noted at accounted result object ⊢
  generalize routeMapApply routeMapLookupByName (matchObject applyMatch)
    (okay (setObject peer communityListLookup)) left map (some ⟨m.objects, attr⟩) =
      plain at result object ⊢
  obtain ⟨ret, after⟩ := plain
  obtain ⟨ret', after', log⟩ := noted
  obtain rfl : ret = ret' := result
  obtain rfl : after = after' := object
  have values {t : Memory} (same : m.Same t) : attr.resolve t.objects = attr.resolve m.objects :=
    AttrRef.resolve_same same.objects attr
  constructor
  · rintro ⟨t, run, same, _⟩
    by_contra wrong
    obtain ⟨s, rfl, ended⟩ := Option.bind_eq_some_iff.mp run
    have lost := accounted.wrong wrong s rfl
    unfold policyEnd at ended
    split at ended
    · obtain ⟨objects, flushed, ended⟩ := Option.bind_eq_some_iff.mp ended
      cases ended
      exact flush_lost held lost flushed same.objects
    · obtain ⟨⟨find, counted⟩, interned, uncounted⟩ := Option.bind_eq_some_iff.mp ended
      exact intern_unintern_lost held lost interned uncounted same
  · intro right
    obtain ⟨s, there, order⟩ := accounted.right right
    subst there
    have ends : ∃ t, policyEnd m ret s = some t ∧ m.Same t := by
      unfold policyEnd
      split
      · obtain ⟨objects, flushed, same⟩ := bgpAttrFlush_inOrder held order
        refine ⟨{ m with objects }, ?_, same, Same.refl _⟩
        simp only [flushed, Option.bind_eq_bind, Option.bind_some]
        rfl
      · obtain ⟨find, counted, t, interned, uncounted, same⟩ := intern_unintern_inOrder held order
        refine ⟨t, ?_, same⟩
        simp [interned, uncounted]
    obtain ⟨t, ended, same⟩ := ends
    exact ⟨t, ended, same, values same⟩

end Map

/-- One interned object. -/
def single {α : Type} (value : α) : Store α := Store.empty.put 0 (some ⟨1, value⟩)

theorem single_shared {α : Type} (value : α) : Shared (single value) (some 0) := by
  intro address here
  cases here
  exact ⟨0, value, rfl⟩

/-- A path through two ASes, with its string. -/
def twoAses : PathData where
  segments := [⟨.asSequence, [65001, 65002]⟩]
  str := some (aspathMakeStrCount [⟨.asSequence, [65001, 65002]⟩])

/-- The objects of one route. -/
def oneRoute : Memory where
  objects := {
    paths := ⟨single twoAses, []⟩
    communities := single [100]
    ecommunities := single [0x0002FDE900000001]
    clusters := Store.empty
    transits := Store.empty }
  attrs := Store.empty

/-- The attributes of the route. -/
def theRoute : AttrRef where
  aspath := 0
  community := some 0
  extra := some { ExtraRef.zero with ecommunity := some 0 }
  flag := 0
  nexthop := 0
  med := 0
  localPref := 100
  origin := 0

theorem theRoute_held : Held oneRoute.objects theRoute where
  aspath := single_shared twoAses
  named := by
    intro address count data live
    by_cases first : address = 0
    · subst first
      cases live
      rfl
    · have elsewhere : (single twoAses).cells address = none :=
        Store.put_elsewhere Store.empty 0 _ first
      have gone : (single twoAses).cells address = some ⟨count + 1, data⟩ := live
      rw [elsewhere] at gone
      cases gone
  community := single_shared [100]
  ecommunity := single_shared [0x0002FDE900000001]
  cluster := nofun
  transit := nofun

/-- A map with one index that matches everything. -/
def setAll (clauses : List SetClause) : List (RouteMapIndex Empty SetClause) :=
  [⟨10, .permit, [], clauses, none, .exit, 0⟩]

/-- No neighbour that a clause asks for. -/
def noPeer : MapPeer := ⟨false, false, false, none, none⟩

/-- Prepending an AS number and adding a community leaves nothing behind. -/
theorem policy_preserves_iff_additive :
    let clauses := [.asPathPrepend ⟨[⟨.asSequence, [65000]⟩]⟩, .community ⟨[200], true, false⟩]
    ∃ t, policyRun noPeer (fun _ => none) (fun _ => none) (fun rule _ => nomatch rule) 11
        (some (setAll clauses)) oneRoute theRoute = some t ∧
      oneRoute.Same t ∧ theRoute.resolve t.objects = theRoute.resolve oneRoute.objects :=
  (policy_preserves_iff noPeer (fun _ => none) (fun _ => none) (fun rule _ => nomatch rule) 11
    (some (setAll [.asPathPrepend ⟨[⟨.asSequence, [65000]⟩]⟩, .community ⟨[200], true, false⟩]))
    theRoute_held).mpr (by decide)

/-- Adding a route target frees the extended communities of the route that it was
copied from. -/
theorem route_target_freed :
    let clauses := [.extcommunityRt ⟨[0x0002FDE900000002], by decide⟩]
    ∃ t, policyRun noPeer (fun _ => none) (fun _ => none) (fun rule _ => nomatch rule) 11
        (some (setAll clauses)) oneRoute theRoute = some t ∧
      (theRoute.resolve oneRoute.objects).isSome = true ∧ theRoute.resolve t.objects = none ∧
      ¬ oneRoute.Same t := by
  intro clauses
  have after : (policyRun noPeer (fun _ => none) (fun _ => none) (fun rule _ => nomatch rule) 11
      (some (setAll clauses)) oneRoute theRoute).map (fun t => theRoute.resolve t.objects) =
        some none := by decide
  obtain ⟨t, run, gone⟩ := Option.map_eq_some_iff.mp after
  have before : (theRoute.resolve oneRoute.objects).isSome = true := by decide
  refine ⟨t, run, before, gone, fun same => ?_⟩
  rw [AttrRef.resolve_same same.objects] at gone
  rw [gone] at before
  cases before

end Bgpd.PolicyFrame
