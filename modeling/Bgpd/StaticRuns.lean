import Bgpd.StaticShown

/-!
# Static routes over a run

What the manager shows of a prefix at a distance is compared with the static routes
that are configured there.

A static route that is added to others of its distance has its flags ignored, and
one that is deleted leaves the blackhole flag behind, so that a run has to add and
delete routes whose flags make no difference to the others. The lock that the first
route of a distance takes on its node is never released, nor are the locks on a node
of IPv6 static routes.
-/

namespace Bgpd.StaticRoutes

open Octets Prefixes ZebraRib RibQueue RibRoutes
open Function (update_of_ne update_self)

variable {route : Configured} {routes : List Configured}

/-! ## What is configured -/

/-- A configured static route as it is to be seen. -/
structure Configured where
  hop : HopId
  distance : U8
  dark : Bool
  deriving DecidableEq, Repr

/-- What is configured at a distance. -/
def atDistance (distance : U8) (routes : List Configured) : List Configured :=
  routes.filter (·.distance = distance)

/-- What is seen is what is configured: nothing, or one route with the next hops of
all and dark if one of them is. -/
def Shown (routes : List Configured) (distance : U8) : List Look → Prop
  | [] => atDistance distance routes = []
  | [now] =>
    atDistance distance routes ≠ [] ∧
      now.hops.Perm ((atDistance distance routes).map (·.hop)) ∧
      now.num = BitVec.ofNat 8 (atDistance distance routes).length ∧
      now.dark = (atDistance distance routes).any (·.dark)
  | _ => False

variable {distance : U8}
variable {looks : List Look}

theorem Shown.perm {routes' : List Configured} (same : routes.Perm routes')
    (shown : Shown routes distance looks) : Shown routes' distance looks := by
  have here : (atDistance distance routes).Perm (atDistance distance routes') := same.filter _
  match looks, shown with
  | [], nothing =>
    have nothing : atDistance distance routes = [] := nothing
    rw [nothing] at here
    exact List.nil_perm.mp here
  | [now], ⟨filled, hops, num, dark⟩ =>
    refine ⟨fun nothing => filled ?_, hops.trans (here.map _), ?_, ?_⟩
    · rw [nothing] at here
      exact List.perm_nil.mp here
    · rw [num, here.length_eq]
    · rw [dark]
      exact here.any_eq

theorem atDistance_cons (route : Configured) (routes : List Configured) :
    atDistance route.distance (route :: routes) = route :: atDistance route.distance routes := by
  unfold atDistance
  rw [List.filter_cons, if_pos (by simp)]

theorem atDistance_cons_of_ne (other : distance ≠ route.distance) (routes : List Configured) :
    atDistance distance (route :: routes) = atDistance distance routes := by
  unfold atDistance
  rw [List.filter_cons, if_neg (by simpa using Ne.symm other)]

theorem Shown.cons_of_ne (other : distance ≠ route.distance) :
    Shown (route :: routes) distance looks ↔ Shown routes distance looks := by
  unfold Shown
  rw [atDistance_cons_of_ne other]

/-- The first route of a distance. -/
theorem Shown.first (none : Shown routes route.distance []) :
    Shown (route :: routes) route.distance [⟨[route.hop], 1, route.dark⟩] := by
  have nothing : atDistance route.distance routes = [] := none
  unfold Shown
  rw [atDistance_cons, nothing]
  exact ⟨List.cons_ne_nil _ _, List.Perm.refl _, rfl, by simp⟩

variable {now : Look}

/-- Another one. -/
theorem Shown.more {dark : Bool} (shown : Shown routes route.distance [now])
    (same : dark = (route.dark || now.dark)) :
    Shown (route :: routes) route.distance [⟨now.hops ++ [route.hop], now.num + 1, dark⟩] := by
  obtain ⟨_, hops, num, darkness⟩ := shown
  unfold Shown
  rw [atDistance_cons]
  refine ⟨List.cons_ne_nil _ _, ?_, ?_, ?_⟩
  · exact List.perm_append_comm.trans (hops.cons _)
  · rw [num, List.length_cons]
    exact (BitVec.ofNat_add _ 1).symm
  · rw [same, darkness]
    rfl

/-- A route that goes leaves what the others configure, if it makes no difference to
whether they are dark. -/
theorem Shown.less {hop : Nat} (shown : Shown (route :: routes) route.distance [now])
    (found : now.hops[hop]? = some route.hop)
    (few : (atDistance route.distance (route :: routes)).length ≤ 255)
    (same : atDistance route.distance routes ≠ [] → route.dark = true →
      (atDistance route.distance routes).any (·.dark) = true) :
    Shown routes route.distance
      (if now.num = 1 then [] else [⟨now.hops.eraseIdx hop, now.num - 1, now.dark⟩]) := by
  obtain ⟨_, hops, num, dark⟩ := shown
  rw [atDistance_cons] at hops num dark few
  rw [List.length_cons] at num few
  obtain ⟨inside, here⟩ := List.getElem?_eq_some_iff.mp found
  have erased : (now.hops.eraseIdx hop).Perm ((atDistance route.distance routes).map (·.hop)) := by
    have split := List.getElem_cons_eraseIdx_perm inside
    rw [here] at split
    exact (split.trans hops).cons_inv
  by_cases last : atDistance route.distance routes = []
  · have one : now.num = 1 := by
      rw [num, last]
      rfl
    rw [if_pos one]
    exact last
  · have several : now.num ≠ 1 := by
      intro one
      have length := List.length_pos_iff.mpr last
      have value := congrArg BitVec.toNat (num.symm.trans one)
      rw [BitVec.toNat_ofNat, Nat.mod_eq_of_lt (by omega)] at value
      have unit : (1 : U8).toNat = 1 := rfl
      omega
    rw [if_neg several]
    refine ⟨last, erased, ?_, ?_⟩
    · rw [num, BitVec.ofNat_add]
      exact BitVec.add_sub_cancel _ _
    · rw [dark, List.any_cons]
      cases darkness : route.dark with
      | false => rfl
      | true => rw [Bool.true_or, same last darkness]

/-! ## Both families -/

/-- How the ways of IPv4 are seen. -/
def idOfIpv4 : Ipv4Way → HopId
  | .gateway gate => { type := .ipv4, gate := { ipv4 := gate } }
  | .ifname ifname => { type := .ifname, ifname }
  | .blackhole => { type := .blackhole }

/-- How the ways of IPv6 are seen. -/
def idOfIpv6 : Ipv6Way → HopId
  | .gateway ipv6 => { type := .ipv6, gate := { ipv6 } }
  | .gatewayIfname ipv6 ifname => { type := .ipv6Ifname, gate := { ipv6 }, ifname }
  | .ifname ifname => { type := .ifname, ifname }

/-- A static route of IPv4 that discards what it matches. -/
def blackIpv4 (way : Ipv4Way) : Bool := way = .blackhole

/-- IPv6 has none but for the flags. -/
def blackIpv6 (_ : Ipv6Way) : Bool := false

theorem look_nexthopAdd (rib : Rib) (hop : Nexthop) :
    look (nexthopAdd rib hop) =
      ⟨(look rib).hops ++ [hopId hop], rib.nexthopNum + 1, (look rib).dark⟩ := by
  unfold look nexthopAdd
  rw [List.map_append]
  rfl

theorem hopId_parts {hop : Nexthop} {id : HopId} (looks : hopId hop = id) :
    hop.type = id.type ∧ hop.gate = id.gate ∧ hop.ifname = id.ifname :=
  looks ▸ ⟨rfl, rfl, rfl⟩

theorem lawful_ipv4 : Lawful addIpv4Way staticIpv4NexthopSame idOfIpv4 blackIpv4 where
  add rib way := by
    cases way with
    | gateway gate => exact (look_nexthopAdd _ _).trans (by simp [blackIpv4, hopId, idOfIpv4])
    | ifname ifname => exact (look_nexthopAdd _ _).trans (by simp [blackIpv4, hopId, idOfIpv4])
    | blackhole =>
      refine (look_nexthopAdd _ _).trans ?_
      have dark := darkFlags_set_blackhole rib.flags
      simp [blackIpv4, hopId, idOfIpv4, look, dark]
  frame rib way := by cases way <;> exact ⟨rfl, rfl, rfl⟩
  bare rib way := by cases way <;> rfl
  same hop way way' looks := by
    obtain ⟨type, gate, ifname⟩ := hopId_parts looks
    cases way <;> cases way' <;> simp [staticIpv4NexthopSame, idOfIpv4, type, gate, ifname]

theorem lawful_ipv6 : Lawful addIpv6Way staticIpv6NexthopSame idOfIpv6 blackIpv6 where
  add rib way := by
    cases way <;> exact (look_nexthopAdd _ _).trans (by simp [blackIpv6, hopId, idOfIpv6])
  frame rib way := by cases way <;> exact ⟨rfl, rfl, rfl⟩
  bare rib way := by cases way <;> rfl
  same hop way way' looks := by
    obtain ⟨type, gate, ifname⟩ := hopId_parts looks
    cases way <;> cases way' <;> simp [staticIpv6NexthopSame, idOfIpv6, type, gate, ifname]

/-- A route that is added makes the same difference as its flags: among others of its
distance none, unless they are dark already or it is a blackhole, and alone, that a
blackhole has a flag that says so. -/
def AddsWell (routes : List Configured) (distance : U8) (black : Bool) (flags : U8) : Prop :=
  if atDistance distance routes = [] then black = true → darkFlags flags = true
  else darkFlags flags = true → black = true ∨ (atDistance distance routes).any (·.dark) = true

/-- A dark route that goes leaves another dark one of its distance, or none at all. -/
def LeavesWell (routes : List Configured) (route : Configured) : Prop :=
  atDistance route.distance routes ≠ [] → route.dark = true →
    (atDistance route.distance routes).any (·.dark) = true

section Family

variable {Way : Type} {addWay : Rib → Way → Rib} {nexthopSame : Nexthop → Way → Bool}
  (idOf : Way → HopId) (black : Way → Bool)

/-- A static route as it is to be seen. -/
def StaticRoute.seenAs (si : StaticRoute Way) : Configured :=
  ⟨idOf si.way, si.distance, black si.way || darkFlags si.flags⟩

/-- The first of some routes that is meant leaves the others well. -/
def Leaves (meant : StaticRoute Way → Bool) (routes : List (StaticRoute Way)) : Prop :=
  ∀ si, routes.find? meant = some si →
    LeavesWell ((routes.eraseP meant).map (·.seenAs idOf black)) (si.seenAs idOf black)

variable {idOf black}

theorem perm_insertRoute (before : StaticRoute Way → StaticRoute Way → Bool) (si : StaticRoute Way)
    (routes : List (StaticRoute Way)) : (si :: routes).Perm (insertRoute before si routes) := by
  unfold insertRoute
  refine List.Perm.trans ?_ List.perm_middle.symm
  rw [List.takeWhile_append_dropWhile]

variable {meant : StaticRoute Way → Bool} {si : StaticRoute Way}

theorem perm_eraseP {routes : List (StaticRoute Way)} (found : routes.find? meant = some si) :
    routes.Perm (si :: routes.eraseP meant) := by
  obtain ⟨is, first, rest, rfl, before⟩ := List.find?_eq_some_iff_append.mp found
  have before' : ∀ other ∈ first, ¬ meant other = true := fun other member => by
    simpa using before other member
  rw [List.eraseP_append_right _ before', List.eraseP_cons_of_pos is]
  exact List.perm_middle

variable {p : Prefix}
variable {z : Zebra}

/-- Installing a static route keeps what is seen what is configured. -/
theorem Lawful.install_shown (lawful : Lawful addWay nexthopSame idOf black)
    (before : StaticRoute Way → StaticRoute Way → Bool) (si : StaticRoute Way)
    {routes : List (StaticRoute Way)}
    (agrees : ∀ distance, Shown (routes.map (·.seenAs idOf black)) distance (shown z p distance))
    (well : AddsWell (routes.map (·.seenAs idOf black)) si.distance (black si.way) si.flags)
    (distance : U8) :
    Shown ((insertRoute before si routes).map (·.seenAs idOf black)) distance
      (shown (staticInstall addWay p si z) p distance) := by
  refine Shown.perm ((perm_insertRoute before si routes).map (·.seenAs idOf black)) ?_
  rw [List.map_cons]
  have here := agrees si.distance
  unfold AddsWell at well
  match looks : shown z p si.distance, here with
  | [], nothing =>
    have nothing' : atDistance si.distance (routes.map (·.seenAs idOf black)) = [] := nothing
    rw [if_pos nothing'] at well
    rw [lawful.shown_install_new p si z looks]
    by_cases same : distance = si.distance
    · rw [if_pos same, same]
      have dark : darkFlags si.flags = (si.seenAs idOf black).dark := by
        unfold StaticRoute.seenAs
        cases blackness : black si.way with
        | false => rfl
        | true => exact well blackness
      rw [dark]
      exact Shown.first nothing
    · rw [if_neg same]
      exact (Shown.cons_of_ne same).mpr (agrees distance)
  | [now], filled =>
    rw [if_neg filled.1] at well
    rw [lawful.shown_install p si z looks]
    by_cases same : distance = si.distance
    · rw [if_pos same, same]
      refine Shown.more filled ?_
      have darkness := filled.2.2.2
      unfold StaticRoute.seenAs
      rw [darkness]
      cases flags : darkFlags si.flags with
      | false => rw [Bool.or_false, Bool.or_comm]
      | true =>
        rcases well flags with blackness | dark
        · rw [blackness, Bool.or_true, Bool.true_or, Bool.true_or]
        · rw [dark, Bool.true_or, Bool.or_true]
    · rw [if_neg same]
      exact (Shown.cons_of_ne same).mpr (agrees distance)

/-- Uninstalling one keeps what is seen what is still configured. -/
theorem Lawful.uninstall_shown (lawful : Lawful addWay nexthopSame idOf black)
    {routes : List (StaticRoute Way)} (found : routes.find? meant = some si)
    (agrees : ∀ distance, Shown (routes.map (·.seenAs idOf black)) distance (shown z p distance))
    (few : ∀ distance, (atDistance distance (routes.map (·.seenAs idOf black))).length ≤ 255)
    (well : Leaves idOf black meant routes) (distance : U8) :
    Shown ((routes.eraseP meant).map (·.seenAs idOf black)) distance
      (shown (staticUninstall nexthopSame p si z) p distance) := by
  have split := (perm_eraseP found).map (·.seenAs idOf black)
  rw [List.map_cons] at split
  have agrees' (distance : U8) := (agrees distance).perm split
  have here := agrees' si.distance
  match looks : shown z p si.distance, here with
  | [], nothing =>
    have nothing' : atDistance (si.seenAs idOf black).distance
        (si.seenAs idOf black :: (routes.eraseP meant).map (·.seenAs idOf black)) = [] := nothing
    rw [atDistance_cons] at nothing'
    cases nothing'
  | [now], filled =>
    have hops := filled.2.1
    have ways : ∀ hop ∈ now.hops, ∃ way, hop = idOf way := by
      intro hop member
      obtain ⟨route, listed, rfl⟩ := List.mem_map.mp (hops.mem_iff.mp member)
      have listed' := split.symm.mem_iff.mp (List.mem_of_mem_filter listed)
      obtain ⟨si', _, rfl⟩ := List.mem_map.mp listed'
      exact ⟨si'.way, rfl⟩
    have present : idOf si.way ∈ now.hops := by
      refine hops.mem_iff.mpr (List.mem_map.mpr ⟨si.seenAs idOf black, ?_, rfl⟩)
      exact List.mem_filter.mpr ⟨List.mem_cons_self, by simp [StaticRoute.seenAs]⟩
    obtain ⟨hop, picked, effect⟩ := lawful.shown_uninstall p si z looks ways present
    rw [effect]
    by_cases same : distance = si.distance
    · rw [if_pos same, same]
      refine @Shown.less (si.seenAs idOf black) _ _ _ filled picked ?_ (well si found)
      exact (split.filter _).length_eq.ge.trans (few si.distance)
    · rw [if_neg same]
      exact (Shown.cons_of_ne same).mp (agrees' distance)

variable {other : Prefix}

/-- Installing a static route changes no other prefix. -/
theorem nodes_staticInstall (apart : other ≠ p) (si : StaticRoute Way) (z : Zebra) :
    (staticInstall addWay p si z).nodes other = z.nodes other := by
  unfold staticInstall
  dsimp only
  split
  · rw [(ribQueueAdd_nodes p _ other).2 apart]
    unfold modifyRib
    simp only [update_of_ne apart]
    rw [nodes_relock _ apart, nodes_relock _ apart]
  · rw [nodes_ribLink apart, nodes_relock _ apart]

theorem nodes_staticUninstall (apart : other ≠ p) (si : StaticRoute Way) (z : Zebra) :
    (staticUninstall nexthopSame p si z).nodes other = z.nodes other := by
  unfold staticUninstall
  split
  · rfl
  · rw [nodes_relock _ apart]
    split
    · rw [nodes_relock _ apart]
    · split
      · rw [nodes_ribDelnode apart, nodes_relock _ apart]
      · rw [(ribQueueAdd_nodes p _ other).2 apart]
        unfold modifyRib
        simp only [update_of_ne apart]
        rw [nodes_relock _ apart]

end Family

variable {s : Statics} {p : Prefix}

/-! ## Runs -/

/-- What is configured at a prefix. -/
def configured (s : Statics) (p : Prefix) : List Configured :=
  match p.family with
  | .ip => (s.ipv4 p).routes.map (·.seenAs idOfIpv4 blackIpv4)
  | .ip6 => (s.ipv6 p).routes.map (·.seenAs idOfIpv6 blackIpv6)

/-- The locks on the node of a prefix in the table of static routes. -/
def staticLock (s : Statics) (p : Prefix) : Nat :=
  match p.family with
  | .ip => (s.ipv4 p).lock
  | .ip6 => (s.ipv6 p).lock

/-- What happens to static routes. -/
inductive Event
  | addIpv4 (p : Prefix) (way : Ipv4Way) (flags distance : U8)
  | deleteIpv4 (p : Prefix) (way : Ipv4Way) (distance : U8)
  | addIpv6 (p : Prefix) (way : Ipv6Way) (flags distance : U8)
  | deleteIpv6 (p : Prefix) (way : Ipv6Way) (distance : U8)
  | process (resolve : Bool → Rib → Nexthop → Resolved) (take : Rib → Bool × (Nexthop → U8))

/-- One event. Processing fails by the assertion of `rib_process`. -/
def Statics.step (s : Statics) : Event → Option Statics
  | .addIpv4 p way flags distance => some (staticAddIpv4 p way flags distance s)
  | .deleteIpv4 p way distance => some (staticDeleteIpv4 p way distance s)
  | .addIpv6 p way flags distance => some (staticAddIpv6 p way flags distance s)
  | .deleteIpv6 p way distance => some (staticDeleteIpv6 p way distance s)
  | .process resolve take =>
    (metaQueueProcess (surroundings resolve take) s.z).map fun z => { s with z }

/-- The prefix is of the family of the call. -/
def Event.Matching : Event → Prop
  | .addIpv4 p _ _ _ => p.family = .ip
  | .deleteIpv4 p _ _ => p.family = .ip
  | .addIpv6 p _ _ _ => p.family = .ip6
  | .deleteIpv6 p _ _ => p.family = .ip6
  | .process _ _ => True

/-- At most 255 next hops are configured at each distance. -/
def Countable (s : Statics) : Prop :=
  ∀ p distance, (atDistance distance (configured s p)).length ≤ 255

/-- The flags of the routes that come and go make no difference to the others. An
IPv4 route may replace one of another distance. -/
def Fitting (s : Statics) : Event → Prop
  | .addIpv4 p way flags distance =>
    ((s.ipv4 p).routes.any fun si => si.distance = distance ∧ si.way = way) = true ∨
      Leaves idOfIpv4 blackIpv4 (·.way = way) (s.ipv4 p).routes ∧
        AddsWell (((s.ipv4 p).routes.eraseP (·.way = way)).map (·.seenAs idOfIpv4 blackIpv4))
          distance (blackIpv4 way) flags
  | .deleteIpv4 p way _ => Leaves idOfIpv4 blackIpv4 (·.way = way) (s.ipv4 p).routes
  | .addIpv6 p way flags distance =>
    ((s.ipv6 p).routes.any fun si => si.distance = distance ∧ si.way = way) = true ∨
      AddsWell (configured s p) distance (blackIpv6 way) flags
  | .deleteIpv6 p way distance =>
    Leaves idOfIpv6 blackIpv6 (fun si => si.distance = distance ∧ si.way = way) (s.ipv6 p).routes
  | .process _ _ => True

/-- The states of the runs whose routes fit, with the prefixes that lost their last
static route on the way. -/
inductive Reached : Statics → (Prefix → Prop) → Prop
  | start : Reached {} (fun _ => False)
  | step {s s' : Statics} {emptied : Prefix → Prop} (event : Event) : Reached s emptied →
      event.Matching → Fitting s event → s.step event = some s' → Countable s' →
      Reached s' (fun p => emptied p ∨ configured s p ≠ [] ∧ configured s' p = [])

/-- The states of all runs. -/
inductive Occurs : Statics → Prop
  | start : Occurs {}
  | step {s s' : Statics} (event : Event) : Occurs s → event.Matching → s.step event = some s' →
      Countable s' → Occurs s'

/-- The static route of a prefix at a distance is what is configured there. -/
structure Agrees (s : Statics) (p : Prefix) (distance : U8) : Prop where
  present : (∃ rib ∈ (s.z.nodes p).ribs, staticOf distance rib = true) ↔
    ∃ route ∈ configured s p, route.distance = distance
  single : (s.z.nodes p).ribs.countP (staticOf distance) ≤ 1
  hops : ∀ rib ∈ (s.z.nodes p).ribs, staticOf distance rib = true →
    (rib.nexthop.map hopId).Perm ((atDistance distance (configured s p)).map (·.hop))
  dark : ∀ rib ∈ (s.z.nodes p).ribs, staticOf distance rib = true →
    (darkFlags rib.flags = true ↔
      ∃ route ∈ configured s p, route.distance = distance ∧ route.dark = true)

/-- A prefix without static routes has no lock left once the queue is empty. -/
def Released (s : Statics) (p : Prefix) : Prop :=
  configured s p = [] → (∀ q, s.z.mq.subq q = []) →
    (s.z.nodes p).lock = 0 ∧ staticLock s p = 0

theorem mem_atDistance :
    route ∈ atDistance distance routes ↔ route ∈ routes ∧ route.distance = distance := by
  unfold atDistance
  rw [List.mem_filter, decide_eq_true_eq]

/-- What is seen says all. -/
theorem Agrees.of_shown (agrees : Shown (configured s p) distance (shown s.z p distance)) :
    Agrees s p distance := by
  have seen_of {rib : Rib} (static : staticOf distance rib = true) :
      seen distance rib = some (look rib) := if_pos static
  have listed {rib : Rib} (member : rib ∈ (s.z.nodes p).ribs)
    (static : staticOf distance rib = true) :
      look rib ∈ shown s.z p distance := List.mem_filterMap.mpr ⟨rib, member, seen_of static⟩
  have count : (s.z.nodes p).ribs.countP (staticOf distance) = (shown s.z p distance).length := by
    unfold shown
    rw [List.length_filterMap_eq_countP]
    refine List.countP_congr fun rib _ => ?_
    unfold seen
    cases staticOf distance rib <;> simp
  match looks : shown s.z p distance, agrees with
  | [], nothing =>
    have nothing' : atDistance distance (configured s p) = [] := nothing
    have absent (rib : Rib) (member : rib ∈ (s.z.nodes p).ribs)
        (static : staticOf distance rib = true) : False := by
      have inside := listed member static
      rw [looks] at inside
      cases inside
    refine ⟨⟨?_, ?_⟩, ?_, ?_, ?_⟩
    · rintro ⟨rib, member, static⟩
      exact (absent rib member static).elim
    · rintro ⟨route, member, same⟩
      have inside := mem_atDistance.mpr ⟨member, same⟩
      rw [nothing'] at inside
      cases inside
    · rw [count, looks]
      exact Nat.zero_le _
    · exact fun rib member static => (absent rib member static).elim
    · exact fun rib member static => (absent rib member static).elim
  | [now], ⟨filled, hops, _, dark⟩ =>
    have this {rib : Rib} (member : rib ∈ (s.z.nodes p).ribs)
        (static : staticOf distance rib = true) : look rib = now := by
      have inside := listed member static
      rw [looks] at inside
      exact List.mem_singleton.mp inside
    refine ⟨⟨?_, ?_⟩, ?_, ?_, ?_⟩
    · intro _
      obtain ⟨route, inside⟩ := List.exists_mem_of_ne_nil _ filled
      exact ⟨route, mem_atDistance.mp inside⟩
    · intro _
      have inside : now ∈ shown s.z p distance := by
        rw [looks]
        exact List.mem_singleton_self now
      obtain ⟨rib, member, seen_⟩ := List.mem_filterMap.mp inside
      refine ⟨rib, member, ?_⟩
      by_contra other
      unfold seen at seen_
      rw [if_neg other] at seen_
      cases seen_
    · rw [count, looks]
      exact Nat.le_refl _
    · intro rib member static
      rw [← this member static] at hops
      exact hops
    · intro rib member static
      rw [← this member static] at dark
      rw [show darkFlags rib.flags = (look rib).dark from rfl, dark, List.any_eq_true]
      constructor
      · rintro ⟨route, inside, is⟩
        obtain ⟨member', same⟩ := mem_atDistance.mp inside
        exact ⟨route, member', same, is⟩
      · rintro ⟨route, member', same, is⟩
        exact ⟨route, mem_atDistance.mpr ⟨member', same⟩, is⟩

/-! ## Steps -/

/-- What a call for a prefix leaves alone. -/
structure Elsewhere (p : Prefix) (s s' : Statics) : Prop where
  nodes : ∀ n, n ≠ p → s'.z.nodes n = s.z.nodes n
  ipv4 : ∀ n, n ≠ p → s'.ipv4 n = s.ipv4 n
  ipv6 : ∀ n, n ≠ p → s'.ipv6 n = s.ipv6 n

theorem Elsewhere.refl (p : Prefix) (s : Statics) : Elsewhere p s s :=
  ⟨fun _ _ => rfl, fun _ _ => rfl, fun _ _ => rfl⟩

variable {s' : Statics}

theorem Elsewhere.trans {s'' : Statics} (first : Elsewhere p s s') (second : Elsewhere p s' s'') :
    Elsewhere p s s'' where
  nodes n apart := (second.nodes n apart).trans (first.nodes n apart)
  ipv4 n apart := (second.ipv4 n apart).trans (first.ipv4 n apart)
  ipv6 n apart := (second.ipv6 n apart).trans (first.ipv6 n apart)

theorem Elsewhere.of_ipv4 (z : Zebra) (node : StaticNode Ipv4Way)
    (nodes : ∀ n, n ≠ p → z.nodes n = s.z.nodes n) :
    Elsewhere p s { s with z, ipv4 := Function.update s.ipv4 p node } :=
  ⟨nodes, fun _ apart => update_of_ne apart _ _, fun _ _ => rfl⟩

theorem Elsewhere.of_ipv6 (z : Zebra) (node : StaticNode Ipv6Way)
    (nodes : ∀ n, n ≠ p → z.nodes n = s.z.nodes n) :
    Elsewhere p s { s with z, ipv6 := Function.update s.ipv6 p node } :=
  ⟨nodes, fun _ _ => rfl, fun _ apart => update_of_ne apart _ _⟩

theorem Elsewhere.configured (elsewhere : Elsewhere p s s') {n : Prefix} (apart : n ≠ p) :
    configured s' n = configured s n ∧ staticLock s' n = staticLock s n := by
  unfold StaticRoutes.configured staticLock
  rw [elsewhere.ipv4 n apart, elsewhere.ipv6 n apart]
  exact ⟨rfl, rfl⟩

/-- What is seen is what is configured, everywhere. -/
def AllShown (s : Statics) : Prop :=
  ∀ p distance, Shown (configured s p) distance (shown s.z p distance)

theorem AllShown.elsewhere (all : AllShown s) (elsewhere : Elsewhere p s s')
    (here : ∀ distance, Shown (configured s' p) distance (shown s'.z p distance)) :
    AllShown s' := by
  intro n distance
  by_cases same : n = p
  · subst same
    exact here distance
  · have before := all n distance
    unfold shown at before ⊢
    rw [(elsewhere.configured same).1, elsewhere.nodes n same]
    exact before

theorem configured_ipv4 (ipv4 : p.family = .ip) :
    configured s p = (s.ipv4 p).routes.map (·.seenAs idOfIpv4 blackIpv4) := by
  unfold configured
  rw [ipv4]

theorem configured_ipv6 (ipv6 : p.family = .ip6) :
    configured s p = (s.ipv6 p).routes.map (·.seenAs idOfIpv6 blackIpv6) := by
  unfold configured
  rw [ipv6]

/-- What a call for a prefix has to keep. -/
structure Kept (p : Prefix) (s s' : Statics) : Prop where
  elsewhere : Elsewhere p s s'
  all : AllShown s'

variable {way : Ipv4Way}

theorem staticDeleteIpv4_kept (all : AllShown s) (few : Countable s) (ipv4 : p.family = .ip)
    (distance : U8) (well : Leaves idOfIpv4 blackIpv4 (·.way = way) (s.ipv4 p).routes) :
    Kept p s (staticDeleteIpv4 p way distance s) ∧
      ((staticDeleteIpv4 p way distance s).ipv4 p).routes =
        (s.ipv4 p).routes.eraseP (·.way = way) := by
  unfold staticDeleteIpv4
  by_cases empty : (s.ipv4 p).routes.isEmpty = true
  · rw [if_pos empty]
    refine ⟨⟨Elsewhere.refl p s, all⟩, ?_⟩
    rw [List.isEmpty_iff.mp empty]
    rfl
  · rw [if_neg empty]
    cases found : (s.ipv4 p).routes.find? (·.way = way) with
    | none =>
      have absent := List.eraseP_of_forall_not (List.find?_eq_none.mp found)
      have elsewhere : Elsewhere p s _ :=
        Elsewhere.of_ipv4 s.z { s.ipv4 p with lock := (s.ipv4 p).lock + 1 - 1 } fun _ _ => rfl
      refine ⟨⟨elsewhere, all.elsewhere elsewhere fun distance => ?_⟩, ?_⟩
      · have here := all p distance
        rw [configured_ipv4 ipv4] at here ⊢
        simpa only [update_self] using here
      · simp only [update_self]
        exact absent.symm
    | some si =>
      have elsewhere : Elsewhere p s _ :=
        Elsewhere.of_ipv4 (staticUninstallIpv4 p si s.z)
          { lock := (s.ipv4 p).lock + 1 - 1 - 1
            routes := (s.ipv4 p).routes.eraseP (·.way = way) }
          fun n apart => nodes_staticUninstall apart si s.z
      refine ⟨⟨elsewhere, all.elsewhere elsewhere fun distance => ?_⟩, ?_⟩
      · rw [configured_ipv4 ipv4]
        simp only [update_self]
        refine lawful_ipv4.uninstall_shown found (fun distance => ?_) (fun distance =>
          ?_) well distance
        · rw [← configured_ipv4 ipv4]
          exact all p distance
        · rw [← configured_ipv4 ipv4]
          exact few p distance
      · simp

theorem insertRoute_ne_nil {Way : Type} (before : StaticRoute Way → StaticRoute Way → Bool)
    (si : StaticRoute Way) (routes : List (StaticRoute Way)) :
    insertRoute before si routes ≠ [] := by
  intro empty
  have length := (perm_insertRoute before si routes).length_eq
  rw [empty] at length
  cases length

/-- Only the lock on a node changes. -/
theorem Kept.relock_ipv4 (all : AllShown s) (ipv4 : p.family = .ip) (lock : Nat) :
    Kept p s { s with ipv4 := Function.update s.ipv4 p { s.ipv4 p with lock } } := by
  have elsewhere := Elsewhere.of_ipv4 s.z { s.ipv4 p with lock } (p := p) fun _ _ => rfl
  refine ⟨elsewhere, all.elsewhere elsewhere fun distance => ?_⟩
  have here := all p distance
  rw [configured_ipv4 ipv4] at here ⊢
  simpa only [update_self] using here

theorem Kept.relock_ipv6 (all : AllShown s) (ipv6 : p.family = .ip6) (lock : Nat) :
    Kept p s { s with ipv6 := Function.update s.ipv6 p { s.ipv6 p with lock } } := by
  have elsewhere := Elsewhere.of_ipv6 s.z { s.ipv6 p with lock } (p := p) fun _ _ => rfl
  refine ⟨elsewhere, all.elsewhere elsewhere fun distance => ?_⟩
  have here := all p distance
  rw [configured_ipv6 ipv6] at here ⊢
  simpa only [update_self] using here

theorem any_ne_nil {Way : Type} {routes : List (StaticRoute Way)} {meant : StaticRoute Way → Bool}
    (present : routes.any meant = true) : routes ≠ [] := by
  rintro rfl
  cases present

/-- A new IPv4 route is installed and configured. -/
theorem insert_ipv4_kept (all : AllShown s) (ipv4 : p.family = .ip) (si : StaticRoute Ipv4Way)
    (well : AddsWell (configured s p) si.distance (blackIpv4 si.way) si.flags) :
    Kept p s
      { s with
        z := staticInstallIpv4 p si s.z
        ipv4 :=
          Function.update s.ipv4 p
            { s.ipv4 p with routes := insertRoute beforeIpv4 si (s.ipv4 p).routes } } := by
  have elsewhere := Elsewhere.of_ipv4 (p := p) (staticInstallIpv4 p si s.z)
    { s.ipv4 p with routes := insertRoute beforeIpv4 si (s.ipv4 p).routes }
    fun n apart => nodes_staticInstall apart si s.z
  refine ⟨elsewhere, all.elsewhere elsewhere fun distance => ?_⟩
  rw [configured_ipv4 ipv4] at well ⊢
  simp only [update_self]
  refine lawful_ipv4.install_shown beforeIpv4 si (fun distance => ?_) well distance
  rw [← configured_ipv4 ipv4]
  exact all p distance

variable {flags : U8}

theorem staticAddIpv4_kept (all : AllShown s) (few : Countable s) (ipv4 : p.family = .ip)
    (fitting : Fitting s (.addIpv4 p way flags distance)) :
    Kept p s (staticAddIpv4 p way flags distance s) ∧
      configured (staticAddIpv4 p way flags distance s) p ≠ [] := by
  have listed {s : Statics} (filled : (s.ipv4 p).routes ≠ []) : configured s p ≠ [] := by
    rw [configured_ipv4 ipv4]
    exact fun empty => filled (List.map_eq_nil_iff.mp empty)
  unfold staticAddIpv4
  dsimp only
  by_cases already :
      ((s.ipv4 p).routes.any fun si => si.distance = distance ∧ si.way = way) = true
  · rw [if_pos already]
    refine ⟨Kept.relock_ipv4 all ipv4 _, listed ?_⟩
    simp only [update_self]
    exact any_ne_nil already
  · rw [if_neg already]
    obtain ⟨leaves, adds⟩ := fitting.resolve_left already
    have locked := Kept.relock_ipv4 all ipv4 ((s.ipv4 p).lock + 1)
    cases last : ((s.ipv4 p).routes.filter (·.way = way)).getLast? with
    | none =>
      have absent : (s.ipv4 p).routes.eraseP (·.way = way) = (s.ipv4 p).routes :=
        List.eraseP_of_forall_not
          (List.filter_eq_nil_iff.mp (List.getLast?_eq_none_iff.mp last))
      rw [absent] at adds
      have inserted := insert_ipv4_kept locked.all ipv4 ⟨way, distance, flags⟩ (by
        rw [configured_ipv4 ipv4]
        simpa only [update_self] using adds)
      refine ⟨⟨locked.elsewhere.trans inserted.elsewhere, inserted.all⟩, listed ?_⟩
      simp only [update_self]
      exact insertRoute_ne_nil _ _ _
    | some update =>
      obtain ⟨deleted, routes⟩ :=
        staticDeleteIpv4_kept locked.all
          (fun n distance => by
            have count := few n distance
            by_cases same : n = p
            · subst same
              rw [configured_ipv4 ipv4] at count ⊢
              simpa only [update_self] using count
            · rwa [(locked.elsewhere.configured same).1])
          ipv4 update.distance
          (by simpa only [update_self] using leaves)
      simp only [update_self] at routes
      have inserted := insert_ipv4_kept deleted.all ipv4 ⟨way, distance, flags⟩ (by
        rw [configured_ipv4 ipv4, routes]
        exact adds)
      refine ⟨⟨(locked.elsewhere.trans deleted.elsewhere).trans inserted.elsewhere, inserted.all⟩,
        listed ?_⟩
      simp only [update_self]
      exact insertRoute_ne_nil _ _ _

theorem staticDeleteIpv6_kept (all : AllShown s) (few : Countable s) (ipv6 : p.family = .ip6)
    {way : Ipv6Way} (fitting : Fitting s (.deleteIpv6 p way distance)) :
    Kept p s (staticDeleteIpv6 p way distance s) := by
  unfold staticDeleteIpv6
  by_cases empty : (s.ipv6 p).routes.isEmpty = true
  · rw [if_pos empty]
    exact ⟨Elsewhere.refl p s, all⟩
  · rw [if_neg empty]
    cases found : (s.ipv6 p).routes.find? fun si => si.distance = distance ∧ si.way = way with
    | none => exact Kept.relock_ipv6 all ipv6 _
    | some si =>
      have elsewhere : Elsewhere p s _ :=
        Elsewhere.of_ipv6 (staticUninstallIpv6 p si s.z)
          { lock := (s.ipv6 p).lock + 1
            routes :=
              (s.ipv6 p).routes.eraseP fun si => si.distance = distance ∧ si.way = way }
          fun n apart => nodes_staticUninstall apart si s.z
      refine ⟨elsewhere, all.elsewhere elsewhere fun distance' => ?_⟩
      rw [configured_ipv6 ipv6]
      simp only [update_self]
      refine lawful_ipv6.uninstall_shown found (fun distance => ?_) (fun distance => ?_) fitting
        distance'
      · rw [← configured_ipv6 ipv6]
        exact all p distance
      · rw [← configured_ipv6 ipv6]
        exact few p distance

theorem staticAddIpv6_kept (all : AllShown s) (ipv6 : p.family = .ip6) {way : Ipv6Way}
    (fitting : Fitting s (.addIpv6 p way flags distance)) :
    Kept p s (staticAddIpv6 p way flags distance s) ∧
      configured (staticAddIpv6 p way flags distance s) p ≠ [] := by
  have listed {s : Statics} (filled : (s.ipv6 p).routes ≠ []) : configured s p ≠ [] := by
    rw [configured_ipv6 ipv6]
    exact fun empty => filled (List.map_eq_nil_iff.mp empty)
  unfold staticAddIpv6
  by_cases already :
      ((s.ipv6 p).routes.any fun si => si.distance = distance ∧ si.way = way) = true
  · rw [if_pos already]
    refine ⟨Kept.relock_ipv6 all ipv6 _, listed ?_⟩
    simp only [update_self]
    exact any_ne_nil already
  · rw [if_neg already]
    have adds := fitting.resolve_left already
    have elsewhere := Elsewhere.of_ipv6 (p := p) (staticInstallIpv6 p ⟨way, distance, flags⟩ s.z)
      { lock := (s.ipv6 p).lock + 1
        routes := insertRoute beforeIpv6 ⟨way, distance, flags⟩ (s.ipv6 p).routes }
      fun n apart => nodes_staticInstall apart _ s.z
    refine ⟨⟨elsewhere, all.elsewhere elsewhere fun distance' => ?_⟩, listed ?_⟩
    · rw [configured_ipv6 ipv6] at adds ⊢
      simp only [update_self]
      refine lawful_ipv6.install_shown beforeIpv6 ⟨way, distance, flags⟩ (fun distance => ?_) adds
        distance'
      rw [← configured_ipv6 ipv6]
      exact all p distance
    · simp only [update_self]
      exact insertRoute_ne_nil _ _ _

/-- Processing shows nothing else, and locks nothing. -/
theorem process_kept {z z' : Zebra} {resolve : Bool → Rib → Nexthop → Resolved}
    {take : Rib → Bool × (Nexthop → U8)}
    (done : metaQueueProcess (surroundings resolve take) z = some z') (p : Prefix) :
    (∀ distance, shown z' p distance = shown z p distance) ∧
      (z'.nodes p).lock ≤ (z.nodes p).lock := by
  unfold metaQueueProcess at done
  rcases next : nextNode z.mq with _ | ⟨q, rn, rest⟩
  · rw [next] at done
    obtain rfl := Option.some.inj done
    exact ⟨fun _ => rfl, Nat.le_refl _⟩
  · rw [next] at done
    obtain ⟨z'', processed, rfl⟩ := Option.map_eq_some_iff.mp done
    obtain ⟨⟨ribs, effects⟩, done', rfl⟩ := Option.map_eq_some_iff.mp processed
    by_cases here : p = rn
    · subst here
      constructor
      · intro distance
        have kept := (seen_blind resolve take distance).process done'
        unfold shown
        simp only [update_self]
        rw [← kept]
        cases ribs <;> rfl
      · simp only [update_self]
        omega
    · unfold shown
      simp only [update_of_ne here]
      exact ⟨fun _ => trivial, Nat.le_refl _⟩

/-- What is seen is what is configured, and a prefix without static routes that did not
lose any has no locks. -/
structure Sound (s : Statics) (emptied : Prefix → Prop) : Prop where
  all : AllShown s
  few : Countable s
  fresh : ∀ p, configured s p = [] → ¬ emptied p → (s.z.nodes p).lock = 0 ∧ staticLock s p = 0

theorem Sound.start : Sound {} (fun _ => False) := by
  have nothing (p : Prefix) : configured {} p = [] := by
    unfold configured
    cases p.family <;> rfl
  refine ⟨fun p distance => ?_, fun p distance => ?_, fun p _ _ => ⟨rfl, ?_⟩⟩
  · rw [nothing]
    exact rfl
  · rw [nothing]
    exact Nat.zero_le _
  · unfold staticLock
    cases p.family <;> rfl

variable {emptied : Prefix → Prop}

/-- A call for a prefix keeps the account, if it leaves a prefix without static routes
alone. -/
theorem Sound.call (sound : Sound s emptied) (kept : Kept p s s') (few : Countable s')
    (nothing : configured s p = [] → configured s' p = [] → s' = s) :
    Sound s' (fun n => emptied n ∨ configured s n ≠ [] ∧ configured s' n = []) := by
  refine ⟨kept.all, few, fun n none kept' => ?_⟩
  obtain ⟨before, same⟩ := not_or.mp kept'
  by_cases here : n = p
  · subst here
    have empty : configured s n = [] := by
      by_contra filled
      exact same ⟨filled, none⟩
    rw [nothing empty none]
    exact sound.fresh n empty before
  · obtain ⟨routes, lock⟩ := kept.elsewhere.configured here
    rw [kept.elsewhere.nodes n here, lock]
    exact sound.fresh n (routes ▸ none) before

theorem Sound.step (sound : Sound s emptied) {event : Event} (matching : event.Matching)
    (fitting : Fitting s event) (next : s.step event = some s') (few : Countable s') :
    Sound s' (fun n => emptied n ∨ configured s n ≠ [] ∧ configured s' n = []) := by
  cases event with
  | addIpv4 p way flags distance =>
    obtain rfl := Option.some.inj next
    obtain ⟨kept, filled⟩ := staticAddIpv4_kept sound.all sound.few matching fitting
    exact sound.call kept few fun _ empty => absurd empty filled
  | deleteIpv4 p way distance =>
    obtain rfl := Option.some.inj next
    obtain ⟨kept, _⟩ := staticDeleteIpv4_kept sound.all sound.few matching distance fitting
    refine sound.call kept few fun empty _ => ?_
    rw [configured_ipv4 matching, List.map_eq_nil_iff] at empty
    unfold staticDeleteIpv4
    simp [empty]
  | addIpv6 p way flags distance =>
    obtain rfl := Option.some.inj next
    obtain ⟨kept, filled⟩ := staticAddIpv6_kept sound.all matching fitting
    exact sound.call kept few fun _ empty => absurd empty filled
  | deleteIpv6 p way distance =>
    obtain rfl := Option.some.inj next
    refine sound.call (staticDeleteIpv6_kept sound.all sound.few matching fitting) few
      fun empty _ => ?_
    rw [configured_ipv6 matching, List.map_eq_nil_iff] at empty
    unfold staticDeleteIpv6
    simp [empty]
  | process resolve take =>
    obtain ⟨z', done, rfl⟩ := Option.map_eq_some_iff.mp next
    refine ⟨fun p distance => ?_, few, fun p none kept' => ?_⟩
    · rw [(process_kept done p).1]
      exact sound.all p distance
    · obtain ⟨lock, lock'⟩ := sound.fresh p none (not_or.mp kept').1
      have bound := (process_kept done p).2
      exact ⟨Nat.le_zero.mp (bound.trans lock.le), lock'⟩

theorem Reached.sound (reached : Reached s emptied) : Sound s emptied := by
  induction reached with
  | start => exact Sound.start
  | step event _ matching fitting next few ih => exact ih.step matching fitting next few

/-- In every run whose routes fit, the static routes are what is configured, and a
prefix that never lost its last static route has no lock left. -/
theorem static_right {s : Statics} {emptied : Prefix → Prop} (reached : Reached s emptied) :
    (∀ p distance, Agrees s p distance) ∧ ∀ p, ¬ emptied p → Released s p :=
  ⟨fun p distance => Agrees.of_shown (reached.sound.all p distance),
    fun p kept none _ => reached.sound.fresh p none kept⟩

/-! ## A run that is right and two that are not -/

/-- `10.0.0.0/8`. -/
def tenNet : Prefix := ⟨.ip, [false, false, false, false, true, false, true, false], ten_fits⟩

/-- A gateway. -/
def gate (n : Nat) : Ipv4Way := .gateway (BitVec.ofNat 32 n)

/-- Every next hop stays as it is and the kernel takes every route. -/
def calm : Event :=
  .process (fun _ _ hop => ⟨hop.flags, hop.ifindex, hop.rtype, hop.rifindex, hop.rgate⟩)
    (fun _ => (true, Nexthop.flags))

/-- A run at one prefix is countable if the routes there are. -/
theorem countable_of_one (elsewhere : Elsewhere tenNet {} s)
    (here : (configured s tenNet).length ≤ 255) : Countable s := by
  intro n distance
  refine (List.length_filter_le _ _).trans ?_
  by_cases same : n = tenNet
  · exact same ▸ here
  · rw [(elsewhere.configured same).1]
    unfold configured
    cases n.family <;> exact Nat.zero_le _

/-- The states after some calls for `10.0.0.0/8`. -/
def afterAdd : Statics := staticAddIpv4 tenNet (gate 1) 0 1 {}
def afterReject : Statics := staticAddIpv4 tenNet (gate 2) zebraFlagReject 1 afterAdd
def afterDelete : Statics := staticDeleteIpv4 tenNet (gate 1) 1 afterAdd

theorem Elsewhere.install (si : StaticRoute Ipv4Way) (ipv4 : Prefix → StaticNode Ipv4Way)
    (same : ∀ n, n ≠ p → ipv4 n = s.ipv4 n) :
    Elsewhere p s { s with z := staticInstallIpv4 p si s.z, ipv4 } :=
  ⟨fun _ apart => nodes_staticInstall apart si s.z, same, fun _ _ => rfl⟩

theorem elsewhere_afterAdd : Elsewhere tenNet {} afterAdd :=
  Elsewhere.install ⟨gate 1, 1, 0⟩ _ fun _ apart =>
    (update_of_ne apart _ _).trans (update_of_ne apart _ _)

/-- A second gateway is added, and the first one is deleted. -/
def afterSecond : Statics := staticAddIpv4 tenNet (gate 2) 0 1 afterAdd
def withoutFirst : Statics := staticDeleteIpv4 tenNet (gate 1) 1 afterSecond

theorem static_right_one : Agrees withoutFirst tenNet 1 := by
  have elsewhere : Elsewhere tenNet {} afterSecond :=
    elsewhere_afterAdd.trans (Elsewhere.install ⟨gate 2, 1, 0⟩ _ fun _ apart =>
      (update_of_ne apart _ _).trans (update_of_ne apart _ _))
  have first := Reached.step (.addIpv4 tenNet (gate 1) 0 1) .start rfl
    (Or.inr ⟨nofun, fun black => absurd black (by decide)⟩) rfl
    (countable_of_one elsewhere_afterAdd (by decide))
  have second := Reached.step (.addIpv4 tenNet (gate 2) 0 1) first rfl
    (Or.inr ⟨nofun, fun dark => absurd dark (by decide)⟩) rfl
    (countable_of_one elsewhere (by decide))
  refine (static_right (.step (.deleteIpv4 tenNet (gate 1) 1) second rfl (fun si found => ?_) rfl
    (countable_of_one (elsewhere.trans (Elsewhere.of_ipv4 _ _ fun _ apart =>
      nodes_staticUninstall apart _ _)) (by decide)))).1 tenNet 1
  cases found
  exact fun _ dark => absurd dark (by decide)

theorem occurs_afterAdd : Occurs afterAdd :=
  .step (.addIpv4 tenNet (gate 1) 0 1) .start rfl rfl
    (countable_of_one elsewhere_afterAdd (by decide))

theorem occurs_afterReject : Occurs afterReject := by
  have elsewhere : Elsewhere tenNet afterAdd afterReject :=
    Elsewhere.install ⟨gate 2, 1, zebraFlagReject⟩ _ fun _ apart =>
      (update_of_ne apart _ _).trans (update_of_ne apart _ _)
  exact .step (.addIpv4 tenNet (gate 2) zebraFlagReject 1) occurs_afterAdd rfl rfl
    (countable_of_one (elsewhere_afterAdd.trans elsewhere) (by decide))

theorem occurs_afterDelete : Occurs afterDelete := by
  have elsewhere : Elsewhere tenNet afterAdd afterDelete :=
    Elsewhere.of_ipv4 _ _ fun _ apart => nodes_staticUninstall apart _ _
  exact .step (.deleteIpv4 tenNet (gate 1) 1) occurs_afterAdd rfl rfl
    (countable_of_one (elsewhere_afterAdd.trans elsewhere) (by decide))

/-- A reject route is added to another one of its distance and its flag is lost. The only
static route of a prefix is deleted and processed and the node stays locked. -/
theorem static_not_right :
    (∃ s, Occurs s ∧ ¬ Agrees s tenNet 1) ∧
      ∃ s s', Occurs s ∧ s.step calm = some s' ∧ ¬ Released s' tenNet := by
  constructor
  · refine ⟨afterReject, occurs_afterReject, fun agrees => ?_⟩
    have lost : ∃ rib ∈ (afterReject.z.nodes tenNet).ribs, staticOf 1 rib = true ∧
        darkFlags rib.flags = false := by decide
    obtain ⟨rib, member, static, light⟩ := lost
    have dark := (agrees.dark rib member static).mpr (by decide)
    rw [light] at dark
    cases dark
  · refine ⟨afterDelete, _, occurs_afterDelete, rfl, fun released => ?_⟩
    have left := (released (by decide) (by decide)).1
    exact absurd left (by decide)

end Bgpd.StaticRoutes
