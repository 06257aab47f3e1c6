import Bgpd.StaticRoutes

/-!
# What the routes of a prefix show of a distance

Of a static route one sees its next hops, their count and whether it discards what
it matches. Processing changes none of these. Installing a static route adds to
what is seen at its distance, uninstalling it takes away from that.
-/

namespace Bgpd.StaticRoutes

open Octets FlagWord Prefixes ZebraRib RibQueue RibRoutes

variable (flags : U8) {distance : U8} {ribs : List Rib}

/-! ## The view -/

/-- What a next hop was configured as. -/
structure HopId where
  type : NexthopType
  gate : GAddr := {}
  ifname : List Char := []
  deriving DecidableEq, Repr

def hopId (hop : Nexthop) : HopId := ⟨hop.type, hop.gate, hop.ifname⟩

/-- A blackhole or reject route, by its flags. -/
def darkFlags (flags : U8) : Bool := check flags zebraFlagBlackhole || check flags zebraFlagReject

/-- What one sees of a static route. -/
structure Look where
  hops : List HopId
  num : U8
  dark : Bool
  deriving DecidableEq, Repr

def look (rib : Rib) : Look := ⟨rib.nexthop.map hopId, rib.nexthopNum, darkFlags rib.flags⟩

/-- What one sees of a route at a distance. -/
def seen (distance : U8) (rib : Rib) : Option Look :=
  if staticOf distance rib then some (look rib) else none

/-- What one sees of a prefix at a distance. -/
def shown (z : Zebra) (p : Prefix) (distance : U8) : List Look :=
  (z.nodes p).ribs.filterMap (seen distance)

theorem darkFlags_set_selected :
    darkFlags (FlagWord.set flags zebraFlagSelected) = darkFlags flags := by
  revert flags
  decide

theorem darkFlags_unset_selected :
    darkFlags (unset flags zebraFlagSelected) = darkFlags flags := by
  revert flags
  decide

theorem darkFlags_changed :
    darkFlags (FlagWord.set (unset flags zebraFlagChanged) zebraFlagChanged) = darkFlags flags ∧
      darkFlags (unset flags zebraFlagChanged) = darkFlags flags := by
  revert flags
  decide

theorem darkFlags_set_blackhole :
    darkFlags (FlagWord.set flags zebraFlagBlackhole) = true := by
  revert flags
  decide

/-- Two routes are seen alike if they look alike and agree in what makes a route
static. -/
theorem seen_of_look {rib rib' : Rib}
    (same : rib.type = rib'.type ∧ rib.status = rib'.status ∧ rib.distance = rib'.distance)
    (looks : look rib = look rib') (distance : U8) : seen distance rib = seen distance rib' := by
  unfold seen staticOf Rib.removed
  rw [same.1, same.2.1, same.2.2, looks]

theorem hopIds_clearFib (hops : List Nexthop) : (clearFib hops).map hopId = hops.map hopId := by
  unfold clearFib
  rw [List.map_map]
  rfl

/-- Processing does not change what is seen. -/
theorem seen_blind (resolve : Bool → Rib → Nexthop → Resolved) (take : Rib → Bool × (Nexthop → U8))
    (distance : U8) : Blind (surroundings resolve take) (seen distance) where
  status _ _ := rfl
  update set rib := by
    apply seen_of_look ⟨by rfl, by rfl, by rfl⟩
    unfold look nexthopActiveUpdate
    congr 1
    · dsimp only
      rw [List.map_map]
      rfl
    · dsimp only
      split
      · exact (darkFlags_changed _).1
      · exact (darkFlags_changed _).2
  install rib := by
    apply seen_of_look ⟨by rfl, by rfl, by rfl⟩
    unfold look ribInstallKernel
    dsimp only [surroundings]
    congr 1
    split
    · rw [List.map_map]
      rfl
    · rw [hopIds_clearFib, List.map_map]
      rfl
  uninstall rib := by
    apply seen_of_look ⟨by rfl, by rfl, by rfl⟩
    unfold look ribUninstallKernel
    rw [hopIds_clearFib]
  select rib := by
    apply seen_of_look ⟨by rfl, by rfl, by rfl⟩
    unfold look
    rw [darkFlags_set_selected]
  deselect rib := by
    apply seen_of_look ⟨by rfl, by rfl, by rfl⟩
    unfold look
    rw [darkFlags_unset_selected]
  removed rib marked := by
    unfold seen staticOf
    rw [marked]
    rfl

/-! ## Changes of a chain -/

/-- What is seen does not depend on where the prefix waits. -/
theorem shown_chain (z : Zebra) (p : Prefix) (distance : U8) :
    shown z p distance = (chain z p).filterMap (seen distance) := by
  unfold shown chain
  rw [List.filterMap_map]
  rfl

theorem shown_congr {z z' : Zebra} {p : Prefix} (same : chain z p = chain z' p) (distance : U8) :
    shown z p distance = shown z' p distance := by
  rw [shown_chain, shown_chain, same]

@[simp] theorem shown_relock (f : Nat → Nat) (rn : Prefix) (z : Zebra) (p : Prefix)
    (distance : U8) :
    shown (relock f rn z) p distance = shown z p distance :=
  shown_congr (chain_relock f rn z p) distance

@[simp] theorem shown_ribQueueAdd (rn : Prefix) (z : Zebra) (p : Prefix) (distance : U8) :
    shown (ribQueueAdd rn z) p distance = shown z p distance :=
  shown_congr (ribQueueAdd_nodes rn z p).1 distance

theorem shown_ribLink (p : Prefix) (rib : Rib) (z : Zebra) (distance : U8) :
    shown (ribLink p rib z) p distance = (seen distance rib).toList ++ shown z p distance := by
  rw [shown_chain, chain_ribLink, shown_chain, List.filterMap_cons]
  have same : seen distance (bare rib) = seen distance rib := rfl
  rw [same]
  cases seen distance rib <;> rfl

theorem shown_modifyRib (p : Prefix) (place : Nat) (f : Rib → Rib) (z : Zebra) (distance : U8) :
    shown (modifyRib p place f z) p distance =
      ((z.nodes p).ribs.modify place f).filterMap (seen distance) := by
  unfold shown modifyRib
  simp

theorem shown_ribDelnode (p : Prefix) (place : Nat) (z : Zebra) (distance : U8) :
    shown (ribDelnode p place z) p distance =
      ((z.nodes p).ribs.modify place Rib.remove).filterMap (seen distance) := by
  unfold ribDelnode
  rw [shown_ribQueueAdd]
  unfold shown
  simp

variable {place : Nat}

/-- The chain around the first route of a distance. -/
theorem findIdx?_split (found : ribs.findIdx? (staticOf distance) = some place) :
    ∃ first rib rest, ribs = first ++ rib :: rest ∧ place = first.length ∧
      staticOf distance rib = true ∧ first.filterMap (seen distance) = [] := by
  obtain ⟨inside, this, before⟩ := List.findIdx?_eq_some_iff_getElem.mp found
  refine ⟨ribs.take place, ribs[place], ribs.drop (place + 1), ?_, ?_, this, ?_⟩
  · rw [List.getElem_cons_drop, List.take_append_drop]
  · rw [List.length_take, Nat.min_eq_left inside.le]
  · refine List.filterMap_eq_nil_iff.mpr fun rib member => ?_
    obtain ⟨i, bound, rfl⟩ := List.getElem_of_mem member
    have earlier : i < place := by
      rw [List.length_take] at bound
      omega
    have other := before i earlier
    unfold seen
    rw [List.getElem_take, if_neg other]

variable {now : Look}

/-- A change of the only route of a distance is seen at that distance only. -/
theorem filterMap_modify (found : ribs.findIdx? (staticOf distance) = some place)
    (only : ribs.filterMap (seen distance) = [now]) {f : Rib → Rib} {g : Look → Option Look}
    (effect : ∀ distance rib, seen distance (f rib) = (seen distance rib).bind g) (other : U8) :
    (ribs.modify place f).filterMap (seen other) =
      if other = distance then (g now).toList else ribs.filterMap (seen other) := by
  obtain ⟨first, rib, rest, rfl, rfl, here, before⟩ := findIdx?_split found
  have this : seen distance rib = some (look rib) := if_pos here
  rw [List.filterMap_append, before, List.nil_append, List.filterMap_cons, this] at only
  obtain ⟨rfl, nothing⟩ := List.cons.inj only
  have changed : (first ++ rib :: rest).modify first.length f = first ++ f rib :: rest := by
    rw [List.modify_eq_take_cons_drop (by simp)]
    simp
  rw [changed]
  by_cases same : other = distance
  · subst same
    rw [if_pos rfl, List.filterMap_append, before, List.nil_append, List.filterMap_cons,
      effect, this, Option.bind_some, nothing]
    cases g (look rib) <;> rfl
  · have apart : seen other rib = none := by
      unfold staticOf at here
      simp only [Bool.and_eq_true, decide_eq_true_eq] at here
      unfold seen staticOf
      rw [here.2, decide_eq_false (Ne.symm same), Bool.and_false]
      rfl
    rw [if_neg same, List.filterMap_append, List.filterMap_append, List.filterMap_cons,
      List.filterMap_cons, effect, apart]
    rfl

theorem findIdx?_none :
    ribs.findIdx? (staticOf distance) = none ↔ ribs.filterMap (seen distance) = [] := by
  rw [List.findIdx?_eq_none_iff, List.filterMap_eq_nil_iff]
  refine forall₂_congr fun rib _ => ?_
  unfold seen
  cases staticOf distance rib <;> simp

/-! ## Installing and uninstalling -/

/-- What both families have in common: how a way is seen as a next hop, and which of
them set the blackhole flag. -/
structure Lawful {Way : Type} (addWay : Rib → Way → Rib) (nexthopSame : Nexthop → Way → Bool)
    (idOf : Way → HopId) (black : Way → Bool) : Prop where
  add : ∀ rib way, look (addWay rib way) =
    ⟨(look rib).hops ++ [idOf way], rib.nexthopNum + 1, (look rib).dark || black way⟩
  frame : ∀ rib way, (addWay rib way).type = rib.type ∧ (addWay rib way).status = rib.status ∧
    (addWay rib way).distance = rib.distance
  bare : ∀ rib way, bare (addWay rib way) = addWay (bare rib) way
  same : ∀ hop way way', hopId hop = idOf way' → (nexthopSame hop way = true ↔ idOf way' = idOf way)

variable {Way : Type} {addWay : Rib → Way → Rib} {nexthopSame : Nexthop → Way → Bool}
  {idOf : Way → HopId} {black : Way → Bool}

theorem Lawful.seen_add (lawful : Lawful addWay nexthopSame idOf black) (way : Way) (distance : U8)
    (rib : Rib) : seen distance (addWay rib way) =
      (seen distance rib).bind fun now =>
        some ⟨now.hops ++ [idOf way], now.num + 1, now.dark || black way⟩ := by
  obtain ⟨type, status, distance'⟩ := lawful.frame rib way
  have static : staticOf distance (addWay rib way) = staticOf distance rib := by
    unfold staticOf Rib.removed
    rw [type, status, distance']
  unfold seen
  rw [static]
  split
  · rw [lawful.add]
    rfl
  · rfl

theorem Lawful.seen_new (lawful : Lawful addWay nexthopSame idOf black) (si : StaticRoute Way)
    (distance : U8) : seen distance (newStatic addWay si) =
      if distance = si.distance then some ⟨[idOf si.way], 1, darkFlags si.flags⟩ else none := by
  obtain ⟨type, status, distance'⟩ :=
    lawful.frame { type := .static, distance := si.distance } si.way
  have looks := lawful.add { type := .static, distance := si.distance } si.way
  have hops := congrArg Look.hops looks
  have num := congrArg Look.num looks
  have static : staticOf distance (newStatic addWay si) = decide (si.distance = distance) := by
    unfold staticOf Rib.removed newStatic
    rw [type, status, distance']
    simp [check]
  unfold seen
  rw [static]
  by_cases same : si.distance = distance
  · rw [decide_eq_true same, if_pos rfl, if_pos same.symm]
    unfold look newStatic
    congr 1
    exact congr (congrArg₂ Look.mk hops num) rfl
  · rw [decide_eq_false same, if_neg (Ne.symm same)]
    rfl

/-- The first static route of a distance becomes a route of its own. -/
theorem Lawful.shown_install_new (lawful : Lawful addWay nexthopSame idOf black) (p : Prefix)
    (si : StaticRoute Way) (z : Zebra) (missing : shown z p si.distance = []) (distance : U8) :
    shown (staticInstall addWay p si z) p distance =
      if distance = si.distance then [⟨[idOf si.way], 1, darkFlags si.flags⟩]
      else shown z p distance := by
  have locked := shown_relock (· + 1) p z p si.distance
  unfold staticInstall
  dsimp only
  rw [findIdx?_none.mpr (locked.trans missing)]
  rw [shown_ribLink, lawful.seen_new, shown_relock]
  split
  · rename_i same
    rw [same, missing]
    rfl
  · rfl

/-- A further one adds a next hop. -/
theorem Lawful.shown_install (lawful : Lawful addWay nexthopSame idOf black) (p : Prefix)
    (si : StaticRoute Way) (z : Zebra) (only : shown z p si.distance = [now]) (distance : U8) :
    shown (staticInstall addWay p si z) p distance =
      if distance = si.distance then
        [⟨now.hops ++ [idOf si.way], now.num + 1, now.dark || black si.way⟩]
      else shown z p distance := by
  have ribs : ((relock (· + 1) p z).nodes p).ribs = (z.nodes p).ribs := by
    unfold relock
    simp
  unfold staticInstall
  dsimp only
  rw [ribs]
  cases found : (z.nodes p).ribs.findIdx? (staticOf si.distance) with
  | none =>
    have missing : shown z p si.distance = [] := findIdx?_none.mp found
    rw [only] at missing
    cases missing
  | some place =>
    have unlocked : ((relock (· - 1) p (relock (· + 1) p z)).nodes p).ribs = (z.nodes p).ribs := by
      unfold relock
      simp
    rw [shown_ribQueueAdd, shown_modifyRib, unlocked,
      filterMap_modify found only (lawful.seen_add si.way)]
    rfl

theorem look_ribUninstall (rib : Rib) :
    look (ribUninstall rib) = look rib ∧ (ribUninstall rib).type = rib.type ∧
      (ribUninstall rib).status = rib.status ∧ (ribUninstall rib).distance = rib.distance := by
  unfold ribUninstall
  split
  · unfold look
    rw [darkFlags_unset_selected]
    split
    · exact ⟨rfl, rfl, rfl, rfl⟩
    · refine ⟨?_, rfl, rfl, rfl⟩
      unfold ribUninstallKernel
      rw [hopIds_clearFib]
  · exact ⟨rfl, rfl, rfl, rfl⟩

theorem seen_dropHop (hop : Nat) (distance : U8) (rib : Rib) :
    seen distance (dropHop hop rib) =
      (seen distance rib).bind fun now => some ⟨now.hops.eraseIdx hop, now.num - 1, now.dark⟩ := by
  have kept (rib' : Rib) (same : look rib' = look rib ∧ rib'.type = rib.type ∧
      rib'.status = rib.status ∧ rib'.distance = rib.distance) :
      seen distance (nexthopDelete rib' hop) =
        (seen distance rib).bind fun now =>
          some ⟨now.hops.eraseIdx hop, now.num - 1, now.dark⟩ := by
    obtain ⟨looks, type, status, distance'⟩ := same
    have static : staticOf distance (nexthopDelete rib' hop) = staticOf distance rib := by
      unfold staticOf Rib.removed nexthopDelete
      rw [type, status, distance']
    unfold seen
    rw [static]
    split
    · rw [← looks]
      unfold look nexthopDelete
      dsimp only [Option.bind_some]
      rw [List.eraseIdx_map]
    · rfl
  unfold dropHop
  split
  · exact kept _ (look_ribUninstall rib)
  · exact kept _ ⟨rfl, rfl, rfl, rfl⟩

theorem seen_remove (distance : U8) (rib : Rib) :
    seen distance (Rib.remove rib) = (seen distance rib).bind fun _ => none := by
  have marked : (Rib.remove rib).removed = true := by
    unfold Rib.removed Rib.remove
    rw [check_set]
    simp [check, ribEntryRemoved]
  unfold seen staticOf
  rw [marked]
  simp

/-- A static route that is uninstalled takes a next hop with it, or the route. -/
theorem Lawful.shown_uninstall (lawful : Lawful addWay nexthopSame idOf black) (p : Prefix)
    (si : StaticRoute Way) (z : Zebra) (only : shown z p si.distance = [now])
    (ways : ∀ hop ∈ now.hops, ∃ way, hop = idOf way) (present : idOf si.way ∈ now.hops) :
    ∃ hop, now.hops[hop]? = some (idOf si.way) ∧ ∀ distance,
      shown (staticUninstall nexthopSame p si z) p distance =
        if distance = si.distance then
          if now.num = 1 then [] else [⟨now.hops.eraseIdx hop, now.num - 1, now.dark⟩]
        else shown z p distance := by
  have ribs : ((relock (· + 1) p z).nodes p).ribs = (z.nodes p).ribs := by
    unfold relock
    simp
  cases found : (z.nodes p).ribs.findIdx? (staticOf si.distance) with
  | none =>
    have missing : shown z p si.distance = [] := findIdx?_none.mp found
    rw [only] at missing
    cases missing
  | some place =>
    obtain ⟨first, rib, rest, shape, here, static, before⟩ := findIdx?_split found
    have at_ : (z.nodes p).ribs[place]? = some rib := by
      rw [shape, here]
      simp
    have this : seen si.distance rib = some (look rib) := if_pos static
    have now_ : look rib = now := by
      have all := only
      unfold shown at all
      rw [shape, List.filterMap_append, before, List.nil_append, List.filterMap_cons, this] at all
      exact (List.cons.inj all).1
    -- the next hops that go the same way are those that look so
    have same : ∀ hop ∈ rib.nexthop, nexthopSame hop si.way = decide (hopId hop = idOf si.way) := by
      intro hop member
      have listed : hopId hop ∈ now.hops := by
        rw [← now_]
        exact List.mem_map_of_mem member
      obtain ⟨way, looks⟩ := ways _ listed
      have laws := lawful.same hop si.way way looks
      rw [← looks] at laws
      exact Bool.eq_iff_iff.mpr (laws.trans decide_eq_true_iff.symm)
    cases picked : rib.nexthop.findIdx? (nexthopSame · si.way) with
    | none =>
      rw [← now_] at present
      obtain ⟨hop, member, looks⟩ := List.mem_map.mp present
      have other := List.findIdx?_eq_none_iff.mp picked hop member
      rw [same hop member, decide_eq_true looks] at other
      cases other
    | some hop =>
      obtain ⟨inside, goes, _⟩ := List.findIdx?_eq_some_iff_getElem.mp picked
      rw [same _ (List.getElem_mem inside), decide_eq_true_eq] at goes
      refine ⟨hop, ?_, fun distance => ?_⟩
      · rw [← now_]
        unfold look
        rw [List.getElem?_map, List.getElem?_eq_getElem inside, Option.map_some, goes]
      · have filled : ¬ (z.nodes p).ribs.isEmpty = true := by
          rw [shape]
          simp
        have triple : findHop nexthopSame si (z.nodes p).ribs = some (place, hop) := by
          unfold findHop
          simp [found, at_, picked]
        have last : lastHop place (z.nodes p).ribs = decide (now.num = 1) := by
          unfold lastHop
          rw [at_, ← now_]
          rfl
        unfold staticUninstall
        rw [if_neg filled]
        rw [shown_relock, ribs, triple]
        dsimp only
        rw [last]
        by_cases one : now.num = 1
        · rw [if_pos (decide_eq_true one), shown_ribDelnode, ribs,
            filterMap_modify found only seen_remove, if_pos one]
          rfl
        · rw [if_neg (by simpa using one), shown_ribQueueAdd, shown_modifyRib, ribs,
            filterMap_modify found only (seen_dropHop hop), if_neg one]
          rfl

end Bgpd.StaticRoutes
