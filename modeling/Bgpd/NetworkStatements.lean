import Bgpd.ClientTables

/-!
# Network statements

A `network` command keeps a statement for its prefix and installs a static route in the
main table and in the tables of the route-server clients, unless the statement is a
backdoor or its route map, or a client's import policy, denies it. Taking the statement
back, or turning it into a backdoor, withdraws the route.

The daemon here is the tables, the statements, and the ledgers of what the commands
lock and intern.
-/

namespace Bgpd.NetworkStatements

open Prefixes AsPath Attributes Neighbors Admission RsclientPolicy Rib Aggregation Updates
  Processing Evolution Primitives Increments Steps Sources Runs Standing Reaping References
  ClientTables

open Actions (attrhashCmp_refl attrhashCmp_trans plainEnv plainWorld)

/-- A prefix as it is typed, with all of its address. -/
structure TypedPrefix where
  family : Afi
  address : List Bool
  prefixlen : Nat
  full : address.length = family.bits
  fits : prefixlen ≤ family.bits

/-- `apply_mask`. -/
def applyMask (typed : TypedPrefix) : Prefix where
  family := typed.family
  bits := typed.address.take typed.prefixlen
  fits := by
    rw [List.length_take]
    exact (Nat.min_le_left _ _).trans typed.fits

/-- `IN6_IS_ADDR_LINKLOCAL`. -/
def linkLocal (typed : TypedPrefix) : Bool :=
  typed.family = .ip6 ∧
    typed.address.take 10 = [true, true, true, true, true, true, true, false, true, false]

/-- `struct bgp_static` of a network statement. -/
structure Statement extends BgpStatic where
  backdoor : Bool
  valid : Bool

/-- A route map as a statement has it: it sees for whom the route is made. -/
abbrev NetworkMap := Nat → Prefix → Attr → Option Attr

/-- The ledger of node locks and AS paths. -/
abbrev Refs := Ledger (Ref (Option Aspath))

/-- The tables, the statements, and what was locked and interned for them. -/
structure Daemon where
  tables : State
  route : Safi → Prefix → Option Statement
  /-- Locks of the statements' own nodes. -/
  locks : Ledger (Safi × Prefix)
  refs : Refs

variable (env : Env)

/-! ## References -/

/-- What `bgp_static_withdraw` and `bgp_static_withdraw_rsclient` lock, and give back. -/
def staticWithdrawRefs (refs : Refs) (rn : Node) : Refs :=
  giveBack (take refs (.node rn)) (.node rn)

/-- The references of a route that is changed, left as it is, or added: the new
attributes are interned, and given up again where the route has the same. -/
def installRefs (w : World) (refs : Refs) (rn : Node) (found : Option BgpInfo)
    (attr : Attr) : Refs :=
  match found with
  | some ri =>
    if attrhashCmp ri.attr (w.intern attr) ∧ !ri.flags.removed then
      giveBack (giveBack refs (.node rn)) (.interned rn attr.aspath)
    else giveBack (giveBack refs (.interned rn ri.attr.aspath)) (.node rn)
  | none => giveBack (take refs (.node rn)) (.node rn)

/-- The references `bgp_static_update_main` takes and releases. Where the route map
denies, the node stays locked. -/
def staticUpdateMainRefs (w : World) (s : State) (bgpStatic : BgpStatic) (p : Prefix) (safi : Safi)
    (refs : Refs) : Refs :=
  let rn := nodeOf .main safi p none
  let own : Ref (Option Aspath) := .interned rn bgpStatic.attr.aspath
  let refs := take (take refs (.node rn)) own
  match applyMap (bgpStatic.rmap.map fun map => map env.self) p bgpStatic.attr with
  | none => staticWithdrawRefs (giveBack refs own) rn
  | some attr =>
    giveBack (installRefs w (take refs (.interned rn attr.aspath)) rn (findStatic env s rn) attr)
      own

/-- The references `bgp_static_update_rsclient` takes and releases. Where the route map
or the client's policy denies, the node stays locked. -/
def staticUpdateRsclientRefs (w : World) (s : State) (rsclient : Nat) (bgpStatic : BgpStatic)
    (p : Prefix) (safi : Safi) (refs : Refs) : Refs :=
  let rn := nodeOf (.rsclient rsclient) safi p none
  let own : Ref (Option Aspath) := .interned rn bgpStatic.attr.aspath
  let refs := take (take refs (.node rn)) own
  match applyMap (bgpStatic.rmap.map fun map => map rsclient) p bgpStatic.attr with
  | none => staticWithdrawRefs (giveBack refs own) rn
  | some mapped =>
    let refs := giveBack (take refs (.interned rn mapped.aspath)) (.interned rn mapped.aspath)
    match bgpImportModifier (env.config rsclient) (env.config env.self) p
        (w.intern mapped) safi with
    | none => staticWithdrawRefs (giveBack refs own) rn
    | some attr =>
      giveBack (installRefs w (take refs (.interned rn attr.aspath)) rn (findStatic env s rn) attr)
        own

/-- The references of `bgp_static_update`, along with the tables. -/
def staticUpdateRefs (w : World) (s : State) (bgpStatic : BgpStatic) (p : Prefix) (safi : Safi)
    (refs : Refs) : Refs :=
  ((clientsOf env p.family safi).foldl
    (fun (t : State × Refs) rsclient =>
      (bgpStaticUpdateRsclient env w t.1 rsclient bgpStatic p safi,
        staticUpdateRsclientRefs env w t.1 rsclient bgpStatic p safi t.2))
    (bgpStaticUpdateMain env w s bgpStatic p safi,
      staticUpdateMainRefs env w s bgpStatic p safi refs)).2

/-! ## Commands -/

/-- The tables and the references after `bgp_static_update`. -/
def Daemon.update (w : World) (d : Daemon) (statement : Statement) (p : Prefix) (safi : Safi) :
    Daemon :=
  { d with
    tables := bgpStaticUpdate env w d.tables statement.toBgpStatic p safi
    refs := staticUpdateRefs env w d.tables statement.toBgpStatic p safi d.refs }

/-- The tables and the references after `bgp_static_withdraw`. -/
def Daemon.withdraw (d : Daemon) (p : Prefix) (safi : Safi) : Daemon :=
  { d with
    tables := bgpStaticWithdraw env d.tables p safi none
    refs := staticWithdrawRefs d.refs (nodeOf .main safi p none) }

/-- Keep a statement, or none, for a prefix. -/
def Daemon.keep (d : Daemon) (safi : Safi) (p : Prefix) (statement : Option Statement) : Daemon :=
  { d with
    route := fun safi' p' => if safi' = safi ∧ p' = p then statement else d.route safi' p' }

/-- `bgp_static_set`, where `none` is a prefix that cannot be read. -/
def bgpStaticSet (w : World) (importCheck : Bool) (d : Daemon) (typed : Option TypedPrefix)
    (safi : Safi) (rmap : Option NetworkMap) (backdoor : Bool) : Daemon :=
  match typed with
  | none => d
  | some typed =>
    if linkLocal typed then d
    else
      let p := applyMask typed
      let d := { d with locks := take d.locks (safi, p) }
      let changed : Statement × Bool × Daemon :=
        match d.route safi p with
        | some statement =>
          ({ statement with
              backdoor, rmap, valid := rmap.isSome && statement.valid },
            statement.valid && statement.backdoor ≠ backdoor,
            { d with locks := giveBack d.locks (safi, p) })
        | none => (⟨⟨0, 0, false, rmap⟩, backdoor, false⟩, false, d)
      let statement := changed.1
      let d := changed.2.2
      if importCheck then d.keep safi p (some statement)
      else
        let statement := { statement with valid := true }
        let d := d.keep safi p (some statement)
        let d := if changed.2.1 then d.withdraw env p safi else d
        if backdoor then d else d.update env w statement p safi

/-- `bgp_static_unset`. -/
def bgpStaticUnset (d : Daemon) (typed : Option TypedPrefix) (safi : Safi) : Daemon :=
  match typed with
  | none => d
  | some typed =>
    if linkLocal typed then d
    else
      let p := applyMask typed
      match d.route safi p with
      | none => d
      | some statement =>
        let d := { d with locks := take d.locks (safi, p) }
        let d := if statement.backdoor then d else d.withdraw env p safi
        let d := d.keep safi p none
        { d with locks := giveBack (giveBack d.locks (safi, p)) (safi, p) }

/-! ## Runs -/

/-- A command with import checks off, or a turn of a queue. -/
inductive Act
  | set (w : World) (typed : Option TypedPrefix) (safi : Safi) (rmap : Option NetworkMap)
      (backdoor : Bool)
  | unset (typed : Option TypedPrefix) (safi : Safi)
  | runMain
  | runRsclient

/-- The routes of network statements. -/
def network : Kind := exactly env.self .bgp .static

/-- The route is one of a network statement. -/
def ofNetwork (ri : BgpInfo) : Bool := ri.peer = env.self ∧ ri.type = .bgp ∧ ri.subType = .static

/-- One step. -/
def step (d : Daemon) : Act → Daemon
  | .set w typed safi rmap backdoor => bgpStaticSet env w false d typed safi rmap backdoor
  | .unset typed safi => bgpStaticUnset env d typed safi
  | .runMain =>
    { d with
      tables := runMainQueue env d.tables
      refs := mainQueueRefs Attr.aspath env (ofNetwork env) d.tables d.refs }
  | .runRsclient =>
    { d with
      tables := runRsclientQueue env d.tables
      refs := rsclientQueueRefs Attr.aspath env (ofNetwork env) d.tables d.refs }

/-! ## What is to hold -/

/-- The tables with routes of the statements of a family. -/
def places (afi : Afi) (safi : Safi) : List Owner :=
  .main :: (clientsOf env afi safi).map .rsclient

/-- The attributes a statement's maps and policies produce for a table. -/
def produced (w : World) (statement : Statement) (safi : Safi) (p : Prefix) : Owner → Option Attr
  | .main => applyMap (statement.rmap.map fun map => map env.self) p statement.attr
  | .rsclient rsclient =>
    (applyMap (statement.rmap.map fun map => map rsclient) p statement.attr).bind fun attr =>
      bgpImportModifier (env.config rsclient) (env.config env.self) p (w.intern attr) safi

/-- What the configuration asks of a table: nothing where there is no statement or it is
a backdoor, and else what is produced. -/
def Asks (d : Daemon) (safi : Safi) (p : Prefix) (owner : Owner) (result : Option Attr) : Prop :=
  match d.route safi p with
  | none => result = none
  | some statement =>
    if statement.backdoor then result = none
    else ∃ w, result = produced env w statement safi p owner

/-- A table has a static route that is not removed if and only if it is asked for one,
with the attributes that are asked for. -/
def Mirrors (d : Daemon) : Prop :=
  ∀ safi p, ∀ owner ∈ places env p.family safi, ∃ result, Asks env d safi p owner result ∧
    (∀ ri ∈ d.tables.infos (nodeOf owner safi p none), (network env).Of ri →
      ri.flags.removed = false → ∃ attr, result = some attr ∧ attrhashCmp ri.attr attr = true) ∧
    (∀ attr, result = some attr → ∃ ri ∈ d.tables.infos (nodeOf owner safi p none),
      (network env).Of ri ∧ ri.flags.removed = false)

/-- No statement is left and nothing waits. -/
def Quiet (d : Daemon) : Prop :=
  (∀ safi p, d.route safi p = none) ∧ d.tables.mainQueue = [] ∧ d.tables.rsclientQueue = []

/-- Every lock and every AS path was given back. -/
def Released (d : Daemon) : Prop :=
  d.locks = 0 ∧ ∀ safi p, ∀ owner ∈ places env p.family safi, ∀ ref : Ref (Option Aspath),
    ref.about = nodeOf owner safi p none → d.refs ref = 0

/-! ## The main table -/

/-- What is shown where the given attributes are asked for, or none. -/
def Holds (shown : Option BgpInfo) : Option Attr → Prop
  | none => ∀ c, shown = some c → c.flags.removed = true
  | some attr => ∃ c, shown = some c ∧ c.flags.removed = false ∧ attrhashCmp c.attr attr = true

theorem network_plain : (network env).Plain := by
  rintro ri - aggregate ⟨-, -, static⟩
  rw [aggregate] at static
  cases static

/-- Attributes that compare equal have the same path. -/
theorem attrhashCmp_aspath {left right : Attr} (same : attrhashCmp left right = true) :
    left.aspath = right.aspath := by
  simp only [attrhashCmp, Bool.and_eq_true, decide_eq_true_eq] at same
  exact same.1.1.1.1.2

/-- The path of interned attributes is that of the attributes. -/
theorem intern_aspath (w : World) (attr : Attr) : (w.intern attr).aspath = attr.aspath :=
  attrhashCmp_aspath (w.intern_cmp attr)

section Main

variable {env} {s : State} {shown : Option BgpInfo} {refs : Refs}
variable {rn : Node}

/-- A static route of the main table goes, where there is one. -/
theorem removeLocal_moved (sound : Sound s) (main : rn.owner = .main)
    (shows : Shows (network env) s rn shown) :
    ∃ shown', Moved (network env) rn s (removeLocal env s rn (findStatic env s rn)) shown' ∧
      Holds shown' none ∧ held Attr.aspath rn shown' = held Attr.aspath rn shown := by
  have evolves := removeLocal_evolves env (lax_covers env) s rn (findStatic env s rn) main
    fun _ => trivial
  cases found : findStatic env s rn with
  | none =>
    obtain rfl := findInfo_none shows found
    exact ⟨none, .of_infos shows (.refl s) (fun _ => rfl), (fun c absent => by cases absent), rfl⟩
  | some ri =>
    obtain ⟨-, rfl⟩ := findInfo_shows shows found
    have apart := (network_plain env).apart env
    have counts := bgpAggregateDecrement_evolves env (lax_covers env) s rn ri.id
      (Or.inl (Or.inl trivial))
    have stands : ∀ rn', Stands (network env) rn' s (bgpAggregateDecrement env s rn ri.id) :=
      fun rn' => bgpAggregateDecrement_stands env (apart rn') s sound rn ri.id
    obtain ⟨c, moved, removed, attr⟩ := deleted_moved env (counts.sound sound)
      (shows.evolves (stands rn) counts)
    refine ⟨some c, ⟨counts.trans moved.evolves, ?_, moved.shows, ?_⟩, ?_, ?_⟩
    · exact fun rn' other => (stands rn').trans (moved.apart rn' other)
    · exact fun swept => moved.swept (swept.stands counts (stands rn))
    · rintro _ ⟨⟩
      exact removed
    · exact held_congr (by rw [attr]; rfl)

variable (refs) in
theorem staticWithdraw_moved (sound : Sound s) (p : Prefix) (safi : Safi)
    (shows : Shows (network env) s (nodeOf .main safi p none) shown) :
    ∃ shown', Moved (network env) (nodeOf .main safi p none) s (bgpStaticWithdraw env s p safi none)
        shown' ∧ Holds shown' none ∧
      staticWithdrawRefs refs (nodeOf .main safi p none) =
        refs + held Attr.aspath (nodeOf .main safi p none) shown'
          - held Attr.aspath (nodeOf .main safi p none) shown := by
  have made := bgpNodeGet_moved shows
  obtain ⟨shown', moved, holds, same⟩ :=
    removeLocal_moved (made.evolves.sound sound) rfl made.shows
  refine ⟨shown', made.trans moved, holds, ?_⟩
  rw [same, staticWithdrawRefs, giveBack_take]
  abel
variable {attr : Attr}
variable {ri : BgpInfo}

/-- The references of a call that finds what the node shows, and leaves it. -/
theorem installRefs_same (w : World)
    (same : attrhashCmp ri.attr (w.intern attr) ∧ !ri.flags.removed) (own : Ref (Option Aspath)) :
    giveBack (installRefs w (take (take (take refs (.node rn)) own) (.interned rn attr.aspath)) rn
      (some ri) attr) own = refs := by
  simp only [installRefs, if_pos same, giveBack, take]
  abel

variable {c : BgpInfo}

/-- The references of a call that gives the shown route other attributes. -/
theorem installRefs_changed (w : World)
    (other : ¬ (attrhashCmp ri.attr (w.intern attr) ∧ !ri.flags.removed))
    (path : c.attr.aspath = attr.aspath) (own : Ref (Option Aspath)) :
    giveBack (installRefs w (take (take (take refs (.node rn)) own) (.interned rn attr.aspath)) rn
      (some ri) attr) own =
      refs + held Attr.aspath rn (some c) - held Attr.aspath rn (some (core ri)) := by
  have attr' : (core ri).attr = ri.attr := rfl
  simp only [installRefs, if_neg other, giveBack, take, held, routeRefs, holding_cons,
    holding_nil, path, attr']
  abel

/-- The references of a call that adds a route. -/
theorem installRefs_added (w : World) (path : c.attr.aspath = attr.aspath)
    (own : Ref (Option Aspath)) :
    giveBack (installRefs w (take (take (take refs (.node rn)) own) (.interned rn attr.aspath)) rn
      none attr) own = refs + held Attr.aspath rn (some c) - held Attr.aspath rn none := by
  simp only [installRefs, giveBack, take, held, routeRefs, holding_cons, holding_nil, path]
  abel

/-- A static route of the main table that is changed or added ends in the queue. -/
theorem installLocal_swept (s : State) (rn : Node) (found : Option BgpInfo) (type : RouteType)
    (subType : SubType) (attr : Attr) :
    installLocal env s rn found type subType attr = s ∨
      Waits (installLocal env s rn found type subType attr) rn := by
  unfold installLocal
  split
  · dsimp only
    split
    · exact Or.inl rfl
    · exact Or.inr (bgpProcess_waits _ rn)
  · exact Or.inr (bgpProcess_waits _ rn)

variable (refs) in
/-- A static route of the main table is installed. -/
theorem installLocal_moved (w : World) (sound : Sound s) (main : rn.owner = .main)
    (present : rn ∈ s.nodes) (shows : Shows (network env) s rn shown) (attr : Attr)
    (own : Ref (Option Aspath)) :
    ∃ shown', Moved (network env) rn s
        (installLocal env s rn (findStatic env s rn) .bgp .static (w.intern attr)) shown' ∧
      Holds shown' (some attr) ∧
      giveBack (installRefs w (take (take (take refs (.node rn)) own) (.interned rn attr.aspath)) rn
        (findStatic env s rn) attr) own =
        refs + held Attr.aspath rn shown' - held Attr.aspath rn shown := by
  have evolves := installLocal_evolves env (lax_covers env) s rn (findStatic env s rn) .bgp .static
    (w.intern attr) main present (fun _ => trivial) trivial
  have apart : ∀ rn', rn' ≠ rn → Stands (network env) rn' s
      (installLocal env s rn (findStatic env s rn) .bgp .static (w.intern attr)) := fun rn' other =>
    installLocal_stands env (network_plain env) sound other _ _ _ _
  have moved : ∀ shown', Shows (network env)
      (installLocal env s rn (findStatic env s rn) .bgp .static (w.intern attr)) rn shown' →
      Moved (network env) rn s
        (installLocal env s rn (findStatic env s rn) .bgp .static (w.intern attr)) shown' := by
    intro shown' shows'
    refine ⟨evolves, apart, shows', fun swept => ?_⟩
    rcases installLocal_swept s rn (findStatic env s rn) .bgp .static
      (w.intern attr) with same | waits
    · rw [same]
      exact swept
    · exact swept.of_waits evolves waits
  cases found : findStatic env s rn with
  | none =>
    obtain rfl := findInfo_none shows found
    rw [found] at moved
    obtain ⟨c, shows', present', equal, -, -, -⟩ :=
      installLocal_new_shows env (network_plain env) sound
      .bgp .static (w.intern attr) ⟨rfl, rfl, rfl⟩ shows
    refine ⟨some c, moved _ shows', ⟨c, rfl, present', equal ▸ w.intern_cmp attr⟩, ?_⟩
    exact installRefs_added w (by rw [equal, intern_aspath]) own
  | some ri =>
    obtain ⟨-, rfl⟩ := findInfo_shows shows found
    rw [found] at moved
    by_cases same : attrhashCmp ri.attr (w.intern attr) ∧ !ri.flags.removed
    · have kept : installLocal env s rn (some ri) .bgp .static (w.intern attr) = s := by
        unfold installLocal
        exact if_pos same
      have stays : ri.flags.removed = false := by simpa using same.2
      refine ⟨some (core ri), moved _ (kept.symm ▸ shows),
        ⟨core ri, rfl, stays, attrhashCmp_trans same.1 (w.intern_cmp attr)⟩, ?_⟩
      rw [installRefs_same w same]
      abel
    · obtain ⟨c, shows', present', equal, -⟩ :=
        installLocal_shows env (network_plain env) sound .bgp
        .static (w.intern attr) shows
      have equal' := attrhashCmp_trans equal (w.intern_cmp attr)
      exact ⟨some c, moved _ shows', ⟨c, rfl, present', equal'⟩,
        installRefs_changed w same (attrhashCmp_aspath equal') own⟩

variable (refs) in
/-- What `bgp_static_update_main` comes to. Where the route map permits, the references
are those of the shown route; where it denies, a lock of the node is left. -/
theorem staticUpdateMain_moved (w : World) (sound : Sound s) (bgpStatic : BgpStatic) (p : Prefix)
    (safi : Safi) (shows : Shows (network env) s (nodeOf .main safi p none) shown) :
    ∃ shown', Moved (network env) (nodeOf .main safi p none) s
        (bgpStaticUpdateMain env w s bgpStatic p safi) shown' ∧
      Holds shown' (applyMap (bgpStatic.rmap.map fun map => map env.self) p bgpStatic.attr) ∧
      (applyMap (bgpStatic.rmap.map fun map => map env.self) p bgpStatic.attr ≠ none →
        staticUpdateMainRefs env w s bgpStatic p safi refs =
          refs + held Attr.aspath (nodeOf .main safi p none) shown'
            - held Attr.aspath (nodeOf .main safi p none) shown) := by
  have made := bgpNodeGet_moved shows
  have sound' := made.evolves.sound sound
  have finds : findStatic env (bgpNodeGet s (nodeOf .main safi p none)) (nodeOf .main safi p none) =
      findStatic env s (nodeOf .main safi p none) := by
    unfold findStatic findInfo
    rw [bgpNodeGet_infos]
  have present : nodeOf .main safi p none ∈ (bgpNodeGet s (nodeOf .main safi p none)).nodes :=
    (mem_bgpNodeGet _ _ _).mpr (Or.inl rfl)
  unfold bgpStaticUpdateMain staticUpdateMainRefs
  split
  · rename_i denied
    obtain ⟨shown', moved, holds, -⟩ := staticWithdraw_moved refs sound' p safi made.shows
    rw [denied]
    exact ⟨shown', made.trans moved, holds, fun permits => absurd rfl permits⟩
  · rename_i attr permitted
    rw [permitted]
    obtain ⟨shown', moved, holds, balance⟩ :=
      installLocal_moved refs w sound' rfl present made.shows attr
        (.interned (nodeOf .main safi p none) bgpStatic.attr.aspath)
    rw [finds] at balance
    exact ⟨shown', made.trans moved, holds, fun _ => balance⟩

end Main

/-! ## A client's table -/

section Client

variable {env} {s : State} {shown : Option BgpInfo} {refs : Refs}

theorem staticWithdrawRsclient_moved (sound : Sound s) (rsclient : Nat) (p : Prefix) (safi : Safi)
    (shows : Shows (network env) s (nodeOf (.rsclient rsclient) safi p none) shown) :
    ∃ shown', Moved (network env) (nodeOf (.rsclient rsclient) safi p none) s
      (bgpStaticWithdrawRsclient env s rsclient p safi) shown' ∧ Holds shown' none := by
  have made := bgpNodeGet_moved shows
  unfold bgpStaticWithdrawRsclient
  dsimp only
  split
  · rename_i ri found
    obtain ⟨-, same⟩ := findInfo_shows made.shows found
    obtain ⟨c, moved, removed, -⟩ :=
      deleted_moved env (made.evolves.sound sound) (same ▸ made.shows)
    refine ⟨some c, made.trans moved, ?_⟩
    rintro _ ⟨⟩
    exact removed
  · rename_i absent
    obtain rfl := findInfo_none made.shows absent
    exact ⟨none, made, fun c absent => by cases absent⟩

variable {rn : Node}

/-- A client's static route is changed where it is not what is asked for. -/
theorem changeStatic_moved (sound : Sound s) {ri : BgpInfo} (attr : Attr)
    (shows : Shows (network env) s rn (some (core ri))) :
    let s₁ := bgpInfoSetFlag env s rn ri.id .attrChanged
    let s₂ := if ri.flags.removed then bgpInfoRestore env s₁ rn ri.id else s₁
    Moved (network env) rn s (bgpProcess (s₂.modify rn ri.id fun ri => { ri with attr }) rn)
      (some (core { restored ri with attr })) := by
  intro s₁ s₂
  have marks : Touches rn s s₁ := mark_touches env ri.id .attrChanged (Or.inl rfl)
  have marked : Shows (network env) s₁ rn (some (core ri)) :=
    shows.putFlag env sound .attrChanged true
  have sound₁ := marks.evolves.sound sound
  obtain ⟨restores, shows₂⟩ := restored_shows env sound₁ marked
  have sound₂ : Sound s₂ := restores.evolves.sound sound₁
  have name : (core (restored ri)).id = ri.id := by
    unfold restored
    split <;> rfl
  have replaced := replaceAttr_shows sound₂ name attr shows₂
  have replaces : Touches rn s₂ (s₂.modify rn ri.id fun ri => { ri with attr }) :=
    ⟨modify_evolves s₂ rn ri.id _ fun other _ _ =>
      ⟨rfl, rfl, rfl, rfl, rfl, Or.inr trivial, Or.inl, Or.inl trivial⟩,
      fun rn' other => modify_apart s₂ rn ri.id _ rn' other⟩
  have touches := (marks.trans restores).trans replaces
  exact bgpProcess_moved touches.evolves (fun rn' other =>
    .of_infos (touches.apart rn' other)) replaced

/-- A client's static route that is new is added. -/
theorem addStatic_moved (present : rn ∈ s.nodes) (attr : Attr)
    (shows : Shows (network env) s rn none) :
    let t := bgpInfoNew s env.self .bgp .static attr
    Moved (network env) rn s (bgpProcess (bgpInfoAdd t.1 rn (t.2.put .valid true)) rn)
      (some (core (t.2.put .valid true))) := by
  intro t
  have added : Evolves lax s (bgpInfoAdd t.1 rn (t.2.put .valid true)) := by
    refine bgpInfoAdd_evolves rn _ (issue_evolves s) present rfl
      (fun changed => absurd changed Bool.false_ne_true) trivial (le_refl _) (Nat.lt_succ_self _) ?_
    intro bounded other member
    exact (bounded rn other member).ne
  refine bgpProcess_moved added (fun rn' other => .of_infos (replace_ne _ _ _ _ other)) ?_
  have issued : Shows (network env) t.1 rn none := shows.of_infos rfl
  exact issued.of_added (replace_same _ _ _) ⟨rfl, rfl, rfl⟩

variable (refs) in
/-- What `bgp_static_update_rsclient` comes to. Where the route map and the client's
policy permit, the references are those of the shown route; where one of them denies, a
lock of the node is left. -/
theorem staticUpdateRsclient_moved (w : World) (sound : Sound s) (rsclient : Nat)
    (statement : Statement) (p : Prefix) (safi : Safi)
    (shows : Shows (network env) s (nodeOf (.rsclient rsclient) safi p none) shown) :
    ∃ shown', Moved (network env) (nodeOf (.rsclient rsclient) safi p none) s
        (bgpStaticUpdateRsclient env w s rsclient statement.toBgpStatic p safi) shown' ∧
      Holds shown' (produced env w statement safi p (.rsclient rsclient)) ∧
      (produced env w statement safi p (.rsclient rsclient) ≠ none →
        staticUpdateRsclientRefs env w s rsclient statement.toBgpStatic p safi refs =
          refs + held Attr.aspath (nodeOf (.rsclient rsclient) safi p none) shown'
            - held Attr.aspath (nodeOf (.rsclient rsclient) safi p none) shown) := by
  have made := bgpNodeGet_moved shows
  have sound' := made.evolves.sound sound
  have present : nodeOf (.rsclient rsclient) safi p none ∈
      (bgpNodeGet s (nodeOf (.rsclient rsclient) safi p none)).nodes :=
    (mem_bgpNodeGet _ _ _).mpr (Or.inl rfl)
  have finds : findStatic env (bgpNodeGet s (nodeOf (.rsclient rsclient) safi p none))
      (nodeOf (.rsclient rsclient) safi p none) =
      findStatic env s (nodeOf (.rsclient rsclient) safi p none) := by
    unfold findStatic findInfo
    rw [bgpNodeGet_infos]
  have denied : produced env w statement safi p (.rsclient rsclient) = none →
      ∃ shown', Moved (network env) (nodeOf (.rsclient rsclient) safi p none) s
        (bgpStaticWithdrawRsclient env
          (bgpNodeGet s (nodeOf (.rsclient rsclient) safi p none)) rsclient p safi) shown' ∧
      Holds shown' (produced env w statement safi p (.rsclient rsclient)) ∧
      (produced env w statement safi p (.rsclient rsclient) ≠ none →
        staticUpdateRsclientRefs env w s rsclient statement.toBgpStatic p safi refs =
          refs + held Attr.aspath (nodeOf (.rsclient rsclient) safi p none) shown'
            - held Attr.aspath (nodeOf (.rsclient rsclient) safi p none) shown) := by
    intro denied
    obtain ⟨shown', moved, holds⟩ := staticWithdrawRsclient_moved sound' rsclient p safi made.shows
    rw [denied]
    exact ⟨shown', made.trans moved, holds, fun permits => absurd rfl permits⟩
  unfold bgpStaticUpdateRsclient
  dsimp only
  split
  · rename_i refused
    exact denied refused
  · rename_i attr permitted
    obtain ⟨mapped, applied, imported⟩ := Option.bind_eq_some_iff.mp permitted
    have produces : produced env w statement safi p (.rsclient rsclient) = some attr := permitted
    rw [produces]
    unfold staticUpdateRsclientRefs
    rw [applied]
    dsimp only
    rw [imported, giveBack_take]
    rw [← finds]
    generalize nodeOf (.rsclient rsclient) safi p none = rn at *
    cases found : findStatic env (bgpNodeGet s rn) rn with
    | none =>
      obtain rfl := findInfo_none made.shows found
      have added := addStatic_moved present (w.intern attr) made.shows
      refine ⟨_, made.trans added, ⟨_, rfl, rfl, w.intern_cmp attr⟩, fun _ => ?_⟩
      exact installRefs_added w (intern_aspath w attr) _
    | some ri =>
      obtain ⟨-, rfl⟩ := findInfo_shows made.shows found
      dsimp only
      split
      · rename_i same
        have stays : ri.flags.removed = false := by simpa using same.2
        refine ⟨_, made, ⟨core ri, rfl, stays, attrhashCmp_trans same.1 (w.intern_cmp attr)⟩,
          fun _ => ?_⟩
        rw [installRefs_same w same]
        abel
      · rename_i other
        have changed := changeStatic_moved sound' (w.intern attr) made.shows
        refine ⟨_, made.trans changed, ⟨_, rfl, restored_removed ri, w.intern_cmp attr⟩,
          fun _ => ?_⟩
        exact installRefs_changed w other (intern_aspath w attr) _

end Client

/-! ## Calls on several nodes -/

/-- What a node is to show: one of the results. -/
def Shown (accounted : Prop) (s : State) (refs : Refs) (rn : Node) (results : Option Attr → Prop) :
    Prop :=
  ∃ shown, Shows (network env) s rn shown ∧ (∃ result, results result ∧ Holds shown result) ∧
    (accounted → Accounts Attr.aspath refs rn shown)

/-- What calls on some nodes come to: those nodes show what is asked for, the others what
they did, and where the references are accounted for, they still are. -/
structure Called (accounted : Prop) (nodes : List Node) (results : Node → Option Attr → Prop)
    (s s' : State) (refs refs' : Refs) : Prop where
  evolves : Evolves lax s s'
  elsewhere : ∀ rn ∉ nodes, Stands (network env) rn s s'
  accounts : accounted → ∀ rn ∉ nodes, ∀ shown, Accounts Attr.aspath refs rn shown →
    Accounts Attr.aspath refs' rn shown
  swept : (∀ rn, Swept (network env) s rn) → ∀ rn, Swept (network env) s' rn
  defined : ∀ rn, (∃ shown, Shows (network env) s rn shown) →
    ∃ shown, Shows (network env) s' rn shown
  shows : ∀ rn ∈ nodes, ∀ shown, Shows (network env) s rn shown →
    (accounted → Accounts Attr.aspath refs rn shown) → Shown env accounted s' refs' rn (results rn)

namespace Called

variable {env} {accounted : Prop} {nodes nodes' : List Node}
    {results results' : Node → Option Attr → Prop}
  {s s' s'' : State} {refs refs' refs'' : Refs}
variable {rn : Node}

/-- A call on one node. -/
theorem single
    (call : ∀ shown, Shows (network env) s rn shown → ∃ shown', Moved (network env) rn s s' shown' ∧
      (∃ result, results rn result ∧ Holds shown' result) ∧
      (accounted → refs' = refs + held Attr.aspath rn shown' - held Attr.aspath rn shown))
    (start : ∃ shown, Shows (network env) s rn shown) :
    Called env accounted [rn] results s s' refs refs' := by
  obtain ⟨shown, shows⟩ := start
  obtain ⟨shown', moved, -, balance⟩ := call shown shows
  refine ⟨moved.evolves, fun rn' other => moved.apart rn' fun same =>
    other (List.mem_singleton.mpr same),
    ?_, ?_, ?_, ?_⟩
  · intro counts rn' other shown'' accounts
    rw [balance counts]
    exact accounts.apart (fun same => other (List.mem_singleton.mpr same)) shown shown'
  · intro swept rn'
    by_cases here : rn' = rn
    · exact here ▸ moved.swept (swept rn)
    · exact moved.swept_elsewhere here (swept rn')
  · rintro rn' ⟨shown₁, shows₁⟩
    by_cases here : rn' = rn
    · exact ⟨shown', here ▸ moved.shows⟩
    · exact ⟨shown₁, moved.elsewhere here shows₁⟩
  · intro rn' member shown₁ shows₁ accounts
    obtain rfl := List.mem_singleton.mp member
    obtain ⟨shown₂, moved₂, result, balance₂⟩ := call shown₁ shows₁
    refine ⟨shown₂, moved₂.shows, result, fun counts => ?_⟩
    rw [balance₂ counts]
    exact (accounts counts).moved shown₂

theorem none (s : State) (refs : Refs) : Called env accounted [] results s s refs refs where
  evolves := .refl s
  elsewhere := fun _ _ => .refl s
  accounts := fun _ _ _ _ accounts => accounts
  swept := fun swept => swept
  defined := fun _ start => start
  shows := fun _ member => absurd member List.not_mem_nil

/-- What a node shows that is not called. -/
theorem keeps (called : Called env accounted nodes results s s' refs refs') (other : rn ∉ nodes)
    {asked : Option Attr → Prop} (shown : Shown env accounted s refs rn asked) :
    Shown env accounted s' refs' rn asked := by
  obtain ⟨c, shows, result, accounts⟩ := shown
  exact ⟨c, shows.evolves (called.elsewhere rn other) called.evolves, result,
    fun counts => called.accounts counts rn other c (accounts counts)⟩

/-- Calls after it, on nodes of their own or on the same ones. The later ones say which
results are asked for. -/
theorem join (first : Called env accounted nodes results s s' refs refs')
    (second : Called env accounted nodes' results' s' s'' refs' refs'') {all : List Node}
    (within : nodes ⊆ all) (within' : nodes' ⊆ all)
    (asked : ∀ rn ∈ all, rn ∉ nodes' → rn ∈ nodes ∧ results rn = results' rn) :
    Called env accounted all results' s s'' refs refs'' where
  evolves := first.evolves.trans second.evolves
  elsewhere := fun rn other =>
    (first.elsewhere rn fun inside => other (within inside)).trans
      (second.elsewhere rn fun inside => other (within' inside))
  accounts := fun counts rn other shown accounts =>
    second.accounts counts rn (fun inside => other (within' inside)) shown
      (first.accounts counts rn (fun inside => other (within inside)) shown accounts)
  swept := fun swept => second.swept (first.swept swept)
  defined := fun rn start => second.defined rn (first.defined rn start)
  shows := by
    intro rn member shown shows accounts
    by_cases later : rn ∈ nodes'
    · by_cases before : rn ∈ nodes
      · obtain ⟨shown', shows', -, accounts'⟩ := first.shows rn before shown shows accounts
        exact second.shows rn later shown' shows' accounts'
      · exact second.shows rn later shown (shows.evolves (first.elsewhere rn before) first.evolves)
          fun counts => first.accounts counts rn before shown (accounts counts)
    · obtain ⟨before, same⟩ := asked rn member later
      exact same ▸ second.keeps later (first.shows rn before shown shows accounts)

/-- Calls on more nodes after it, with the same results asked for. -/
theorem append (first : Called env accounted nodes results s s' refs refs')
    (second : Called env accounted nodes' results s' s'' refs' refs'') :
    Called env accounted (nodes ++ nodes') results s s'' refs refs'' :=
  first.join second (List.subset_append_left _ _) (List.subset_append_right _ _)
    fun _ member apart => ⟨(List.mem_append.mp member).resolve_right apart, rfl⟩

/-- Calls on the same nodes after it, with other results asked for. -/
theorem again (first : Called env accounted nodes results s s' refs refs')
    (second : Called env accounted nodes' results' s' s'' refs' refs'') (within : nodes ⊆ nodes') :
    Called env accounted nodes' results' s s'' refs refs'' :=
  first.join second within (List.Subset.refl _) fun _ member apart => absurd member apart

end Called

/-! ## The calls of a command -/

/-- The node of a table. -/
def placed (safi : Safi) (p : Prefix) (owner : Owner) : Node := nodeOf owner safi p none

theorem placed_injective {safi safi' : Safi} {p p' : Prefix} {owner owner' : Owner}
    (same : placed safi p owner = placed safi' p' owner') :
    safi = safi' ∧ p = p' ∧ owner = owner' :=
  ⟨congrArg Node.safi same, congrArg Node.p same, congrArg Node.owner same⟩

/-- The nodes a statement has routes in. -/
def statementNodes (p : Prefix) (safi : Safi) : List Node :=
  (places env p.family safi).map (placed safi p)

section Calls

variable {env} {accounted : Prop} {s : State} {refs : Refs}

/-- What a statement is to have in a node. -/
def Produces (env : Env) (w : World) (statement : Statement) (rn : Node)
    (result : Option Attr) : Prop :=
  result = produced env w statement rn.safi rn.p rn.owner

variable (refs) in
theorem updateMain_called (w : World) (sound : Sound s) (statement : Statement) (p : Prefix)
    (safi : Safi) (start : ∃ shown, Shows (network env) s (placed safi p .main) shown)
    (permits : accounted → produced env w statement safi p .main ≠ none) :
    Called env accounted [placed safi p .main] (Produces env w statement) s
      (bgpStaticUpdateMain env w s statement.toBgpStatic p safi) refs
      (staticUpdateMainRefs env w s statement.toBgpStatic p safi refs) := by
  refine .single (fun shown shows => ?_) start
  obtain ⟨shown', moved, holds, balance⟩ :=
    staticUpdateMain_moved refs w sound statement.toBgpStatic p safi shows
  exact ⟨shown', moved, ⟨_, rfl, holds⟩, fun counts => balance (permits counts)⟩

variable (refs) in
theorem updateRsclient_called (w : World) (sound : Sound s) (rsclient : Nat) (statement : Statement)
    (p : Prefix) (safi : Safi)
    (start : ∃ shown, Shows (network env) s (placed safi p (.rsclient rsclient)) shown)
    (permits : accounted → produced env w statement safi p (.rsclient rsclient) ≠ none) :
    Called env accounted [placed safi p (.rsclient rsclient)] (Produces env w statement) s
      (bgpStaticUpdateRsclient env w s rsclient statement.toBgpStatic p safi) refs
      (staticUpdateRsclientRefs env w s rsclient statement.toBgpStatic p safi refs) := by
  refine .single (fun shown shows => ?_) start
  obtain ⟨shown', moved, holds, balance⟩ :=
    staticUpdateRsclient_moved refs w sound rsclient statement p safi shows
  exact ⟨shown', moved, ⟨_, rfl, holds⟩, fun counts => balance (permits counts)⟩

variable (refs) in
/-- The turns of the loop over the clients. -/
theorem updateRsclients_called (w : World) (statement : Statement) (p : Prefix) (safi : Safi)
    (rsclients : List Nat) (sound : Sound s)
    (start : ∀ rsclient ∈ rsclients, ∃ shown,
      Shows (network env) s (placed safi p (.rsclient rsclient)) shown)
    (permits : accounted → ∀ rsclient ∈ rsclients,
      produced env w statement safi p (.rsclient rsclient) ≠ none) :
    let t := rsclients.foldl
      (fun (t : State × Refs) rsclient =>
        (bgpStaticUpdateRsclient env w t.1 rsclient statement.toBgpStatic p safi,
          staticUpdateRsclientRefs env w t.1 rsclient statement.toBgpStatic p safi t.2)) (s, refs)
    Called env accounted (rsclients.map fun rsclient => placed safi p (.rsclient rsclient))
      (Produces env w statement) s t.1 refs t.2 := by
  induction rsclients generalizing s refs with
  | nil => exact .none s refs
  | cons rsclient later ih =>
    have first := updateRsclient_called refs w sound rsclient statement p safi
      (start rsclient List.mem_cons_self) fun counts => permits counts rsclient List.mem_cons_self
    have rest := ih (staticUpdateRsclientRefs env w s rsclient statement.toBgpStatic p safi refs)
      (first.evolves.sound sound)
      (fun other member => first.defined _ (start other (List.mem_cons_of_mem _ member)))
      fun counts other member => permits counts other (List.mem_cons_of_mem _ member)
    exact first.append rest

variable (env s refs) in
/-- The tables of the loop are those of `bgp_static_update`. -/
theorem staticUpdate_tables (w : World) (statement : Statement) (p : Prefix) (safi : Safi)
    (rsclients : List Nat) :
    (rsclients.foldl
      (fun (t : State × Refs) rsclient =>
        (bgpStaticUpdateRsclient env w t.1 rsclient statement.toBgpStatic p safi,
          staticUpdateRsclientRefs env w t.1 rsclient statement.toBgpStatic p safi t.2))
            (s, refs)).1 =
      rsclients.foldl (fun s rsclient =>
        bgpStaticUpdateRsclient env w s rsclient statement.toBgpStatic p safi) s := by
  induction rsclients generalizing s refs with
  | nil => rfl
  | cons rsclient later ih => exact ih _ _

/-- What `bgp_static_update` comes to. -/
theorem staticUpdate_called (w : World) (statement : Statement) (p : Prefix) (safi : Safi)
    (sound : Sound s)
    (start : ∀ owner ∈ places env p.family safi, ∃ shown,
      Shows (network env) s (placed safi p owner) shown)
    (permits : accounted → ∀ owner ∈ places env p.family safi,
      produced env w statement safi p owner ≠ none) :
    Called env accounted (statementNodes env p safi) (Produces env w statement) s
      (bgpStaticUpdate env w s statement.toBgpStatic p safi) refs
      (staticUpdateRefs env w s statement.toBgpStatic p safi refs) := by
  have client : ∀ rsclient ∈ clientsOf env p.family safi,
      Owner.rsclient rsclient ∈ places env p.family safi :=
    fun rsclient member => List.mem_cons_of_mem _ (List.mem_map_of_mem member)
  have first := updateMain_called refs w sound statement p safi (start .main List.mem_cons_self)
    fun counts => permits counts .main List.mem_cons_self
  have rest :=
    updateRsclients_called (staticUpdateMainRefs env w s statement.toBgpStatic p safi refs)
    w statement p safi (clientsOf env p.family safi) (first.evolves.sound sound)
    (fun rsclient member => first.defined _ (start _ (client rsclient member)))
    fun counts rsclient member => permits counts _ (client rsclient member)
  have nodes : statementNodes env p safi = [placed safi p .main] ++
      (clientsOf env p.family safi).map fun rsclient => placed safi p (.rsclient rsclient) := by
    simp [statementNodes, places, Function.comp_def]
  have tables := staticUpdate_tables env (bgpStaticUpdateMain env w s statement.toBgpStatic p safi)
    (staticUpdateMainRefs env w s statement.toBgpStatic p safi refs) w statement p safi
    (clientsOf env p.family safi)
  dsimp only at rest
  rw [tables] at rest
  rw [nodes]
  exact first.append rest

variable (accounted refs) in
/-- What `bgp_static_withdraw` comes to. -/
theorem staticWithdraw_called (p : Prefix) (safi : Safi) (sound : Sound s)
    (start : ∃ shown, Shows (network env) s (placed safi p .main) shown) :
    Called env accounted [placed safi p .main] (fun _ result => result = none) s
      (bgpStaticWithdraw env s p safi none) refs
    (staticWithdrawRefs refs (placed safi p .main)) := by
  refine .single (fun shown shows => ?_) start
  obtain ⟨shown', moved, holds, balance⟩ := staticWithdraw_moved refs sound p safi shows
  exact ⟨shown', moved, ⟨none, rfl, holds⟩, fun _ => balance⟩

end Calls

/-! ## The invariant -/

/-- The statement a `network` command leaves. -/
def commanded (rmap : Option NetworkMap) (backdoor : Bool) : Statement :=
  ⟨⟨0, 0, false, rmap⟩, backdoor, true⟩

/-- What a run keeps. Where its steps are `accounted` for, the references of every node
are those of the shown route. -/
structure Kept (accounted : Prop) (d : Daemon) : Prop where
  sound : Sound d.tables
  swept : ∀ rn, Swept (network env) d.tables rn
  statements : ∀ safi p statement, d.route safi p = some statement →
    statement = commanded statement.rmap statement.backdoor
  locks : ∀ safi p, d.locks (safi, p) = if (d.route safi p).isSome then 1 else 0
  shown : ∀ safi p, ∀ owner ∈ places env p.family safi,
    Shown env accounted d.tables d.refs (placed safi p owner) (Asks env d safi p owner)

/-- A daemon without statements and static routes, that holds nothing. -/
structure Initial (d : Daemon) : Prop where
  sound : Sound d.tables
  single : ∀ rn, Outcome.Single d.tables rn
  route : ∀ safi p, d.route safi p = none
  plain : ∀ rn, ∀ ri ∈ d.tables.infos rn, ¬ (network env).Of ri
  locks : d.locks = 0
  refs : d.refs = 0

/-- No client of the family has a route of the statement that is not removed. -/
def Unclaimed (d : Daemon) (safi : Safi) (p : Prefix) : Prop :=
  ∀ rsclient ∈ clientsOf env p.family safi,
    ∀ ri ∈ d.tables.infos (placed safi p (.rsclient rsclient)),
    (network env).Of ri → ri.flags.removed = true

/-- A part of the attributes that is interned is not lost when the call gives up the
attributes it has interned: the statement's own attributes have it, the main table gets
it, or a route that is not this statement's has it. -/
def Remains {β : Type} (part : Attr → Option β) (d : Daemon) (statement : Statement) (safi : Safi)
    (p : Prefix) (mapped : Attr) : Prop :=
  part mapped = none ∨ part mapped = part statement.attr ∨
    (∃ attr, applyMap (statement.rmap.map fun map => map env.self) p statement.attr = some attr ∧
      part attr = part mapped) ∨
    ∃ rn, ∃ ri ∈ d.tables.infos rn, ¬ ((network env).Of ri ∧ rn.safi = safi ∧ rn.p = p) ∧
      part ri.attr = part mapped

/-- What the route map makes for a client outlives the moment at which
`bgp_static_update_rsclient` gives up the attributes it interned first and has not
interned them again, which it does from what it has just given up. -/
def Outlasts (d : Daemon) (statement : Statement) (safi : Safi) (p : Prefix) : Prop :=
  ∀ rsclient ∈ clientsOf env p.family safi, ∀ mapped,
    applyMap (statement.rmap.map fun map => map rsclient) p statement.attr = some mapped →
      Remains env Attr.aspath d statement safi p mapped ∧
      Remains env Attr.community d statement safi p mapped ∧
      Remains env (fun attr => attr.extra.bind AttrExtra.ecommunity) d statement safi p mapped ∧
      Remains env (fun attr => attr.extra.bind AttrExtra.cluster) d statement safi p mapped ∧
      Remains env (fun attr => attr.extra.bind AttrExtra.transit) d statement safi p mapped

/-- A command that is read. -/
def Reads (typed : Option TypedPrefix) (p : Prefix) : Prop :=
  ∃ t, typed = some t ∧ linkLocal t = false ∧ applyMask t = p

/-- No client's route is left behind: a statement goes, or becomes a backdoor, where no
client has its route. -/
def Fair (d : Daemon) : Act → Prop
  | .set _ typed safi rmap backdoor => ∀ p, Reads typed p →
      if backdoor then Unclaimed env d safi p else Outlasts env d (commanded rmap backdoor) safi p
  | .unset typed safi => ∀ p, Reads typed p → Unclaimed env d safi p
  | .runMain | .runRsclient => True

/-- Nobody denies the statement. -/
def Permitted (act : Act) : Prop :=
  match act with
  | .set w typed safi rmap false => ∀ p, Reads typed p → ∀ owner ∈ places env p.family safi,
      produced env w (commanded rmap false) safi p owner ≠ none
  | _ => True

section Invariant

variable {env} {accounted : Prop} {d : Daemon}

theorem Initial.kept (initial : Initial env d) : Kept env accounted d where
  sound := initial.sound
  swept := fun rn => ⟨initial.single rn, fun ri held mine => absurd mine (initial.plain rn ri held)⟩
  statements := fun safi p statement found => by rw [initial.route safi p] at found; cases found
  locks := fun safi p => by simp [initial.route safi p, initial.locks]
  shown := by
    intro safi p owner _
    refine ⟨none, ⟨fun ri held mine => absurd mine (initial.plain _ ri held),
      fun c absent => by cases absent⟩,
      ⟨none, ?_, fun c absent => by cases absent⟩, fun _ ref _ => ?_⟩
    · unfold Asks
      rw [initial.route safi p]
    · rw [initial.refs]
      rfl

variable {d' : Daemon} {safi : Safi} {p : Prefix}

/-- Only the statement asked about matters for what a table is asked for. -/
theorem Asks.congr (same : d'.route safi p = d.route safi p) (owner : Owner) :
    Asks env d' safi p owner = Asks env d safi p owner := by
  funext result
  unfold Asks
  rw [same]

theorem Kept.consistent (kept : Kept env accounted d) : Mirrors env d := by
  intro safi p owner member
  obtain ⟨shown, shows, ⟨result, asks, holds⟩, -⟩ := kept.shown safi p owner member
  refine ⟨result, asks, fun ri held mine present => ?_, fun attr same => ?_⟩
  · obtain rfl := shows.only ri held mine
    cases result with
    | none => exact absurd (present.symm.trans (holds (core ri) rfl)) Bool.false_ne_true
    | some attr =>
      obtain ⟨c, same, -, equal⟩ := holds
      obtain rfl := Option.some.inj same
      exact ⟨attr, rfl, equal⟩
  · subst same
    obtain ⟨c, rfl, present, -⟩ := holds
    obtain ⟨ri, held, mine, rfl⟩ := shows.held c rfl
    exact ⟨ri, held, mine, present⟩

/-- When all is quiet nothing is shown, so nothing is held. -/
theorem Kept.released (kept : Kept env accounted d) (counts : accounted) (quiet : Quiet d) :
    Released env d := by
  obtain ⟨routes, main, rsclient⟩ := quiet
  refine ⟨?_, fun safi p owner member ref about => ?_⟩
  · funext ⟨safi, p⟩
    rw [kept.locks safi p, routes safi p]
    rfl
  · obtain ⟨shown, shows, ⟨result, asks, holds⟩, accounts⟩ := kept.shown safi p owner member
    have none : result = none := by
      unfold Asks at asks
      rw [routes safi p] at asks
      exact asks
    subst none
    cases shown with
    | none => exact accounts counts ref about
    | some c =>
      obtain ⟨ri, held, mine, rfl⟩ := shows.held c rfl
      have present := (kept.swept _).present main rsclient ri held mine
      exact absurd (present.symm.trans (holds (core ri) rfl)) Bool.false_ne_true

/-- A turn of a queue keeps what the tables are asked for. -/
theorem Kept.processed (kept : Kept env accounted d) {tables : State} {refs : Refs}
    (sound : Sound tables) (swept : ∀ rn, Swept (network env) tables rn)
    (stands : ∀ rn, Stands (network env) rn d.tables tables)
    (accounts : ∀ rn shown, Shows (network env) d.tables rn shown →
      Accounts Attr.aspath d.refs rn shown →
      ∃ shown', Shows (network env) tables rn shown' ∧ Accounts Attr.aspath refs rn shown') :
    Kept env accounted { d with tables, refs } where
  sound := sound
  swept := swept
  statements := kept.statements
  locks := kept.locks
  shown := by
    intro safi p owner member
    obtain ⟨shown, shows, ⟨result, asks, holds⟩, before⟩ := kept.shown safi p owner member
    have account : ∀ shown', Shows (network env) tables (placed safi p owner) shown' →
        accounted → Accounts Attr.aspath refs (placed safi p owner) shown' := by
      intro shown' shows' counts
      obtain ⟨shown'', shows'', after⟩ := accounts _ shown shows (before counts)
      rwa [shows'.unique shows'']
    rcases shows.stands (stands _) with same | ⟨gone, c, rfl, removed⟩
    · exact ⟨shown, same, ⟨result, asks, holds⟩, account shown same⟩
    · refine ⟨Option.none, gone, ⟨result, asks, ?_⟩, account _ gone⟩
      cases result with
      | none => exact fun c absent => by cases absent
      | some attr =>
        obtain ⟨c', same, present, -⟩ := holds
        obtain rfl := Option.some.inj same
        exact absurd (present.symm.trans removed) Bool.false_ne_true

/-- Calls for one statement, after which the configuration asks for what they produce. -/
theorem Kept.called (kept : Kept env accounted d) {nodes : List Node}
    {results : Node → Option Attr → Prop}
    (called : Called env accounted nodes results d.tables d'.tables d.refs d'.refs)
    (within : nodes ⊆ statementNodes env p safi)
    (others : ∀ safi' p', (safi', p') ≠ (safi, p) → d'.route safi' p' = d.route safi' p' ∧
      d'.locks (safi', p') = d.locks (safi', p'))
    (commands : ∀ statement, d'.route safi p = some statement →
      statement = commanded statement.rmap statement.backdoor)
    (locks : d'.locks (safi, p) = if (d'.route safi p).isSome then 1 else 0)
    (asked : ∀ owner ∈ places env p.family safi,
      Shown env accounted d'.tables d'.refs (placed safi p owner) (Asks env d' safi p owner)) :
    Kept env accounted d' where
  sound := called.evolves.sound kept.sound
  swept := called.swept kept.swept
  statements := by
    intro safi' p' statement found
    by_cases here : (safi', p') = (safi, p)
    · obtain ⟨rfl, rfl⟩ := Prod.mk.inj here
      exact commands statement found
    · rw [(others safi' p' here).1] at found
      exact kept.statements safi' p' statement found
  locks := by
    intro safi' p'
    by_cases here : (safi', p') = (safi, p)
    · obtain ⟨rfl, rfl⟩ := Prod.mk.inj here
      exact locks
    · rw [(others safi' p' here).1, (others safi' p' here).2]
      exact kept.locks safi' p'
  shown := by
    intro safi' p' owner member
    by_cases here : (safi', p') = (safi, p)
    · obtain ⟨rfl, rfl⟩ := Prod.mk.inj here
      exact asked owner member
    · rw [Asks.congr (others safi' p' here).1 owner]
      refine called.keeps (fun inside => here ?_) (kept.shown safi' p' owner member)
      obtain ⟨owner', -, same⟩ := List.mem_map.mp (within inside)
      obtain ⟨rfl, rfl, -⟩ := placed_injective same
      rfl

/-- The nodes of a statement show something. -/
theorem Kept.start (kept : Kept env accounted d) (safi : Safi) (p : Prefix) :
    ∀ owner ∈ places env p.family safi,
      ∃ shown, Shows (network env) d.tables (placed safi p owner) shown := by
  intro owner member
  obtain ⟨shown, shows, -⟩ := kept.shown safi p owner member
  exact ⟨shown, shows⟩

/-- A statement that nothing is asked for, where its route in the main table goes. -/
theorem Kept.withdrawn (kept : Kept env accounted d) (unclaimed : Unclaimed env d safi p) :
    ∀ owner ∈ places env p.family safi, Shown env accounted (d.withdraw env p safi).tables
      (d.withdraw env p safi).refs (placed safi p owner) fun result => result = none := by
  have called := staticWithdraw_called accounted d.refs p safi kept.sound
    (kept.start safi p .main List.mem_cons_self)
  intro owner member
  obtain ⟨shown, shows, -, accounts⟩ := kept.shown safi p owner member
  rcases List.mem_cons.mp member with rfl | client
  · exact called.shows _ List.mem_cons_self shown shows accounts
  · obtain ⟨rsclient, inside, rfl⟩ := List.mem_map.mp client
    refine called.keeps (fun same => ?_) ⟨shown, shows, ⟨none, rfl, ?_⟩, accounts⟩
    · obtain ⟨-, -, other⟩ := placed_injective (List.mem_singleton.mp same)
      cases other
    · rintro c rfl
      obtain ⟨ri, held, mine, rfl⟩ := shows.held c rfl
      exact unclaimed rsclient inside ri held mine

/-- A statement for which nothing was asked before shows nothing. -/
theorem Kept.idle (kept : Kept env accounted d)
    (idle : ∀ statement, d.route safi p = some statement → statement.backdoor = true) :
    ∀ owner ∈ places env p.family safi, Shown env accounted d.tables d.refs (placed safi p owner)
      fun result => result = none := by
  intro owner member
  obtain ⟨shown, shows, ⟨result, asks, holds⟩, accounts⟩ := kept.shown safi p owner member
  refine ⟨shown, shows, ⟨result, ?_, holds⟩, accounts⟩
  unfold Asks at asks
  cases found : d.route safi p with
  | none => rwa [found] at asks
  | some statement =>
    rw [found] at asks
    dsimp only at asks
    rwa [if_pos (idle statement found)] at asks

/-- The statement a command finds, and what it makes of it. -/
theorem set_eq (w : World) (kept : Kept env accounted d) (typed : TypedPrefix) (safi : Safi)
    (rmap : Option NetworkMap) (backdoor : Bool) (reads : linkLocal typed = false) :
    let p := applyMask typed
    let d₁ : Daemon := { d.keep safi p (some (commanded rmap backdoor)) with
      locks := if (d.route safi p).isSome then d.locks else take d.locks (safi, p) }
    let d₂ := if (d.route safi p).any (fun statement => statement.backdoor ≠ backdoor)
      then d₁.withdraw env p safi else d₁
    bgpStaticSet env w false d (some typed) safi rmap backdoor =
      if backdoor then d₂ else d₂.update env w (commanded rmap backdoor) p safi := by
  intro p d₁ d₂
  unfold bgpStaticSet
  simp only [reads, Bool.false_eq_true, if_false]
  cases found : d.route safi (applyMask typed) with
  | none =>
    have same : d₂ = d₁ := by simp [d₂, p, found]
    simp [d₁, same, p, found, commanded, Daemon.keep]
  | some statement =>
    have known := kept.statements safi _ statement found
    rw [known]
    by_cases turned : statement.backdoor = backdoor
    · have same : d₂ = d₁ := by simp [d₂, p, found, turned]
      simp [d₁, same, p, found, commanded, Daemon.keep, turned]
    · have same : d₂ = d₁.withdraw env p safi := by simp [d₂, p, found, turned]
      simp [d₁, same, p, found, commanded, Daemon.keep, turned]

/-- What is not about a statement stays when the statement is kept. -/
theorem keep_other (d : Daemon) {safi' : Safi} {p' : Prefix} (other : (safi', p') ≠ (safi, p))
    (statement : Option Statement) :
    (d.keep safi p statement).route safi' p' = d.route safi' p' := by
  unfold Daemon.keep
  refine if_neg fun same => other ?_
  rw [same.1, same.2]

@[simp] theorem keep_same (d : Daemon) (safi : Safi) (p : Prefix) (statement : Option Statement) :
    (d.keep safi p statement).route safi p = statement := if_pos ⟨rfl, rfl⟩

variable {owner : Owner}

/-- A statement that is a backdoor, or none, leaves nothing to ask for. -/
theorem asks_nothing
    (nothing : ∀ statement, d.route safi p = some statement → statement.backdoor = true) :
    Asks env d safi p owner = fun result => result = none := by
  funext result
  unfold Asks
  cases found : d.route safi p with
  | none => rfl
  | some statement =>
    dsimp only
    rw [if_pos (nothing statement found)]

/-- A statement that is not a backdoor asks for what it produces. -/
theorem asks_produced {statement : Statement} (found : d.route safi p = some statement)
    (front : statement.backdoor = false) (w : World) :
    Asks env d safi p owner (produced env w statement safi p owner) := by
  unfold Asks
  rw [found]
  dsimp only
  rw [front, if_neg Bool.false_ne_true]
  exact ⟨w, rfl⟩

/-- A statement is taken back, or becomes a backdoor. -/
theorem Kept.stops (kept : Kept env accounted d) (unclaimed : Unclaimed env d safi p)
    (tables : d'.tables = if (d.route safi p).any (fun statement => !statement.backdoor)
      then (d.withdraw env p safi).tables else d.tables)
    (refs : d'.refs = if (d.route safi p).any (fun statement => !statement.backdoor)
      then (d.withdraw env p safi).refs else d.refs)
    (others : ∀ safi' p', (safi', p') ≠ (safi, p) → d'.route safi' p' = d.route safi' p' ∧
      d'.locks (safi', p') = d.locks (safi', p')) {after : Option Statement}
    (found : d'.route safi p = after)
    (stopped : ∀ statement, after = some statement → statement = commanded statement.rmap true)
    (locks : d'.locks (safi, p) = if after.isSome then 1 else 0) : Kept env accounted d' := by
  subst found
  have backdoor : ∀ statement, d'.route safi p = some statement → statement.backdoor = true :=
    fun statement found => by rw [stopped statement found]; rfl
  have commands : ∀ statement, d'.route safi p = some statement →
      statement = commanded statement.rmap statement.backdoor := fun statement found => by
    rw [backdoor statement found]
    exact stopped statement found
  by_cases front : (d.route safi p).any (fun statement => !statement.backdoor) = true
  · rw [if_pos front] at tables refs
    have called :
      Called env accounted [placed safi p .main] (fun _ result => result = none) d.tables
        d'.tables d.refs d'.refs := by
      rw [tables, refs]
      exact staticWithdraw_called _ _ p safi kept.sound (kept.start safi p .main List.mem_cons_self)
    refine kept.called called ?_ others commands locks ?_
    · exact List.cons_subset.mpr ⟨List.mem_cons_self, List.nil_subset _⟩
    · intro owner member
      rw [tables, refs, asks_nothing backdoor]
      exact kept.withdrawn unclaimed owner member
  · rw [if_neg front] at tables refs
    have called : Called env accounted [] (fun _ result => result = none) d.tables d'.tables d.refs
        d'.refs := by
      rw [tables, refs]
      exact .none _ _
    refine kept.called called (List.nil_subset _) others commands locks fun owner member => ?_
    rw [tables, refs, asks_nothing backdoor]
    refine kept.idle (fun statement found => ?_) owner member
    rw [found] at front
    simpa using front

/-- A statement is made, or made again, that is not a backdoor. -/
theorem Kept.starts (kept : Kept env accounted d) (w : World) (rmap : Option NetworkMap)
    (updates : ∃ d₂ : Daemon, (d₂ = d ∨ d₂ = d.withdraw env p safi) ∧
      d'.tables = bgpStaticUpdate env w d₂.tables (commanded rmap false).toBgpStatic p safi ∧
      d'.refs = staticUpdateRefs env w d₂.tables (commanded rmap false).toBgpStatic p safi d₂.refs)
    (permits : accounted → ∀ owner ∈ places env p.family safi,
      produced env w (commanded rmap false) safi p owner ≠ none)
    (others : ∀ safi' p', (safi', p') ≠ (safi, p) → d'.route safi' p' = d.route safi' p' ∧
      d'.locks (safi', p') = d.locks (safi', p'))
    (found : d'.route safi p = some (commanded rmap false)) (locks : d'.locks (safi, p) = 1) :
    Kept env accounted d' := by
  have start := kept.start safi p
  have called :
    Called env accounted (statementNodes env p safi) (Produces env w (commanded rmap false))
      d.tables d'.tables d.refs d'.refs := by
    obtain ⟨d₂, rfl | rfl, tables, refs⟩ := updates <;> rw [tables, refs]
    · exact staticUpdate_called w _ p safi kept.sound start permits
    · have first := staticWithdraw_called accounted d.refs p safi kept.sound
        (start .main List.mem_cons_self)
      refine first.again (staticUpdate_called w _ p safi (first.evolves.sound kept.sound)
        (fun owner member => first.defined _ (start owner member)) permits) ?_
      exact List.cons_subset.mpr ⟨List.mem_cons_self, List.nil_subset _⟩
  refine kept.called called (List.Subset.refl _) others ?_ ?_ ?_
  · intro statement same
    rw [found] at same
    obtain rfl := Option.some.inj same
    rfl
  · rw [locks, found]
    rfl
  · intro owner member
    obtain ⟨shown, shows, -, accounts⟩ := kept.shown safi p owner member
    obtain ⟨shown', shows', ⟨result, produces, holds⟩, accounts'⟩ :=
      called.shows _ (List.mem_map_of_mem member) shown shows accounts
    refine ⟨shown', shows', ⟨result, ?_, holds⟩, accounts'⟩
    rw [produces]
    exact asks_produced found rfl w

theorem ofNetwork_iff (ri : BgpInfo) : ofNetwork env ri = true ↔ (network env).Of ri := by
  simp only [ofNetwork, decide_eq_true_eq]
  rfl

/-- A `network` command. -/
theorem Kept.set (kept : Kept env accounted d) (w : World) (typed : Option TypedPrefix)
    (safi : Safi) (rmap : Option NetworkMap) (backdoor : Bool)
    (fair : Fair env d (.set w typed safi rmap backdoor))
    (permitted : accounted → Permitted env (.set w typed safi rmap backdoor)) :
    Kept env accounted (bgpStaticSet env w false d typed safi rmap backdoor) := by
  cases typed with
  | none => exact kept
  | some typed =>
    cases reads : linkLocal typed with
    | true =>
      unfold bgpStaticSet
      simp only [reads, if_true]
      exact kept
    | false =>
      have read : Reads (some typed) (applyMask typed) := ⟨typed, rfl, reads, rfl⟩
      have asked := fair _ read
      rw [set_eq w kept typed safi rmap backdoor reads]
      generalize applyMask typed = p at read asked ⊢
      have lock :
          (if (d.route safi p).isSome then d.locks else take d.locks (safi, p)) (safi, p) = 1 := by
        have before := kept.locks safi p
        split <;> rename_i held
        · rwa [if_pos held] at before
        · rw [if_neg held] at before
          simp [take, one, before]
      have others : ∀ safi' p', (safi', p') ≠ (safi, p) →
          (d.keep safi p (some (commanded rmap backdoor))).route safi' p' = d.route safi' p' ∧
          (if (d.route safi p).isSome then d.locks else take d.locks (safi, p)) (safi', p') =
            d.locks (safi', p') := by
        intro safi' p' other
        refine ⟨keep_other d other _, ?_⟩
        split
        · rfl
        · simp [take, one, other]
      cases backdoor with
      | true =>
        have turned : (d.route safi p).any (fun statement => statement.backdoor ≠ true) =
            (d.route safi p).any fun statement => !statement.backdoor := by
          congr 1
          funext statement
          cases statement.backdoor <;> rfl
        rw [if_pos rfl, turned]
        have left : ∀ statement, some (commanded rmap true) = some statement →
            statement = commanded statement.rmap true := by
          rintro _ ⟨⟩
          rfl
        split <;> rename_i front
        · refine kept.stops asked ?_ ?_ others (keep_same d safi p _) left lock
          · rw [if_pos front]
            rfl
          · rw [if_pos front]
            rfl
        · refine kept.stops asked ?_ ?_ others (keep_same d safi p _) left lock
          · rw [if_neg front]
            rfl
          · rw [if_neg front]
            rfl
      | false =>
        rw [if_neg Bool.false_ne_true]
        have permits : accounted → ∀ owner ∈ places env p.family safi,
            produced env w (commanded rmap false) safi p owner ≠ none :=
          fun counts => permitted counts p read
        split
        · exact kept.starts w rmap ⟨_, Or.inr rfl, rfl,
            rfl⟩ permits others (keep_same d safi p _) lock
        · exact kept.starts w rmap ⟨_, Or.inl rfl, rfl,
            rfl⟩ permits others (keep_same d safi p _) lock

/-- A `no network` command. -/
theorem Kept.unset (kept : Kept env accounted d) (typed : Option TypedPrefix) (safi : Safi)
    (fair : Fair env d (.unset typed safi)) :
    Kept env accounted (bgpStaticUnset env d typed safi) := by
  cases typed with
  | none => exact kept
  | some typed =>
    unfold bgpStaticUnset
    dsimp only
    split
    · exact kept
    · rename_i reads
      have unclaimed := fair _ ⟨typed, rfl, by simpa using reads, rfl⟩
      generalize applyMask typed = p at unclaimed ⊢
      cases found : d.route safi p with
      | none => exact kept
      | some statement =>
        have lock := kept.locks safi p
        rw [found] at lock
        dsimp only
        have others : ∀ safi' p', (safi', p') ≠ (safi, p) →
            (d.keep safi p none).route safi' p' = d.route safi' p' ∧
            giveBack (giveBack (take d.locks (safi, p)) (safi, p)) (safi, p) (safi', p') =
              d.locks (safi', p') := by
          intro safi' p' other
          refine ⟨keep_other d other _, ?_⟩
          rw [giveBack_take]
          simp [giveBack, one, other]
        have free :
            giveBack (giveBack (take d.locks (safi, p)) (safi, p)) (safi, p) (safi, p) = 0 := by
          rw [giveBack_take]
          simp [giveBack, one, lock]
        cases back : statement.backdoor with
        | true =>
          have front : (d.route safi p).any (fun statement => !statement.backdoor) = false := by
            rw [found, Option.any_some, back]
            rfl
          refine kept.stops unclaimed ?_ ?_ others (keep_same d safi p none) (by rintro _ ⟨⟩) free
          · rw [front]
            rfl
          · rw [front]
            rfl
        | false =>
          have front : (d.route safi p).any (fun statement => !statement.backdoor) = true := by
            rw [found, Option.any_some, back]
            rfl
          refine kept.stops unclaimed ?_ ?_ others (keep_same d safi p none) (by rintro _ ⟨⟩) free
          · rw [front]
            rfl
          · rw [front]
            rfl

/-- What one step keeps. -/
theorem Kept.step (kept : Kept env accounted d) (act : Act) (fair : Fair env d act)
    (permitted : accounted → Permitted env act) : Kept env accounted (step env d act) := by
  cases act with
  | set w typed safi rmap backdoor => exact kept.set w typed safi rmap backdoor fair permitted
  | unset typed safi => exact kept.unset typed safi fair
  | runMain =>
    refine kept.processed (runMainQueue_sound env kept.sound)
      (runMainQueue_swept env kept.sound kept.swept) (fun rn => runMainQueue_stands env kept.sound)
      fun rn shown shows accounts => ?_
    obtain ⟨shown', shows', -, accounts'⟩ :=
      mainQueue_accounts env ofNetwork_iff kept.sound shows accounts
    exact ⟨shown', shows', accounts'⟩
  | runRsclient =>
    refine kept.processed (runRsclientQueue_sound env kept.sound)
      (runRsclientQueue_swept env kept.sound kept.swept) (fun rn =>
        runRsclientQueue_stands env kept.sound)
      fun rn shown shows accounts => ?_
    obtain ⟨shown', shows', -, accounts'⟩ :=
      rsclientQueue_accounts env ofNetwork_iff kept.sound shows accounts
    exact ⟨shown', shows', accounts'⟩

end Invariant

/-! ## Runs of the daemon -/

/-- In a run that leaves no client's route behind, every table has the static routes it is
asked for. If moreover nobody denies a statement, what was locked and interned is given
back when no statement is left and the queues are empty. -/
theorem mirrors_when_fair (d : Daemon) (initial : Initial env d) (acts : List Act)
    (fair : Guarded (step env) (Fair env) d acts) :
    Mirrors env (run (step env) d acts) ∧
      (Guarded (step env) (fun d act => Fair env d act ∧ Permitted env act) d acts →
        Quiet (run (step env) d acts) → Released env (run (step env) d acts)) := by
  refine ⟨?_, fun permitted quiet => ?_⟩
  · have kept : Kept env False (run (step env) d acts) :=
      guarded_invariant (step env) (Fair env) (Kept env False)
        (fun _ act kept fair => kept.step act fair fun counts =>
          counts.elim) d acts initial.kept fair
    exact kept.consistent
  · have kept : Kept env True (run (step env) d acts) :=
      guarded_invariant (step env) _ (Kept env True)
        (fun _ act kept guard => kept.step act guard.1 fun _ =>
          guard.2) d acts initial.kept permitted
    exact kept.released trivial quiet

theorem ten_full :
    ([false, false, false, false, true, false, true, false] ++ List.replicate 23 false
    ++ [true]).length = Afi.ip.bits := by
  decide

theorem ten_short : 8 ≤ Afi.ip.bits := by
  decide

/-- 10.0.0.0/8, typed with the rest of an address. -/
def ten : TypedPrefix where
  family := .ip
  address :=
    [false, false, false, false, true, false, true, false] ++ List.replicate 23 false ++ [true]
  prefixlen := 8
  full := ten_full
  fits := ten_short

/-- A daemon before any command. -/
def started : Daemon := ⟨State.empty, fun _ _ => none, 0, 0⟩

theorem initial_started (env : Env) : Initial env started where
  sound := ⟨fun _ _ held => absurd held List.not_mem_nil, fun _ => List.nodup_nil,
    fun _ held => absurd rfl held⟩
  single := fun _ _ held => absurd held List.not_mem_nil
  route := fun _ _ => rfl
  plain := fun _ _ held => absurd held List.not_mem_nil
  locks := rfl
  refs := rfl

theorem server_id (peer : Nat) :
    ({ (plainEnv [1, 2]).config peer with
      afFlags := fun _ _ => { rserverClient := peer = 2 } } : Peer).id = peer := rfl

/-- An instance with a route-server client. -/
def serverEnv : Env :=
  { plainEnv [1, 2] with
    rsclients := [2]
    config := fun peer =>
      { (plainEnv [1, 2]).config peer with
        afFlags := fun _ _ => { rserverClient := peer = 2 } }
    config_id := server_id }

/-- A statement for it, in a run of an instance without clients. -/
def comesAndGoes (rmap : Option NetworkMap) : Daemon :=
  run (step (plainEnv [1])) started
    [.set (plainWorld 0) (some ten) .unicast rmap false, .runMain,
      .unset (some ten) .unicast, .runMain]

theorem comesAndGoes_quiet (rmap : Option NetworkMap)
    (main : (comesAndGoes rmap).tables.mainQueue = [])
    (rsclient : (comesAndGoes rmap).tables.rsclientQueue = []) : Quiet (comesAndGoes rmap) := by
  refine ⟨fun safi p => ?_, main, rsclient⟩
  by_cases here : safi = .unicast ∧ p = applyMask ten
  · obtain ⟨rfl, rfl⟩ := here
    rfl
  · change (if _ then none else if _ then _ else none) = none
    rw [if_neg here, if_neg here]

/-- A client is shown a statement; without clients a statement comes and goes. -/
theorem mirrors_when_fair_ten :
    Mirrors serverEnv (run (step serverEnv) started
      [.set (plainWorld 0) (some ten) .unicast none false]) ∧
    Released (plainEnv [1]) (comesAndGoes none) := by
  constructor
  · have fair : Fair serverEnv started (.set (plainWorld 0) (some ten) .unicast none false) := by
      intro p _ rsclient _ mapped applied
      obtain rfl := Option.some.inj applied
      exact ⟨Or.inr (Or.inl rfl), Or.inr (Or.inl rfl), Or.inr (Or.inl rfl), Or.inr (Or.inl rfl),
        Or.inr (Or.inl rfl)⟩
    exact (mirrors_when_fair serverEnv started (initial_started _)
      [.set (plainWorld 0) (some ten) .unicast none false] ⟨fair, trivial⟩).1
  · have clientless : ∀ p : Prefix, clientsOf (plainEnv [1]) p.family .unicast = [] := fun _ => rfl
    have set :
        Fair (plainEnv [1]) started (.set (plainWorld 0) (some ten) .unicast none false) := by
      intro p _ rsclient member
      rw [clientless p] at member
      exact absurd member List.not_mem_nil
    have unset : ∀ d, Fair (plainEnv [1]) d (.unset (some ten) .unicast) := by
      intro d p _ rsclient member
      rw [clientless p] at member
      exact absurd member List.not_mem_nil
    have permitted : Permitted (plainEnv [1])
        (.set (plainWorld 0) (some ten) .unicast none false) := by
      intro p _ owner member
      obtain rfl : owner = .main := by
        simpa [places, clientless p] using member
      exact Option.some_ne_none _
    exact (mirrors_when_fair (plainEnv [1]) started (initial_started _)
      [.set (plainWorld 0) (some ten) .unicast none false, .runMain,
        .unset (some ten) .unicast, .runMain]
      ⟨set, trivial, unset _, trivial, trivial⟩).2
      ⟨⟨set, permitted⟩, ⟨trivial, trivial⟩, ⟨unset _, trivial⟩, ⟨trivial, trivial⟩, trivial⟩
      (comesAndGoes_quiet _ (by decide) (by decide))

/-- A statement that is taken back stays in a client's table, and one that its route map
denies leaves a lock. -/
theorem statements_leave_things :
    ¬ Mirrors serverEnv (run (step serverEnv) started
      [.set (plainWorld 0) (some ten) .unicast none false, .unset (some ten) .unicast]) ∧
    (Quiet (comesAndGoes (some fun _ _ _ => none)) ∧
      ¬ Released (plainEnv [1]) (comesAndGoes (some fun _ _ _ => none))) := by
  refine ⟨fun mirrors => ?_, comesAndGoes_quiet _ (by decide) (by decide), fun released => ?_⟩
  · obtain ⟨result, asks, only, -⟩ :=
      mirrors .unicast (applyMask ten) (.rsclient 2) (by decide)
    have nothing : result = none := asks
    have left : ∃ ri ∈ (run (step serverEnv) started
        [.set (plainWorld 0) (some ten) .unicast none false,
          .unset (some ten) .unicast]).tables.infos
          (nodeOf (.rsclient 2) .unicast (applyMask ten) none),
        ofNetwork serverEnv ri = true ∧ ri.flags.removed = false := by decide
    obtain ⟨ri, held, mine, present⟩ := left
    obtain ⟨attr, same, -⟩ := only ri held ((ofNetwork_iff ri).mp mine) present
    exact absurd (nothing.symm.trans same) (Option.some_ne_none attr).symm
  · have lock := released.2 .unicast (applyMask ten) .main List.mem_cons_self
      (.node (nodeOf .main .unicast (applyMask ten) none)) rfl
    exact absurd lock (by decide)

end Bgpd.NetworkStatements
