import Bgpd.Standing

/-!
# Redistributed routes of the instances

`bgp_redistribute_add` and `bgp_redistribute_delete` go over every instance of the
daemon. An add leaves the loop early: where a route map denies, it takes the route out of
every instance, and where an instance has a redistributed route already, it looks at no
later one. What an instance is to have follows from the calls and its own configuration.
-/

namespace Bgpd.RedistributedRoutes

open Octets Prefixes Attributes Admission Rib Aggregation Updates Processing Evolution Primitives
  Steps Sources Runs Standing

open Actions (attrhashCmp_trans plainEnv plainWorld)

/-- The arguments of `bgp_redistribute_add`. -/
structure Offer where
  p : Prefix
  nexthop : Option U32
  metric : U32
  type : U8

/-- `struct bgp`: the tables, and for each family and protocol whether it is
redistributed, with which metric of its own, and through which route map. -/
structure Instance where
  env : Env
  rib : State
  redist : Afi → U8 → Bool
  redistMetric : Afi → U8 → Option U32
  rmap : Afi → U8 → Option (Prefix → Attr → Option Attr)

/-- The node of a prefix for redistributed routes. -/
def place (p : Prefix) : Node := nodeOf .main .unicast p none

namespace Instance

variable (b : Instance)

/-- The offer as the instance takes it. -/
def redistribution (offer : Offer) : Redistribution where
  code := offer.type
  nexthop := offer.nexthop.getD 0
  metric := offer.metric
  redistMetric := b.redistMetric offer.p.family offer.type
  rmap := b.rmap offer.p.family offer.type

/-- The attributes that come out of the instance's route map, if it permits the route. -/
def mapped (offer : Offer) : Option Attr :=
  applyMap (b.redistribution offer).rmap offer.p (b.redistribution offer).attr

/-- The route an add finds: one of the instance itself, by its `sub_type`. -/
def found (p : Prefix) : Option BgpInfo :=
  (b.rib.infos (place p)).find? fun ri => ri.peer = b.env.self ∧ ri.subType = .redistribute

/-- What an add does for an instance that permits the route. -/
def install (w : World) (offer : Offer) (attr : Attr) : Instance :=
  { b with
    rib := installLocal b.env (bgpNodeGet b.rib (place offer.p)) (place offer.p) (b.found offer.p)
      (.other offer.type) .redistribute (w.intern attr) }

/-- What a delete does for an instance that redistributes the protocol. -/
def drop (p : Prefix) (type : U8) : Instance :=
  { b with rib := Updates.bgpRedistributeDelete b.env b.rib p type }

end Instance

/-- `bgp_redistribute_delete`. -/
def bgpRedistributeDelete (bs : List Instance) (p : Prefix) (type : U8) : List Instance :=
  bs.map fun b => if b.redist p.family type then b.drop p type else b

/-- The loop of `bgp_redistribute_add`, with the instances that it has gone over. -/
def addLoop (w : World) (offer : Offer) (visited : List Instance) : List Instance → List Instance
  | [] => visited
  | b :: later =>
    if b.redist offer.p.family offer.type then
      match b.mapped offer with
      | none => bgpRedistributeDelete (visited ++ b :: later) offer.p offer.type
      | some attr =>
        if (b.found offer.p).isSome then visited ++ b.install w offer attr :: later
        else addLoop w offer (visited ++ [b.install w offer attr]) later
    else addLoop w offer (visited ++ [b]) later

/-- `bgp_redistribute_add`. -/
def bgpRedistributeAdd (w : World) (bs : List Instance) (offer : Offer) : List Instance :=
  addLoop w offer [] bs

/-- A call, or a turn of one of an instance's queues. -/
inductive Act
  | add (w : World) (offer : Offer)
  | delete (p : Prefix) (type : U8)
  | runMain (nth : Nat)
  | runRsclient (nth : Nat)

/-- One step. -/
def step (bs : List Instance) : Act → List Instance
  | .add w offer => bgpRedistributeAdd w bs offer
  | .delete p type => bgpRedistributeDelete bs p type
  | .runMain nth => bs.modify nth fun b => { b with rib := runMainQueue b.env b.rib }
  | .runRsclient nth => bs.modify nth fun b => { b with rib := runRsclientQueue b.env b.rib }

/-! ## What is to hold -/

/-- The protocols that offer a prefix, with the attributes of the route, the latest
first. -/
abbrev Offers := Prefix → List (U8 × Attr)

/-- The offers but those of one protocol. -/
def without (offers : List (U8 × Attr)) (type : U8) : List (U8 × Attr) :=
  offers.filter fun offer => offer.1 ≠ type

/-- What an instance is offered after a step: an add takes the place of what the protocol
offered before, unless the route map denies it. -/
def Instance.offer (b : Instance) (offers : Offers) : Act → Offers
  | .add _ offer =>
    if b.redist offer.p.family offer.type then
      Function.update offers offer.p
        (((b.mapped offer).map (offer.type, ·)).toList ++ without (offers offer.p) offer.type)
    else offers
  | .delete p type =>
    if b.redist p.family type then Function.update offers p (without (offers p) type) else offers
  | .runMain _ => offers
  | .runRsclient _ => offers

/-- What an instance is offered after the steps of a run. -/
def Instance.offered (b : Instance) (acts : List Act) : Offers := acts.foldl b.offer fun _ => []

/-- The route is a redistributed one. -/
def Instance.OwnRoute (b : Instance) (ri : BgpInfo) : Prop :=
  ri.peer = b.env.self ∧ ri.subType = .redistribute

/-- The instance has a redistributed route that is not removed exactly for the prefixes
it is offered, with the attributes of the latest offer. -/
def Consistent (b : Instance) (offers : Offers) : Prop :=
  ∀ p,
    ((∃ ri ∈ b.rib.infos (place p), b.OwnRoute ri ∧ ri.flags.removed = false) ↔ offers p ≠ []) ∧
    ∀ ri ∈ b.rib.infos (place p), b.OwnRoute ri → ri.flags.removed = false →
      ∃ offer, (offers p).head? = some offer ∧ attrhashCmp ri.attr offer.2 = true

/-! ## When an add is fair -/

/-- An instance that permits the route has none of another protocol. -/
def Unmixed (offer : Offer) (b : Instance) : Prop :=
  b.redist offer.p.family offer.type = true → (b.mapped offer).isSome = true →
    ∀ ri ∈ b.rib.infos (place offer.p), b.OwnRoute ri → ri.type = .other offer.type

/-- There is nothing to do in the instance: a route that it permits is there with equal
attributes, one that it denies is not there. -/
def Idle (w : World) (offer : Offer) (b : Instance) : Prop :=
  b.redist offer.p.family offer.type = true →
    match b.mapped offer with
    | none => ∀ ri ∈ b.rib.infos (place offer.p), ri.peer = b.env.self →
        ri.type = .other offer.type → ri.flags.removed = true
    | some attr => ∃ ri ∈ b.rib.infos (place offer.p), b.OwnRoute ri ∧ ri.flags.removed = false ∧
        attrhashCmp ri.attr (w.intern attr) = true

/-- No instance denies the route up to the first that has one already, and in the later
ones there is nothing to do. -/
def Smooth (w : World) (offer : Offer) : List Instance → Prop
  | [] => True
  | b :: later =>
    if b.redist offer.p.family offer.type then
      (b.mapped offer).isSome = true ∧
        if (b.found offer.p).isSome then ∀ b' ∈ later, Idle w offer b' else Smooth w offer later
    else Smooth w offer later

instance (b : Instance) (ri : BgpInfo) : Decidable (b.OwnRoute ri) :=
  inferInstanceAs (Decidable (_ ∧ _))

instance (offer : Offer) (b : Instance) : Decidable (Unmixed offer b) :=
  inferInstanceAs (Decidable (_ → _ → ∀ ri ∈ _, _ → _))

instance (w : World) (offer : Offer) (b : Instance) : Decidable (Idle w offer b) :=
  match result : b.mapped offer with
  | none =>
    decidable_of_iff
      (b.redist offer.p.family offer.type = true →
        ∀ ri ∈ b.rib.infos (place offer.p), ri.peer = b.env.self →
          ri.type = .other offer.type → ri.flags.removed = true)
      (by rw [Idle, result])
  | some attr =>
    decidable_of_iff
      (b.redist offer.p.family offer.type = true →
        ∃ ri ∈ b.rib.infos (place offer.p), b.OwnRoute ri ∧ ri.flags.removed = false ∧
          attrhashCmp ri.attr (w.intern attr) = true)
      (by rw [Idle, result])

instance decidableSmooth (w : World) (offer : Offer) :
    (bs : List Instance) → Decidable (Smooth w offer bs)
  | [] => isTrue trivial
  | b :: later =>
    have := decidableSmooth w offer later
    inferInstanceAs (Decidable (if b.redist offer.p.family offer.type then
      (b.mapped offer).isSome = true ∧
        if (b.found offer.p).isSome then ∀ b' ∈ later, Idle w offer b' else Smooth w offer later
    else Smooth w offer later))

/-- The condition on an add. -/
def Fair (bs : List Instance) : Act → Prop
  | .add w offer =>
    (∀ b ∈ bs, Unmixed offer b) ∧
      ((∀ b ∈ bs, b.redist offer.p.family offer.type = true → b.mapped offer = none) ∨
        Smooth w offer bs)
  | .delete _ _ => True
  | .runMain _ => True
  | .runRsclient _ => True

instance (bs : List Instance) (act : Act) : Decidable (Fair bs act) :=
  match act with
  | .add _ _ => inferInstanceAs (Decidable (_ ∧ (_ ∨ _)))
  | .delete _ _ => isTrue trivial
  | .runMain _ => isTrue trivial
  | .runRsclient _ => isTrue trivial

/-! ## The routes of one instance -/

/-- The redistributed routes, and those that a delete would take for one. -/
def redistributed (env : Env) : Kind := fun peer type subType =>
  peer = env.self ∧ (subType = .redistribute ∨ ∃ code, type = .other code)

theorem redistributed_plain (env : Env) : (redistributed env).Plain := by
  rintro ri bgp aggregate ⟨-, redistribute | ⟨code, other⟩⟩
  · rw [aggregate] at redistribute
    cases redistribute
  · rw [bgp] at other
    cases other

variable {p : Prefix}

theorem place_inj {q : Prefix} (same : place p = place q) : p = q := congrArg Node.p same

/-- What a node shows is what it is offered: nothing, or the route of one protocol. -/
structure Matches (shown : Option BgpInfo) (offers : List (U8 × Attr)) : Prop where
  source : ∀ c, shown = some c → c.subType = .redistribute ∧ ∃ code, c.type = .other code
  answer : (offers = [] ∧ ∀ c, shown = some c → c.flags.removed = true) ∨
    ∃ code attr c, offers = [(code, attr)] ∧ shown = some c ∧ c.flags.removed = false ∧
      c.type = .other code ∧ attrhashCmp c.attr attr = true

namespace Matches

variable {shown : Option BgpInfo} {offers : List (U8 × Attr)} {kind : Kind} {s s' : State}
    {rn : Node}

/-- Nothing is shown where nothing is offered. -/
theorem nothing : Matches none [] where
  source := fun _ shown => (nomatch shown)
  answer := Or.inl ⟨rfl, fun _ shown => (nomatch shown)⟩

/-- Where the routes stand, at most a removed one goes. -/
theorem stands (found : Matches shown offers) (shows : Shows kind s rn shown)
    (stands : Stands kind rn s s') : ∃ shown', Shows kind s' rn shown' ∧ Matches shown' offers := by
  rcases shows.stands stands with same | ⟨gone, c, rfl, removed⟩
  · exact ⟨shown, same, found⟩
  · rcases found.answer with ⟨rfl, -⟩ | ⟨_, _, c', _, same, present, -⟩
    · exact ⟨none, gone, nothing⟩
    · obtain rfl := Option.some.inj same
      rw [present] at removed
      exact absurd removed Bool.false_ne_true

variable {type : U8}

/-- Where only one protocol is shown, it is the only one on offer. -/
theorem without_of_type {c : BgpInfo} (found : Matches (some c) offers)
    (only : c.type = .other type) : without offers type = [] := by
  rcases found.answer with ⟨rfl, -⟩ | ⟨code, attr, c', rfl, same, -, other, -⟩
  · rfl
  · obtain rfl := Option.some.inj same
    obtain rfl := RouteType.other.inj (other.symm.trans only)
    simp [without]

/-- A protocol that is not shown does not offer anything. -/
theorem without_of_ne (found : Matches shown offers)
    (other : ∀ c, shown = some c → c.type ≠ .other type) : without offers type = offers := by
  rcases found.answer with ⟨rfl, -⟩ | ⟨code, attr, c, rfl, rfl, -, same, -⟩
  · rfl
  · have apart : code ≠ type := by
      rintro rfl
      exact other c rfl same
    simp [without, apart]

end Matches

/-- The instance has sound tables and is what its offers make of it. -/
structure Mirrors (b : Instance) (offers : Offers) : Prop where
  sound : Sound b.rib
  found : ∀ p, ∃ shown, Shows (redistributed b.env) b.rib (place p) shown ∧ Matches shown (offers p)

namespace Mirrors

variable {b : Instance} {offers : Offers}

theorem consistent (mirrors : Mirrors b offers) : Consistent b offers := by
  intro p
  obtain ⟨shown, shows, found⟩ := mirrors.found p
  have seen : ∀ ri ∈ b.rib.infos (place p), b.OwnRoute ri → shown = some (core ri) :=
    fun ri held own => shows.only ri held ⟨own.1, Or.inl own.2⟩
  rcases found.answer with ⟨none, removed⟩ | ⟨code, attr, c, only, rfl, present, -, equal⟩
  · have gone : ∀ ri ∈ b.rib.infos (place p), b.OwnRoute ri → ri.flags.removed = false → False := by
      intro ri held own present
      have removed : ri.flags.removed = true := removed (core ri) (seen ri held own)
      rw [present] at removed
      exact Bool.false_ne_true removed
    refine ⟨⟨fun ⟨ri, held, own, present⟩ => (gone ri held own present).elim, fun some => ?_⟩,
      fun ri held own present => (gone ri held own present).elim⟩
    exact absurd none some
  · refine ⟨⟨fun _ => by rw [only]; exact List.cons_ne_nil _ _, fun _ => ?_⟩,
      fun ri held own _ => ?_⟩
    · obtain ⟨ri, held, mine, rfl⟩ := shows.held c rfl
      exact ⟨ri, held, ⟨mine.1, (found.source _ rfl).1⟩, present⟩
    · refine ⟨(code, attr), by rw [only]; rfl, ?_⟩
      obtain rfl := Option.some.inj (seen ri held own)
      exact equal

variable {s' : State}

/-- A change under which the routes stand everywhere. -/
theorem settled (mirrors : Mirrors b offers) (sound : Sound s')
    (stands : ∀ rn, Stands (redistributed b.env) rn b.rib s') :
    Mirrors { b with rib := s' } offers := by
  refine ⟨sound, fun p => ?_⟩
  obtain ⟨shown, shows, found⟩ := mirrors.found p
  exact found.stands shows (stands _)

variable {p : Prefix} {shown : Option BgpInfo}
variable {here : List (U8 × Attr)}

/-- A change of one node. -/
theorem change (mirrors : Mirrors b offers) (sound : Sound s')
    (apart : ∀ rn, rn ≠ place p → Stands (redistributed b.env) rn b.rib s')
    (shows : Shows (redistributed b.env) s' (place p) shown) (found : Matches shown here) :
    Mirrors { b with rib := s' } (Function.update offers p here) := by
  refine ⟨sound, fun q => ?_⟩
  by_cases same : q = p
  · subst same
    rw [Function.update_self]
    exact ⟨shown, shows, found⟩
  · rw [Function.update_of_ne same]
    obtain ⟨shown', shows', found'⟩ := mirrors.found q
    exact found'.stands shows' (apart _ fun equal => same (place_inj equal))

/-- The route an add finds is what the node shows. -/
theorem found_some {ri : BgpInfo} (shows : Shows (redistributed b.env) b.rib (place p) shown)
    (found : b.found p = some ri) :
    ri ∈ b.rib.infos (place p) ∧ b.OwnRoute ri ∧ shown = some (core ri) := by
  have known := List.find?_some found
  have held := List.mem_of_find?_eq_some found
  simp only [decide_eq_true_eq] at known
  exact ⟨held, known, shows.only ri held ⟨known.1, Or.inl known.2⟩⟩

/-- Where it finds none, the node shows none. -/
theorem found_none (shows : Shows (redistributed b.env) b.rib (place p) shown)
    (matched : Matches shown here) (absent : b.found p = none) : shown = none := by
  cases shown with
  | none => rfl
  | some c =>
    obtain ⟨ri, held, mine, rfl⟩ := shows.held c rfl
    have other := List.find?_eq_none.mp absent ri held
    simp only [decide_eq_true_eq] at other
    exact absurd ⟨mine.1, (matched.source _ rfl).1⟩ other

/-- An instance that permits the route has it afterwards, where it has none of another
protocol. -/
theorem install (mirrors : Mirrors b offers) (w : World) {offer : Offer} {attr : Attr}
    (unmixed : ∀ ri ∈ b.rib.infos (place offer.p), b.OwnRoute ri → ri.type = .other offer.type) :
    Mirrors (b.install w offer attr)
      (Function.update offers offer.p
        ((offer.type, attr) :: without (offers offer.p) offer.type)) := by
  obtain ⟨shown, shows, found⟩ := mirrors.found offer.p
  have plain := redistributed_plain b.env
  have made : Evolves lax b.rib (bgpNodeGet b.rib (place offer.p)) := bgpNodeGet_evolves _ _
  have shows' :
      Shows (redistributed b.env) (bgpNodeGet b.rib (place offer.p)) (place offer.p) shown :=
    shows.of_infos (by rw [bgpNodeGet_infos])
  have installed := installLocal_evolves b.env (lax_covers b.env) (bgpNodeGet b.rib (place offer.p))
    (place offer.p) (b.found offer.p) (.other offer.type) .redistribute (w.intern attr) rfl
    ((mem_bgpNodeGet _ _ _).mpr (Or.inl rfl)) (fun _ => trivial) trivial
  have sound := made.sound mirrors.sound
  have apart : ∀ rn, rn ≠ place offer.p →
      Stands (redistributed b.env) rn b.rib (b.install w offer attr).rib := fun rn other =>
    (bgpNodeGet_stands b.rib _).trans (installLocal_stands b.env plain sound other _ _ _ _)
  cases seen : b.found offer.p with
  | none =>
    obtain rfl := found_none shows found seen
    have bare : without (offers offer.p) offer.type = [] := by
      rcases found.answer with ⟨none, -⟩ | ⟨_, _, _, _, same, -⟩
      · rw [none]
        rfl
      · cases same
    obtain ⟨c, shown', present, equal, -, type, subType⟩ := installLocal_new_shows b.env plain sound
      (.other offer.type) .redistribute (w.intern attr) ⟨rfl, Or.inl rfl⟩ shows'
    rw [← seen] at shown'
    refine mirrors.change (installed.sound sound) apart shown' ⟨?_, Or.inr ?_⟩
    · rintro _ ⟨⟩
      exact ⟨subType, offer.type, type⟩
    · exact ⟨offer.type, attr, c, by rw [bare], rfl, present, type, equal ▸ w.intern_cmp attr⟩
  | some ri =>
    obtain ⟨held, own, rfl⟩ := found_some shows seen
    have type := unmixed ri held own
    have bare : without (offers offer.p) offer.type = [] := found.without_of_type type
    obtain ⟨c, shown', present, equal, source⟩ := installLocal_shows b.env plain sound
      (.other offer.type) .redistribute (w.intern attr) shows'
    rw [← seen] at shown'
    refine mirrors.change (installed.sound sound) apart shown' ⟨?_, Or.inr ?_⟩
    · rintro _ ⟨⟩
      exact ⟨source.subType.trans own.2, offer.type, source.type.trans type⟩
    · exact ⟨offer.type, attr, c, by rw [bare], rfl, present, source.type.trans type,
        attrhashCmp_trans equal (w.intern_cmp attr)⟩

/-- A delete takes the protocol's offer out. -/
theorem drop (mirrors : Mirrors b offers) (p : Prefix) (type : U8) :
    Mirrors (b.drop p type) (Function.update offers p (without (offers p) type)) := by
  obtain ⟨shown, shows, found⟩ := mirrors.found p
  have plain := redistributed_plain b.env
  have made : Evolves lax b.rib (bgpNodeGet b.rib (place p)) := bgpNodeGet_evolves _ _
  have sound := made.sound mirrors.sound
  have shows' : Shows (redistributed b.env) (bgpNodeGet b.rib (place p)) (place p) shown :=
    shows.of_infos (by rw [bgpNodeGet_infos])
  unfold Instance.drop Updates.bgpRedistributeDelete
  change Mirrors
    { b with
      rib := removeLocal b.env (bgpNodeGet b.rib (place p)) (place p)
        (((bgpNodeGet b.rib (place p)).infos (place p)).find? fun ri =>
          ri.peer = b.env.self ∧ ri.type = .other type) } _
  rw [bgpNodeGet_infos]
  cases seen : (b.rib.infos (place p)).find? fun ri =>
      ri.peer = b.env.self ∧ ri.type = .other type with
  | none =>
    refine mirrors.change sound (fun rn _ => bgpNodeGet_stands b.rib _) shows' ?_
    rw [found.without_of_ne]
    · exact found
    · rintro c rfl same
      obtain ⟨ri, held, mine, rfl⟩ := shows.held c rfl
      have other := List.find?_eq_none.mp seen ri held
      simp only [decide_eq_true_eq] at other
      exact other ⟨mine.1, same⟩
  | some ri =>
    have known := List.find?_some seen
    simp only [decide_eq_true_eq] at known
    obtain rfl := shows.only ri (List.mem_of_find?_eq_some seen) ⟨known.1, Or.inr ⟨type, known.2⟩⟩
    obtain ⟨c, shown', removed, source⟩ := removeLocal_shows b.env plain sound shows'
    have removes :=
      removeLocal_evolves b.env (lax_covers b.env) (bgpNodeGet b.rib (place p)) (place p)
      (some ri) rfl fun _ => trivial
    refine mirrors.change (removes.sound sound) (fun rn other => ?_) shown' ⟨?_, Or.inl ⟨?_, ?_⟩⟩
    · exact (bgpNodeGet_stands b.rib _).trans (removeLocal_stands b.env plain sound other _)
    · rintro _ ⟨⟩
      exact ⟨source.subType.trans (found.source _ rfl).1, type, source.type.trans known.2⟩
    · exact found.without_of_type known.2
    · rintro _ ⟨⟩
      exact removed

end Mirrors

/-! ## Calls -/

/-- A step leaves an instance its configuration, and makes it what it is offered then. -/
structure Follows (act : Act) (b b' : Instance) : Prop where
  same : ∃ rib, b' = { b with rib }
  mirrors : ∀ offers, Mirrors b offers → Mirrors b' (b.offer offers act)

section Calls

variable {b : Instance} {w : World} {offer : Offer} {p : Prefix} {type : U8}

theorem untaken_follows (other : b.redist offer.p.family offer.type = false) :
    Follows (.add w offer) b b := by
  refine ⟨⟨b.rib, rfl⟩, fun offers mirrors => ?_⟩
  unfold Instance.offer
  dsimp only
  rw [if_neg (by rw [other]; exact Bool.false_ne_true)]
  exact mirrors

theorem denied_follows (takes : b.redist offer.p.family offer.type = true)
    (denied : b.mapped offer = none) : Follows (.add w offer) b (b.drop offer.p offer.type) := by
  refine ⟨⟨_, rfl⟩, fun offers mirrors => ?_⟩
  unfold Instance.offer
  dsimp only
  rw [if_pos takes, denied]
  exact mirrors.drop offer.p offer.type

theorem install_follows (takes : b.redist offer.p.family offer.type = true) {attr : Attr}
    (permitted : b.mapped offer = some attr) (unmixed : Unmixed offer b) :
    Follows (.add w offer) b (b.install w offer attr) := by
  refine ⟨⟨_, rfl⟩, fun offers mirrors => ?_⟩
  unfold Instance.offer
  dsimp only
  rw [if_pos takes, permitted]
  exact mirrors.install w (unmixed takes (by rw [permitted]; rfl))

/-- An instance in which there is nothing to do is what it is offered as it is. -/
theorem idle_follows (unmixed : Unmixed offer b) (idle : Idle w offer b) :
    Follows (.add w offer) b b := by
  cases takes : b.redist offer.p.family offer.type with
  | false => exact untaken_follows takes
  | true =>
    refine ⟨⟨b.rib, rfl⟩, fun offers mirrors => ?_⟩
    obtain ⟨shown, shows, found⟩ := mirrors.found offer.p
    unfold Instance.offer
    dsimp only
    rw [if_pos takes]
    have idle := idle takes
    have here : ∀ offers', Matches shown offers' →
        Mirrors b (Function.update offers offer.p offers') := fun offers' found' =>
      mirrors.change mirrors.sound (fun _ _ => .refl b.rib) shows found'
    cases result : b.mapped offer with
    | none =>
      rw [result] at idle
      apply here
      change Matches shown (without (offers offer.p) offer.type)
      rcases found.answer with ⟨none, -⟩ | ⟨code, attr, c, only, rfl, present, other, -⟩
      · rw [none] at found ⊢
        exact found
      · obtain ⟨ri, held, mine, rfl⟩ := shows.held c rfl
        have apart : code ≠ offer.type := by
          rintro rfl
          have removed : ri.flags.removed = true := idle ri held mine.1 other
          rw [show ri.flags.removed = false from present] at removed
          exact Bool.false_ne_true removed
        rw [only] at found ⊢
        simpa [without, apart] using found
    | some attr =>
      rw [result] at idle
      obtain ⟨ri, held, own, present, equal⟩ := idle
      obtain rfl := shows.only ri held ⟨own.1, Or.inl own.2⟩
      have type := unmixed takes (by rw [result]; rfl) ri held own
      apply here
      refine ⟨found.source, Or.inr ⟨offer.type, attr, core ri, ?_, rfl, present, type,
        attrhashCmp_trans equal (w.intern_cmp attr)⟩⟩
      rw [found.without_of_type type]
      rfl

theorem delete_follows (takes : b.redist p.family type = true) :
    Follows (.delete p type) b (b.drop p type) := by
  refine ⟨⟨_, rfl⟩, fun offers mirrors => ?_⟩
  unfold Instance.offer
  dsimp only
  rw [if_pos takes]
  exact mirrors.drop p type

/-- A delete goes over every instance. -/
theorem deleteAll_follows (bs : List Instance) (p : Prefix) (type : U8) :
    List.Forall₂ (Follows (.delete p type)) bs (bgpRedistributeDelete bs p type) := by
  unfold bgpRedistributeDelete
  rw [List.forall₂_map_right_iff, List.forall₂_same]
  intro b _
  split
  · rename_i takes
    exact delete_follows takes
  · rename_i other
    refine ⟨⟨b.rib, rfl⟩, fun offers mirrors => ?_⟩
    unfold Instance.offer
    dsimp only
    rw [if_neg other]
    exact mirrors

/-- Where every instance denies the route, the first of them takes it out of all. -/
theorem allDeny_follows (visited later : List Instance)
    (untaken : ∀ b ∈ visited, b.redist offer.p.family offer.type = false)
    (deny : ∀ b ∈ later, b.redist offer.p.family offer.type = true → b.mapped offer = none) :
    List.Forall₂ (Follows (.add w offer)) (visited ++ later) (addLoop w offer visited later) := by
  induction later generalizing visited with
  | nil =>
    unfold addLoop
    rw [List.append_nil, List.forall₂_same]
    exact fun b member => untaken_follows (untaken b member)
  | cons b later ih =>
    unfold addLoop
    cases takes : b.redist offer.p.family offer.type with
    | false =>
      rw [if_neg Bool.false_ne_true, List.append_cons visited b later]
      refine ih (visited ++ [b]) (fun b' member => ?_) fun b' member =>
        deny b' (List.mem_cons_of_mem _ member)
      rcases List.mem_append.mp member with earlier | this
      · exact untaken b' earlier
      · rw [List.mem_singleton.mp this]
        exact takes
    | true =>
      rw [if_pos rfl, deny b List.mem_cons_self takes]
      dsimp only
      unfold bgpRedistributeDelete
      rw [List.forall₂_map_right_iff, List.forall₂_same]
      intro b' member
      split
      · rename_i takes'
        refine denied_follows takes' ?_
        rcases List.mem_append.mp member with earlier | this
        · rw [untaken b' earlier] at takes'
          exact absurd takes' Bool.false_ne_true
        · exact deny b' this takes'
      · rename_i other
        exact untaken_follows (eq_false_of_ne_true other)

/-- Where the loop leaves nothing undone, every instance is what it is offered. -/
theorem smooth_follows (visited later : List Instance) (unmixed : ∀ b ∈ later, Unmixed offer b)
    (smooth : Smooth w offer later) :
    ∃ after, addLoop w offer visited later = visited ++ after ∧
      List.Forall₂ (Follows (.add w offer)) later after := by
  induction later generalizing visited with
  | nil => exact ⟨[], (List.append_nil _).symm, .nil⟩
  | cons b later ih =>
    have rest := fun b' member => unmixed b' (List.mem_cons_of_mem b member)
    unfold addLoop
    unfold Smooth at smooth
    split
    · rename_i takes
      rw [if_pos takes] at smooth
      obtain ⟨permitted, smooth⟩ := smooth
      obtain ⟨attr, result⟩ := Option.isSome_iff_exists.mp permitted
      have first : Follows (.add w offer) b (b.install w offer attr) :=
        install_follows takes result (unmixed b List.mem_cons_self)
      rw [result]
      dsimp only
      split
      · rename_i found
        rw [if_pos found] at smooth
        refine ⟨b.install w offer attr :: later, rfl, .cons first ?_⟩
        rw [List.forall₂_same]
        exact fun b' member => idle_follows (rest b' member) (smooth b' member)
      · rename_i absent
        rw [if_neg absent] at smooth
        obtain ⟨after, same, follows⟩ := ih (visited ++ [b.install w offer attr]) rest smooth
        exact ⟨b.install w offer attr :: after, same.trans (List.append_cons ..).symm,
          .cons first follows⟩
    · rename_i other
      rw [if_neg other] at smooth
      obtain ⟨after, same, follows⟩ := ih (visited ++ [b]) rest smooth
      exact ⟨b :: after, same.trans (List.append_cons ..).symm,
        .cons (untaken_follows (eq_false_of_ne_true other)) follows⟩

/-- A turn of a queue, where the step is one that no offer depends on. -/
theorem turn_follows (act : Act) (silent : ∀ (b : Instance) offers, b.offer offers act = offers)
    (turn : Env → State → State) (sound : ∀ env s, Sound s → Sound (turn env s))
    (stands : ∀ env s kind rn, Sound s → Stands kind rn s (turn env s)) (bs : List Instance)
    (nth : Nat) :
    List.Forall₂ (Follows act) bs (bs.modify nth fun b => { b with rib := turn b.env b.rib }) := by
  have still : ∀ b : Instance, Follows act b b := fun b =>
    ⟨⟨b.rib, rfl⟩, fun offers mirrors => (silent b offers).symm ▸ mirrors⟩
  have turned : ∀ b : Instance, Follows act b { b with rib := turn b.env b.rib } := fun b =>
    ⟨⟨_, rfl⟩, fun offers mirrors => by
      rw [silent]
      exact mirrors.settled (sound _ _ mirrors.sound) fun rn => stands _ _ _ rn mirrors.sound⟩
  induction bs generalizing nth with
  | nil => cases nth <;> exact .nil
  | cons b later ih =>
    cases nth with
    | zero => exact .cons (turned b) (List.forall₂_same.mpr fun b' _ => still b')
    | succ nth => exact .cons (still b) (ih nth)

/-- What a fair step comes to, in every instance. -/
theorem fair_follows (bs : List Instance) (act : Act) (fair : Fair bs act) :
    List.Forall₂ (Follows act) bs (step bs act) := by
  cases act with
  | add w offer =>
    obtain ⟨unmixed, deny | smooth⟩ := fair
    · exact allDeny_follows [] bs (fun _ member => absurd member List.not_mem_nil) deny
    · obtain ⟨after, same, follows⟩ := smooth_follows [] bs unmixed smooth
      rw [step, bgpRedistributeAdd, same]
      exact follows
  | delete p type => exact deleteAll_follows bs p type
  | runMain nth =>
    exact turn_follows (.runMain nth) (fun _ _ => rfl) runMainQueue
      (fun env _ => runMainQueue_sound env) (fun env _ _ _ => runMainQueue_stands env) bs nth
  | runRsclient nth =>
    exact turn_follows (.runRsclient nth) (fun _ _ => rfl) runRsclientQueue
      (fun env _ => runRsclientQueue_sound env) (fun env _ _ _ =>
        runRsclientQueue_stands env) bs nth

end Calls

/-! ## Runs -/

/-- An instance with sound tables and no redistributed route. -/
structure Unfed (b : Instance) : Prop where
  sound : Sound b.rib
  bare : ∀ p, ∀ ri ∈ b.rib.infos (place p), ¬ (redistributed b.env).Of ri

theorem Unfed.mirrors {b : Instance} (unfed : Unfed b) : Mirrors b fun _ => [] where
  sound := unfed.sound
  found := fun p => ⟨none,
    ⟨fun ri held mine => absurd mine (unfed.bare p ri held), fun _ shown => (nomatch shown)⟩,
    .nothing⟩

/-- The instance started as the given one, and is what that was offered. -/
structure Tracks (acts : List Act) (start b : Instance) : Prop where
  same : ∃ rib, b = { start with rib }
  mirrors : Mirrors b (start.offered acts)

variable {acts : List Act} {act : Act}

theorem Tracks.follows {start b b' : Instance} (tracks : Tracks acts start b)
    (follows : Follows act b b') : Tracks (acts ++ [act]) start b' := by
  obtain ⟨⟨rib, rfl⟩, mirrors⟩ := tracks
  obtain ⟨⟨rib', rfl⟩, followed⟩ := follows
  refine ⟨⟨rib', rfl⟩, ?_⟩
  have next := followed _ mirrors
  unfold Instance.offered
  rw [List.foldl_append]
  exact next

theorem tracks_follows {starts bs bs' : List Instance}
    (tracks : List.Forall₂ (Tracks acts) starts bs) (follows : List.Forall₂ (Follows act) bs bs') :
    List.Forall₂ (Tracks (acts ++ [act])) starts bs' := by
  induction tracks generalizing bs' with
  | nil =>
    cases follows
    exact .nil
  | cons first _ ih =>
    cases follows with
    | cons follow later => exact .cons (first.follows follow) (ih later)

theorem run_tracks (bs : List Instance) (unfed : ∀ b ∈ bs, Unfed b) (acts : List Act)
    (fair : Guarded step Fair bs acts) : List.Forall₂ (Tracks acts) bs (run step bs acts) := by
  induction acts using List.reverseRecOn with
  | nil => exact List.forall₂_same.mpr fun b member => ⟨⟨b.rib, rfl⟩, (unfed b member).mirrors⟩
  | append_singleton acts act ih =>
    obtain ⟨before, now⟩ := (guarded_append step Fair bs acts [act]).mp fair
    rw [run_append]
    exact tracks_follows (ih before) (fair_follows _ act now.1)

/-- In a run of fair adds, every instance has a redistributed route for exactly the
prefixes that it is offered, with the attributes of the latest offer, whatever the other
instances are offered. -/
theorem consistent_when_fair (bs : List Instance) (unfed : ∀ b ∈ bs, Unfed b) (acts : List Act)
    (fair : Guarded step Fair bs acts) :
    List.Forall₂ (fun start b => Consistent b (start.offered acts)) bs (run step bs acts) :=
  (run_tracks bs unfed acts fair).imp fun _ _ tracks => tracks.mirrors.consistent

/-- 10.0.0.0/8. -/
def ten : Prefix := ⟨.ip, [false, false, false, false, true, false, true, false], ten_fits⟩

/-- An instance without routes that redistributes the given protocols. -/
def taking (types : List U8) (rmap : Option (Prefix → Attr → Option Attr)) : Instance where
  env := plainEnv [1]
  rib := State.empty
  redist := fun _ type => type ∈ types
  redistMetric := fun _ _ => none
  rmap := fun _ _ => rmap

theorem unfed_taking (types : List U8) (rmap : Option (Prefix → Attr → Option Attr)) :
    Unfed (taking types rmap) where
  sound := ⟨fun _ _ held => absurd held List.not_mem_nil, fun _ => List.nodup_nil,
    fun _ held => absurd rfl held⟩
  bare := fun _ _ held => absurd held List.not_mem_nil

/-- An offer of the prefix. -/
def offerTen (type : U8) (metric : U32) : Act := .add (plainWorld 0) ⟨ten, none, metric, type⟩

/-- Two instances are offered a route twice, which they take and lose again. -/
theorem consistent_when_fair_twice :
    List.Forall₂
      (fun start b => Consistent b
        (start.offered [offerTen 2 0, .runMain 0, offerTen 2 0, .delete ten 2, .runMain 1]))
      [taking [2] none, taking [2, 3] none]
      (run step [taking [2] none, taking [2, 3] none]
        [offerTen 2 0, .runMain 0, offerTen 2 0, .delete ten 2, .runMain 1]) := by
  refine consistent_when_fair _ (fun b member => ?_) _
    ⟨by decide, by decide, by decide, by decide, by decide, trivial⟩
  simp only [List.mem_cons, List.not_mem_nil, or_false] at member
  rcases member with rfl | rfl <;> exact unfed_taking _ _

/-- An instance that lacks a route that it is offered. -/
theorem lacking {b : Instance} {offers : Offers} (offered : offers p ≠ [])
    (absent : ∀ ri ∈ b.rib.infos (place p), ¬ (b.OwnRoute ri ∧ ri.flags.removed = false)) :
    ¬ Consistent b offers := by
  intro consistent
  obtain ⟨ri, held, found⟩ := (consistent p).1.mpr offered
  exact absent ri held found

/-- An instance with a route of other attributes than the latest offer. -/
theorem outdated {b : Instance} {offers : Offers}
    (stale : ∃ ri ∈ b.rib.infos (place p), (b.OwnRoute ri ∧ ri.flags.removed = false) ∧
      ∀ offer ∈ (offers p).head?, attrhashCmp ri.attr offer.2 = false) : ¬ Consistent b offers := by
  intro consistent
  obtain ⟨ri, held, ⟨own, present⟩, other⟩ := stale
  obtain ⟨offer, latest, equal⟩ := (consistent p).2 ri held own present
  rw [other offer latest] at equal
  exact Bool.false_ne_true equal

/-- A denial in one instance takes the route from another; a change in one keeps it from
another; and a delete by one protocol takes out what another still offers. -/
theorem instances_interfere :
    (¬ List.Forall₂ (fun start b => Consistent b (start.offered [offerTen 2 0]))
      [taking [2] (some fun _ _ => none), taking [2] none]
      (run step [taking [2] (some fun _ _ => none), taking [2] none] [offerTen 2 0])) ∧
    (¬ List.Forall₂ (fun start b => Consistent b (start.offered [offerTen 2 0, offerTen 2 5]))
      [taking [2] none, taking [2] none]
      (run step [taking [2] none, taking [2] none] [offerTen 2 0, offerTen 2 5])) ∧
    ¬ List.Forall₂
      (fun start b => Consistent b (start.offered [offerTen 2 0, offerTen 3 0, .delete ten 2]))
      [taking [2, 3] none] (run step [taking [2, 3] none] [offerTen 2 0, offerTen 3 0,
        .delete ten 2]) := by
  refine ⟨fun all => ?_, fun all => ?_, fun all => ?_⟩
  · obtain ⟨-, later⟩ := List.forall₂_cons.mp all
    exact lacking (p := ten) (by decide) (by decide) (List.forall₂_cons.mp later).1
  · obtain ⟨-, later⟩ := List.forall₂_cons.mp all
    exact outdated (p := ten) (by decide) (List.forall₂_cons.mp later).1
  · exact lacking (p := ten) (by decide) (by decide) (List.forall₂_cons.mp all).1

end Bgpd.RedistributedRoutes
