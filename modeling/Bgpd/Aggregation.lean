import Bgpd.Rib

/-!
# Configured aggregates

An aggregate counts the routes below its prefix and has a route of its own while
there are any. A summary-only aggregate also counts itself in the suppress field
of each route below. Both are kept up to date by taking the whole aggregate down
and building it again whenever a route below comes, goes or changes.

Taking an aggregate down skips routes in hold-down, and routes without an extra
block keep their suppress count; building it up allocates the block.
-/

namespace Bgpd.Aggregation

open Octets Prefixes AsPath Attributes Rib

/-! ## Merged attributes -/

/-- How far two segments agree. -/
def matching : List U32 → List U32 → Nat
  | left :: lefts, right :: rights => if left = right then matching lefts rights + 1 else 0
  | _, _ => 0

/-- The common leading part of two paths, what is left of each, and how many
members of the next segment are to be skipped. Where the paths part between two
segments, that number is still the one of the segment before. -/
def leadingPart : Nat → List Assegment → List Assegment →
    List Assegment × Nat × List Assegment × List Assegment
  | skip, seg1 :: later1, seg2 :: later2 =>
    if seg1.type ≠ seg2.type then ([], skip, seg1 :: later1, seg2 :: later2)
    else
      let same := matching seg1.as seg2.as
      let head := if same ≠ 0 then [(⟨seg1.type, seg1.as.take same⟩ : Assegment)] else []
      if same ≠ seg1.as.length ∨ seg1.as.length ≠ seg2.as.length then
        (head, same, seg1 :: later1, seg2 :: later2)
      else
        let (more, skip, left1, left2) := leadingPart same later1 later2
        (head ++ more, skip, left1, left2)
  | skip, segs1, segs2 => ([], skip, segs1, segs2)

/-- The members of what is left of a path. -/
def leftMembers (skip : Nat) (segments : List Assegment) : List U32 :=
  match segments with
  | [] => []
  | seg :: later => seg.as.drop skip ++ later.flatMap Assegment.as

/-- `aspath_aggregate`: the common part, and a set of all other members. -/
def aspathAggregate (as1 as2 : Aspath) : Aspath :=
  let (common, skip, left1, left2) := leadingPart 0 as1.segments as2.segments
  let members := leftMembers skip left1 ++ leftMembers skip left2
  let asset : List Assegment := if members = [] then [] else [⟨.asSet, members⟩]
  ⟨assegmentNormalise (common ++ asset)⟩

/-- What an aggregate with AS set collects of the routes below it. -/
structure Merged where
  origin : U8
  aspath : Option Aspath
  community : Option (List U32)
  deriving DecidableEq, Repr

/-- Before the first route. -/
def Merged.none : Merged := ⟨bgpOriginIgp, Option.none, Option.none⟩

/-- One more route. -/
def Merged.take (merged : Merged) (attr : Attr) : Merged where
  origin := if merged.origin < attr.origin then attr.origin else merged.origin
  aspath :=
    match merged.aspath with
    | some aspath => some (aspathAggregate aspath (attr.aspath.getD aspathEmpty))
    | Option.none => some (attr.aspath.getD aspathEmpty)
  community :=
    match attr.community, merged.community with
    | some more, some community => some ((community ++ more).dedup.insertionSort (· ≤ ·))
    | some more, Option.none => some more
    | Option.none, community => community

/-! ## Routes below an aggregate -/

/-- A route that counts for the aggregates above it. -/
def BgpInfo.countable (ri : BgpInfo) : Bool := !ri.holddown && ri.subType ≠ .aggregate

/-- The nodes of a main table strictly below a prefix, in the order of a walk. -/
def below (s : State) (afi : Afi) (safi : Safi) (p : Prefix) : List Node :=
  s.nodes.filter fun rn =>
    rn.owner = .main ∧ rn.afi = afi ∧ rn.safi = safi ∧ rn.prd = none ∧ p.strictlyCovers rn.p

/-- The node of an aggregate's own route. -/
def ownNode (safi : Safi) (p : Prefix) : Node := nodeOf .main safi p none

/-- Write an aggregate's count. -/
def setCount (s : State) (afi : Afi) (safi : Safi) (p : Prefix) (aggregate : Aggregate)
    (count : Int) : State :=
  { s with
    aggregates := fun afi' safi' p' =>
      if afi' = afi ∧ safi' = safi ∧ p' = p then some { aggregate with count }
      else s.aggregates afi' safi' p' }

/-- Change the routes of some nodes, and queue those of them that match. -/
def visit (s : State) (nodes : List Node) (change : Node → BgpInfo → BgpInfo)
    (matched : Node → BgpInfo → Bool) : State :=
  { s with
    infos := fun rn => if rn ∈ nodes then (s.infos rn).map (change rn) else s.infos rn
    mainQueue := s.mainQueue ++ nodes.filter fun rn => (s.infos rn).any (matched rn) }

/-- The routes of some nodes that meet a condition. -/
def tally (s : State) (nodes : List Node) (counts : Node → BgpInfo → Bool) : Nat :=
  (nodes.map fun rn => (s.infos rn).countP (counts rn)).sum

/-- What taking an aggregate down does to a route below it. -/
def release (aggregate : Aggregate) (ri : BgpInfo) : BgpInfo :=
  if BgpInfo.countable ri ∧ aggregate.summaryOnly ∧ ri.extra.isSome then
    let ri := ri.withExtra fun extra => { extra with suppress := extra.suppress - 1 }
    if ri.suppress = 0 then ri.put .attrChanged true else ri
  else ri

/-- Taking the aggregate down makes the route announceable. -/
def released (aggregate : Aggregate) (ri : BgpInfo) : Bool :=
  BgpInfo.countable ri ∧ aggregate.summaryOnly ∧ ri.extra.isSome ∧ ri.suppress - 1 = 0

/-- What building an aggregate up does to a route below it. -/
def suppressOne (aggregate : Aggregate) (counts : Bool) (ri : BgpInfo) : BgpInfo :=
  if counts ∧ aggregate.summaryOnly then
    (ri.withExtra fun extra => { extra with suppress := extra.suppress + 1 }).put .attrChanged true
  else ri

variable (env : Env)

/-- The AS and the address of the speaker that aggregates. -/
def aggregatorAs : U32 := if env.bgp.confederation then env.bgp.confedId else env.bgp.as

/-- The route of an aggregate is added and queued. -/
def addAggregate (s : State) (safi : Safi) (p : Prefix) (aggregate : Aggregate) (merged : Merged) :
    State :=
  let rn := ownNode safi p
  let attr := bgpAttrAggregateIntern (aggregatorAs env) env.bgp.routerId merged.origin merged.aspath
    merged.community aggregate.asSet
  let (s, ri) := bgpInfoNew s env.self .bgp .aggregate attr
  bgpProcess (bgpInfoAdd (bgpNodeGet s rn) rn (ri.put .valid true)) rn

/-- The first part of `bgp_aggregate_delete`: the routes below are let go. -/
def takeDown (s : State) (afi : Afi) (safi : Safi) (p : Prefix) (aggregate : Aggregate) : State :=
  let nodes := below s afi safi p
  let count := aggregate.count - tally s nodes fun _ => BgpInfo.countable
  visit (setCount s afi safi p aggregate count) nodes (fun _ => release aggregate)
    fun _ => released aggregate

/-- The last part, which finds the newest route of the aggregate. -/
def withdrawAggregate (s : State) (rn : Node) : State :=
  let s := bgpNodeGet s rn
  match (s.infos rn).find? fun ri =>
      ri.peer = env.self ∧ ri.type = .bgp ∧ ri.subType = .aggregate with
  | none => s
  | some ri => bgpProcess (bgpInfoDelete env s rn ri.id) rn

/-- `bgp_aggregate_delete`, for a configured aggregate. -/
def bgpAggregateDelete (s : State) (afi : Afi) (safi : Safi) (p : Prefix) : State :=
  match s.aggregates afi safi p with
  | none => s
  | some aggregate =>
    if p.prefixlen = p.family.bits then s
    else withdrawAggregate env (takeDown s afi safi p aggregate) (ownNode safi p)

/-- The route an aggregate is built up for: one of a node, or one that is about to
be added to its node. -/
inductive Subject
  | listed (rn : Node) (id : Nat)
  | fresh (ri : BgpInfo)

/-- The attributes of a subject. -/
def Subject.attr (s : State) : Subject → Option Attr
  | .listed rn id => (s.info? rn id).map BgpInfo.attr
  | .fresh ri => some ri.attr

/-- The subject of a summary-only aggregate is suppressed once more, without a
mark. -/
def suppressSubject (aggregate : Aggregate) (s : State) : Option Subject → State × Option Subject
  | none => (s, none)
  | some (.listed rn id) =>
    (if aggregate.summaryOnly then
        s.modify rn id (·.withExtra fun extra => { extra with suppress := extra.suppress + 1 })
      else s,
      some (.listed rn id))
  | some (.fresh ri) =>
    (s,
      some (.fresh (if aggregate.summaryOnly then
          ri.withExtra fun extra => { extra with suppress := extra.suppress + 1 }
        else ri)))

/-- A route below counts when an aggregate is built up without one route. -/
def countsBut (del : Option (Node × Nat)) (rn : Node) (ri : BgpInfo) : Bool :=
  BgpInfo.countable ri && del ≠ some (rn, ri.id)

/-- What an aggregate with AS set collects of the nodes below it. -/
def mergeBelow (s : State) (nodes : List Node) (del : Option (Node × Nat)) : Merged :=
  nodes.foldl
    (fun merged rn =>
      ((s.infos rn).filter (countsBut del rn)).foldl (fun merged ri => merged.take ri.attr) merged)
    Merged.none

/-- What an aggregate with AS set collects when it is built up. -/
def collected (s : State) (aggregate : Aggregate) (nodes : List Node) (rinew : Option Subject)
    (del : Option (Node × Nat)) : Merged :=
  if aggregate.asSet then
    match rinew.bind (Subject.attr s) with
    | some attr => (mergeBelow s nodes del).take attr
    | none => mergeBelow s nodes del
  else Merged.none

/-- The loop of `bgp_aggregate_route` over the routes below, with the count that
is left at its end. -/
def buildUp (s : State) (afi : Afi) (safi : Safi) (p : Prefix) (aggregate : Aggregate)
    (count : Int) (del : Option (Node × Nat)) : State :=
  visit (setCount s afi safi p aggregate count) (below s afi safi p)
    (fun rn ri => suppressOne aggregate (countsBut del rn ri) ri)
    fun rn ri => countsBut del rn ri && aggregate.summaryOnly

/-- `bgp_aggregate_route`, for a configured aggregate: build it up for a route
that comes, or without one that goes. -/
def bgpAggregateRoute (s : State) (afi : Afi) (safi : Safi) (p : Prefix)
    (rinew : Option Subject) (del : Option (Node × Nat)) : State × Option Subject :=
  match s.aggregates afi safi p with
  | none => (s, rinew)
  | some aggregate =>
    let nodes := below s afi safi p
    let merged := collected s aggregate nodes rinew del
    let count := aggregate.count + tally s nodes (countsBut del) + (if rinew.isSome then 1 else 0)
    let (s, rinew) := suppressSubject aggregate (buildUp s afi safi p aggregate count del) rinew
    (if count ≠ 0 then addAggregate env s safi p aggregate merged else s, rinew)

/-- The prefixes strictly above one, from the longest to the default route, which
is the way from a node of the trie to its root. -/
def above (p : Prefix) : List Prefix :=
  (List.range p.prefixlen).reverse.map fun n =>
    ⟨p.family, p.bits.take n, (List.length_take_le' n p.bits).trans p.fits⟩

/-- `bgp_aggregate_increment`. A route in hold-down counts for no aggregate. -/
def bgpAggregateIncrement (s : State) (afi : Afi) (safi : Safi) (p : Prefix) (subject : Subject) :
    State × Subject :=
  let holddown : Bool :=
    match subject with
    | .listed rn id => (s.info? rn id).all BgpInfo.holddown
    | .fresh ri => ri.holddown
  if safi = .mplsVpn ∨ p.prefixlen = 0 ∨ holddown then (s, subject)
  else
    (above p).foldl
      (fun (s, subject) outer =>
        if (s.aggregates afi safi outer).isSome then
          let (s, rinew) := bgpAggregateRoute env (bgpAggregateDelete env s afi safi outer) afi safi
            outer (some subject) none
          (s, rinew.getD subject)
        else (s, subject))
      (s, subject)

/-- `bgp_aggregate_increment` for a route of a node. -/
def aggregateIncrement (s : State) (rn : Node) (id : Nat) : State :=
  (bgpAggregateIncrement env s rn.afi rn.safi rn.p (.listed rn id)).1

/-- `bgp_aggregate_decrement`. -/
def bgpAggregateDecrement (s : State) (rn : Node) (id : Nat) : State :=
  if rn.safi = .mplsVpn ∨ rn.p.prefixlen = 0 then s
  else
    (above rn.p).foldl
      (fun s outer =>
        if (s.aggregates rn.afi rn.safi outer).isSome then
          (bgpAggregateRoute env (bgpAggregateDelete env s rn.afi rn.safi outer) rn.afi
            rn.safi outer
            none (some (rn, id))).1
        else s)
      s

/-- `bgp_aggregate_add`: as building an aggregate up for nothing, with the test of
the length that building up lacks. -/
def bgpAggregateAdd (s : State) (afi : Afi) (safi : Safi) (p : Prefix) : State :=
  if p.prefixlen = p.family.bits then s else (bgpAggregateRoute env s afi safi p none none).1

/-- `bgp_aggregate_unset`. -/
def bgpAggregateUnset (s : State) (afi : Afi) (safi : Safi) (p : Prefix) : State :=
  let s := bgpAggregateDelete env s afi safi p
  { s with
    aggregates := fun afi' safi' p' =>
      if afi' = afi ∧ safi' = safi ∧ p' = p then none else s.aggregates afi' safi' p' }

/-- `bgp_aggregate_set`: an aggregate that is there is taken away first. -/
def bgpAggregateSet (s : State) (afi : Afi) (safi : Safi) (p : Prefix)
    (summaryOnly asSet : Bool) : State :=
  let s := if (s.aggregates afi safi p).isSome then bgpAggregateUnset env s afi safi p else s
  bgpAggregateAdd env (setCount s afi safi p ⟨summaryOnly, asSet, 0⟩ 0) afi safi p

end Bgpd.Aggregation
