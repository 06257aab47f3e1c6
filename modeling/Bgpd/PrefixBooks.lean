import Bgpd.PrefixCounts

/-!
# Keeping the prefix counts

What each small step on the tables does to the counts. The routes counted for a neighbour
and its count stay together at every moment, a route in hand included. That a route is
counted just when it can be used fails for one route for a while, where its flags are
written past the count, and is made up for when a flag is next put in the right way.
-/

namespace Bgpd.PrefixBooks

open Prefixes Rib Evolution Primitives Steps PrefixCounts

variable {own : Nat}
variable (s : State) (rn : Node) (ri : BgpInfo)

/-! ## The books -/

/-- A route that is counted before its node has it. -/
structure InHand where
  rn : Node
  id : Nat
  peer : Nat
  counted : Bool

/-- What a route in hand has in a neighbour's count. -/
def inHand (hand : Option InHand) (peer : Nat) (afi : Afi) (safi : Safi) : Nat :=
  if hand.any fun hand => countsIn hand.rn afi safi && hand.peer = peer && hand.counted then 1
  else 0

/-- The books of the counts: they are right but for a route in hand, which is in the count
alone, and for loose routes, which may be counted wrongly. -/
structure Books (own : Nat) (hand : Option InHand) (loose : Node → Nat → Prop) (s : State) :
    Prop where
  sound : Sound s
  walked : s.nodes.Nodup
  reserved : ∀ route, hand = some route →
    route.id < s.nextId ∧ ∀ ri ∈ s.infos route.rn, ri.id ≠ route.id
  count : ∀ peer, peer ≠ own → ∀ afi safi,
    s.pcount peer afi safi = counted s peer afi safi + inHand hand peer afi safi
  marked : ∀ rn, rn.table.type = .main → ∀ ri ∈ s.infos rn, ri.peer ≠ own → ¬ loose rn ri.id →
    ri.flags.counted = !ri.holddown
  home : ∀ rn, rn.table.type = .main → rn.owner ≠ .main → ∀ ri ∈ s.infos rn, ri.peer = own
  steady : ∀ rn peer, .zeroCount rn peer ∉ s.log

/-- No route is loose. -/
def Tight : Node → Nat → Prop := fun _ _ => False

/-- A step that keeps the books, whatever they leave open. -/
def Keeps (own : Nat) (s s' : State) : Prop :=
  ∀ hand loose, Books own hand loose s → Books own hand loose s'

theorem Keeps.refl : Keeps own s s := fun _ _ books => books

theorem Keeps.trans {s s' s'' : State} (first : Keeps own s s') (second : Keeps own s' s'') :
    Keeps own s s'' := fun hand loose books => second hand loose (first hand loose books)

theorem Keeps.foldl {α : Type} (f : State → α → State) (items : List α)
    (each : ∀ s, ∀ item ∈ items, Keeps own s (f s item)) (s : State) :
    Keeps own s (items.foldl f s) :=
  items.foldlRecOn f (.refl s) fun _ before item member => before.trans (each _ item member)

variable {hand : Option InHand} {loose loose' : Node → Nat → Prop}

/-- More may be left open. -/
theorem Books.loosen {s : State} (books : Books own hand loose s)
    (wider : ∀ rn id, loose rn id → loose' rn id) : Books own hand loose' s :=
  { books with
    marked := fun rn main ri held other tight =>
      books.marked rn main ri held other fun within => tight (wider rn ri.id within) }

/-! ## Routes in their places -/

/-- The counting of a route does not depend on the change. -/
structure Level (ri ri' : BgpInfo) : Prop where
  id : ri'.id = ri.id
  peer : ri'.peer = ri.peer
  counted : ri'.flags.counted = ri.flags.counted
  holddown : ri'.holddown = ri.holddown

theorem Level.refl : Level ri ri := ⟨rfl, rfl, rfl, rfl⟩

theorem Level.trans {first second third : BgpInfo} (left : Level first second)
    (right : Level second third) : Level first third :=
  ⟨right.id.trans left.id, right.peer.trans left.peer, right.counted.trans left.counted,
    right.holddown.trans left.holddown⟩

/-- Flags the count does not depend on. -/
theorem level_put (flag : InfoFlag) (on : Bool) (idle : flag.usability = false)
    (other : flag ≠ .counted) : Level ri (ri.put flag on) := by
  cases flag <;> simp_all [InfoFlag.usability] <;> exact ⟨rfl, rfl, rfl, rfl⟩

theorem level_withExtra (change : InfoExtra → InfoExtra) :
    Level ri (ri.withExtra change) := ⟨rfl, rfl, rfl, rfl⟩

/-- A level change of the routes of a node keeps what is marked in it. -/
theorem marks_map (peer : Nat) (infos : List BgpInfo) (change : BgpInfo → BgpInfo)
    (level : ∀ ri ∈ infos, Level ri (change ri)) :
    marks peer (infos.map change) = marks peer infos := by
  unfold marks
  rw [List.countP_map]
  refine List.countP_congr fun ri member => ?_
  simp [(level ri member).peer, (level ri member).counted]

/-- Every node has its routes in their places, each of them level. -/
def LevelAll (s s' : State) : Prop :=
  ∀ rn, ∃ change, s'.infos rn = (s.infos rn).map change ∧ ∀ ri ∈ s.infos rn, Level ri (change ri)

/-- Where the routes stay level and nothing of them comes or goes, the books are kept. -/
theorem keeps_level {s s' : State} (level : LevelAll s s') (nodes : s'.nodes = s.nodes)
    (nextId : s'.nextId = s.nextId) (pcount : s'.pcount = s.pcount)
    (log : ∀ rn peer, .zeroCount rn peer ∈ s'.log → .zeroCount rn peer ∈ s.log) :
    Keeps own s s' := by
  intro hand loose books
  have from' : ∀ rn, ∀ ri' ∈ s'.infos rn, ∃ ri ∈ s.infos rn, Level ri ri' := by
    intro rn ri' held
    obtain ⟨change, same, each⟩ := level rn
    rw [same] at held
    obtain ⟨ri, before, rfl⟩ := List.mem_map.mp held
    exact ⟨ri, before, each ri before⟩
  refine ⟨⟨?_, ?_, ?_⟩, ?_, ?_, ?_, ?_, ?_, ?_⟩
  · intro rn ri' held
    obtain ⟨ri, before, same⟩ := from' rn ri' held
    rw [same.id, nextId]
    exact books.sound.bounded rn ri before
  · intro rn
    obtain ⟨change, same, each⟩ := level rn
    have ids : (s'.infos rn).map BgpInfo.id = (s.infos rn).map BgpInfo.id := by
      rw [same, List.map_map]
      exact List.map_congr_left fun ri member => (each ri member).id
    rw [ids]
    exact books.sound.distinct rn
  · intro rn holds
    obtain ⟨change, same, -⟩ := level rn
    rw [nodes]
    refine books.sound.listed rn fun none => holds ?_
    rw [same, none, List.map_nil]
  · rw [nodes]
    exact books.walked
  · intro route held
    obtain ⟨issued, unused⟩ := books.reserved route held
    refine ⟨nextId ▸ issued, fun ri' member => ?_⟩
    obtain ⟨ri, before, same⟩ := from' route.rn ri' member
    rw [same.id]
    exact unused ri before
  · intro peer other afi safi
    have stays : counted s' peer afi safi = counted s peer afi safi := by
      unfold counted
      rw [nodes]
      refine congrArg List.sum (List.map_congr_left fun rn _ => ?_)
      obtain ⟨change, same, each⟩ := level rn
      unfold nodeCount
      rw [same, marks_map peer _ change each]
    rw [pcount, stays]
    exact books.count peer other afi safi
  · intro rn main ri' held other tight
    obtain ⟨ri, before, same⟩ := from' rn ri' held
    rw [same.counted, same.holddown]
    rw [same.peer] at other
    rw [same.id] at tight
    exact books.marked rn main ri before other tight
  · intro rn main client ri' held
    obtain ⟨ri, before, same⟩ := from' rn ri' held
    exact same.peer.trans (books.home rn main client ri before)
  · exact fun rn peer warned => books.steady rn peer (log rn peer warned)

/-- The same where the routes do not change at all. -/
theorem keeps_infos {s s' : State} (infos : s'.infos = s.infos) (nodes : s'.nodes = s.nodes)
    (nextId : s'.nextId = s.nextId) (pcount : s'.pcount = s.pcount)
    (log : ∀ rn peer, .zeroCount rn peer ∈ s'.log → .zeroCount rn peer ∈ s.log) : Keeps own s s' :=
  keeps_level (fun rn => ⟨fun ri => ri, by rw [infos, List.map_id'], fun ri _ => .refl ri⟩) nodes
    nextId pcount log

/-- A level change of the routes under a name. -/
theorem modify_keeps (s : State) (rn : Node) (id : Nat) (change : BgpInfo → BgpInfo)
    (level : ∀ ri ∈ s.infos rn, ri.id = id → Level ri (change ri)) :
    Keeps own s (s.modify rn id change) := by
  refine keeps_level (fun other => ?_) rfl rfl rfl fun _ _ => (fun warned => warned)
  by_cases here : other = rn
  · subst here
    refine ⟨fun ri => if ri.id = id then change ri else ri, ?_, fun ri member => ?_⟩
    · simp only [State.modify, replace_same]
    · dsimp only
      split
      · rename_i named
        exact level ri member named
      · exact .refl ri
  · refine ⟨fun ri => ri, ?_, fun ri _ => .refl ri⟩
    rw [modify_apart s rn id change other here, List.map_id']

theorem bgpProcess_keeps : Keeps own s (bgpProcess s rn) := by
  refine keeps_infos (by simp) (by simp) (by simp) ?_ ?_
  · unfold bgpProcess
    split <;> rfl
  · unfold bgpProcess
    split <;> exact fun _ _ warned => warned

/-! ## Nodes -/

theorem placeNode_perm (nodes : List Node) : (placeNode rn nodes).Perm (rn :: nodes) := by
  induction nodes with
  | nil => exact .refl _
  | cons first later ih =>
    unfold placeNode
    split
    · exact .refl _
    · exact (ih.cons first).trans (.swap rn first later)

/-- A node that was not there has no route. -/
theorem bgpNodeGet_keeps : Keeps own s (bgpNodeGet s rn) := by
  intro hand loose books
  unfold bgpNodeGet
  split
  · exact books
  · rename_i absent
    have bare : s.infos rn = [] := by
      by_contra holds
      exact absent (books.sound.listed rn holds)
    have placed := placeNode_perm rn s.nodes
    refine { books with sound := { books.sound with listed := ?_ }, walked := ?_, count := ?_ }
    · exact fun other holds =>
        placed.mem_iff.mpr (List.mem_cons_of_mem _ (books.sound.listed other holds))
    · exact placed.nodup_iff.mpr (List.nodup_cons.mpr ⟨absent, books.walked⟩)
    · intro peer other afi safi
      have nothing : nodeCount s peer afi safi rn = 0 := by
        unfold nodeCount
        rw [bare]
        split <;> rfl
      have same : counted { s with nodes := placeNode rn s.nodes } peer afi safi =
          counted s peer afi safi := by
        calc ((placeNode rn s.nodes).map (nodeCount s peer afi safi)).sum
            = ((rn :: s.nodes).map (nodeCount s peer afi safi)).sum := (placed.map _).sum_eq
          _ = (s.nodes.map (nodeCount s peer afi safi)).sum := by
            rw [List.map_cons, List.sum_cons, nothing, Nat.zero_add]
      rw [same]
      exact books.count peer other afi safi

/-! ## One route -/

/-- A route of a node as it counts in a list. -/
theorem countP_changed {infos : List BgpInfo} {ri : BgpInfo} (counts : BgpInfo → Bool)
    (change : BgpInfo → BgpInfo) (distinct : (infos.map BgpInfo.id).Nodup) (held : ri ∈ infos) :
    (changed infos ri.id change).countP counts + (if counts ri then 1 else 0) =
      infos.countP counts + (if counts (change ri) then 1 else 0) := by
  induction infos with
  | nil => exact absurd held List.not_mem_nil
  | cons first later ih =>
    rw [List.map_cons, List.nodup_cons] at distinct
    unfold changed at ih ⊢
    rw [List.map_cons, List.countP_cons, List.countP_cons]
    rcases List.mem_cons.mp held with rfl | inLater
    · have same :
          (later.map fun other => if other.id = ri.id then change other else other) = later := by
        conv_rhs => rw [← List.map_id later]
        refine List.map_congr_left fun other member => if_neg fun again => distinct.1 ?_
        exact again ▸ List.mem_map_of_mem member
      rw [same, if_pos rfl]
      omega
    · have apart : first.id ≠ ri.id := fun again => distinct.1 (again ▸ List.mem_map_of_mem inLater)
      have rest := ih distinct.2 inLater
      rw [if_neg apart]
      omega

theorem share_eq (peer : Nat) (afi : Afi) (safi : Safi) :
    share rn ri peer afi safi =
      if countsIn rn afi safi then (if ri.peer = peer ∧ ri.flags.counted then 1 else 0) else 0 := by
  unfold share
  split_ifs <;> simp_all

/-- What the tables have in a count changes with a route as that route does. -/
theorem counted_swap {s s' : State} (sound : Sound s) (walked : s.nodes.Nodup) {rn : Node}
    {ri : BgpInfo} (change : BgpInfo → BgpInfo) (held : ri ∈ s.infos rn)
    (infos : s'.infos = replace s.infos rn (changed (s.infos rn) ri.id change))
    (nodes : s'.nodes = s.nodes) (peer : Nat) (afi : Afi) (safi : Safi) :
    counted s' peer afi safi + share rn ri peer afi safi =
      counted s peer afi safi + share rn (change ri) peer afi safi := by
  have present : rn ∈ s.nodes := sound.listed rn (List.ne_nil_of_mem held)
  have whole : counted s' peer afi safi + nodeCount s peer afi safi rn =
      counted s peer afi safi + nodeCount s' peer afi safi rn := by
    unfold counted
    rw [nodes]
    refine sum_change walked present fun other _ apart => ?_
    unfold nodeCount
    rw [infos, replace_ne _ _ _ _ apart]
  have here : nodeCount s' peer afi safi rn + share rn ri peer afi safi =
      nodeCount s peer afi safi rn + share rn (change ri) peer afi safi := by
    unfold nodeCount marks
    rw [share_eq, share_eq, infos, replace_same]
    split
    · have one := countP_changed (fun ri => decide (ri.peer = peer ∧ ri.flags.counted)) change
        (sound.distinct rn) held
      simpa using one
    · rfl
  omega

/-- What a route of a node has in a count is in what the tables have. -/
theorem share_le_counted {s : State} (sound : Sound s) {rn : Node} {ri : BgpInfo}
    (held : ri ∈ s.infos rn) (peer : Nat) (afi : Afi) (safi : Safi) :
    share rn ri peer afi safi ≤ counted s peer afi safi := by
  have present : rn ∈ s.nodes := sound.listed rn (List.ne_nil_of_mem held)
  refine le_trans ?_ (le_sum present)
  rw [share_eq]
  unfold nodeCount marks
  split
  · split
    · rename_i mine
      exact List.countP_pos_iff.mpr ⟨ri, held, by simpa using mine⟩
    · exact Nat.zero_le _
  · exact le_refl _

/-! ## Counting a route -/

/-- A route is put in order with its count. -/
structure Adjusts (own : Nat) (rn : Node) (s : State) (ri : BgpInfo) (s' : State) (ri' : BgpInfo) :
    Prop where
  frame : ∃ pcount log, s' = { s with pcount, log }
  route : ∃ on, ri' = ri.put .counted on
  count : ∀ peer, peer ≠ own → ∀ afi safi,
    s'.pcount peer afi safi + share rn ri peer afi safi =
      s.pcount peer afi safi + share rn ri' peer afi safi
  marked : rn.table.type = .main → ri.peer ≠ own → ri'.flags.counted = !ri'.holddown
  steady : ∀ rn' peer, .zeroCount rn' peer ∈ s'.log → .zeroCount rn' peer ∈ s.log

theorem countsIn_table (main : rn.table.type = .main) (afi : Afi) (safi : Safi) :
    countsIn rn afi safi = decide (afi = rn.table.afi ∧ safi = rn.table.safi) := by
  have family : rn.table.afi = rn.afi ∧ rn.table.safi = rn.safi := by
    unfold Node.table
    split <;> exact ⟨rfl, rfl⟩
  unfold countsIn
  rw [family.1, family.2, main]
  simp [eq_comm]

variable {env : Env} (self : env.self = own)

include self

/-- A route that is in its count, if it is counted, is adjusted without a warning. -/
theorem bgpPcountAdjust_adjusts (s : State) (rn : Node) (ri : BgpInfo)
    (within : ∀ peer, peer ≠ own → ∀ afi safi,
      share rn ri peer afi safi ≤ s.pcount peer afi safi) :
    Adjusts own rn s ri (bgpPcountAdjust env s rn ri).1 (bgpPcountAdjust env s rn ri).2 := by
  subst self
  unfold bgpPcountAdjust
  by_cases idle : rn.table.type ≠ .main ∨ ri.peer = env.self
  · rw [if_pos idle]
    exact ⟨⟨_, _, rfl⟩, ⟨ri.flags.counted, rfl⟩, fun _ _ _ _ => rfl,
      fun main other => (idle.elim (fun client => client main) other).elim,
        fun _ _ warned => warned⟩
  · rw [if_neg idle]
    push Not at idle
    obtain ⟨main, other⟩ := idle
    have family := countsIn_table rn main
    by_cases out : ri.holddown ∧ ri.flags.counted
    · have positive : s.pcount ri.peer rn.table.afi rn.table.safi ≠ 0 := by
        have one := within ri.peer other rn.table.afi rn.table.safi
        simp only [share, family, out.2, and_self, decide_true, if_true] at one
        omega
      rw [if_pos out, if_pos positive]
      refine ⟨⟨_, _, rfl⟩, ⟨false, rfl⟩, fun peer _ afi safi => ?_, fun _ _ => ?_, ?_⟩
      · by_cases mine : peer = ri.peer ∧ afi = rn.table.afi ∧ safi = rn.table.safi
        · obtain ⟨rfl, rfl, rfl⟩ := mine
          simp only [share, family, replaceAf, out.2, and_self, decide_true, if_true, BgpInfo.put,
            InfoFlags.put, Bool.false_eq_true, and_false, if_false]
          omega
        · simp only [share, family, replaceAf, mine, if_false, BgpInfo.put, InfoFlags.put,
            Bool.false_eq_true, and_false, decide_eq_true_eq]
          rw [if_neg fun ⟨here, same, _⟩ => mine ⟨same.symm, here⟩]
      · change false = !ri.holddown
        simp [out.1]
      · intro rn' peer warned
        simpa using warned
    · rw [if_neg out]
      by_cases into : (!ri.holddown) = true ∧ (!ri.flags.counted) = true
      · rw [if_pos into]
        refine ⟨⟨_, _, rfl⟩, ⟨true, rfl⟩, fun peer _ afi safi => ?_, fun _ _ => ?_, ?_⟩
        · have uncounted : ri.flags.counted = false := by simpa using into.2
          by_cases mine : peer = ri.peer ∧ afi = rn.table.afi ∧ safi = rn.table.safi
          · obtain ⟨rfl, rfl, rfl⟩ := mine
            simp [share, family, replaceAf, uncounted, BgpInfo.put, InfoFlags.put]
          · simp only [share, family, replaceAf, mine, if_false, BgpInfo.put, InfoFlags.put,
              uncounted,
              Bool.false_eq_true, and_false, decide_eq_true_eq]
            rw [if_neg fun ⟨here, same, _⟩ => mine ⟨same.symm, here⟩]
        · change true = !ri.holddown
          simpa using into.1
        · intro rn' peer warned
          simpa using warned
      · rw [if_neg into]
        refine ⟨⟨_, _, rfl⟩, ⟨ri.flags.counted, rfl⟩, fun _ _ _ _ => rfl, fun _ _ => ?_,
          fun _ _ warned => warned⟩
        cases marked : ri.flags.counted <;> cases held : ri.holddown <;> simp_all

omit self in
/-- A route that takes another's place in its node, with its count. -/
theorem Books.swap {s s' : State} (books : Books own hand loose s) {rn : Node} {ri : BgpInfo}
    (change : BgpInfo → BgpInfo) (held : ri ∈ s.infos rn) (named : (change ri).id = ri.id)
    (peer : (change ri).peer = ri.peer)
    (infos : s'.infos = replace s.infos rn (changed (s.infos rn) ri.id change))
    (nodes : s'.nodes = s.nodes) (nextId : s'.nextId = s.nextId)
    (count : ∀ peer, peer ≠ own → ∀ afi safi,
      s'.pcount peer afi safi + share rn ri peer afi safi =
        s.pcount peer afi safi + share rn (change ri) peer afi safi)
    (marked : rn.table.type = .main → ri.peer ≠ own → ¬ loose' rn ri.id →
      (change ri).flags.counted = !(change ri).holddown)
    (others : ∀ rn' id, loose rn' id → ¬ Only rn ri.id rn' id → loose' rn' id)
    (steady : ∀ rn' peer, .zeroCount rn' peer ∈ s'.log → .zeroCount rn' peer ∈ s.log) :
    Books own hand loose' s' := by
  have from' : ∀ rn', ∀ ri' ∈ s'.infos rn', (rn' = rn ∧ ri' = change ri) ∨
      ri' ∈ s.infos rn' ∧ ¬ Only rn ri.id rn' ri'.id := by
    intro rn' ri' member
    rw [infos] at member
    by_cases here : rn' = rn
    · subst here
      rw [replace_same] at member
      obtain ⟨before, inside, rfl⟩ := List.mem_map.mp member
      by_cases same : before.id = ri.id
      · obtain rfl := books.sound.unique held inside same
        exact Or.inl ⟨rfl, if_pos rfl⟩
      · rw [if_neg same]
        exact Or.inr ⟨inside, fun only => same only.2⟩
    · rw [replace_ne _ _ _ _ here] at member
      exact Or.inr ⟨member, fun only => here only.1⟩
  have ids : ∀ rn', (s'.infos rn').map BgpInfo.id = (s.infos rn').map BgpInfo.id := by
    intro rn'
    rw [infos]
    by_cases here : rn' = rn
    · subst here
      rw [replace_same]
      unfold changed
      rw [List.map_map]
      refine List.map_congr_left fun before inside => ?_
      simp only [Function.comp_apply]
      split
      · rename_i same
        rw [books.sound.unique held inside same, named]
      · rfl
    · rw [replace_ne _ _ _ _ here]
  refine ⟨⟨?_, ?_, ?_⟩, ?_, ?_, ?_, ?_, ?_, ?_⟩
  · intro rn' ri' member
    rw [nextId]
    rcases from' rn' ri' member with ⟨rfl, rfl⟩ | ⟨inside, -⟩
    · rw [named]
      exact books.sound.bounded rn' ri held
    · exact books.sound.bounded rn' ri' inside
  · intro rn'
    rw [ids]
    exact books.sound.distinct rn'
  · intro rn' holds
    rw [nodes]
    refine books.sound.listed rn' fun none => holds ?_
    have bare := ids rn'
    rw [none] at bare
    exact List.map_eq_nil_iff.mp bare
  · rw [nodes]
    exact books.walked
  · intro route reserved
    obtain ⟨issued, unused⟩ := books.reserved route reserved
    refine ⟨nextId ▸ issued, fun ri' member => ?_⟩
    rcases from' route.rn ri' member with ⟨here, rfl⟩ | ⟨inside, -⟩
    · rw [named]
      exact unused ri (here ▸ held)
    · exact unused ri' inside
  · intro peer other afi safi
    have tables := counted_swap books.sound books.walked change held infos nodes peer afi safi
    have kept := count peer other afi safi
    have before := books.count peer other afi safi
    omega
  · intro rn' main ri' member other tight
    rcases from' rn' ri' member with ⟨rfl, rfl⟩ | ⟨inside, apart⟩
    · rw [named] at tight
      rw [peer] at other
      exact marked main other tight
    · exact books.marked rn' main ri' inside other fun within =>
        tight (others rn' ri'.id within apart)
  · intro rn' main client ri' member
    rcases from' rn' ri' member with ⟨rfl, rfl⟩ | ⟨inside, -⟩
    · exact peer.trans (books.home rn' main client ri held)
    · exact books.home rn' main client ri' inside
  · exact fun rn' peer warned => books.steady rn' peer (steady rn' peer warned)

/-! ## Flags -/

omit self in
theorem share_put (rn : Node) (ri : BgpInfo) (flag : InfoFlag) (on : Bool) (other : flag ≠ .counted)
    (peer : Nat) (afi : Afi) (safi : Safi) :
    share rn (ri.put flag on) peer afi safi = share rn ri peer afi safi := by
  cases flag <;> first | rfl | exact absurd rfl other

omit self in
/-- A route of a node that counts is in its count. -/
theorem Books.within {s : State} (books : Books own hand loose s) {rn : Node} {ri : BgpInfo}
    (held : ri ∈ s.infos rn) :
    ∀ peer, peer ≠ own → ∀ afi safi, share rn ri peer afi safi ≤ s.pcount peer afi safi := by
  intro peer other afi safi
  have tables := share_le_counted books.sound held peer afi safi
  have count := books.count peer other afi safi
  omega

/-- A flag that usability depends on is put with the count, and the route is in order
afterwards, even if it was loose. -/
theorem putFlag_settles {s : State} (books : Books own hand loose s) (rn : Node) (id : Nat)
    (flag : InfoFlag) (on : Bool) (usability : flag.usability = true)
    (others : ∀ rn' id', loose rn' id' → ¬ Only rn id rn' id' → loose' rn' id') :
    Books own hand loose' (bgpInfoPutFlag env s rn id flag on) := by
  have infos := bgpInfoPutFlag_infos env s rn id flag on
  obtain ⟨nodes, -, -, -, nextId, -⟩ := bgpInfoPutFlag_fields env s rn id flag on
  rcases found : s.info? rn id with _ | ri
  · have same : bgpInfoPutFlag env s rn id flag on = s := by
      unfold bgpInfoPutFlag
      rw [found]
    have absent : ∀ ri ∈ s.infos rn, ri.id ≠ id := by
      intro ri held
      simpa using List.find?_eq_none.mp found ri held
    rw [same]
    refine { books with marked := fun rn' main ri held other tight => ?_ }
    refine books.marked rn' main ri held other fun within => tight (others rn' ri.id within ?_)
    rintro ⟨rfl, named⟩
    exact absent ri held named
  · obtain ⟨held, rfl⟩ := info?_mem found
    have other : flag ≠ .counted := by
      rintro rfl
      exact absurd usability Bool.false_ne_true
    have adjusts := bgpPcountAdjust_adjusts self s rn (ri.put flag on) fun peer apart afi safi => by
      rw [share_put rn ri flag on other]
      exact books.within held peer apart afi safi
    have put : bgpInfoPut env s rn ri flag on = bgpPcountAdjust env s rn (ri.put flag on) :=
      if_pos usability
    have whole : bgpInfoPutFlag env s rn ri.id flag on =
        (bgpInfoPut env s rn ri flag on).1.modify rn ri.id fun ri =>
          (bgpInfoPut env s rn ri flag on).2 := by
      unfold bgpInfoPutFlag
      rw [found]
    obtain ⟨⟨pcount, log, frame⟩, ⟨counted, route⟩, count, marked, steady⟩ := adjusts
    rw [← put] at frame route count marked steady
    refine books.swap (fun ri => (bgpInfoPut env s rn ri flag on).2) held ?_ ?_ infos nodes nextId
      ?_ ?_ others ?_
    · rw [route]
      rfl
    · rw [route]
      rfl
    · intro peer apart afi safi
      have kept := count peer apart afi safi
      rw [share_put rn ri flag on other] at kept
      rw [whole]
      exact kept
    · exact fun main apart _ => marked main apart
    · rw [whole]
      exact steady

/-- Setting or clearing a flag keeps the books. -/
theorem putFlag_keeps (s : State) (rn : Node) (id : Nat) (flag : InfoFlag) (on : Bool)
    (other : flag ≠ .counted) : Keeps own s (bgpInfoPutFlag env s rn id flag on) := by
  cases usability : flag.usability with
  | true =>
    exact fun hand loose books => putFlag_settles self books rn id flag on usability
      fun _ _ within _ => within
  | false =>
    unfold bgpInfoPutFlag
    split
    · exact .refl s
    · rename_i ri found
      have put : ∀ ri', bgpInfoPut env s rn ri' flag on = (s, ri'.put flag on) := by
        intro ri'
        unfold bgpInfoPut
        rw [if_neg (by rw [usability]; exact Bool.false_ne_true)]
      rw [put ri]
      refine modify_keeps s rn id _ fun ri' _ _ => ?_
      rw [put ri']
      exact level_put ri' flag on usability other

theorem bgpInfoDelete_keeps (s : State) (rn : Node) (id : Nat) :
    Keeps own s (bgpInfoDelete env s rn id) := by
  refine (putFlag_keeps self s rn id .removed true nofun).trans
    (modify_keeps _ rn id _ fun ri member named => ?_)
  -- The route is in hold-down by its removal, whatever the flag says that is written.
  obtain ⟨before, -, -, counted, rfl⟩ :=
    bgpInfoPutFlag_routes env s rn id .removed true member named
  refine ⟨rfl, rfl, rfl, ?_⟩
  simp [BgpInfo.holddown, BgpInfo.put, InfoFlags.put]

/-- A route that is restored is valid but not counted. -/
theorem bgpInfoRestore_loosens {s : State} (books : Books own hand loose s) (rn : Node) (id : Nat)
    (wider : ∀ rn id, loose rn id → loose' rn id)
    (open' : rn.table.type = .main → ∀ ri ∈ s.infos rn, ri.id = id → ri.peer ≠ own → loose' rn id) :
    Books own hand loose' (bgpInfoRestore env s rn id) := by
  have present := putFlag_keeps self s rn id .removed false nofun hand loose books
  have routes := @bgpInfoPutFlag_routes env s rn id .removed false
  change Books own hand loose' ((bgpInfoPutFlag env s rn id .removed false).modify rn id _)
  generalize bgpInfoPutFlag env s rn id .removed false = s₁ at present routes ⊢
  by_cases any : ∃ ri ∈ s₁.infos rn, ri.id = id
  · obtain ⟨ri, held, rfl⟩ := any
    refine present.swap (·.put .valid true) held rfl rfl rfl rfl rfl ?_ ?_ ?_ fun _ _ warned =>
      warned
    · intro peer _ afi safi
      rw [share_put rn ri .valid true nofun]
      rfl
    · intro main other tight
      obtain ⟨before, inside, named, counted, same⟩ := routes held rfl
      refine absurd (open' main before inside named fun own' => other ?_) tight
      rw [same]
      exact own'
    · exact fun rn' id' within _ => wider rn' id' within
  · push Not at any
    have kept := @modify_keeps own s₁ rn id (·.put .valid true) fun ri held named =>
      absurd named (any ri held)
    exact (kept hand loose present).loosen wider

/-! ## New routes -/

omit self in
/-- An address is taken. -/
theorem issue_keeps (s : State) : Keeps own s { s with nextId := s.nextId + 1 } := by
  intro hand loose books
  refine { books with sound := { books.sound with bounded := ?_ }, reserved := ?_ }
  · exact fun rn ri held => Nat.lt_succ_of_lt (books.sound.bounded rn ri held)
  · intro route held
    exact ⟨Nat.lt_succ_of_lt (books.reserved route held).1, (books.reserved route held).2⟩

omit self in
/-- A new route is in hand under the address that is taken for it. -/
theorem issue_books {s : State} (books : Books own none loose s) (rn : Node) (peer : Nat) :
    Books own (some ⟨rn, s.nextId, peer, false⟩) loose { s with nextId := s.nextId + 1 } := by
  have issued := issue_keeps s none loose books
  refine { issued with reserved := ?_, count := ?_ }
  · rintro _ ⟨⟩
    exact ⟨Nat.lt_succ_self _, fun ri held => (books.sound.bounded rn ri held).ne⟩
  · intro peer' other afi safi
    have count := issued.count peer' other afi safi
    simpa [inHand] using count

/-- The route in hand as the books see it. -/
def handOf (rn : Node) (ri : BgpInfo) : Option InHand := some ⟨rn, ri.id, ri.peer, ri.flags.counted⟩

omit self in
theorem inHand_handOf (rn : Node) (ri : BgpInfo) (peer : Nat) (afi : Afi) (safi : Safi) :
    inHand (handOf rn ri) peer afi safi = share rn ri peer afi safi := by
  unfold inHand handOf share
  simp [and_assoc]

omit self in
theorem Level.handOf {ri ri' : BgpInfo} (level : Level ri ri') (rn : Node) :
    handOf rn ri' = PrefixBooks.handOf rn ri := by
  unfold PrefixBooks.handOf
  rw [level.id, level.peer, level.counted]

/-- A flag that usability depends on is put with the count of a route in hand. -/
theorem bgpInfoPut_books {s : State} {rn : Node} {ri : BgpInfo}
    (books : Books own (handOf rn ri) loose s) (flag : InfoFlag) (on : Bool)
    (usability : flag.usability = true) :
    Books own (handOf rn (bgpInfoPut env s rn ri flag on).2) loose
    (bgpInfoPut env s rn ri flag on).1 ∧
      (bgpInfoPut env s rn ri flag on).2.peer = ri.peer ∧
      (bgpInfoPut env s rn ri flag on).2.id = ri.id ∧
      (rn.table.type = .main → ri.peer ≠ own →
        (bgpInfoPut env s rn ri flag on).2.flags.counted =
          !(bgpInfoPut env s rn ri flag on).2.holddown) := by
  have other : flag ≠ .counted := by
    rintro rfl
    exact absurd usability Bool.false_ne_true
  have within : ∀ peer, peer ≠ own → ∀ afi safi,
      share rn (ri.put flag on) peer afi safi ≤ s.pcount peer afi safi := by
    intro peer apart afi safi
    have count := books.count peer apart afi safi
    rw [inHand_handOf] at count
    rw [share_put rn ri flag on other]
    omega
  have put : bgpInfoPut env s rn ri flag on = bgpPcountAdjust env s rn (ri.put flag on) :=
    if_pos usability
  have adjusts := bgpPcountAdjust_adjusts self s rn (ri.put flag on) within
  rw [put]
  generalize bgpPcountAdjust env s rn (ri.put flag on) = adjusted at adjusts ⊢
  obtain ⟨s', ri'⟩ := adjusted
  obtain ⟨⟨pcount, log, frame⟩, ⟨counted, route⟩, count, marked, steady⟩ := adjusts
  subst frame route
  refine ⟨⟨⟨books.sound.bounded, books.sound.distinct, books.sound.listed⟩, books.walked, ?_, ?_,
    books.marked, books.home, ?_⟩, rfl, rfl, marked⟩
  · rintro _ ⟨⟩
    exact books.reserved ⟨rn, ri.id, ri.peer, ri.flags.counted⟩ rfl
  · intro peer apart afi safi
    have kept := count peer apart afi safi
    have before := books.count peer apart afi safi
    rw [share_put rn ri flag on other] at kept
    rw [inHand_handOf] at before ⊢
    change pcount peer afi safi + _ = _ at kept
    change pcount peer afi safi = PrefixCounts.counted s peer afi safi + _
    omega
  · exact fun rn' peer warned => books.steady rn' peer (steady rn' peer warned)

omit self in
/-- A route comes into its node: the one in hand, or one that nobody counts. -/
theorem Books.add {hand' : Option InHand} {s : State} (books : Books own hand loose s) (rn : Node)
    (ri : BgpInfo) (present : rn ∈ s.nodes) (issued : ri.id < s.nextId)
    (unused : ∀ other ∈ s.infos rn, other.id ≠ ri.id)
    (left : ∀ route, hand' = some route → hand = some route ∧ route.id ≠ ri.id)
    (moves : ∀ peer, peer ≠ own → ∀ afi safi,
      inHand hand peer afi safi = share rn ri peer afi safi + inHand hand' peer afi safi)
    (marked : rn.table.type = .main → ri.peer ≠ own → ri.flags.counted = !ri.holddown)
    (home : rn.table.type = .main → rn.owner ≠ .main → ri.peer = own) :
    Books own hand' loose (bgpInfoAdd s rn ri) := by
  have from' : ∀ rn', ∀ ri' ∈ (bgpInfoAdd s rn ri).infos rn', (rn' = rn ∧ ri' = ri) ∨
      ri' ∈ s.infos rn' := by
    intro rn' ri' member
    by_cases here : rn' = rn
    · subst here
      simp only [bgpInfoAdd, replace_same] at member
      exact (List.mem_cons.mp member).imp_left fun same => ⟨rfl, same⟩
    · simp only [bgpInfoAdd, replace_ne _ _ _ _ here] at member
      exact Or.inr member
  refine ⟨⟨?_, ?_, ?_⟩, books.walked, ?_, ?_, ?_, ?_, books.steady⟩
  · intro rn' ri' member
    rcases from' rn' ri' member with ⟨rfl, rfl⟩ | inside
    · exact issued
    · exact books.sound.bounded rn' ri' inside
  · intro rn'
    by_cases here : rn' = rn
    · subst here
      simp only [bgpInfoAdd, replace_same, List.map_cons, List.nodup_cons]
      refine ⟨fun again => ?_, books.sound.distinct rn'⟩
      obtain ⟨other, inside, same⟩ := List.mem_map.mp again
      exact unused other inside same
    · simp only [bgpInfoAdd, replace_ne _ _ _ _ here]
      exact books.sound.distinct rn'
  · intro rn' holds
    by_cases here : rn' = rn
    · exact here ▸ present
    · simp only [bgpInfoAdd, replace_ne _ _ _ _ here] at holds
      exact books.sound.listed rn' holds
  · intro route reserved
    obtain ⟨before, apart⟩ := left route reserved
    obtain ⟨taken, free⟩ := books.reserved route before
    refine ⟨taken, fun ri' member => ?_⟩
    rcases from' route.rn ri' member with ⟨-, rfl⟩ | inside
    · exact Ne.symm apart
    · exact free ri' inside
  · intro peer other afi safi
    have whole : counted (bgpInfoAdd s rn ri) peer afi safi + nodeCount s peer afi safi rn =
        counted s peer afi safi + nodeCount (bgpInfoAdd s rn ri) peer afi safi rn := by
      refine sum_change books.walked present fun other' _ apart => ?_
      unfold nodeCount
      simp only [bgpInfoAdd, replace_ne _ _ _ _ apart]
    have here : nodeCount (bgpInfoAdd s rn ri) peer afi safi rn =
        nodeCount s peer afi safi rn + share rn ri peer afi safi := by
      unfold nodeCount marks
      rw [share_eq]
      simp only [bgpInfoAdd, replace_same, List.countP_cons]
      split
      · simp
      · rfl
    have before := books.count peer other afi safi
    have moved := moves peer other afi safi
    change s.pcount peer afi safi = _
    omega
  · intro rn' main ri' member other tight
    rcases from' rn' ri' member with ⟨rfl, rfl⟩ | inside
    · exact marked main other
    · exact books.marked rn' main ri' inside other tight
  · intro rn' main client ri' member
    rcases from' rn' ri' member with ⟨rfl, rfl⟩ | inside
    · exact home main client
    · exact books.home rn' main client ri' inside

/-! ## Routes that go -/

omit self in
/-- Routes of a node go that nobody counts, and the others stay level. -/
theorem Books.thin {s : State} (books : Books own hand loose s) (rn : Node) (infos' : List BgpInfo)
    (names : (infos'.map BgpInfo.id).Sublist ((s.infos rn).map BgpInfo.id))
    (origin : ∀ ri' ∈ infos', ∃ ri ∈ s.infos rn, Level ri ri')
    (kept : rn.table.type = .main → ∀ peer, peer ≠ own →
      marks peer infos' = marks peer (s.infos rn)) :
    Books own hand loose { s with infos := replace s.infos rn infos' } := by
  have from' : ∀ rn', ∀ ri' ∈ replace s.infos rn infos' rn', ∃ ri ∈ s.infos rn', Level ri ri' := by
    intro rn' ri' member
    by_cases here : rn' = rn
    · subst here
      rw [replace_same] at member
      exact origin ri' member
    · rw [replace_ne _ _ _ _ here] at member
      exact ⟨ri', member, .refl ri'⟩
  refine ⟨⟨?_, ?_, ?_⟩, books.walked, ?_, ?_, ?_, ?_, books.steady⟩
  · intro rn' ri' member
    obtain ⟨ri, inside, same⟩ := from' rn' ri' member
    rw [same.id]
    exact books.sound.bounded rn' ri inside
  · intro rn'
    by_cases here : rn' = rn
    · subst here
      simp only [replace_same]
      exact names.nodup (books.sound.distinct rn')
    · simp only [replace_ne _ _ _ _ here]
      exact books.sound.distinct rn'
  · intro rn' holds
    obtain ⟨ri', member⟩ := List.exists_mem_of_ne_nil _ holds
    obtain ⟨ri, inside, -⟩ := from' rn' ri' member
    exact books.sound.listed rn' (List.ne_nil_of_mem inside)
  · intro route reserved
    obtain ⟨issued, unused⟩ := books.reserved route reserved
    refine ⟨issued, fun ri' member => ?_⟩
    obtain ⟨ri, inside, same⟩ := from' route.rn ri' member
    rw [same.id]
    exact unused ri inside
  · intro peer other afi safi
    have same : counted { s with infos := replace s.infos rn infos' } peer afi safi =
        counted s peer afi safi := by
      refine congrArg List.sum (List.map_congr_left fun rn' _ => ?_)
      unfold nodeCount
      dsimp only
      by_cases here : rn' = rn
      · subst here
        rw [replace_same]
        split
        · rename_i counts
          exact kept (by simpa [countsIn] using (of_decide_eq_true counts).1) peer other
        · rfl
      · rw [replace_ne _ _ _ _ here]
    rw [same]
    exact books.count peer other afi safi
  · intro rn' main ri' member other tight
    obtain ⟨ri, inside, same⟩ := from' rn' ri' member
    rw [same.counted, same.holddown]
    exact books.marked rn' main ri inside (same.peer ▸ other) (same.id ▸ tight)
  · intro rn' main client ri' member
    obtain ⟨ri, inside, same⟩ := from' rn' ri' member
    exact same.peer.trans (books.home rn' main client ri inside)

omit self in
/-- A removed route is taken out. -/
theorem bgpInfoReap_books {s : State} (books : Books own none Tight s) (rn : Node) (id : Nat)
    (removed : ∀ ri ∈ s.infos rn, ri.id = id → ri.flags.removed = true) :
    Books own none Tight (bgpInfoReap s rn id) := by
  refine books.thin rn _ ((List.filter_sublist).map _) ?_ ?_
  · exact fun ri member => ⟨ri, List.mem_of_mem_filter member, .refl ri⟩
  · intro main peer other
    unfold marks
    rw [List.countP_filter]
    refine List.countP_congr fun ri member => ?_
    have unmarked : ri.id = id → ri.peer = peer → ri.flags.counted = false := by
      intro named mine
      rw [books.marked rn main ri member (mine ▸ other) fun loose => loose]
      simp [BgpInfo.holddown, removed ri member named]
    simp only [Bool.and_eq_true, decide_eq_true_eq, ne_eq]
    constructor
    · exact fun both => both.1
    · refine fun both => ⟨both, fun named => ?_⟩
      rw [unmarked named both.1] at both
      exact Bool.false_ne_true both.2

end Bgpd.PrefixBooks
