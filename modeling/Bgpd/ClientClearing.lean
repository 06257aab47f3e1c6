import Bgpd.AdjOut
import Bgpd.PrefixCounts
import Bgpd.SingleSelection

/-!
# Clearing a client's own table

One walk serves two purposes. When a session goes down it takes the neighbour's own entry
out of each node of the tables; when a neighbour is no longer a client of the route server
it is to take everything out of the client's table. In both the loops stop at the first
entry that matches, so that for the second purpose one route of a node is queued to be
removed, one `adj_in` and one `adj_out` entry go, and nodes without routes are passed by.
A walk over a client's VPN table takes the nested tables for routes.
-/

namespace Bgpd.ClientClearing

open Prefixes Attributes Rib Damping Aggregation Updates Evolution Primitives Rebuild Increments
  Steps SingleSelection PrefixCounts

open AdjOut (BgpAdjOut)

/-! ## The walk -/

/-- `struct bgp_adj_in`. -/
structure BgpAdjIn where
  peer : Nat
  attr : Attr
  deriving DecidableEq, Repr

/-- `struct bgp_clear_node_queue`. -/
structure BgpClearNodeQueue where
  rn : Node
  purpose : ClearRouteType
  deriving DecidableEq, Repr

/-- The routes, what hangs at the nodes beside them, the locks of the nodes, and the clear
queue of the neighbour. -/
structure System where
  tables : State
  adjIn : Node → List BgpAdjIn
  adjOut : Node → List BgpAdjOut
  lock : Node → Int
  clearNodeQueue : List BgpClearNodeQueue

/-- An entry of a neighbour is one that the walk is for. -/
def sought (peer : Nat) (purpose : ClearRouteType) (other : Nat) : Bool :=
  other = peer || purpose = .myRsclient

variable (peer : Nat) (purpose : ClearRouteType)

/-- The node is queued where it has a route that is sought. -/
def queueNode (sys : System) (rn : Node) : System :=
  if (sys.tables.infos rn).any fun ri => sought peer purpose ri.peer then
    { sys with
      lock := replace sys.lock rn (sys.lock rn + 1)
      clearNodeQueue := sys.clearNodeQueue ++ [⟨rn, purpose⟩] }
  else sys

/-- The first `adj_in` entry that is sought goes. -/
def removeAdjIn (sys : System) (rn : Node) : System :=
  if (sys.adjIn rn).any fun ain => sought peer purpose ain.peer then
    { sys with
      lock := replace sys.lock rn (sys.lock rn - 1)
      adjIn :=
        replace sys.adjIn rn ((sys.adjIn rn).eraseP fun ain => sought peer purpose ain.peer) }
  else sys

/-- So does the first `adj_out` entry. -/
def removeAdjOut (sys : System) (rn : Node) : System :=
  if (sys.adjOut rn).any fun aout => sought peer purpose aout.peer then
    { sys with
      lock := replace sys.lock rn (sys.lock rn - 1)
      adjOut :=
        replace sys.adjOut rn ((sys.adjOut rn).eraseP fun aout => sought peer purpose aout.peer) }
  else sys

/-- `bgp_clear_route_table` at one node. -/
def clearNode (sys : System) (rn : Node) : System :=
  if sys.tables.infos rn = [] then sys
  else removeAdjOut peer purpose (removeAdjIn peer purpose (queueNode peer purpose sys rn) rn) rn

/-- The nodes of a table, the nested ones included. -/
def tableNodes (s : State) (owner : Owner) (afi : Afi) (safi : Safi) : List Node :=
  s.nodes.filter fun rn => rn.owner = owner ∧ rn.afi = afi ∧ rn.safi = safi

/-- `bgp_clear_route_table`. The walk over a client's VPN table follows a nested table as if
it were a route, where there is one. -/
def bgpClearRouteTable (sys : System) (owner : Owner) (afi : Afi) (safi : Safi) : Option System :=
  if owner ≠ .main ∧ safi = .mplsVpn ∧ tableNodes sys.tables owner afi safi ≠ [] then none
  else some ((tableNodes sys.tables owner afi safi).foldl (clearNode peer purpose) sys)

variable (env : Env)

/-- `bgp_clear_route`. -/
def bgpClearRoute (sys : System) (afi : Afi) (safi : Safi) : Option System :=
  match purpose with
  | .normal => do
    let sys ← bgpClearRouteTable peer purpose sys .main afi safi
    (clientsOf env afi safi).foldlM
      (fun sys rsclient => bgpClearRouteTable peer purpose sys (.rsclient rsclient) afi safi) sys
  | .myRsclient => bgpClearRouteTable peer purpose sys (.rsclient peer) afi safi

/-! ## The queue -/

variable (session : Fsm.PeerState)

/-- A route that graceful restart keeps, and marks as stale. -/
def keeps (rn : Node) (ri : BgpInfo) : Bool :=
  session.sflags.nsfWait && session.nsf rn.afi rn.safi && !ri.flags.stale &&
    !Clearing.unuseable ri

/-- `bgp_clear_route_node`. -/
def bgpClearRouteNode (s : State) (cnq : BgpClearNodeQueue) : State :=
  match (s.infos cnq.rn).find? fun ri => sought peer cnq.purpose ri.peer with
  | none => s
  | some ri =>
    if keeps session cnq.rn ri then bgpInfoSetFlag env s cnq.rn ri.id .stale
    else bgpRibRemove env s cnq.rn ri.id

/-- How often a node is queued to be processed. Each time locks it. -/
def queuedFor (s : State) (rn : Node) : Int := (s.mainQueue ++ s.rsclientQueue).count rn

/-- An entry of the clear queue is worked off, and deleted. -/
def clearTurn (sys : System) (cnq : BgpClearNodeQueue) : System :=
  let tables := bgpClearRouteNode peer env session sys.tables cnq
  { sys with
    tables
    lock := fun rn => sys.lock rn + (queuedFor tables rn - queuedFor sys.tables rn)
      - if rn = cnq.rn then 1 else 0 }

/-- The clear queue runs until it is empty. -/
def runClearQueue (sys : System) : System :=
  { sys.clearNodeQueue.foldl (clearTurn peer env session) sys with clearNodeQueue := [] }

/-! ## What is to be left -/

/-- The node is in the client's own table. -/
def Own (afi : Afi) (safi : Safi) (rn : Node) : Prop :=
  rn.owner = .rsclient peer ∧ rn.afi = afi ∧ rn.safi = safi

/-- The tables and the entries beside the routes are as the daemon keeps them: entries hang
at nodes that there are, and a walk gets to each node once. -/
structure Whole (sys : System) : Prop where
  sound : Sound sys.tables
  walked : sys.tables.nodes.Nodup
  adjIn : ∀ rn, sys.adjIn rn ≠ [] → rn ∈ sys.tables.nodes
  adjOut : ∀ rn, sys.adjOut rn ≠ [] → rn ∈ sys.tables.nodes

/-- The table is empty but for removed routes, and the locks of all entries of a node and of
the queue are released. A node that is to be processed is locked for that. -/
structure Emptied (afi : Afi) (safi : Safi) (sys sys' : System) : Prop where
  routes : ∀ rn, Own peer afi safi rn → ∀ ri ∈ sys'.tables.infos rn, ri.flags.removed = true
  adjIn : ∀ rn, Own peer afi safi rn → sys'.adjIn rn = []
  adjOut : ∀ rn, Own peer afi safi rn → sys'.adjOut rn = []
  lock : ∀ rn, Own peer afi safi rn → sys'.lock rn =
    sys.lock rn - (sys.adjIn rn).length - (sys.adjOut rn).length
      - sys.clearNodeQueue.countP (fun cnq => cnq.rn = rn)
      + (queuedFor sys'.tables rn - queuedFor sys.tables rn)

/-- Clearing the client's own table empties it. -/
def Clears (sys : System) (afi : Afi) (safi : Safi) : Prop :=
  ∃ sys₁, bgpClearRoute peer .myRsclient env sys afi safi = some sys₁ ∧
    Emptied peer afi safi sys (runClearQueue peer env session sys₁)

/-! ## When it is -/

/-- The name of the route that a visit to a node takes. -/
def taken (routes : List BgpInfo) : Option Nat :=
  (routes.find? fun ri => sought peer purpose ri.peer).map BgpInfo.id

/-- How often a route is taken: by entries that are in the queue already, and by the one of
this clearing, if it is the first of its node. -/
def visits (sys : System) (rn : Node) (ri : BgpInfo) : Nat :=
  sys.clearNodeQueue.countP
      (fun cnq => cnq.rn = rn ∧ taken peer cnq.purpose (sys.tables.infos rn) = some ri.id)
    + if taken peer .myRsclient (sys.tables.infos rn) = some ri.id then 1 else 0

/-- So many visits remove a route. Where it is kept, the second one does. -/
def removes (rn : Node) (n : Nat) (ri : BgpInfo) : Bool :=
  ri.flags.removed || !ri.flags.history && (if keeps session rn ri then 2 else 1) ≤ n

/-- A table that is emptied: it is not that of a VPN, unless it has no nodes; nothing hangs
at nodes without routes, and of each kind one entry at the others; and of the routes that
are not the ones taken each was removed before. -/
structure Clearable (sys : System) (afi : Afi) (safi : Safi) : Prop where
  flat : safi = .mplsVpn → tableNodes sys.tables (.rsclient peer) afi safi = []
  bare : ∀ rn, Own peer afi safi rn → sys.tables.infos rn = [] →
    sys.adjIn rn = [] ∧ sys.adjOut rn = []
  adjIn : ∀ rn, Own peer afi safi rn → (sys.adjIn rn).length ≤ 1
  adjOut : ∀ rn, Own peer afi safi rn → (sys.adjOut rn).length ≤ 1
  routes : ∀ rn, Own peer afi safi rn → ∀ ri ∈ sys.tables.infos rn,
    removes session rn (visits peer sys rn ri) ri = true

/-! ## Visits -/

/-- What so many visits make of a route. -/
structure Aged (rn : Node) (n : Nat) (ri ri' : BgpInfo) : Prop where
  id : ri'.id = ri.id
  peer : ri'.peer = ri.peer
  history : ri'.flags.history = ri.flags.history
  damped : ri'.flags.damped = ri.flags.damped
  removed : ri'.flags.removed = removes session rn n ri
  stale : ri'.flags.stale = (ri.flags.stale || keeps session rn ri && 1 ≤ n)

/-- The flags that visits look at and put. -/
def Alike (ri ri' : BgpInfo) : Prop :=
  ri'.id = ri.id ∧ ri'.peer = ri.peer ∧ ri'.flags.history = ri.flags.history ∧
    ri'.flags.damped = ri.flags.damped ∧ ri'.flags.removed = ri.flags.removed ∧
    ri'.flags.stale = ri.flags.stale

section Visits

variable {peer env session} {rn : Node} {n : Nat} {ri ri' ri'' : BgpInfo}

theorem alike_of_touched (touched : Touched ri ri') : Alike ri ri' := by
  refine ⟨touched.id, touched.peer, ?_⟩
  rcases touched.flags with same | marked
  · rw [same]
    exact ⟨rfl, rfl, rfl, rfl⟩
  · rw [marked]
    exact ⟨rfl, rfl, rfl, rfl⟩

theorem Aged.alike (aged : Aged session rn n ri ri') (alike : Alike ri' ri'') :
    Aged session rn n ri ri'' := by
  obtain ⟨id, peer, history, damped, removed, stale⟩ := alike
  exact ⟨id.trans aged.id, peer.trans aged.peer, history.trans aged.history,
    damped.trans aged.damped, removed.trans aged.removed, stale.trans aged.stale⟩

theorem aged_zero (rn : Node) (ri : BgpInfo) : Aged session rn 0 ri ri := by
  have unvisited : removes session rn 0 ri = ri.flags.removed := by
    unfold removes
    split <;> simp
  exact ⟨rfl, rfl, rfl, rfl, unvisited.symm, by simp⟩

/-- A route is kept once. -/
theorem Aged.keeps_iff (aged : Aged session rn n ri ri') :
    keeps session rn ri' = (keeps session rn ri && n = 0) := by
  obtain ⟨-, -, history, damped, removed, stale⟩ := aged
  cases kept : keeps session rn ri with
  | false =>
    rw [kept, Bool.false_and, Bool.or_false] at stale
    have grows : ri'.flags.removed = true ∨ ri'.flags.removed = ri.flags.removed := by
      rw [removed]
      unfold removes
      cases ri.flags.removed with
      | false => exact Bool.eq_false_or_eq_true _
      | true => exact Or.inr rfl
    unfold keeps Clearing.unuseable at kept ⊢
    rw [history, damped, stale]
    rcases grows with gone | same
    · rw [gone]
      simp
    · rw [same, kept, Bool.false_and]
  | true =>
    have usable := kept
    unfold keeps Clearing.unuseable at usable
    simp only [Bool.and_eq_true, Bool.not_eq_true', Bool.or_eq_false_iff] at usable
    obtain ⟨⟨⟨waits, nsf⟩, fresh⟩, ⟨past, undamped⟩, present⟩ := usable
    rw [kept, fresh, Bool.false_or, Bool.true_and] at stale
    unfold removes at removed
    rw [present, past, kept, Bool.false_or, Bool.not_false, Bool.true_and, if_pos rfl] at removed
    unfold keeps Clearing.unuseable
    rw [history, damped, removed, stale, waits, nsf, past, undamped]
    cases n with
    | zero => rfl
    | succ n => simp

/-- A visit that keeps a route marks it. -/
theorem Aged.keep (aged : Aged session rn n ri ri') (kept : keeps session rn ri' = true) :
    Aged session rn (n + 1) ri (ri'.put .stale true) := by
  have first := kept
  rw [aged.keeps_iff, Bool.and_eq_true, decide_eq_true_eq] at first
  obtain ⟨before, rfl⟩ := first
  refine ⟨aged.id, aged.peer, aged.history, aged.damped, ?_, ?_⟩
  · change ri'.flags.removed = _
    rw [aged.removed]
    unfold removes
    rw [before]
    simp
  · change true = _
    rw [before]
    simp

/-- A visit that removes it. -/
theorem Aged.remove (aged : Aged session rn n ri ri') (kept : keeps session rn ri' = false)
    (present : ri'.flags.history = false) (on : Bool) :
    Aged session rn (n + 1) ri (((ri'.put .removed true).put .counted on).put .valid false) := by
  rw [aged.keeps_iff] at kept
  have past : ri.flags.history = false := aged.history.symm.trans present
  refine ⟨aged.id, aged.peer, aged.history, aged.damped, ?_, ?_⟩
  · change true = _
    unfold removes
    rw [past]
    cases before : keeps session rn ri with
    | false => simp
    | true =>
      have again : n ≠ 0 := by simpa [before] using kept
      simp
      omega
  · change ri'.flags.stale = _
    rw [aged.stale]
    cases before : keeps session rn ri with
    | false => rfl
    | true =>
      have again : n ≠ 0 := by simpa [before] using kept
      simp
      omega

/-- A route of history stays what it is. -/
theorem Aged.history_stays (aged : Aged session rn n ri ri') (past : ri'.flags.history = true) :
    Aged session rn (n + 1) ri ri' := by
  have before : ri.flags.history = true := aged.history.symm.trans past
  have kept : keeps session rn ri = false := by
    unfold keeps Clearing.unuseable
    rw [before]
    simp
  refine ⟨aged.id, aged.peer, aged.history, aged.damped, ?_, ?_⟩
  · rw [aged.removed]
    unfold removes
    rw [before]
    rfl
  · rw [aged.stale, kept]
    rfl

/-! ## One turn of the queue -/

/-- Visits to a node age its routes, each so many times as its name was taken. -/
def AgedNode (session : Fsm.PeerState) (rn : Node) (n : Nat → Nat) (s s' : State) : Prop :=
  ∃ change, s'.infos rn = (s.infos rn).map change ∧
    ∀ ri ∈ s.infos rn, Aged session rn (n ri.id) ri (change ri)

theorem agedNode_refl (session : Fsm.PeerState) (rn : Node) (s : State) :
    AgedNode session rn (fun _ => 0) s s :=
  ⟨fun ri => ri, (List.map_id' _).symm, fun ri _ => aged_zero rn ri⟩

variable {s s' s'' : State} {n n' : Nat → Nat}

/-- A change of each route of the node. -/
theorem AgedNode.map (aged : AgedNode session rn n s s') (change : BgpInfo → BgpInfo)
    (infos : s''.infos rn = (s'.infos rn).map change)
    (each : ∀ ri ∈ s.infos rn, ∀ ri' ∈ s'.infos rn, Aged session rn (n ri.id) ri ri' →
      Aged session rn (n' ri.id) ri (change ri')) : AgedNode session rn n' s s'' := by
  obtain ⟨first, same, ages⟩ := aged
  refine ⟨change ∘ first, by rw [infos, same, List.map_map], fun ri held => ?_⟩
  apply each ri held _ _ (ages ri held)
  rw [same]
  exact List.mem_map_of_mem held

/-- Visits take the routes that they took before. -/
theorem AgedNode.find (aged : AgedNode session rn n s s') (peer : Nat) (purpose : ClearRouteType) :
    ((s'.infos rn).find? fun ri => sought peer purpose ri.peer).map BgpInfo.id =
      taken peer purpose (s.infos rn) := by
  obtain ⟨change, same, ages⟩ := aged
  unfold taken
  rw [same]
  generalize s.infos rn = routes at ages
  induction routes with
  | nil => rfl
  | cons ri later ih =>
    have first := ages ri List.mem_cons_self
    have rest := ih fun ri held => ages ri (List.mem_cons_of_mem _ held)
    rw [List.map_cons, List.find?_cons, List.find?_cons, first.peer]
    split
    · exact congrArg some first.id
    · exact rest

theorem delete_infos (env : Env) (s : State) (rn : Node) (id : Nat) :
    ∃ on : BgpInfo → Bool, (bgpInfoDelete env s rn id).infos rn = changed (s.infos rn) id fun ri =>
      ((ri.put .removed true).put .counted (on ri)).put .valid false := by
  have puts := fun ri => bgpInfoPut_route env s rn ri .removed true
  choose on put using puts
  refine ⟨on, ?_⟩
  have marked := congrFun (bgpInfoPutFlag_infos env s rn id .removed true) rn
  rw [replace_same] at marked
  unfold bgpInfoDelete bgpInfoSetFlag
  change replace _ rn (changed ((bgpInfoPutFlag env s rn id .removed true).infos rn) id _) rn = _
  rw [replace_same, marked]
  unfold changed
  rw [List.map_map]
  apply List.map_congr_left
  intro ri _
  dsimp only [Function.comp_apply]
  by_cases named : ri.id = id
  · rw [if_pos named, put,
      if_pos (show ((ri.put .removed true).put .counted (on ri)).id = id from named),
      if_pos named]
  · rw [if_neg named, if_neg named, if_neg named]

theorem stale_infos (env : Env) (s : State) (rn : Node) (id : Nat) :
    (bgpInfoSetFlag env s rn id .stale).infos rn =
      changed (s.infos rn) id fun ri => ri.put .stale true := by
  have marked := congrFun (bgpInfoPutFlag_infos env s rn id .stale true) rn
  rw [replace_same] at marked
  exact marked

/-- A visit to another node leaves the routes of a client's node as they are. -/
theorem bgpClearRouteNode_apart (peer : Nat) (env : Env) (session : Fsm.PeerState)
    (client : rn.owner ≠ .main) (s : State) (cnq : BgpClearNodeQueue) (apart : rn ≠ cnq.rn) :
    ∃ change, (bgpClearRouteNode peer env session s cnq).infos rn = (s.infos rn).map change ∧
      ∀ ri, Alike ri (change ri) := by
  have still : ∀ ri : BgpInfo, Alike ri ri := fun _ => ⟨rfl, rfl, rfl, rfl, rfl, rfl⟩
  unfold bgpClearRouteNode
  split
  · exact ⟨fun ri => ri, (List.map_id' _).symm, still⟩
  · split
    · refine ⟨fun ri => ri, ?_, still⟩
      rw [List.map_id']
      exact bgpInfoPutFlag_apart env s cnq.rn _ .stale true rn apart
    · rename_i ri _ _
      obtain ⟨change, infos, touched⟩ := decrement_touches_apart env s cnq.rn ri.id rn
        fun outer _ same => client (congrArg Node.owner same)
      refine ⟨change, ?_, fun ri => alike_of_touched (touched ri)⟩
      unfold bgpRibRemove
      rw [bgpProcess_infos]
      split
      · exact infos
      · rw [bgpInfoDelete_apart env _ cnq.rn ri.id rn apart]
        exact infos

theorem bgpClearRouteNode_sound (sound : Sound s) (cnq : BgpClearNodeQueue) :
    Sound (bgpClearRouteNode peer env session s cnq) := by
  unfold bgpClearRouteNode
  split
  · exact sound
  · rename_i ri _
    have marks : Evolves lax s (bgpInfoSetFlag env s cnq.rn ri.id .stale) :=
      putQuiet_evolves env s cnq.rn ri.id .stale true (fun _ => trivial) rfl
    split
    · exact marks.sound sound
    · exact (ribRemove_lax env s cnq.rn _).sound sound

/-- `bgp_rib_remove` takes its route away, unless that is kept for its history. -/
theorem bgpRibRemove_ages (sound : Sound s') (aged : AgedNode session rn n s s') {taken : BgpInfo}
    (held : taken ∈ s'.infos rn) (goes : keeps session rn taken = false) :
    AgedNode session rn (fun id => n id + if id = taken.id then 1 else 0) s
      (bgpRibRemove env s' rn taken.id) := by
  have only : ∀ ri' ∈ s'.infos rn, ri'.id = taken.id → ri' = taken := fun ri' member same =>
    sound.unique held member same
  obtain ⟨touch, infos, touched⟩ := decrement_touches env s' rn taken.id
  have found :
      (bgpAggregateDecrement env s' rn taken.id).info? rn taken.id = some (touch taken) := by
    rw [info?_map infos (fun ri => (touched ri).id) taken.id, sound.named held]
    rfl
  have alike := fun ri => alike_of_touched (touched ri)
  have past : (touch taken).flags.history = taken.flags.history := (alike taken).2.2.1
  unfold bgpRibRemove
  dsimp only
  rw [found, Option.any_some, past]
  cases history : taken.flags.history with
  | true =>
    apply aged.map touch
    · rw [if_pos rfl, bgpProcess_infos]
      exact infos
    · intro ri _ ri' held' ages
      by_cases named : ri.id = taken.id
      · have same := only ri' held' (ages.id.trans named)
        rw [if_pos named]
        exact (ages.history_stays (same ▸ history)).alike (alike ri')
      · rw [if_neg named]
        exact ages.alike (alike ri')
  | false =>
    obtain ⟨on, deleted⟩ := delete_infos env (bgpAggregateDecrement env s' rn taken.id) rn taken.id
    apply aged.map (fun ri => if (touch ri).id = taken.id then
      (((touch ri).put .removed true).put .counted (on (touch ri))).put .valid false else touch ri)
    · rw [if_neg Bool.false_ne_true, bgpProcess_infos, deleted, infos]
      unfold changed
      rw [List.map_map]
      rfl
    · intro ri _ ri' held' ages
      have touches := ages.alike (alike ri')
      by_cases named : ri.id = taken.id
      · have same := only ri' held' (ages.id.trans named)
        subst same
        have removed := ages.remove goes history (on (touch ri'))
        rw [if_pos named, if_pos (touches.id.trans named)]
        apply removed.alike
        obtain ⟨id, peer, past, damped, -, stale⟩ := alike ri'
        exact ⟨id, peer, past, damped, rfl, stale⟩
      · rw [if_neg named, if_neg fun same => named (touches.id.symm.trans same)]
        exact touches

/-- A turn of the queue ages the route that it takes. -/
theorem bgpClearRouteNode_ages (client : rn.owner ≠ .main) (sound : Sound s')
    (aged : AgedNode session rn n s s') (cnq : BgpClearNodeQueue) :
    AgedNode session rn
      (fun id => n id +
        if cnq.rn = rn ∧ taken peer cnq.purpose (s.infos rn) = some id then 1 else 0)
      s (bgpClearRouteNode peer env session s' cnq) := by
  by_cases here : cnq.rn = rn
  · subst here
    have finds := aged.find peer cnq.purpose
    unfold bgpClearRouteNode
    cases found : (s'.infos cnq.rn).find? fun ri => sought peer cnq.purpose ri.peer with
    | none =>
      rw [found, Option.map_none] at finds
      have counts :
        (fun id => n id + if cnq.rn = cnq.rn ∧ (none : Option Nat) = some id then 1 else 0) =
          n := by
        funext id
        simp
      rw [← finds, counts]
      exact aged
    | some ri' =>
      have held := List.mem_of_find?_eq_some found
      rw [found, Option.map_some] at finds
      have counts : (fun id => n id + if cnq.rn = cnq.rn ∧ some ri'.id = some id then 1 else 0) =
          fun id => n id + if id = ri'.id then 1 else 0 := by
        funext id
        simp [eq_comm]
      rw [← finds, counts]
      dsimp only
      by_cases kept : keeps session cnq.rn ri' = true
      · rw [if_pos kept]
        apply aged.map _ (stale_infos env s' cnq.rn ri'.id)
        intro ri _ other member ages
        by_cases named : ri.id = ri'.id
        · have same := sound.unique held member (ages.id.trans named)
          subst same
          rw [if_pos named, if_pos (ages.id.trans named)]
          exact ages.keep kept
        · rw [if_neg named, if_neg fun same => named (ages.id.symm.trans same)]
          exact ages
      · rw [if_neg kept]
        exact bgpRibRemove_ages sound aged held ((Bool.not_eq_true _).mp kept)
  · obtain ⟨change, infos, alike⟩ := bgpClearRouteNode_apart peer env session client s' cnq
      fun same => here same.symm
    apply aged.map change infos
    intro ri _ ri' _ ages
    rw [if_neg fun both => here both.1]
    exact ages.alike (alike ri')

/-! ## The queue until it is empty -/

/-- Running the queue leaves what hangs at the nodes, ages the routes by the entries that take
them, and releases the locks of the entries. -/
theorem clearTurns_ages (peer : Nat) (env : Env) (client : rn.owner ≠ .main)
    (queue : List BgpClearNodeQueue) (sys : System)
    (sound : Sound sys.tables) (aged : AgedNode session rn n s sys.tables) :
    let done := queue.foldl (clearTurn peer env session) sys
    AgedNode session rn (fun id => n id + queue.countP fun cnq =>
        cnq.rn = rn ∧ taken peer cnq.purpose (s.infos rn) = some id) s done.tables ∧
      done.adjIn = sys.adjIn ∧ done.adjOut = sys.adjOut ∧
      done.lock rn = sys.lock rn + (queuedFor done.tables rn - queuedFor sys.tables rn)
        - queue.countP (fun cnq => cnq.rn = rn) := by
  induction queue generalizing sys n with
  | nil => exact ⟨by simpa using aged, rfl, rfl, by simp⟩
  | cons cnq later ih =>
    rw [List.foldl_cons]
    have turned : AgedNode session rn _ s (clearTurn peer env session sys cnq).tables :=
      bgpClearRouteNode_ages client sound aged cnq
    obtain ⟨ages, adjIn, adjOut, lock⟩ := ih (clearTurn peer env session sys cnq)
      (bgpClearRouteNode_sound sound cnq) turned
    refine ⟨?_, adjIn, adjOut, ?_⟩
    · simp only [List.countP_cons]
      convert ages using 2
      rename_i id
      simp only [decide_eq_true_eq]
      omega
    · have first : (clearTurn peer env session sys cnq).lock rn = sys.lock rn
          + (queuedFor (clearTurn peer env session sys cnq).tables rn - queuedFor sys.tables rn)
          - if rn = cnq.rn then 1 else 0 := rfl
      rw [lock, first, List.countP_cons]
      by_cases here : cnq.rn = rn
      · simp only [here, decide_true, if_true]
        omega
      · simp only [here, decide_false, Bool.false_eq_true, if_false]
        rw [if_neg fun same => here same.symm]
        omega

/-! ## The walk -/

theorem sought_all (peer other : Nat) : sought peer .myRsclient other = true := by
  unfold sought
  simp

theorem removeAdjIn_eq (peer : Nat) (sys : System) (rn : Node) :
    removeAdjIn peer .myRsclient sys rn =
      { sys with
        adjIn := replace sys.adjIn rn (sys.adjIn rn).tail
        lock := replace sys.lock rn (sys.lock rn - min 1 (sys.adjIn rn).length) } := by
  unfold removeAdjIn
  cases entries : sys.adjIn rn with
  | nil =>
    have same : replace sys.adjIn rn [] = sys.adjIn := by rw [← entries, replace_self]
    simp [same]
  | cons ain later =>
    rw [List.any_cons, sought_all, Bool.true_or, if_pos rfl, List.eraseP_cons, sought_all]
    simp

theorem removeAdjOut_eq (peer : Nat) (sys : System) (rn : Node) :
    removeAdjOut peer .myRsclient sys rn =
      { sys with
        adjOut := replace sys.adjOut rn (sys.adjOut rn).tail
        lock := replace sys.lock rn (sys.lock rn - min 1 (sys.adjOut rn).length) } := by
  unfold removeAdjOut
  cases entries : sys.adjOut rn with
  | nil =>
    have same : replace sys.adjOut rn [] = sys.adjOut := by rw [← entries, replace_self]
    simp [same]
  | cons aout later =>
    rw [List.any_cons, sought_all, Bool.true_or, if_pos rfl, List.eraseP_cons, sought_all]
    simp

/-- What the walk for the table itself does at a node with routes. -/
theorem clearNode_eq (peer : Nat) (sys : System) (rn : Node) (held : sys.tables.infos rn ≠ []) :
    clearNode peer .myRsclient sys rn =
      { sys with
        adjIn := replace sys.adjIn rn (sys.adjIn rn).tail
        adjOut := replace sys.adjOut rn (sys.adjOut rn).tail
        lock := replace sys.lock rn
          (sys.lock rn + 1 - min 1 (sys.adjIn rn).length - min 1 (sys.adjOut rn).length)
        clearNodeQueue := sys.clearNodeQueue ++ [⟨rn, .myRsclient⟩] } := by
  obtain ⟨ri, later, routes⟩ := List.exists_cons_of_ne_nil held
  have queued : queueNode peer .myRsclient sys rn = { sys with
      lock := replace sys.lock rn (sys.lock rn + 1)
      clearNodeQueue := sys.clearNodeQueue ++ [⟨rn, .myRsclient⟩] } := by
    unfold queueNode
    rw [routes, List.any_cons, sought_all, Bool.true_or, if_pos rfl]
  have twice : ∀ (lock : Node → Int) (first second : Int),
      replace (replace lock rn first) rn second = replace lock rn second := by
    intro lock first second
    funext other
    unfold replace
    split <;> rfl
  unfold clearNode
  rw [if_neg held, queued, removeAdjIn_eq, removeAdjOut_eq]
  simp only [replace_same, twice]

/-- The walk for the table itself gets to each node with routes. -/
theorem walk_spec (peer : Nat) (rns : List Node) (distinct : rns.Nodup) (sys : System) :
    let done := rns.foldl (clearNode peer .myRsclient) sys
    done.tables = sys.tables ∧
      done.clearNodeQueue = sys.clearNodeQueue ++
        (rns.filter fun rn => sys.tables.infos rn ≠ []).map (⟨·, .myRsclient⟩) ∧
      ∀ rn, if rn ∈ rns ∧ sys.tables.infos rn ≠ [] then
          done.adjIn rn = (sys.adjIn rn).tail ∧ done.adjOut rn = (sys.adjOut rn).tail ∧
            done.lock rn = sys.lock rn + 1 - min 1 (sys.adjIn rn).length
              - min 1 (sys.adjOut rn).length
        else done.adjIn rn = sys.adjIn rn ∧ done.adjOut rn = sys.adjOut rn ∧
          done.lock rn = sys.lock rn := by
  induction rns generalizing sys with
  | nil => simp
  | cons first later ih =>
    obtain ⟨once, distinct'⟩ := List.nodup_cons.mp distinct
    rw [List.foldl_cons]
    by_cases held : sys.tables.infos first = []
    · have passed : clearNode peer .myRsclient sys first = sys := if_pos held
      obtain ⟨tables, queue, each⟩ := ih distinct' sys
      rw [passed]
      refine ⟨tables, ?_, fun rn => ?_⟩
      · rw [queue, List.filter_cons_of_neg (by simpa using held)]
      · have here := each rn
        have same : (rn ∈ first :: later ∧ sys.tables.infos rn ≠ []) ↔
            (rn ∈ later ∧ sys.tables.infos rn ≠ []) := by
          rw [List.mem_cons]
          constructor
          · rintro ⟨rfl | member, routes⟩
            · exact absurd held routes
            · exact ⟨member, routes⟩
          · exact fun both => ⟨Or.inr both.1, both.2⟩
        simp only [same]
        exact here
    · obtain ⟨tables, queue, each⟩ := ih distinct' (clearNode peer .myRsclient sys first)
      rw [clearNode_eq peer sys first held] at tables queue each ⊢
      dsimp only at tables queue each ⊢
      refine ⟨tables, ?_, fun rn => ?_⟩
      · rw [queue, List.filter_cons_of_pos (by simpa using held), List.map_cons, List.append_assoc,
          List.singleton_append]
      · have here := each rn
        by_cases same : rn = first
        · subst same
          rw [if_neg fun both => once both.1, replace_same, replace_same, replace_same] at here
          rw [if_pos ⟨List.mem_cons_self, held⟩]
          exact here
        · rw [replace_ne _ _ _ _ same, replace_ne _ _ _ _ same, replace_ne _ _ _ _ same] at here
          simpa only [List.mem_cons, same, false_or] using here

/-- The walk queues a node once. -/
theorem countP_queued (rns : List Node) (distinct : rns.Nodup) (rn : Node)
    (test : ClearRouteType → Prop) [DecidablePred test] :
    ((rns.map fun rn => (⟨rn, .myRsclient⟩ : BgpClearNodeQueue)).countP
        fun cnq => cnq.rn = rn ∧ test cnq.purpose) =
      if rn ∈ rns ∧ test .myRsclient then 1 else 0 := by
  induction rns with
  | nil => simp
  | cons first later ih =>
    obtain ⟨once, distinct'⟩ := List.nodup_cons.mp distinct
    rw [List.map_cons, List.countP_cons, ih distinct']
    by_cases same : first = rn
    · subst same
      by_cases tested : test .myRsclient <;> simp [once, tested]
    · have other : ¬ rn = first := fun taken => same taken.symm
      simp [same, other]

variable {sys : System} {afi : Afi} {safi : Safi}

theorem mem_tableNodes :
    rn ∈ tableNodes sys.tables (.rsclient peer) afi safi ↔
      rn ∈ sys.tables.nodes ∧ Own peer afi safi rn := by
  unfold tableNodes Own
  simp

/-- What a node of the client's table comes to. -/
theorem runClearQueue_spec (env : Env) (session : Fsm.PeerState) (whole : Whole sys)
    (own : Own peer afi safi rn) :
    let done := runClearQueue peer env session
      ((tableNodes sys.tables (.rsclient peer) afi safi).foldl (clearNode peer .myRsclient) sys)
    AgedNode session rn (fun id => sys.clearNodeQueue.countP
          (fun cnq => cnq.rn = rn ∧ taken peer cnq.purpose (sys.tables.infos rn) = some id)
        + if taken peer .myRsclient (sys.tables.infos rn) = some id then 1 else 0)
      sys.tables done.tables ∧
    if sys.tables.infos rn = [] then
      done.adjIn rn = sys.adjIn rn ∧ done.adjOut rn = sys.adjOut rn ∧
        done.lock rn = sys.lock rn - sys.clearNodeQueue.countP (fun cnq => cnq.rn = rn)
          + (queuedFor done.tables rn - queuedFor sys.tables rn)
    else
      done.adjIn rn = (sys.adjIn rn).tail ∧ done.adjOut rn = (sys.adjOut rn).tail ∧
        done.lock rn = sys.lock rn - min 1 (sys.adjIn rn).length - min 1 (sys.adjOut rn).length
          - sys.clearNodeQueue.countP (fun cnq => cnq.rn = rn)
          + (queuedFor done.tables rn - queuedFor sys.tables rn) := by
  have client : rn.owner ≠ .main := by
    rw [own.1]
    exact fun same => nomatch same
  have distinct : (tableNodes sys.tables (.rsclient peer) afi safi).Nodup := whole.walked.filter _
  have listed : rn ∈ (tableNodes sys.tables (.rsclient peer) afi safi).filter
      (fun rn => sys.tables.infos rn ≠ []) ↔ sys.tables.infos rn ≠ [] := by
    rw [List.mem_filter, mem_tableNodes]
    constructor
    · exact fun both => by simpa using both.2
    · exact fun held => ⟨⟨whole.sound.listed rn held, own⟩, by simpa using held⟩
  obtain ⟨tables, queue, each⟩ := walk_spec peer _ distinct sys
  have here := each rn
  generalize (tableNodes sys.tables (.rsclient peer) afi safi).foldl
    (clearNode peer .myRsclient) sys =
    sys₁ at tables queue here
  have start : AgedNode session rn (fun _ => 0) sys.tables sys₁.tables := by
    rw [tables]
    exact agedNode_refl session rn sys.tables
  obtain ⟨ages, adjIn, adjOut, lock⟩ := clearTurns_ages peer env client sys₁.clearNodeQueue sys₁
    (tables ▸ whole.sound) start
  have visited := fun test [DecidablePred test] =>
    countP_queued ((tableNodes sys.tables (.rsclient peer) afi safi).filter
      fun rn => sys.tables.infos rn ≠ []) (distinct.filter _) rn test
  unfold runClearQueue
  dsimp only
  rw [adjIn, adjOut, lock, tables]
  refine ⟨?_, ?_⟩
  · convert ages using 2
    rename_i id
    rw [queue, List.countP_append, visited fun purpose =>
      taken peer purpose (sys.tables.infos rn) = some id, Nat.zero_add]
    congr 1
    by_cases empty : sys.tables.infos rn = []
    · rw [empty]
      simp [taken]
    · simp only [listed.mpr empty, true_and]
  · have entries : sys₁.clearNodeQueue.countP (fun cnq => cnq.rn = rn) =
        sys.clearNodeQueue.countP (fun cnq => cnq.rn = rn)
          + if sys.tables.infos rn = [] then 0 else 1 := by
      have once := visited fun _ => True
      simp only [and_true, listed] at once
      rw [queue, List.countP_append, once]
      split_ifs <;> simp_all
    rw [entries]
    by_cases empty : sys.tables.infos rn = []
    · rw [if_neg fun both => both.2 empty] at here
      rw [if_pos empty, if_pos empty]
      refine ⟨here.1, here.2.1, ?_⟩
      rw [here.2.2]
      push_cast
      omega
    · rw [if_pos ⟨mem_tableNodes.mpr ⟨whole.sound.listed rn empty, own⟩, empty⟩] at here
      rw [if_neg empty, if_neg empty]
      refine ⟨here.1, here.2.1, ?_⟩
      rw [here.2.2]
      push_cast
      omega

theorem AgedNode.removed_iff (aged : AgedNode session rn n s s') :
    (∀ ri ∈ s'.infos rn, ri.flags.removed = true) ↔
      ∀ ri ∈ s.infos rn, removes session rn (n ri.id) ri = true := by
  obtain ⟨change, same, ages⟩ := aged
  rw [same]
  constructor
  · intro removed ri held
    rw [← (ages ri held).removed]
    exact removed _ (List.mem_map_of_mem held)
  · intro removes ri' held
    obtain ⟨ri, before, rfl⟩ := List.mem_map.mp held
    rw [(ages ri before).removed]
    exact removes ri before

theorem tail_eq_nil_iff {α : Type} (entries : List α) : entries.tail = [] ↔ entries.length ≤ 1 := by
  rw [← List.length_eq_zero_iff, List.length_tail]
  omega

/-- A node is emptied where one entry of each kind is all there is, and its locks are released
then. -/
theorem emptied_iff (env : Env) (session : Fsm.PeerState) (whole : Whole sys)
    (own : Own peer afi safi rn) :
    let done := runClearQueue peer env session
      ((tableNodes sys.tables (.rsclient peer) afi safi).foldl (clearNode peer .myRsclient) sys)
    (∀ ri ∈ done.tables.infos rn, ri.flags.removed = true) ∧ done.adjIn rn = [] ∧
        done.adjOut rn = [] ∧
        done.lock rn = sys.lock rn - (sys.adjIn rn).length - (sys.adjOut rn).length
          - sys.clearNodeQueue.countP (fun cnq => cnq.rn = rn)
          + (queuedFor done.tables rn - queuedFor sys.tables rn) ↔
      (sys.tables.infos rn = [] → sys.adjIn rn = [] ∧ sys.adjOut rn = []) ∧
        (sys.adjIn rn).length ≤ 1 ∧ (sys.adjOut rn).length ≤ 1 ∧
        ∀ ri ∈ sys.tables.infos rn, removes session rn (visits peer sys rn ri) ri = true := by
  obtain ⟨ages, rest⟩ := runClearQueue_spec env session whole own
  dsimp only at ages rest ⊢
  rw [ages.removed_iff]
  by_cases empty : sys.tables.infos rn = []
  · rw [if_pos empty] at rest
    obtain ⟨adjIn, adjOut, lock⟩ := rest
    rw [adjIn, adjOut, lock]
    constructor
    · rintro ⟨removed, noIn, noOut, -⟩
      refine ⟨fun _ => ⟨noIn, noOut⟩, ?_, ?_, removed⟩
      · rw [noIn]
        exact Nat.zero_le 1
      · rw [noOut]
        exact Nat.zero_le 1
    · rintro ⟨bare, -, -, removed⟩
      obtain ⟨noIn, noOut⟩ := bare empty
      refine ⟨removed, noIn, noOut, ?_⟩
      rw [noIn, noOut]
      simp
  · rw [if_neg empty] at rest
    obtain ⟨adjIn, adjOut, lock⟩ := rest
    rw [adjIn, adjOut, lock, tail_eq_nil_iff, tail_eq_nil_iff]
    constructor
    · rintro ⟨removed, oneIn, oneOut, -⟩
      exact ⟨fun none => absurd none empty, oneIn, oneOut, removed⟩
    · rintro ⟨-, oneIn, oneOut, removed⟩
      refine ⟨removed, oneIn, oneOut, ?_⟩
      rw [Nat.min_eq_right oneIn, Nat.min_eq_right oneOut]

/-- Clearing a client's own table empties it exactly where there is one entry of each kind to
take from a node. A visit takes the first entry of each kind and leaves the others, and
nodes without routes are passed by. -/
theorem clears_iff {sys : System} (whole : Whole sys) {afi : Afi} {safi : Safi} :
    Clears peer env session sys afi safi ↔ Clearable peer session sys afi safi := by
  have walks : bgpClearRoute peer .myRsclient env sys afi safi =
      if safi = .mplsVpn ∧ tableNodes sys.tables (.rsclient peer) afi safi ≠ [] then none
      else some ((tableNodes sys.tables (.rsclient peer) afi safi).foldl
        (clearNode peer .myRsclient) sys) := by
    unfold bgpClearRoute bgpClearRouteTable
    simp
  unfold Clears
  rw [walks]
  constructor
  · rintro ⟨sys₁, walked, emptied⟩
    split at walked
    · exact nomatch walked
    rename_i flat
    obtain rfl := Option.some.inj walked
    have each := fun rn (own : Own peer afi safi rn) => (emptied_iff env session whole own).mp
      ⟨emptied.routes rn own, emptied.adjIn rn own, emptied.adjOut rn own, emptied.lock rn own⟩
    constructor
    · intro vpn
      by_contra nodes
      exact flat ⟨vpn, nodes⟩
    · exact fun rn own => (each rn own).1
    · exact fun rn own => (each rn own).2.1
    · exact fun rn own => (each rn own).2.2.1
    · exact fun rn own => (each rn own).2.2.2
  · intro clearable
    have flat : ¬ (safi = .mplsVpn ∧ tableNodes sys.tables (.rsclient peer) afi safi ≠ []) :=
      fun both => both.2 (clearable.flat both.1)
    have each := fun rn (own : Own peer afi safi rn) => (emptied_iff env session whole own).mpr
      ⟨clearable.bare rn own, clearable.adjIn rn own, clearable.adjOut rn own,
        clearable.routes rn own⟩
    rw [if_neg flat]
    refine ⟨_, rfl, ?_⟩
    constructor
    · exact fun rn own => (each rn own).1
    · exact fun rn own => (each rn own).2.1
    · exact fun rn own => (each rn own).2.2.1
    · exact fun rn own => (each rn own).2.2.2

end Visits

/-! ## A table with one prefix -/

/-- The default route's node in the table of the first neighbour. -/
def clientNode : Node := nodeOf (.rsclient 1) .unicast (Prefix.default .ip) none

/-- A route of a neighbour. -/
def clientRoute (id peer : Nat) : BgpInfo where
  id := id
  peer := peer
  type := .bgp
  subType := .normal
  attr := Actions.plainAttr 167772161 0
  extra := none
  flags := { valid := true }

/-- The node has the routes, and what hangs there lets the first neighbour have one. -/
def clientSystem (routes : List BgpInfo) : System where
  tables :=
    { State.empty with
      infos := replace (fun _ => []) clientNode routes, nodes := [clientNode], nextId :=
        routes.length }
  adjIn := fun _ => []
  adjOut := replace (fun _ => []) clientNode [⟨1, some (Actions.plainAttr 167772161 0), none⟩]
  lock := replace (fun _ => 0) clientNode (routes.length + 1)
  clearNodeQueue := []

variable {rn : Node}

theorem clientSystem_infos (routes : List BgpInfo) (other : rn ≠ clientNode) :
    (clientSystem routes).tables.infos rn = [] := by
  change replace (fun _ => []) clientNode routes rn = []
  exact replace_ne _ _ _ _ other

theorem clientSystem_adjOut (routes : List BgpInfo) (other : rn ≠ clientNode) :
    (clientSystem routes).adjOut rn = [] := by
  change replace (fun _ => []) clientNode _ rn = []
  exact replace_ne _ _ _ _ other

theorem clientSystem_whole (routes : List BgpInfo) (distinct : (routes.map BgpInfo.id).Nodup)
    (issued : ∀ ri ∈ routes, ri.id < routes.length) : Whole (clientSystem routes) where
  sound := by
    constructor
    · intro rn ri held
      by_cases same : rn = clientNode
      · rw [same] at held
        exact issued ri (by simpa [clientSystem] using held)
      · rw [clientSystem_infos routes same] at held
        exact absurd held List.not_mem_nil
    · intro rn
      by_cases same : rn = clientNode
      · rw [same]
        simpa [clientSystem] using distinct
      · rw [clientSystem_infos routes same]
        exact List.nodup_nil
    · intro rn held
      by_contra absent
      exact held (clientSystem_infos routes fun same => absent (same ▸ List.mem_cons_self))
  walked := List.nodup_singleton clientNode
  adjIn := fun rn hangs => absurd rfl hangs
  adjOut := by
    intro rn hangs
    by_contra absent
    exact hangs (clientSystem_adjOut routes fun same => absent (same ▸ List.mem_cons_self))

/-- A node with one route is emptied. -/
theorem clientSystem_clears :
    Clears 1 (Actions.plainEnv [1, 2, 3]) {} (clientSystem [clientRoute 0 2]) .ip .unicast := by
  apply (clears_iff (clientSystem_whole [clientRoute 0 2] (by decide) (by decide))).mpr
  constructor
  · exact fun vpn => absurd vpn (by decide)
  · intro rn _ bare
    by_cases same : rn = clientNode
    · rw [same] at bare
      exact absurd bare (by decide)
    · exact ⟨rfl, clientSystem_adjOut _ same⟩
  · exact fun _ _ => Nat.zero_le 1
  · intro rn _
    by_cases same : rn = clientNode
    · rw [same]
      decide
    · rw [clientSystem_adjOut _ same]
      exact Nat.zero_le 1
  · intro rn _ ri held
    by_cases same : rn = clientNode
    · subst same
      revert ri
      decide
    · rw [clientSystem_infos _ same] at held
      exact absurd held List.not_mem_nil

/-- Of two routes of a node, the second one stays. -/
theorem clientSystem_stays :
    Whole (clientSystem [clientRoute 0 2, clientRoute 1 3]) ∧
      ¬ Clears 1 (Actions.plainEnv [1, 2, 3]) {} (clientSystem [clientRoute 0 2, clientRoute 1 3])
        .ip .unicast := by
  refine ⟨clientSystem_whole _ (by decide) (by decide), ?_⟩
  rintro ⟨sys₁, walked, emptied⟩
  obtain rfl := Option.some.inj walked
  have removed := emptied.routes clientNode ⟨rfl, rfl, rfl⟩
  revert removed
  decide

end Bgpd.ClientClearing
