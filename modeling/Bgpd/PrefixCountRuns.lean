import Bgpd.PrefixBookSteps

/-!
# The prefix counts over a run

In a run of careful steps the counts can be relied on in every state. A family that is
closed while the session stays has its count set to zero at once, with the routes still
to be cleared; the routes then ask to be counted out of nothing.
-/

namespace Bgpd.PrefixCounts

open Prefixes Rib Runs PrefixBooks PrefixBookSteps

variable {own : Nat}

/-! ## Steps -/

variable {s : State}
variable {env : Env}

/-- A call of the tables keeps the books, where it shares no VPN route with a client. -/
theorem call_books (self : env.self = own) (books : Books own none Tight s)
    (action : Actions.Action)
    (careful : ∀ w call, action = .update w call → Unshared env call.toUpdateCall) :
    Books own none Tight (Actions.step env s action) := by
  cases action with
  | update w call => exact bgpUpdate_books self w books call.toUpdateCall (careful w call rfl)
  | withdraw w call => exact bgpWithdraw_keeps self w s call.toUpdateCall none Tight books
  | networkSet w bgpStatic p safi => exact bgpStaticUpdate_books self w books bgpStatic p safi
  | networkUnset p safi => exact bgpStaticWithdraw_keeps self s p safi none none Tight books
  | vpnSet w p prd tag => exact bgpStaticUpdateVpnv4_books self w books p prd tag
  | vpnUnset p prd => exact bgpStaticWithdraw_keeps self s p .mplsVpn (some prd) none Tight books
  | redistributeAdd w p redist => exact bgpRedistributeAdd_books self w books p redist
  | redistributeDelete p code => exact bgpRedistributeDelete_keeps self s p code none Tight books
  | aggregateSet p safi summaryOnly asSet =>
    exact bgpAggregateSet_keeps self s p.family safi p summaryOnly asSet none Tight books
  | aggregateUnset p safi => exact bgpAggregateUnset_keeps self s p.family safi p none Tight books
  | reuse rn id now => exact bgpReuse_keeps self s rn id now none Tight books
  | scan w afi => exact bgpScan_keeps self w s afi none Tight books
  | runMain => exact runMainQueue_books self books
  | runRsclient => exact runRsclientQueue_books self books

variable {sys : System}

/-- A family is closed whose count is zero already, or one of our own. -/
theorem peerDeactivate_books (books : Books own none Tight sys.tables) (d : Deactivation)
    (careful : d.peer ≠ own → d.closes env = true → sys.tables.pcount d.peer d.afi d.safi = 0) :
    Books own none Tight (peerDeactivate env sys d).tables := by
  unfold peerDeactivate
  split
  · rename_i closes
    refine { books with
      sound := ⟨books.sound.bounded, books.sound.distinct, books.sound.listed⟩
      count := fun peer other afi safi => ?_ }
    change replaceAf sys.tables.pcount d.peer d.afi d.safi 0 peer afi safi =
      counted sys.tables peer afi safi + inHand none peer afi safi
    rw [← books.count peer other afi safi]
    unfold replaceAf
    split
    · rename_i same
      obtain ⟨rfl, rfl, rfl⟩ := same
      exact (careful other closes).symm
    · rfl
  · exact books

theorem step_books (books : Books own none Tight sys.tables) (turn : Turn own)
    (careful : Careful sys turn) : Books own none Tight (step sys turn).tables := by
  obtain ⟨env, self, act⟩ := turn
  cases act with
  | call action =>
    refine call_books self books action fun w call same => ?_
    subst same
    exact careful
  | clearRoute peer afi safi purpose => exact books
  | clearTurn session peer =>
    change Books own none Tight (clearTurn env session sys peer).tables
    unfold clearTurn
    split
    · exact books
    · exact bgpClearRouteNode_keeps self peer session sys.tables _ none Tight books
  | clearStaleRoute peer afi safi =>
    exact bgpClearStaleRoute_keeps self sys.tables peer afi safi none Tight books
  | deactivate d => exact peerDeactivate_books books d careful

/-! ## What the books say -/

theorem fresh_books (fresh : Fresh s) : Books own none Tight s where
  sound := ⟨fun rn ri held => by simp [fresh.infos rn] at held, fun rn => by simp [fresh.infos rn],
    fun rn holds => absurd (fresh.infos rn) holds⟩
  walked := fresh.walked
  reserved := nofun
  count := by
    intro peer _ afi safi
    have none : counted s peer afi safi = 0 := by
      refine List.sum_eq_zero fun n member => ?_
      obtain ⟨rn, -, rfl⟩ := List.mem_map.mp member
      unfold nodeCount marks
      rw [fresh.infos rn]
      split <;> rfl
    rw [fresh.uncounted, none]
    rfl
  marked := fun rn _ ri held => by simp [fresh.infos rn] at held
  home := fun rn _ _ ri held => by simp [fresh.infos rn] at held
  steady := fun rn peer warned => by simp [fresh.log] at warned

/-- What the tables have in a neighbour's count is its usable routes of the main table. -/
theorem counted_eq_usable (books : Books own none Tight s) (peer : Nat) (other : peer ≠ own)
    (afi : Afi) (safi : Safi) : counted s peer afi safi = usable s peer afi safi := by
  unfold counted usable
  induction s.nodes with
  | nil => rfl
  | cons rn later ih =>
    rw [List.map_cons, List.sum_cons, ih]
    by_cases main : rn.owner = .main
    · have type := Steps.table_main rn main
      by_cases family : rn.afi = afi ∧ rn.safi = safi
      · rw [List.filter_cons_of_pos (by simp [main, family]), List.map_cons, List.sum_cons]
        congr 1
        unfold nodeCount marks
        rw [if_pos (by simp [countsIn, type, family])]
        refine List.countP_congr fun ri held => ?_
        simp only [decide_eq_true_eq, Bool.not_eq_true', and_congr_right_iff]
        rintro rfl
        rw [books.marked rn type ri held other fun loose => loose, Bool.not_eq_true']
      · rw [List.filter_cons_of_neg (by simpa [main] using family)]
        unfold nodeCount
        rw [if_neg (by simpa [countsIn, type] using family), Nat.zero_add]
    · rw [List.filter_cons_of_neg (by simp [main])]
      have none : nodeCount s peer afi safi rn = 0 := by
        unfold nodeCount marks
        split
        · rename_i counts
          have type := (of_decide_eq_true counts).1
          refine List.countP_eq_zero.mpr fun ri held => ?_
          rw [books.home rn type main ri held]
          simp [Ne.symm other]
        · rfl
      rw [none, Nat.zero_add]

theorem reliable_of_books (books : Books own none Tight s) : Reliable own s where
  count := by
    intro peer other afi safi
    rw [books.count peer other afi safi, counted_eq_usable books peer other afi safi]
    rfl
  marked := by
    intro rn main ri held other
    rw [books.marked rn (Steps.table_main rn main) ri held other fun loose => loose,
      Bool.not_eq_true']
  steady := books.steady

/-- In every run whose steps are careful the prefix counts can be relied on. Deactivating a
family sets its count to zero while the routes stay, and a client's nested VPN table
counts a second time for the same neighbour. -/
theorem counts_right {own : Nat} (s : State) (fresh : Fresh s) (turns : List (Turn own))
    (careful : Guarded step Careful ⟨s, fun _ => []⟩ turns) :
    Reliable own (run step ⟨s, fun _ => []⟩ turns).tables :=
  reliable_of_books
    (guarded_invariant step Careful (fun sys => Books own none Tight sys.tables)
      (fun _ turn books careful => step_books books turn careful) ⟨s, fun _ => []⟩ turns
      (fresh_books fresh) careful)

/-! ## Runs -/

/-- A step of the plain instance with neighbour 1, or with a client 2 for VPN routes. -/
def plainTurn (shares : Bool) (act : Act) : Turn 0 where
  env :=
    if shares then
      { Actions.plainEnv [1, 2] with
        rsclients := [2]
        config := fun peer =>
          { (Actions.plainEnv [1, 2]).config peer with
            afFlags := fun _ _ => { rserverClient := peer = 2 } }
        config_id := fun _ => rfl }
    else Actions.plainEnv [1]
  same := by cases shares <;> rfl
  act := act

/-- Neighbour 1 announces a prefix. -/
def learn : Act :=
  .call (.update (Actions.plainWorld 0)
    (Actions.plainRoute 1 (Clearing.halfOf .ip) (Actions.plainAttr 0x0A000001 0)))

/-- It announces it as a VPN route. -/
def learnVpn : Act :=
  .call (.update (Actions.plainWorld 0)
    { Actions.plainRoute 1 (Clearing.halfOf .ip) (Actions.plainAttr 0x0A000001 0) with
      safi := .mplsVpn, prd := some 1 })

/-- Its IPv4 unicast family is closed. -/
def close : Act := .deactivate ⟨1, .ip, .unicast, false, true⟩

/-- Empty tables. -/
def start : System := ⟨.empty, fun _ => []⟩

theorem fresh_empty : Fresh .empty := ⟨Actions.initial_empty, List.nodup_nil, fun _ _ _ => rfl⟩

/-- A route is learned, cleared and processed. -/
theorem counts_right_cleared :
    Reliable 0 (run step start (List.map (plainTurn false)
      [learn, .clearRoute 1 .ip .unicast .normal, .clearTurn {} 1, .call .runMain])).tables :=
  counts_right .empty fresh_empty _
    ⟨nofun, trivial, trivial, trivial, trivial⟩

/-- After the family is closed the count is zero with a route in use, whose clearing then
asks for less than zero; and a VPN route counts twice where a client has it too. -/
theorem counts_not_right :
    (let closed := run step start (List.map (plainTurn false) [learn, close])
      let cleared := run step start (List.map (plainTurn false) [learn, close, .clearTurn {} 1])
      closed.tables.pcount 1 .ip .unicast = 0 ∧ usable closed.tables 1 .ip .unicast = 1 ∧
        .zeroCount (Clearing.halfNode .ip) 1 ∈ cleared.tables.log ∧
        ¬ Reliable 0 closed.tables ∧ ¬ Reliable 0 cleared.tables) ∧
    (let shared := run step start (List.map (plainTurn true) [learnVpn])
     shared.tables.pcount 1 .ip .mplsVpn = 2 ∧ usable shared.tables 1 .ip .mplsVpn = 1 ∧
       ¬ Reliable 0 shared.tables) := by
  refine ⟨⟨by decide, by decide, by decide, fun reliable => ?_, fun reliable => ?_⟩,
    by decide, by decide, fun reliable => ?_⟩
  · exact absurd (reliable.count 1 (by decide) .ip .unicast) (by decide)
  · exact reliable.steady (Clearing.halfNode .ip) 1 (by decide)
  · exact absurd (reliable.count 1 (by decide) .ip .mplsVpn) (by decide)

end Bgpd.PrefixCounts
