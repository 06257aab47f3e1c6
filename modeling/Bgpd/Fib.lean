import Bgpd.Propagation
import Bgpd.Sources
import Bgpd.Writes

/-!
# What zebra holds

Zebra keeps one BGP route for a prefix: a new one replaces it, and it is taken out
when it is withdrawn by the next hop it has. The daemon withdraws a route by the
next hop it has when the node is processed, which need not be the one that was
sent; and a route whose IGP metric changed is sent again without asking whether
the instance has a name.

While neither happens, and no mark of a change is lost, zebra holds the chosen
learned route of every IPv4 unicast node once the queue is empty.
-/

namespace Bgpd.Fib

open Octets Prefixes Rib Selection Processing Damping Aggregation Evolution Primitives Steps Calls
  Sources Choice Outcome Writes Actions Propagation Runs

/-- The BGP route zebra has for a prefix. -/
structure Held where
  nexthop : ZebraNexthop
  metric : U32
  deriving DecidableEq, Repr

/-- What a message does to the route of a prefix: `rib_add_ipv4` replaces it, and
`rib_delete_ipv4` takes it out where it has the next hop of the message. -/
def zebraReceive (p : Prefix) (effect : Effect) (held : Option Held) : Option Held :=
  match effect with
  | .zebraAdd rn route => if rn.p = p then some ⟨route.nexthop, route.metric⟩ else held
  | .zebraDelete rn route =>
    if rn.p = p ∧ held.any (·.nexthop = route.nexthop) then none else held
  | _ => held

/-- What zebra has for a prefix once it received all messages. -/
def zebraHolds (log : List Effect) (p : Prefix) : Option Held := log.foldr (zebraReceive p) none

/-- A route as zebra has it. -/
def entry (ri : BgpInfo) : Held := ⟨.inet ri.attr.nexthop, ri.attr.med⟩

/-- Zebra holds the chosen route of a node, where it is a learned one, and nothing
otherwise. -/
def Installed (s : State) (rn : Node) : Prop :=
  zebraHolds s.log rn.p = ((chosen s rn).filter BgpInfo.learned).map entry

variable (env : Env)

/-- Routes of the node are for zebra: those of the unicast main tables of the
instance without a name. -/
def Sends (rn : Node) : Prop := rn.owner = .main ∧ rn.safi = .unicast ∧ env.bgp.named = false

/-- Zebra has every chosen route, or the route is marked in a queued node and zebra
still has another one of it; and no message was sent for any other node. -/
structure InStep (s : State) : Prop where
  sound : Sound s
  single : ∀ rn, rn.owner = .main → Single s rn
  typed : ∀ rn ∈ s.mainQueue, rn.table.type = .main
  scanned : ∀ rn, ∀ ri ∈ s.infos rn, ri.flags.igpChanged = true →
    Sends env rn ∧ BgpInfo.learned ri = true
  sent : ∀ effect ∈ s.log, ∀ rn, ToZebra rn effect → Sends env rn
  held : ∀ rn, Sends env rn → rn.afi = .ip → Installed s rn ∨
    ∃ c, chosen s rn = some c ∧ BgpInfo.learned c = true ∧ (zebraHolds s.log rn.p).isSome = true ∧
      Loud s.mainQueue rn c

/-! ## Messages -/

theorem zebraHolds_append (extra log : List Effect) (p : Prefix)
    (other : ∀ effect ∈ extra, ∀ rn, ToZebra rn effect → rn.p ≠ p) :
    zebraHolds (extra ++ log) p = zebraHolds log p := by
  induction extra with
  | nil => rfl
  | cons effect later ih =>
    have step :
        zebraReceive p effect (zebraHolds (later ++ log) p) = zebraHolds (later ++ log) p := by
      have apart := other effect List.mem_cons_self
      cases effect with
      | zebraAdd rn route => exact if_neg (apart rn rfl)
      | zebraDelete rn route => exact if_neg fun same => apart rn rfl same.1
      | _ => rfl
    exact step.trans (ih fun effect member => other effect (List.mem_cons_of_mem _ member))

variable {rn : Node}

/-- A node whose routes are for zebra is that of its prefix. -/
theorem Sends.unique {env : Env} {rn' : Node} (sends : Sends env rn) (sends' : Sends env rn')
    (same : rn.p = rn'.p) : rn = rn' := by
  obtain ⟨main, unicast, -⟩ := sends
  obtain ⟨main', unicast', -⟩ := sends'
  have none := rn.prd_none (by rw [unicast]; decide)
  have none' := rn'.prd_none (by rw [unicast']; decide)
  cases rn
  cases rn'
  simp_all

theorem announceMessages_ip (rn : Node) (ri : BgpInfo) (up : env.zebraUp = true)
    (ip : rn.afi = .ip) (log : List Effect) :
    zebraHolds (announceMessages env rn ri ++ log) rn.p = some (entry ri) := by
  have ip' : rn.p.family = .ip := ip
  unfold announceMessages bgpZebraAnnounce announcedNexthop
  rw [up, ip']
  simp [State.empty, zebraHolds, zebraReceive, entry]

theorem withdrawMessages_ip (rn : Node) (ri : BgpInfo) (up : env.zebraUp = true)
    (ip : rn.afi = .ip) (log : List Effect) :
    zebraHolds (withdrawMessages env rn ri ++ log) rn.p =
      if (zebraHolds log rn.p).any (·.nexthop = .inet ri.attr.nexthop) then none
      else zebraHolds log rn.p := by
  have ip' : rn.p.family = .ip := ip
  unfold withdrawMessages bgpZebraWithdraw withdrawnNexthop
  rw [up, ip']
  simp only [State.empty, Bool.not_true, Bool.false_eq_true, if_false, zebraHolds, List.cons_append,
    List.nil_append, List.foldr_cons, zebraReceive, true_and]
  rfl

/-- The messages for a node whose routes are for zebra. -/
theorem fibMessages_sends (rn : Node) (old new : Option BgpInfo) (sends : fibNode env rn = true) :
    fibMessages env rn old new =
      match new.filter BgpInfo.learned, old.filter BgpInfo.learned with
      | some ri, _ => announceMessages env rn ri
      | none, some ri => withdrawMessages env rn ri
      | none, none => [] := by
  unfold fibMessages fibUpdate
  rw [if_pos sends]
  cases new.filter BgpInfo.learned with
  | some ri => rfl
  | none => cases old.filter BgpInfo.learned <;> rfl

theorem sends_fibNode {env : Env} (installs : env.noFib = false) (sends : Sends env rn) :
    fibNode env rn = true := by
  obtain ⟨-, unicast, unnamed⟩ := sends
  simp [fibNode, unicast, unnamed, installs]

/-- A node of the main type whose routes the source sends to zebra is one of those. -/
theorem fibNode_sends {env : Env} (type : rn.table.type = .main) (sends : fibNode env rn = true) :
    Sends env rn := by
  simp only [fibNode, Bool.and_eq_true, decide_eq_true_eq, Bool.not_eq_true'] at sends
  obtain ⟨⟨unicast, unnamed⟩, -⟩ := sends
  refine ⟨?_, unicast, unnamed⟩
  unfold Node.table at type
  rw [rn.prd_none (by rw [unicast]; decide)] at type
  cases owner : rn.owner with
  | main => rfl
  | rsclient peer =>
    rw [owner] at type
    exact absurd type (by simp)

/-! ## Calls -/

/-- The scope of a call: nothing is asked of a route that is not chosen in a node
whose routes are for zebra. -/
def ofSent (s : State) : Scope where
  exempt := fun rn id => ¬ (Sends env rn ∧ rn.afi = .ip) ∨
    ∀ ri ∈ s.infos rn, ri.id = id → ri.flags.selected = false
  counted := False
  admits := fun _ => True
  nodes := fun rn => rn.table.type = .main
  scans := Sends env

theorem ofSent_covers (s : State) : (ofSent env s).Covers env :=
  ⟨fun rn main => table_main rn main, fun _ _ _ _ => trivial⟩

theorem learned_iff (ri : BgpInfo) :
    BgpInfo.learned ri = true ↔ ri.type = .bgp ∧ ri.subType = .normal := by
  simp [BgpInfo.learned]

variable {ri ri' : BgpInfo}

theorem learned_congr (type : ri'.type = ri.type) (subType : ri'.subType = ri.subType) :
    BgpInfo.learned ri' = BgpInfo.learned ri := by
  unfold BgpInfo.learned
  rw [type, subType]

variable {s s' : State}

/-- A call leaves zebra in step, or the change marked. -/
theorem InStep.evolves (before : InStep env s) (evolves : Evolves (ofSent env s) s s') :
    InStep env s' where
  sound := evolves.sound before.sound
  single := fun rn main => evolves_single evolves (before.single rn main)
  typed := by
    obtain ⟨extra, grown, typed⟩ := evolves.mainQueue
    intro rn member
    rw [grown] at member
    exact (List.mem_append.mp member).elim (before.typed rn) (typed rn)
  scanned := by
    intro rn ri' member changed
    obtain ⟨added, change, same, kin, new, -⟩ := evolves.infos rn
    rw [same] at member
    rcases List.mem_append.mp member with late | early
    · obtain ⟨sends, learned⟩ := (new ri' late).scanned changed
      exact ⟨sends, (learned_iff ri').mpr learned⟩
    · obtain ⟨ri, held, rfl⟩ := List.mem_map.mp early
      rw [learned_congr (kin ri held).type (kin ri held).subType, learned_iff]
      rcases (kin ri held).igpChanged changed with already | ⟨sends, learned⟩
      · rw [← learned_iff]
        exact before.scanned rn ri held already
      · exact ⟨sends, learned⟩
  sent := by
    obtain ⟨extra, grown, inward⟩ := evolves.log
    intro effect member rn message
    rw [grown] at member
    rcases List.mem_append.mp member with late | early
    · have entry := inward effect late
      cases effect <;> first | exact message.elim | exact entry.elim
    · exact before.sent effect early rn message
  held := by
    intro rn sends ip
    obtain ⟨stays, moves⟩ := evolves_chosen evolves before.sound (before.single rn sends.1)
    have last : zebraHolds s'.log rn.p = zebraHolds s.log rn.p := by
      obtain ⟨extra, grown, inward⟩ := evolves.log
      rw [grown]
      refine zebraHolds_append extra s.log rn.p fun effect member other message => ?_
      have entry := inward effect member
      cases effect <;> first | exact message.elim | exact entry.elim
    unfold Installed
    rw [last]
    have told := before.held rn sends ip
    unfold Installed at told
    cases found : chosen s rn with
    | none =>
      rw [found] at told
      rw [stays found]
      exact told.imp_right fun ⟨c, absurd', _⟩ => nomatch absurd'
    | some c =>
      obtain ⟨held, marked⟩ := chosen_mem found
      obtain ⟨c', found', kin⟩ := moves c found
      have learned := learned_congr kin.type kin.subType
      rw [found] at told
      rw [found']
      rcases kin.course with exempt | silent | loud
      · rcases exempt with apart | unselected
        · exact absurd ⟨sends, ip⟩ apart
        · rw [unselected c held rfl] at marked
          exact absurd marked Bool.false_ne_true
      · have same : ((some c').filter BgpInfo.learned).map entry =
            ((some c).filter BgpInfo.learned).map entry := by
          simp only [Option.filter_some, learned]
          split
          · simp [entry, silent.attr]
          · rfl
        rw [same]
        refine told.imp_right fun ⟨other, this, kind, sent, flagged, queued⟩ => ?_
        obtain rfl : c = other := Option.some.inj this
        exact ⟨c', rfl, learned.trans kind, sent, flagged.imp silent.marked silent.removed,
          evolves.queued rn queued⟩
      · cases kind : BgpInfo.learned c with
        | false =>
          left
          rcases told with installed | ⟨other, this, kind', -⟩
          · rw [installed, Option.filter_some, Option.filter_some, learned, kind]
            rfl
          · obtain rfl : c = other := Option.some.inj this
            exact absurd (kind.symm.trans kind') Bool.false_ne_true
        | true =>
          refine Or.inr ⟨c', rfl, learned.trans kind, ?_, loud⟩
          rcases told with installed | ⟨other, -, -, sent, -⟩
          · rw [installed, Option.filter_some, kind]
            rfl
          · exact sent

/-! ## Processing -/

/-- Where the selection leaves no learned route of a node, the route it takes the
place of has the next hop that zebra has. -/
def Withdrawable (s : State) : Prop :=
  ∀ rn, s.mainQueue.head? = some rn → Sends env rn → rn.afi = .ip →
    ∀ c, chosen s rn = some c → BgpInfo.learned c = true →
      (∃ ri ∈ s.infos rn, (bgpBestSelection env (s.infos rn)).new = some ri.id ∧
        BgpInfo.learned ri = true) ∨
      ∀ held, zebraHolds s.log rn.p = some held → held.nexthop = .inet c.attr.nexthop

theorem SameRoute.learned (same : SameRoute ri ri') :
    BgpInfo.learned ri' = BgpInfo.learned ri := learned_congr same.type same.subType

theorem SameRoute.entry (same : SameRoute ri ri') : entry ri' = entry ri := by
  unfold Fib.entry
  rw [same.attr]

/-- The announcements to the neighbours are nothing to zebra. -/
theorem announcement_quiet (s : State) (rn : Node) (new : Option BgpInfo) :
    ∀ effect ∈ (env.peers.filterMap (announcement env s rn new)).reverse,
      ∀ rn', ¬ ToZebra rn' effect := by
  intro effect member rn' message
  obtain ⟨peer, -, told⟩ := List.mem_filterMap.mp (List.mem_reverse.mp member)
  unfold announcement at told
  split at told
  · obtain rfl := Option.some.inj told
    split at message <;> exact message
  · exact absurd told (by simp)

/-- A node that is processed is installed afterwards. -/
theorem settles_installed (up : env.zebraUp = true) (sends : fibNode env rn = true)
    (ip : rn.afi = .ip) (sound : Sound s) (settles : Settles env s s' rn)
    (picks : Picks (s.infos rn) (bgpBestSelection env (s.infos rn)).new (chosen s' rn))
    (scanned : ∀ ri ∈ s.infos rn, ri.flags.igpChanged = true → BgpInfo.learned ri = true)
    (before : Installed s rn ∨ ∃ c, chosen s rn = some c ∧ BgpInfo.learned c = true ∧
      (c.flags.attrChanged = true ∨ c.flags.removed = true))
    (withdrawable : ∀ c, chosen s rn = some c → BgpInfo.learned c = true →
      (∃ ri ∈ s.infos rn, (bgpBestSelection env (s.infos rn)).new = some ri.id ∧
        BgpInfo.learned ri = true) ∨
      ∀ held, zebraHolds s.log rn.p = some held → held.nexthop = .inet c.attr.nexthop) :
    Installed s' rn := by
  cases settles with
  | kept c c' found after remarked unmarked present log =>
    have same := Remarked.sameRoute remarked
    have installed : zebraHolds s.log rn.p = ((some c).filter BgpInfo.learned).map entry := by
      rcases before with installed | ⟨other, found', -, flagged⟩
      · rw [← found]
        exact installed
      · obtain rfl : c = other := Option.some.inj (found.symm.trans found')
        rw [unmarked, present] at flagged
        exact absurd flagged (by simp)
    unfold Installed
    rw [after, log]
    split
    · rename_i changed
      have learned : BgpInfo.learned c = true := by
        apply scanned c (chosen_mem found).1
        obtain ⟨check, group, rfl⟩ := remarked
        exact changed
      rw [announceMessages_ip env rn c' up ip, Option.filter_some, SameRoute.learned same, learned]
      rfl
    · rw [List.nil_append, installed, Option.filter_some, Option.filter_some,
        SameRoute.learned same]
      split
      · rw [Option.map_some, Option.map_some, SameRoute.entry same]
      · rfl
  | told old same absent log =>
    have quiet := zebraHolds_append _ s.log rn.p fun effect member other message =>
      absurd message (announcement_quiet env s rn (chosen s' rn) effect member other)
    unfold Installed
    rw [log, fibMessages_sends env rn _ _ sends]
    cases new : (chosen s' rn).filter BgpInfo.learned with
    | some ri => exact announceMessages_ip env rn ri up ip _
    | none =>
      cases gone : old.filter BgpInfo.learned with
      | none =>
        rw [List.nil_append, quiet, Option.map_none]
        rcases before with installed | ⟨c, found, learned, -⟩
        · unfold Installed at installed
          rw [installed]
          cases found : chosen s rn with
          | none => rfl
          | some c =>
            obtain ⟨c', rfl, route⟩ := same c found
            rw [Option.filter_some, SameRoute.learned route] at gone
            rw [Option.filter_some]
            split at gone
            · exact nomatch gone
            · rename_i foreign
              rw [if_neg foreign]
              rfl
        · obtain ⟨c', rfl, route⟩ := same c found
          rw [Option.filter_some, SameRoute.learned route, learned] at gone
          exact nomatch gone
      | some o =>
        rw [withdrawMessages_ip env rn o up ip, quiet, Option.map_none]
        obtain ⟨oldRoute, kind⟩ := Option.filter_eq_some_iff.mp gone
        cases found : chosen s rn with
        | none =>
          rw [absent found] at oldRoute
          exact nomatch oldRoute
        | some c =>
          obtain ⟨c', here, route⟩ := same c found
          obtain rfl : o = c' := Option.some.inj (oldRoute.symm.trans here)
          rcases withdrawable c found ((SameRoute.learned route).symm.trans kind) with
            ⟨ri, held, picked, learned⟩ | current
          · exfalso
            have named := picks.named.trans picked
            obtain ⟨c', after, name⟩ := Option.map_eq_some_iff.mp named
            obtain ⟨ri', held', route'⟩ := picks.origin c' after
            obtain rfl := sound.unique held held' (route'.id.symm.trans name)
            rw [after, Option.filter_some, SameRoute.learned route', learned] at new
            exact nomatch new
          · cases stored : zebraHolds s.log rn.p with
            | none => rfl
            | some held =>
              rw [Option.any_some, current held stored, route.attr]
              simp

/-- Processing a node leaves no route with a scanned change that had none. -/
theorem scanned_processed (processed : Processed rn s s')
    (scanned : ∀ rn, ∀ ri ∈ s.infos rn, ri.flags.igpChanged = true →
      Sends env rn ∧ BgpInfo.learned ri = true) :
    ∀ rn, ∀ ri ∈ s'.infos rn, ri.flags.igpChanged = true →
      Sends env rn ∧ BgpInfo.learned ri = true := by
  intro other ri' member changed
  by_cases here : other = rn
  · subst here
    obtain ⟨ri, held, _, _, _, _, rfl⟩ := processed.origin ri' member
    exact scanned other ri held changed
  · rw [processed.apart other here] at member
    exact scanned other ri' member changed

/-- Processing the next node leaves zebra in step. -/
theorem InStep.runMain (up : env.zebraUp = true) (installs : env.noFib = false)
    (before : InStep env s) (withdrawable : Withdrawable env s) :
    InStep env (runMainQueue env s) := by
  unfold runMainQueue
  split
  · exact before
  · rename_i rn later queue
    have head : s.mainQueue.head? = some rn := by rw [queue]; rfl
    have type := before.typed rn (by rw [queue]; exact List.mem_cons_self)
    have processed := bgpProcessMain_processed env { s with mainQueue := later } rn
    have adds := bgpProcessMain_adds env { s with mainQueue := later } rn
    have sound : Sound { s with mainQueue := later } := before.sound.queues later s.rsclientQueue
    -- a message is about the node, and only sent where its routes are for zebra
    have forwarded : Adds (fun effect => ∀ rn', ToZebra rn' effect → rn' = rn ∧ Sends env rn)
        { s with mainQueue := later } (bgpProcessMain env { s with mainQueue := later } rn) := by
      refine adds.widen fun effect entry rn' message => ?_
      rcases entry with ⟨peer, -, told⟩ | ⟨about, reason⟩
      · cases effect <;> first | exact message.elim | exact told.elim
      · refine ⟨Option.some.inj (message.about.symm.trans about.about), ?_⟩
        rcases reason with sends | ⟨ri, held, changed⟩
        · exact fibNode_sends type sends
        · exact (before.scanned rn ri held changed).1
    refine ⟨processed.sound sound, ?_, ?_, ?_, ?_, ?_⟩
    · intro other main
      by_cases here : other = rn
      · subst here
        exact (bgpProcessMain_settles env _ other sound (before.single other main)).2.1
      · exact Processed.single processed here (before.single other main)
    · rw [processed.mainQueue]
      intro other member
      exact before.typed other (by rw [queue]; exact List.mem_cons_of_mem _ member)
    · exact scanned_processed env processed before.scanned
    · refine Adds.all (forwarded.widen fun effect entry rn' message => ?_) before.sent
      obtain ⟨rfl, sends⟩ := entry rn' message
      exact sends
    · intro other sends ip
      by_cases here : other = rn
      · subst here
        obtain ⟨settles, -, picks⟩ := bgpProcessMain_settles env { s with mainQueue := later } other
          sound (before.single other sends.1)
        refine Or.inl (settles_installed env up (sends_fibNode installs sends) ip sound
          settles picks
          (fun ri held changed => (before.scanned other ri held changed).2) ?_
          (withdrawable other head sends ip))
        exact (before.held other sends ip).imp_right fun ⟨c, found, learned, _, flagged, _⟩ =>
          ⟨c, found, learned, flagged⟩
      · have last : zebraHolds (bgpProcessMain env { s with mainQueue := later } rn).log other.p =
            zebraHolds s.log other.p := by
          obtain ⟨extra, grown, each⟩ := forwarded
          rw [grown]
          refine zebraHolds_append extra s.log other.p fun effect member rn' message alike => ?_
          obtain ⟨rfl, sends'⟩ := each effect member rn' message
          exact here (sends.unique sends' alike.symm)
        unfold Installed
        rw [processed.chosen here, last, processed.mainQueue]
        refine (before.held other sends ip).imp_right ?_
        rintro ⟨c, found, learned, sent, flagged, queued⟩
        rw [queue] at queued
        exact ⟨c, found, learned, sent, flagged, (List.mem_cons.mp queued).resolve_left here⟩

theorem InStep.runRsclient (before : InStep env s)
    (clients : ∀ rn ∈ s.rsclientQueue, rn.table.type = .rsclient) :
    InStep env (runRsclientQueue env s) := by
  unfold runRsclientQueue
  split
  · exact before
  · rename_i rn later queue
    have processed := bgpProcessRsclient_processed env { s with rsclientQueue := later } rn
    have adds := bgpProcessRsclient_adds env { s with rsclientQueue := later } rn
    have client := clients rn (by rw [queue]; exact List.mem_cons_self)
    have apart : ∀ other : Node, other.owner = .main → other ≠ rn := by
      rintro other main rfl
      rw [table_main other main] at client
      exact absurd client (by decide)
    have silent : Adds (fun effect => ∀ rn', ¬ ToZebra rn' effect)
        { s with rsclientQueue := later } (bgpProcessRsclient env
            { s with rsclientQueue := later } rn) := by
      refine adds.widen fun effect entry rn' message => ?_
      obtain ⟨peer, -, told⟩ := entry
      cases effect <;> first | exact message.elim | exact told.elim
    refine ⟨processed.sound (before.sound.queues s.mainQueue later), ?_, ?_, ?_, ?_, ?_⟩
    · intro other main
      exact Processed.single processed (apart other main) (before.single other main)
    · rw [processed.mainQueue]
      exact before.typed
    · exact scanned_processed env processed before.scanned
    · exact Adds.all (silent.widen fun effect quiet rn' message => absurd message (quiet rn'))
        before.sent
    · intro other sends ip
      have last :
        zebraHolds (bgpProcessRsclient env { s with rsclientQueue := later } rn).log other.p =
          zebraHolds s.log other.p := by
        obtain ⟨extra, grown, each⟩ := silent
        rw [grown]
        exact zebraHolds_append extra s.log other.p fun effect member rn' message =>
          absurd message (each effect member rn')
      unfold Installed
      rw [processed.chosen (apart other sends.1), last, processed.mainQueue]
      exact before.held other sends ip

/-! ## Runs -/

/-- Updates, withdrawals, next-hop scans and runs of the queues. -/
def Forwarding : Action → Prop
  | .update _ _ | .withdraw _ _ | .scan _ _ | .runMain | .runRsclient => True
  | _ => False

/-- No call loses the mark of a change of an IPv4 unicast route, none finds a new
IGP metric in an instance that has a name, and no route is withdrawn from zebra by
another next hop than the one it has there. -/
def Careful (s : State) : Action → Prop
  | .update w call => env.bgp.named = false → call.safi = .unicast → call.p.family = .ip →
    Mindful env s (.update w call)
  | .scan w afi => env.bgp.named = true → env.isDefault = true →
    ∀ attr, (w.lookup afi attr).changed = false
  | .runMain => Withdrawable env s
  | _ => True

/-- In step, with the queue of the clients' tables in order. -/
structure Orderly (s : State) : Prop where
  inStep : InStep env s
  clients : ∀ rn ∈ s.rsclientQueue, rn.table.type = .rsclient

theorem Orderly.evolves (before : Orderly env s) (evolves : Evolves (ofSent env s) s s') :
    Orderly env s' where
  inStep := before.inStep.evolves env evolves
  clients := by
    obtain ⟨extra, grown, clients⟩ := evolves.rsclientQueue
    intro rn member
    rw [grown] at member
    exact (List.mem_append.mp member).elim (before.clients rn) (clients rn)

theorem Orderly.step (up : env.zebraUp = true) (installs : env.noFib = false)
    (before : Orderly env s) (action : Action) (forwarding : Forwarding action)
    (careful : Careful env s action) : Orderly env (step env s action) := by
  have sound := before.inStep.sound
  have clients : ∀ call, Clients env (ofSent env s) call := fun call rsclient _ _ =>
    ⟨fun type => type, fun id => Or.inl fun sends => nomatch sends.1.1⟩
  cases action with
  | update w call =>
    refine before.evolves env (bgpUpdate_evolves env w (ofSent_covers env s) s
      call.toUpdateCall sound
      (by rw [call.normal]; decide) (clients _) ⟨fun _ _ => trivial, fun _ _ _ => trivial⟩ ?_)
    intro ri changed found admits
    by_cases sends : Sends env (call.node .main) ∧ (call.node .main).afi = .ip
    · cases marked : ri.flags.selected with
      | true =>
        obtain ⟨⟨-, unicast, unnamed⟩, ip⟩ := sends
        exact Or.inr (careful unnamed unicast ip ri changed found admits marked)
      | false =>
        refine Or.inl (Or.inr fun other held same => ?_)
        rw [sound.unique (findInfo_some found).1 held same]
        exact marked
    · exact Or.inl (Or.inl sends)
  | withdraw w call =>
    exact before.evolves env (bgpWithdraw_evolves env w (ofSent_covers env s) s
      call.toUpdateCall sound
      (clients _))
  | scan w afi =>
    refine before.evolves env (bgpScan_evolves env w (ofSent_covers env s) s afi sound not_false ?_)
    intro default rn main unicast ri changed
    refine ⟨main, unicast, Bool.eq_false_iff.mpr fun named => ?_⟩
    have unchanged := Bool.eq_false_iff.mp (careful named default ri.attr)
    unfold Updates.bgpNexthopLookup at changed
    dsimp only at changed
    split_ifs at changed
    · exact unchanged changed
    · exact unchanged changed
  | runMain =>
    refine ⟨before.inStep.runMain env up installs careful, ?_⟩
    change ∀ rn ∈ (runMainQueue env s).rsclientQueue, rn.table.type = .rsclient
    unfold runMainQueue
    split
    · exact before.clients
    · rename_i rn later queue
      rw [(bgpProcessMain_processed env { s with mainQueue := later } rn).rsclientQueue]
      exact before.clients
  | runRsclient =>
    refine ⟨before.inStep.runRsclient env before.clients, ?_⟩
    change ∀ rn ∈ (runRsclientQueue env s).rsclientQueue, rn.table.type = .rsclient
    unfold runRsclientQueue
    split
    · exact before.clients
    · rename_i rn later queue
      rw [(bgpProcessRsclient_processed env { s with rsclientQueue := later } rn).rsclientQueue]
      intro other member
      exact before.clients other (by rw [queue]; exact List.mem_cons_of_mem _ member)
  | _ => exact forwarding.elim

theorem Initial.orderly (initial : Initial s) : Orderly env s where
  inStep := by
    have faithful := Initial.faithful env initial
    refine ⟨faithful.sound, faithful.single, ?_, ?_, ?_, ?_⟩
    · rw [initial.mainQueue]
      exact fun _ member => absurd member List.not_mem_nil
    · intro rn ri member
      rw [initial.infos rn] at member
      exact absurd member List.not_mem_nil
    · rw [initial.log]
      exact fun _ member => absurd member List.not_mem_nil
    · intro rn _ _
      left
      unfold Installed chosen
      rw [initial.infos rn, initial.log]
      rfl
  clients := (Initial.faithful env initial).clients

/-- With zebra connected and routes installed, in every run of updates, withdrawals,
scans and the queues whose steps all are careful: zebra holds exactly the chosen
learned route of each IPv4 prefix, with its next hop and MED, whenever the queue is
empty, and no message was sent for a node of any other kind or of an instance with a
name. -/
theorem fib_agrees (start : State) (actions : List Action) (up : env.zebraUp = true)
    (installs : env.noFib = false) (initial : Initial start)
    (careful : Guarded (step env) (fun s action => Forwarding action ∧ Careful env s action) start
      actions) :
    ((run (step env) start actions).mainQueue = [] → env.bgp.named = false →
      ∀ p : Prefix, p.family = .ip → zebraHolds (run (step env) start actions).log p =
        ((chosen (run (step env) start actions) (ownNode .unicast p)).filter BgpInfo.learned).map
          entry) ∧
      ∀ effect ∈ (run (step env) start actions).log, ∀ rn, ToZebra rn effect →
        rn.owner = .main ∧ rn.safi = .unicast ∧ env.bgp.named = false := by
  have orderly := guarded_invariant (step env)
    (fun s action => Forwarding action ∧ Careful env s action) (Orderly env)
    (fun s action before guard => Orderly.step env up installs before action guard.1 guard.2) start
    actions (Initial.orderly env initial) careful
  refine ⟨?_, orderly.inStep.sent⟩
  intro drained unnamed p ip
  rcases orderly.inStep.held (ownNode .unicast p) ⟨rfl, rfl, unnamed⟩ ip with
    installed | ⟨c, -, -, -, -, queued⟩
  · exact installed
  · rw [drained] at queued
    exact absurd queued List.not_mem_nil

/-- An announcement with the given next hop, and a withdrawal. -/
def via (now : Nat) (nexthop : U32) : Action :=
  .update (plainWorld now) (plainRoute 1 tenSlashEight (plainAttr nexthop 10))

def gone (now : Nat) : Action :=
  .withdraw (plainWorld now) (plainRoute 1 tenSlashEight (plainAttr 0 0))

/-- The route changes its next hop and is withdrawn, with the queue run each time. -/
def inOrder : List Action :=
  [via 0 0x0A000001, .runMain, via 1 0x0A000002, .runMain, gone 2, .runMain]

theorem fib_agrees_once :
    zebraHolds (run (step (plainEnv [1, 2])) .empty (inOrder.take 4)).log tenSlashEight =
        some ⟨.inet 0x0A000002, 10⟩ ∧
      zebraHolds (run (step (plainEnv [1, 2])) .empty inOrder).log tenSlashEight = none := by
  have careful : Guarded (step (plainEnv [1, 2]))
      (fun s action => Forwarding action ∧ Careful (plainEnv [1, 2]) s action) .empty inOrder := by
    refine ⟨⟨trivial, fun _ _ _ ri changed found => ?_⟩, ⟨trivial, ?_⟩,
      ⟨trivial, fun _ _ _ ri changed found _ _ => ?_⟩, ⟨trivial, ?_⟩, ⟨trivial, trivial⟩,
      ⟨trivial, ?_⟩, trivial⟩
    · exact nomatch (found : (none : Option BgpInfo) = some ri)
    · intro rn head _ _ c found
      have none : chosen (run (step (plainEnv [1, 2])) .empty (inOrder.take 1)) tenNode = none := by
        decide
      obtain rfl : tenNode = rn := Option.some.inj head
      exact absurd (none.symm.trans found) (by simp)
    · have unmarked : ∀ ri ∈ Updates.findInfo (run (step (plainEnv [1, 2])) .empty (inOrder.take 2))
          tenNode 1 .bgp .normal, ri.flags.attrChanged = false := by decide
      unfold Heard
      split
      · exact unmarked ri found
      · exact fun damps => absurd (damps : false = true) Bool.false_ne_true
    · intro rn head _ _ _ _ _
      obtain rfl : tenNode = rn := Option.some.inj head
      left
      decide
    · intro rn head _ _ c found _
      have same : ∀ c ∈ chosen (run (step (plainEnv [1, 2])) .empty (inOrder.take 5)) tenNode,
          ∀ held ∈ zebraHolds (run (step (plainEnv [1, 2])) .empty (inOrder.take 5)).log
            tenSlashEight, held.nexthop = .inet c.attr.nexthop := by decide
      obtain rfl : tenNode = rn := Option.some.inj head
      exact Or.inr (same c found)
  have agrees (front later : List Action) (cut : inOrder = front ++ later) :=
    (fib_agrees (plainEnv [1, 2]) .empty front rfl rfl initial_empty
      ((guarded_append _ _ _ front later).mp (cut ▸ careful)).1).1
  exact ⟨(agrees (inOrder.take 4) _ rfl (by decide) rfl tenSlashEight rfl).trans (by decide),
    (agrees inOrder [] rfl (by decide) rfl tenSlashEight rfl).trans (by decide)⟩

/-- A route that changes its next hop and is withdrawn before the queue runs: the
withdrawal names the new next hop, and zebra keeps the route by the old one. -/
theorem stale_route_kept :
    let s := run (step (plainEnv [1, 2])) .empty
      [via 0 0x0A000001, .runMain, via 1 0x0A000002, gone 2, .runMain, .runMain]
    s.mainQueue = [] ∧ chosen s (ownNode .unicast tenSlashEight) = none ∧
      zebraHolds s.log tenSlashEight = some ⟨.inet 0x0A000001, 10⟩ := by
  decide

end Bgpd.Fib
