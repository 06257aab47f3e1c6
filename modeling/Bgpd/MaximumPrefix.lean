import Bgpd.EntryCalls
import Bgpd.PrefixBookSteps

/-!
# The limit on a neighbour's prefixes

A neighbour may announce so many prefixes of a family. `bgp_update_main` looks at the count
when it has added a route, and tells the session to close where the count is past the limit.
It does not look when a route that was withdrawn comes back before its node was processed,
when damping lets a route go, or when the next hop of a changed route answers again; and the
nested tables of clients count for the same neighbour without any look. What a NOTIFICATION
carries is read after the number of the family was replaced by the one on the wire.
-/

namespace Bgpd.MaximumPrefix

open Octets Prefixes Attributes Neighbors Admission Rib Updates Processing Actions Runs Evolution
  Primitives Steps Calls Standing PrefixCounts QuietSteps EntryCounts EntryCalls

/-! ## What the session is told -/

/-- The number of a subsequent family in the arrays. -/
def Safi.index : Safi → Nat
  | .unicast => 1
  | .multicast => 2
  | .mplsVpn => 4

/-- The family an array has a limit for at a place. Past `SAFI_MAX` there is no place. -/
def Safi.ofIndex : Nat → Option Safi
  | 1 => some .unicast
  | 2 => some .multicast
  | 4 => some .mplsVpn
  | _ => none

/-- `BGP_SAFI_VPNV4`. -/
def bgpSafiVpnv4 : Nat := 128

/-- `ndata`, read after `safi` was replaced; nothing where a read is out of bounds. -/
def ndata (config : Peer) (afi : Afi) (safi : Safi) : Option (List U8) :=
  let safi := if safi = .mplsVpn then bgpSafiVpnv4 else Safi.index safi
  (Safi.ofIndex safi).map fun place =>
    putw afi.code ++ BitVec.ofNat 8 safi :: putl (BitVec.ofNat 32 (config.pmax afi place))

/-- A NOTIFICATION with `BGP_NOTIFY_CEASE_MAX_PREFIX`, the family it is for, and its data. -/
structure Notice where
  peer : Nat
  afi : Afi
  safi : Safi
  data : Option (List U8)
  deriving DecidableEq, Repr

/-- It is sent for the neighbour and the family. -/
def Notice.about (notice : Notice) (t : Watched) : Prop :=
  notice.peer = t.peer ∧ notice.afi = t.afi ∧ notice.safi = t.safi

/-- The data are the family, the subsequent family on the wire, and the limit. -/
def Notice.Right (env : Env) (notice : Notice) : Prop :=
  ∃ data, notice.data = some data ∧ data.length = 7 ∧ getw data = notice.afi.code ∧
    getc (data.drop 2) = notice.safi.code ∧
    (getl (data.drop 3)).toNat = (env.config notice.peer).pmax notice.afi notice.safi

/-- The neighbour's tables, and what its sessions were told, the latest first. -/
structure Session where
  tables : State
  notices : List Notice

/-- A neighbour was told to close. -/
def Session.Told (s : Session) (peer : Nat) : Prop := ∃ notice ∈ s.notices, notice.peer = peer

/-- What comes in, and turns of the queues. -/
inductive Event
  | update (w : World) (call : Received)
  | withdraw (w : World) (call : Received)
  | runMain
  | runRsclient

variable (env : Env)

/-- The answer of `bgp_maximum_prefix_overflow` for a new route, and the tables after it. -/
def looked (w : World) (s : State) (call : UpdateCall) (attr : Attr) : State × Bool :=
  let rn := call.node .main
  bgpMaximumPrefixOverflow env (countedState env w (bgpNodeGet s rn) rn call attr) call.peer rn.afi
    rn.safi false

/-- What `bgp_update_main` sends where that closes the session. -/
def noticeOf (w : World) (s : State) (call : UpdateCall) : Option Notice :=
  (newRoute env w s call).bind fun attr =>
    if (looked env w s call attr).2 then
      some ⟨call.peer, call.p.family, call.safi,
        ndata (env.config call.peer) call.p.family call.safi⟩
    else none

/-- One event. -/
def step (s : Session) : Event → Session
  | .update w call =>
    ⟨bgpUpdate env w s.tables call.toUpdateCall,
      (noticeOf env w s.tables call.toUpdateCall).toList ++ s.notices⟩
  | .withdraw w call => { s with tables := bgpWithdraw env w s.tables call.toUpdateCall }
  | .runMain => { s with tables := runMainQueue env s.tables }
  | .runRsclient => { s with tables := runRsclientQueue env s.tables }

/-- The limit of the neighbour in the family. -/
def Watched.limit (t : Watched) : Nat := (env.config t.peer).pmax t.afi t.safi

/-- The neighbour has a limit that closes its session. -/
structure Limited (t : Watched) : Prop where
  foreign : t.peer ≠ env.self
  maxPrefix : ((env.config t.peer).afFlags t.afi t.safi).maxPrefix = true
  closes : ((env.config t.peer).afFlags t.afi t.safi).maxPrefixWarning = false
  word : Watched.limit env t < 2 ^ 32
  clients : env.rsclients.Nodup

/-- The session begins within its limit. -/
structure Opening (t : Watched) (s : Session) : Prop where
  sound : Sound s.tables
  notices : s.notices = []
  unmarked : t.exceeded s.tables = false
  within : t.count s.tables ≤ Watched.limit env t

/-- The limit is enforced. -/
def Enforced (t : Watched) (s : Session) : Prop :=
  (¬ s.Told t.peer → t.count s.tables ≤ Watched.limit env t) ∧
    ∀ notice ∈ s.notices, notice.about t → notice.Right env

/-- The neighbour's update leaves room for what it counts without a look at the limit, and
no new route of a VPN goes past the limit. -/
def Fits (t : Watched) (s : Session) : Event → Prop
  | .update w call =>
    Watched.hits t call.toUpdateCall = true →
      (¬ s.Told t.peer →
        t.count s.tables + raised env w t s.tables call.toUpdateCall ≤ Watched.limit env t) ∧
      (t.safi = .mplsVpn → (newRoute env w s.tables call.toUpdateCall).isSome = true →
        t.exceeded s.tables = true ∨ t.count s.tables < Watched.limit env t)
  | _ => True

variable {env} {w : World} {t : Watched} {s s' : State} {call : UpdateCall}

/-! ## The data -/

/-- Away from a VPN the reads are in bounds, and the data are what they should be. -/
theorem ndata_right (peer : Nat) (afi : Afi) (safi : Safi) (plain : safi ≠ .mplsVpn)
    (word : (env.config peer).pmax afi safi < 2 ^ 32) :
    Notice.Right env ⟨peer, afi, safi, ndata (env.config peer) afi safi⟩ := by
  have place : Safi.ofIndex (Safi.index safi) = some safi := by cases safi <;> rfl
  have number : BitVec.ofNat 8 (Safi.index safi) = safi.code := by
    cases safi with
    | unicast => rfl
    | multicast => rfl
    | mplsVpn => exact absurd rfl plain
  refine ⟨putw afi.code ++ safi.code :: putl (BitVec.ofNat 32 ((env.config peer).pmax afi safi)),
    ?_, rfl, getw_putw _ _, rfl, ?_⟩
  · unfold ndata
    dsimp only
    rw [if_neg plain, place, number, Option.map_some]
  · change (getl (putl _)).toNat = _
    rw [getl_putl_exact, BitVec.toNat_ofNat, Nat.mod_eq_of_lt word]

/-! ## The look at the limit -/

/-- The look changes marks and the log. -/
theorem looks_eq (env : Env) (s : State) (peer : Nat) (afi : Afi) (safi : Safi) :
    ∃ prefixLimit log, (bgpMaximumPrefixOverflow env s peer afi safi false).1 =
      { s with prefixLimit, log } := by
  unfold bgpMaximumPrefixOverflow
  dsimp only
  split_ifs
  all_goals exact ⟨_, _, rfl⟩

/-- Only the mark of the family that is looked at changes. -/
theorem looks_quiet (s : State) {peer : Nat} {afi : Afi} {safi : Safi}
    (other : ¬ (t.peer = peer ∧ t.afi = afi ∧ t.safi = safi)) :
    Quiet t s (bgpMaximumPrefixOverflow env s peer afi safi false).1 := by
  have apart : ∀ value, replaceAf s.prefixLimit peer afi safi value t.peer t.afi t.safi =
      s.prefixLimit t.peer t.afi t.safi := fun value => if_neg other
  unfold bgpMaximumPrefixOverflow
  dsimp only
  split_ifs
  all_goals first
    | exact .refl s
    | exact ⟨le_refl _, apart _⟩

/-- What the look at the limit of the neighbour finds. -/
theorem looks_limited (limited : Limited env t) (s : State) :
    let answer := bgpMaximumPrefixOverflow env s t.peer t.afi t.safi false
    t.count s ≤ Watched.limit env t ∧ answer.2 = false ∧ t.exceeded answer.1 = false ∨
      Watched.limit env t < t.count s ∧ t.exceeded s = true ∧ answer = (s, false) ∨
      Watched.limit env t < t.count s ∧ t.exceeded s = false ∧ answer.2 = true := by
  have mine :
      ∀ value, replaceAf s.prefixLimit t.peer t.afi t.safi value t.peer t.afi t.safi = value :=
    fun value => if_pos ⟨rfl, rfl, rfl⟩
  unfold bgpMaximumPrefixOverflow
  simp only [limited.maxPrefix, limited.closes, Bool.not_true, Bool.false_eq_true, if_false]
  by_cases past : Watched.limit env t < t.count s
  · right
    rw [if_pos (show (env.config t.peer).pmax t.afi t.safi <
      s.pcount t.peer t.afi t.safi from past)]
    cases marked : t.exceeded s with
    | true =>
      left
      rw [if_pos ⟨marked, rfl⟩]
      exact ⟨past, rfl, rfl⟩
    | false =>
      right
      rw [if_neg fun both => Bool.false_ne_true (marked.symm.trans both.1)]
      exact ⟨past, rfl, rfl⟩
  · left
    rw [if_neg (show ¬ (env.config t.peer).pmax t.afi t.safi <
      s.pcount t.peer t.afi t.safi from past)]
    exact ⟨Nat.not_lt.mp past, rfl, mine false⟩

theorem updateFresh_new (call : UpdateCall) (attr : Attr) :
    updateFresh env w (bgpNodeGet s (call.node .main)) (call.node .main) call attr =
      if (looked env w s call attr).2 then (looked env w s call attr).1
      else bgpProcess (looked env w s call attr).1 (call.node .main) := by
  unfold updateFresh
  dsimp only
  split
  all_goals
    rename_i answered
    have same : looked env w s call attr = _ := answered
    rw [same]
    rfl

variable {attr : Attr}

/-- A new route is looked at, and its node queued where the session stays. -/
theorem bgpUpdateMain_new (new : newRoute env w s call = some attr) :
    bgpUpdateMain env w s call =
      if (looked env w s call attr).2 then (looked env w s call attr).1
      else bgpProcess (looked env w s call attr).1 (call.node .main) := by
  unfold newRoute at new
  unfold bgpUpdateMain
  dsimp only
  rw [findInfo_got]
  cases admitted : admitMain env.bgp (w.connected call.p.family) (env.config call.peer) call.p
      call.attr call.safi with
  | none =>
    rw [admitted] at new
    exact nomatch new
  | some changed =>
    cases known : findInfo s (call.node .main) call.peer call.type call.subType with
    | some ri =>
      rw [admitted, known] at new
      exact nomatch new
    | none =>
      rw [admitted, known] at new
      obtain rfl := Option.some.inj new
      exact updateFresh_new call (w.intern changed)

/-- A new route is counted, looked at and queued. -/
theorem looked_count (foreign : t.peer ≠ env.self) (w : World) (s : State) (call : UpdateCall)
    (attr : Attr) :
    t.count (looked env w s call attr).1 ≤ t.count s + (Watched.hits t call).toNat ∧
      ((call.node .main).safi = .mplsVpn → ∀ other, other ≠ call.node .main →
        (looked env w s call attr).1.infos other = s.infos other) := by
  have got : Idle t (call.node .main) 0 s (bgpNodeGet s (call.node .main)) := bgpNodeGet_idle s _
  have raises : Raises t (call.node .main) s s _ _ :=
    (countedState_raises (w := w) foreign (bgpNodeGet s (call.node .main)) (call.node .main) call
      attr).after got
  obtain ⟨prefixLimit, log, same⟩ := looks_eq env
    (countedState env w (bgpNodeGet s (call.node .main)) (call.node .main) call attr) call.peer
    (call.node .main).afi (call.node .main).safi
  unfold looked
  rw [same]
  constructor
  · apply (raises.count _ (le_refl _) (le_refl _)).trans
    apply Nat.add_le_add_left
    split
    · rename_i covers
      rw [hits_of_covers covers]
      exact le_refl 1
    · exact Nat.zero_le _
  · exact raises.apart

/-- What a call brings into the count from the main table. -/
def mainBrings (env : Env) (w : World) (t : Watched) (s : State) (call : UpdateCall) : Nat :=
  if Watched.hits t call then
    if (newRoute env w s call).isSome then 1 else (mainRaises env w t s call).toNat
  else 0

theorem bgpUpdateMain_count (foreign : t.peer ≠ env.self) (sound : Sound s) (call : UpdateCall) :
    t.count (bgpUpdateMain env w s call) ≤ t.count s + mainBrings env w t s call ∧
      ((call.node .main).safi = .mplsVpn → ∀ other, other ≠ call.node .main →
        (bgpUpdateMain env w s call).infos other = s.infos other) := by
  unfold mainBrings
  cases new : newRoute env w s call with
  | none =>
    have raises := bgpUpdateMain_raises foreign sound call new
    refine ⟨(raises.count _ (le_refl _) (le_refl _)).trans (Nat.add_le_add_left ?_ _), raises.apart⟩
    split
    · rename_i both
      rw [if_pos (hits_of_covers both.1), both.2]
      exact le_refl 1
    · exact Nat.zero_le _
  | some attr =>
    obtain ⟨count, apart⟩ := looked_count foreign w s call attr
    rw [bgpUpdateMain_new new]
    have brings : (Watched.hits t call).toNat =
        if Watched.hits t call then if (some attr).isSome then 1
          else (mainRaises env w t s call).toNat else 0 := by
      cases Watched.hits t call <;> rfl
    rw [← brings]
    split
    · exact ⟨count, apart⟩
    · have queued : Quiet t (looked env w s call attr).1 _ := bgpProcess_quiet _ (call.node .main)
      refine ⟨queued.count.trans count, fun vpn other away => ?_⟩
      rw [bgpProcess_infos]
      exact apart vpn other away

/-- The clients' tables count for the neighbour in a VPN alone. -/
theorem clients_count (foreign : t.peer ≠ env.self) (distinct : env.rsclients.Nodup)
    (sound : Sound s) (call : UpdateCall) {m : Nat}
    (before : t.count (bgpUpdateMain env w s call) ≤ m) (least : t.count s ≤ m) :
    t.count (bgpUpdate env w s call) ≤ m +
        (if Watched.hits t call ∧ call.safi = .mplsVpn then
          (clientsOf env call.p.family call.safi).countP (clientRaises env w t s call) else 0) ∧
      t.exceeded (bgpUpdate env w s call) = t.exceeded (bgpUpdateMain env w s call) := by
  unfold bgpUpdate
  by_cases vpn : call.safi = .mplsVpn
  · obtain ⟨-, apart⟩ := bgpUpdateMain_count (w := w) foreign sound call
    obtain ⟨bound, exceeded⟩ := clients_raise foreign sound call vpn
      (clientsOf env call.p.family call.safi) (distinct.filter _)
      (fun rsclient _ => apart vpn _ fun same =>
        nomatch (congrArg Node.owner same : Owner.rsclient rsclient = .main)) m before least
    refine ⟨?_, exceeded⟩
    simpa only [vpn, and_true] using bound
  · have quiet : Quiet t (bgpUpdateMain env w s call) ((clientsOf env call.p.family call.safi).foldl
        (fun s rsclient => bgpUpdateRsclient env w s rsclient call)
            (bgpUpdateMain env w s call)) := by
      apply Quiet.foldl
      intro s rsclient _
      apply bgpUpdateRsclient_quiet env w s rsclient call
      have client := PrefixBookSteps.node_rsclient rsclient call.safi call.p call.prd vpn
      change (nodeOf (.rsclient rsclient) call.safi call.p call.prd).table.type ≠ .main
      rw [client]
      decide
    refine ⟨(quiet.count.trans before).trans (Nat.le_add_right _ _), quiet.exceeded⟩

theorem hits_iff : Watched.hits t call = true ↔
    call.peer = t.peer ∧ call.p.family = t.afi ∧ call.safi = t.safi := by
  simp [Watched.hits, decide_eq_true_eq, and_assoc]

/-- What is looked at was counted, and has the mark from before. -/
theorem counted_exceeded (foreign : t.peer ≠ env.self) (w : World) (s : State) (call : UpdateCall)
    (attr : Attr) :
    t.exceeded (countedState env w (bgpNodeGet s (call.node .main)) (call.node .main) call attr) =
      t.exceeded s := by
  have got : Idle t (call.node .main) 0 s (bgpNodeGet s (call.node .main)) := bgpNodeGet_idle s _
  have raises : Raises t (call.node .main) s _ _ _ :=
    countedState_raises (w := w) foreign (bgpNodeGet s (call.node .main))
      (call.node .main) call attr
  exact raises.exceeded.trans got.quiet.exceeded

/-- The mark changes where a new route of the neighbour is looked at. -/
theorem bgpUpdateMain_exceeded (foreign : t.peer ≠ env.self) (sound : Sound s) (call : UpdateCall)
    (idle : Watched.hits t call = true → newRoute env w s call = none) :
    t.exceeded (bgpUpdateMain env w s call) = t.exceeded s := by
  cases new : newRoute env w s call with
  | none => exact (bgpUpdateMain_raises foreign sound call new).exceeded
  | some attr =>
    have other : ¬ (t.peer = call.peer ∧ t.afi = (call.node .main).afi ∧
        t.safi = (call.node .main).safi) := by
      rintro ⟨peer, afi, safi⟩
      have absent := idle (hits_iff.mpr ⟨peer.symm, afi.symm, safi.symm⟩)
      exact nomatch new.symm.trans absent
    have quiet : Quiet t _ (looked env w s call attr).1 := looks_quiet _ other
    have mark := quiet.exceeded.trans (counted_exceeded foreign w s call attr)
    rw [bgpUpdateMain_new new]
    split
    · exact mark
    · exact (bgpProcess_quiet (t := t) _ (call.node .main)).exceeded.trans mark

/-- What the look finds for a new route of the neighbour, in terms of the tables before. -/
theorem looked_limited (limited : Limited env t) (hits : Watched.hits t call = true) (w : World)
    (s : State) (attr : Attr) :
    (looked env w s call attr).2 = false ∧ t.exceeded (looked env w s call attr).1 = false ∧
        t.count (looked env w s call attr).1 ≤ Watched.limit env t ∨
      (looked env w s call attr).2 = false ∧ t.exceeded s = true ∨
      (looked env w s call attr).2 = true ∧ t.exceeded s = false ∧
        Watched.limit env t ≤ t.count s := by
  obtain ⟨peer, afi, safi⟩ := hits_iff.mp hits
  have mark := counted_exceeded limited.foreign w s call attr
  obtain ⟨count, -⟩ := looked_count limited.foreign w s call attr
  rw [hits, Bool.toNat_true] at count
  have answers := looks_limited limited
    (countedState env w (bgpNodeGet s (call.node .main)) (call.node .main) call attr)
  obtain ⟨prefixLimit, log, same⟩ := looks_eq env
    (countedState env w (bgpNodeGet s (call.node .main)) (call.node .main) call attr) call.peer
    (call.node .main).afi (call.node .main).safi
  have counted : t.count (looked env w s call attr).1 =
      t.count (countedState env w (bgpNodeGet s (call.node .main)) (call.node .main) call
          attr) := by
    unfold looked
    rw [same]
    rfl
  have named : looked env w s call attr = bgpMaximumPrefixOverflow env
      (countedState env w (bgpNodeGet s (call.node .main)) (call.node .main) call attr) t.peer t.afi
      t.safi false := by
    rw [← peer, ← afi, ← safi]
    rfl
  rw [← named] at answers
  rcases answers with ⟨within, stays, unmarked⟩ | ⟨past, marked, stays⟩ | ⟨past, unmarked, closes⟩
  · left
    exact ⟨stays, unmarked, counted ▸ within⟩
  · right; left
    exact ⟨congrArg Prod.snd stays, mark.symm.trans marked⟩
  · right; right
    exact ⟨closes, mark.symm.trans unmarked, by omega⟩

/-- A new route of the neighbour is within the limit, or past a limit it went past before, or
the session is told. -/
theorem newRoute_limited (limited : Limited env t) (hits : Watched.hits t call = true)
    (new : newRoute env w s call = some attr) :
    noticeOf env w s call = none ∧
        (t.exceeded s = true ∨ t.exceeded (bgpUpdateMain env w s call) = false ∧
          t.count (bgpUpdateMain env w s call) ≤ Watched.limit env t) ∨
      (noticeOf env w s call).isSome = true ∧ t.exceeded s = false ∧
        Watched.limit env t ≤ t.count s := by
  have sent : noticeOf env w s call = if (looked env w s call attr).2 then
      some ⟨call.peer, call.p.family, call.safi,
        ndata (env.config call.peer) call.p.family call.safi⟩
      else none := by
    unfold noticeOf
    rw [new, Option.bind_some]
  rw [sent, bgpUpdateMain_new new]
  rcases looked_limited limited hits w s attr with
    ⟨stays, unmarked, within⟩ | ⟨stays, marked⟩ | ⟨closes, unmarked, full⟩
  · left
    have queued : Quiet t (looked env w s call attr).1 _ := bgpProcess_quiet _ (call.node .main)
    rw [stays, if_neg Bool.false_ne_true, if_neg Bool.false_ne_true]
    exact ⟨rfl, Or.inr ⟨queued.exceeded.trans unmarked, queued.count.trans within⟩⟩
  · left
    rw [stays, if_neg Bool.false_ne_true]
    exact ⟨rfl, Or.inl marked⟩
  · right
    rw [closes, if_pos rfl]
    exact ⟨rfl, unmarked, full⟩

/-! ## Runs -/

/-- What is kept between the events. -/
structure Kept (env : Env) (t : Watched) (s : Session) : Prop where
  sound : Sound s.tables
  within : ¬ s.Told t.peer → t.count s.tables ≤ Watched.limit env t
  told : t.exceeded s.tables = true → s.Told t.peer
  right : ∀ notice ∈ s.notices, notice.about t → notice.Right env

theorem Kept.enforced {s : Session} (kept : Kept env t s) : Enforced env t s :=
  ⟨kept.within, kept.right⟩

theorem Opening.kept {s : Session} (opening : Opening env t s) : Kept env t s where
  sound := opening.sound
  within := fun _ => opening.within
  told := fun marked => absurd (opening.unmarked.symm.trans marked) Bool.false_ne_true
  right := fun notice sent => by
    rw [opening.notices] at sent
    exact absurd sent List.not_mem_nil

/-- An event that sends nothing and counts nothing. -/
theorem Kept.quiet {s : Session} (kept : Kept env t s) {tables : State} (sound : Sound tables)
    (quiet : Quiet t s.tables tables) : Kept env t { s with tables } where
  sound := sound
  within := fun untold => quiet.count.trans (kept.within untold)
  told := fun marked => kept.told (quiet.exceeded.symm.trans marked)
  right := kept.right

theorem clients_lax (call : UpdateCall) : Clients env lax call := fun _ _ _ =>
  ⟨fun _ => trivial, fun _ => trivial⟩

theorem bgpUpdate_sound (sound : Sound s) (call : Received) :
    Sound (bgpUpdate env w s call.toUpdateCall) := by
  have evolves : Evolves lax s (bgpUpdate env w s call.toUpdateCall) := by
    apply bgpUpdate_evolves env w (lax_covers env) s call.toUpdateCall sound
    · rw [call.normal]
      decide
    · exact clients_lax _
    · exact ⟨fun _ _ => trivial, fun _ _ _ => trivial⟩
    · exact fun _ _ _ _ => Or.inl trivial
  exact evolves.sound sound

theorem noticeOf_eq {notice : Notice} (sent : noticeOf env w s call = some notice) :
    notice = ⟨call.peer, call.p.family, call.safi,
      ndata (env.config call.peer) call.p.family call.safi⟩ := by
  unfold noticeOf at sent
  cases new : newRoute env w s call with
  | none =>
    rw [new] at sent
    exact nomatch sent
  | some attr =>
    rw [new, Option.bind_some] at sent
    split at sent
    · exact (Option.some.inj sent).symm
    · exact nomatch sent

theorem step_silent {s : Session} {call : Received}
    (silent : noticeOf env w s.tables call.toUpdateCall = none) :
    step env s (.update w call) =
      { s with tables := bgpUpdate env w s.tables call.toUpdateCall } := by
  simp [step, silent]

/-- What an update of another neighbour or family counts and sends is not for this one. -/
theorem Kept.other {s : Session} (limited : Limited env t) (kept : Kept env t s) (w : World)
    (call : Received) (misses : Watched.hits t call.toUpdateCall = false) :
    Kept env t (step env s (.update w call)) := by
  obtain ⟨count, -⟩ := bgpUpdateMain_count (w := w) limited.foreign kept.sound call.toUpdateCall
  have idle : mainBrings env w t s.tables call.toUpdateCall = 0 := by
    unfold mainBrings
    rw [misses, if_neg Bool.false_ne_true]
  have mark := bgpUpdateMain_exceeded (w := w) limited.foreign kept.sound call.toUpdateCall
    fun hits => absurd (misses.symm.trans hits) Bool.false_ne_true
  rw [idle, Nat.add_zero] at count
  obtain ⟨bound, exceeded⟩ := clients_count limited.foreign limited.clients kept.sound
    call.toUpdateCall count (le_refl _)
  rw [misses, if_neg fun both => Bool.false_ne_true both.1, Nat.add_zero] at bound
  constructor
  · exact bgpUpdate_sound kept.sound call
  · intro untold
    apply bound.trans
    apply kept.within
    rintro ⟨notice, sent, mine⟩
    exact untold ⟨notice, List.mem_append_right _ sent, mine⟩
  · intro marked
    obtain ⟨notice, sent, mine⟩ := kept.told ((exceeded.trans mark).symm.trans marked)
    exact ⟨notice, List.mem_append_right _ sent, mine⟩
  · intro notice sent about
    rcases List.mem_append.mp sent with new | old
    · have named := noticeOf_eq (Option.mem_toList.mp new)
      obtain ⟨peer, afi, safi⟩ := about
      rw [named] at peer afi safi
      exact absurd (misses.symm.trans (hits_iff.mpr ⟨peer, afi, safi⟩)) Bool.false_ne_true
    · exact kept.right notice old about

/-- An update of a route that the neighbour has in the main table. -/
theorem Kept.again {s : Session} (limited : Limited env t) (kept : Kept env t s) (w : World)
    (call : Received) (hits : Watched.hits t call.toUpdateCall = true)
    (old : newRoute env w s.tables call.toUpdateCall = none)
    (fits : Fits env t s (.update w call)) : Kept env t (step env s (.update w call)) := by
  obtain ⟨count, -⟩ := bgpUpdateMain_count (w := w) limited.foreign kept.sound call.toUpdateCall
  have brings : mainBrings env w t s.tables call.toUpdateCall =
      (mainRaises env w t s.tables call.toUpdateCall).toNat := by
    unfold mainBrings
    rw [hits, old]
    rfl
  have mark := bgpUpdateMain_exceeded (w := w) limited.foreign kept.sound call.toUpdateCall
    fun _ => old
  rw [brings] at count
  obtain ⟨bound, exceeded⟩ := clients_count limited.foreign limited.clients kept.sound
    call.toUpdateCall count (Nat.le_add_right _ _)
  have silent : noticeOf env w s.tables call.toUpdateCall = none := by
    unfold noticeOf
    rw [old, Option.bind_none]
  rw [step_silent silent]
  constructor
  · exact bgpUpdate_sound kept.sound call
  · intro untold
    have room := (fits hits).1 untold
    apply bound.trans
    unfold raised at room
    rw [hits]
    simpa only [true_and, Nat.add_assoc] using room
  · intro marked
    exact kept.told ((exceeded.trans mark).symm.trans marked)
  · exact kept.right

theorem mainRaises_new (new : newRoute env w s call = some attr) :
    mainRaises env w t s call = decide (call.safi = .mplsVpn) := by
  unfold newRoute at new
  unfold mainRaises
  split at new
  · rename_i admitted unknown
    rw [admitted, unknown]
  · exact nomatch new

/-- An update with a route that is new to it, where the session stays. -/
theorem Kept.stays {s : Session} (limited : Limited env t) (kept : Kept env t s) (w : World)
    (call : Received) (hits : Watched.hits t call.toUpdateCall = true)
    (new : newRoute env w s.tables call.toUpdateCall = some attr)
    (fits : Fits env t s (.update w call)) (before : t.exceeded s.tables = true ∨
      t.exceeded (bgpUpdateMain env w s.tables call.toUpdateCall) = false ∧
        t.count (bgpUpdateMain env w s.tables call.toUpdateCall) ≤ Watched.limit env t) :
    Kept env t { s with tables := bgpUpdate env w s.tables call.toUpdateCall } := by
  obtain ⟨count, -⟩ := bgpUpdateMain_count (w := w) limited.foreign kept.sound call.toUpdateCall
  have brings : mainBrings env w t s.tables call.toUpdateCall = 1 := by
    unfold mainBrings
    rw [hits, new]
    rfl
  rw [brings] at count
  obtain ⟨bound, exceeded⟩ := clients_count limited.foreign limited.clients kept.sound
    call.toUpdateCall count (Nat.le_add_right _ _)
  constructor
  · exact bgpUpdate_sound kept.sound call
  · intro untold
    rcases before with marked | ⟨-, within⟩
    · exact absurd (kept.told marked) untold
    by_cases vpn : call.safi = .mplsVpn
    · -- nothing is looked at behind the first table
      have room := (fits hits).1 untold
      unfold raised at room
      rw [mainRaises_new new, decide_eq_true vpn, if_pos vpn] at room
      rw [if_pos ⟨hits, vpn⟩] at bound
      apply bound.trans
      rw [Nat.add_assoc]
      exact room
    · obtain ⟨least, -⟩ := clients_count (w := w) limited.foreign limited.clients kept.sound
        call.toUpdateCall within (kept.within untold)
      rw [if_neg fun both => vpn both.2] at least
      exact least
  · intro marked
    rcases before with earlier | ⟨unmarked, -⟩
    · exact kept.told earlier
    · exact absurd (unmarked.symm.trans (exceeded.symm.trans marked)) Bool.false_ne_true
  · exact kept.right

/-- An update with a route that is new to it, past the limit. -/
theorem Kept.closes {s : Session} (limited : Limited env t) (kept : Kept env t s) (w : World)
    (call : Received) (hits : Watched.hits t call.toUpdateCall = true)
    (sent : (noticeOf env w s.tables call.toUpdateCall).isSome = true)
    (plain : call.safi ≠ .mplsVpn) : Kept env t (step env s (.update w call)) := by
  obtain ⟨peer, afi, safi⟩ := hits_iff.mp hits
  obtain ⟨notice, said⟩ := Option.isSome_iff_exists.mp sent
  have named := noticeOf_eq said
  have listed : (step env s (.update w call)).notices = notice :: s.notices := by
    simp [step, said]
  have told : (step env s (.update w call)).Told t.peer := by
    refine ⟨notice, ?_, ?_⟩
    · rw [listed]
      exact List.mem_cons_self
    · rw [named]
      exact peer
  constructor
  · exact bgpUpdate_sound kept.sound call
  · exact fun untold => absurd told untold
  · exact fun _ => told
  · intro other member about
    rw [listed] at member
    rcases List.mem_cons.mp member with rfl | old
    · rw [named]
      apply ndata_right call.peer call.p.family call.safi plain
      rw [peer, afi, safi]
      exact limited.word
    · exact kept.right other old about

/-- Each event keeps it. -/
theorem Kept.step {s : Session} (limited : Limited env t) (kept : Kept env t s) (event : Event)
    (fits : Fits env t s event) : Kept env t (step env s event) := by
  cases event with
  | update w call =>
    cases hits : Watched.hits t call.toUpdateCall with
    | false => exact kept.other limited w call hits
    | true =>
      cases new : newRoute env w s.tables call.toUpdateCall with
      | none => exact kept.again limited w call hits new fits
      | some attr =>
        rcases newRoute_limited limited hits new with ⟨silent, before⟩ | ⟨sent, unmarked, full⟩
        · rw [step_silent silent]
          exact kept.stays limited w call hits new fits before
        · apply kept.closes limited w call hits sent
          intro vpn
          have family : t.safi = .mplsVpn := (hits_iff.mp hits).2.2.symm.trans vpn
          rcases (fits hits).2 family (by rw [new]; rfl) with marked | room
          · exact Bool.false_ne_true (unmarked.symm.trans marked)
          · exact absurd room (Nat.not_lt.mpr full)
  | withdraw w call =>
    have evolves := bgpWithdraw_evolves env w (lax_covers env) s.tables call.toUpdateCall kept.sound
      (clients_lax _)
    exact kept.quiet (evolves.sound kept.sound) (bgpWithdraw_quiet env w s.tables call.toUpdateCall)
  | runMain =>
      exact kept.quiet (runMainQueue_sound env kept.sound) (runMainQueue_quiet env s.tables)
  | runRsclient =>
    exact kept.quiet (runRsclientQueue_sound env kept.sound) (runRsclientQueue_quiet env s.tables)

/-- In a run whose updates leave room for what they count unseen, the limit is enforced
whenever a call has returned. -/
theorem enforced_of_fits (limited : Limited env t) {start : Session} (opening : Opening env t start)
    (events : List Event) (fits : Guarded (MaximumPrefix.step env) (Fits env t) start events) :
    ∀ front later, events = front ++ later →
      Enforced env t (run (MaximumPrefix.step env) start front) := by
  intro front later same
  rw [same, guarded_append] at fits
  have kept := guarded_invariant (MaximumPrefix.step env) (Fits env t) (Kept env t)
    (fun _ event before room => before.step limited event room) start front opening.kept fits.1
  exact kept.enforced

/-! ## A limit of one -/

theorem eight_fits (low : Bool) :
    [false, false, false, false, true, false, true, low].length ≤ Afi.ip.bits := by
  change 8 ≤ 32
  decide

/-- 10.0.0.0/8 and 11.0.0.0/8. -/
def eight (low : Bool) : Prefix :=
  ⟨.ip, [false, false, false, false, true, false, true, low], eight_fits low⟩

/-- A neighbour that may announce one prefix of a family. -/
def strictPeer (peer : Nat) : Peer :=
  { Peer.plain peer (65001 + peer) 65001 with
    afFlags := fun _ _ => { maxPrefix := true }
    pmax := fun _ _ => 1 }

/-- An instance with one such neighbour. -/
def strictEnv : Env :=
  { plainEnv [1] with config := strictPeer, config_id := fun _ => rfl }

/-- The neighbour. -/
def strict (safi : Safi) : Watched := ⟨1, .ip, safi⟩

/-- One of its routes. -/
def strictRoute (safi : Safi) (low : Bool) : Received :=
  { plainRoute 1 (eight low) (plainAttr 167772161 0) with safi, prd := some 1, tag := [0, 0, 0] }

/-- The route comes. -/
def comes (safi : Safi) (low : Bool) : Event := .update (plainWorld 0) (strictRoute safi low)

/-- A run of the instance. -/
def strictRun (events : List Event) := run (step strictEnv) ⟨State.empty, []⟩ events

theorem strict_limited (safi : Safi) : Limited strictEnv (strict safi) where
  foreign := by
    change 1 ≠ 0
    decide
  maxPrefix := rfl
  closes := rfl
  word := by
    change 1 < 2 ^ 32
    decide
  clients := List.nodup_nil

theorem strict_opening (safi : Safi) : Opening strictEnv (strict safi) ⟨State.empty, []⟩ where
  sound := ⟨fun _ _ member => absurd member List.not_mem_nil, fun _ => List.nodup_nil,
    fun _ held => absurd rfl held⟩
  notices := rfl
  unmarked := rfl
  within := Nat.zero_le _

/-- A route comes, is followed by a second one, and the first comes again; the second is past
the limit when it comes, and the session is told. -/
theorem strict_told :
    let s := strictRun [comes .unicast false, .runMain, comes .unicast true, comes .unicast false]
    Enforced strictEnv (strict .unicast) s ∧
      s.notices = [⟨1, .ip, .unicast, some [0, 1, 1, 0, 0, 0, 1]⟩] := by
  constructor
  · apply enforced_of_fits (strict_limited .unicast) (strict_opening .unicast) _ _ _ []
      (List.append_nil _).symm
    have plain : (strict .unicast).safi ≠ .mplsVpn := by decide
    refine ⟨fun _ => ⟨fun _ => by decide, fun vpn => absurd vpn plain⟩, trivial,
      fun _ => ⟨fun _ => by decide, fun vpn => absurd vpn plain⟩,
      fun _ => ⟨fun untold => ?_, fun vpn => absurd vpn plain⟩, trivial⟩
    exact absurd ⟨_, List.mem_cons_self, rfl⟩ untold
  · decide

/-- A route that was withdrawn comes again before its node was processed, when another has
taken its place: two are counted, and the session is not told. A second route of a VPN has it
told, with data from past the end of the array. -/
theorem strict_passed :
    ¬ Enforced strictEnv (strict .unicast) (strictRun [comes .unicast false,
        .withdraw (plainWorld 0) (strictRoute .unicast false), comes .unicast true,
        comes .unicast false]) ∧
      ¬ Enforced strictEnv (strict .mplsVpn)
        (strictRun [comes .mplsVpn false, comes .mplsVpn true]) := by
  constructor
  · rintro ⟨within, -⟩
    have silent : (strictRun [comes .unicast false,
        .withdraw (plainWorld 0) (strictRoute .unicast false), comes .unicast true,
        comes .unicast false]).notices = [] := by decide
    refine absurd (within ?_) (by decide)
    rintro ⟨notice, sent, -⟩
    rw [silent] at sent
    exact List.not_mem_nil sent
  · rintro ⟨-, right⟩
    have sent : (strictRun [comes .mplsVpn false, comes .mplsVpn true]).notices =
        [⟨1, .ip, .mplsVpn, none⟩] := by decide
    rw [sent] at right
    obtain ⟨data, said, -⟩ := right ⟨1, .ip, .mplsVpn, none⟩ List.mem_cons_self ⟨rfl, rfl, rfl⟩
    exact nomatch said

end Bgpd.MaximumPrefix
