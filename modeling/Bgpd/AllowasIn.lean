import Bgpd.Admission
import Bgpd.PeerInvariants
import Bgpd.Runs

/-!
# The local AS number in paths that come in

How often a path may have the local AS number is stored twice: the number in `allowas_in`,
which `bgp_update_main` reads, and a flag that says that there is one, which the commands
read. Setting it writes both. Unsetting it clears the number only where the flag is set,
and the flag may have gone by then.
-/

namespace Bgpd.AllowasIn

open Octets Prefixes Attributes AsPath Neighbors Admission PeerConfig PeerOptions PeerInvariants
open Runs

/-- There is a number exactly where the flag is set. -/
def Agrees (af : AfConf) : Prop := af.allowasIn ≠ 0 ↔ af.afFlags .allowasIn = true

/-- The number and the flag agree in every family. -/
def Coherent (conf : Conf) : Prop := ∀ afi safi, Agrees (conf.af afi safi)

/-! ## When a command keeps the two together -/

/-- The flag of a neighbour or a template that is set can be unset on its own. -/
def Clears (c : Config) (t : Target) (conf : Conf) (afi : Afi) (safi : Safi) : Prop :=
  (conf.af afi safi).afFlags .allowasIn = true →
    peerAfFlagRefused c t conf afi safi [.allowasIn] false = none

/-- The commands that keep the number and the flag together, in the configuration in which
they are given. -/
def Fair (c : Config) : Command → Prop
  | .deactivate t afi safi =>
    ∀ conf, c.conf t = some conf → peerDeactivateRefused c t conf afi safi = none →
      (conf.af afi safi).afc = true → (conf.af afi safi).allowasIn = 0
  | .unbind su name afi safi =>
    ∀ conf group, c.peer su = some conf → c.group name = some group →
      (conf.af afi safi).afGroup = true → conf.group = some name →
      (conf.af afi safi).allowasIn = 0 ∨
        (group.conf.as ≠ 0 ∧ peerGroupActive (leaveFamily c.configCisco afi safi conf) = false)
  | .afFlag t afi safi mask set =>
    .allowasIn ∈ mask → ∀ conf, c.conf t = some conf →
      peerAfFlagRefused c t conf afi safi mask set = none →
      (conf.af afi safi).afFlags .allowasIn = set ∧
        ∀ name, t = .group name → ∀ su ∈ c.members name, ∀ member, c.peer su = some member →
          (member.af afi safi).afGroup = true → (member.af afi safi).afFlags .allowasIn = set
  | .noAllowasIn t afi safi =>
    ∀ conf, c.conf t = some conf → Clears c t conf afi safi ∧
      ∀ name, t = .group name → ∀ su ∈ c.members name, ∀ member, c.peer su = some member →
        Clears c (.peer su) member afi safi ∧
          ((member.af afi safi).afGroup = true → (member.af afi safi).afFlags .allowasIn = true →
            (conf.af afi safi).afFlags .allowasIn = false)
  | _ => True

/-! ## Configurations -/

variable {conf : Conf}

theorem Coherent.of_af {conf' : Conf} (coherent : Coherent conf)
    (same : ∀ afi safi, (conf'.af afi safi).allowasIn = (conf.af afi safi).allowasIn ∧
      (conf'.af afi safi).afFlags .allowasIn = (conf.af afi safi).afFlags .allowasIn) :
    Coherent conf' := by
  intro afi safi
  rw [Agrees, (same afi safi).1, (same afi safi).2]
  exact coherent afi safi

variable {afi : Afi} {safi : Safi}

theorem Coherent.setAf (coherent : Coherent conf) {change : AfConf → AfConf}
    (kept : Agrees (change (conf.af afi safi))) : Coherent (conf.setAf afi safi change) := by
  intro afi' safi'
  by_cases here : afi' = afi ∧ safi' = safi
  · obtain ⟨rfl, rfl⟩ := here
    rw [setAf_same]
    exact kept
  · rw [setAf_other conf change here]
    exact coherent afi' safi'

theorem defaults_agree (configCisco : Bool) (af : AfConf) (zero : af.allowasIn = 0)
    (flags : af.afFlags = defaultAfFlags configCisco) : Agrees af := by
  simp [Agrees, zero, flags, defaultAfFlags]

theorem peerNew_coherent (configCisco : Bool) : Coherent (peerNew configCisco) :=
  fun _ _ => defaults_agree configCisco _ rfl rfl

theorem peerCreate_coherent (c : Config) (localAs as : U32) (family : Option (Afi × Safi)) :
    Coherent (peerCreate c localAs as family) := by
  have fresh := peerNew_coherent c.configCisco
  unfold peerCreate
  cases family with
  | none => exact fresh
  | some family =>
    refine Coherent.setAf ?_ ?_
    · exact fresh
    · exact fresh family.1 family.2

theorem newTemplate_coherent (c : Config) (name : String) : Coherent (newTemplate c name) := by
  have fresh := peerNew_coherent c.configCisco
  unfold newTemplate
  split
  · exact fresh
  · refine Coherent.setAf ?_ ?_
    · exact fresh
    · exact fresh .ip .unicast

theorem peerAsChange_coherent (c : Config) (t : Target) (conf : Conf) (as : U32)
    (coherent : Coherent conf) : Coherent (peerAsChange c t conf as) := by
  refine coherent.of_af fun afi safi => ?_
  obtain ⟨flags, changed, others⟩ := peerAsChange_af t conf as afi safi
  rw [changed]
  exact ⟨rfl, others .allowasIn (by decide)⟩

theorem copy_coherent (bgp : Bgp) {template before : Conf} (afi : Afi) (safi : Safi)
    (given : Coherent template)
    (others : ∀ afi' safi', ¬ (afi' = afi ∧ safi' = safi) → Agrees (before.af afi' safi')) :
    Coherent (peerGroup2peerConfigCopy bgp template before afi safi) := by
  intro afi' safi'
  unfold peerGroup2peerConfigCopy
  by_cases here : afi' = afi ∧ safi' = safi
  · obtain ⟨rfl, rfl⟩ := here
    rw [setAf_same]
    exact given afi' safi'
  · rw [setAf_other _ _ here]
    exact others afi' safi' here

theorem allowAsIn_coherent (afi : Afi) (safi : Safi) {allowNum : Nat} (some : 1 ≤ allowNum)
    (coherent : Coherent conf) : Coherent (allowAsIn afi safi allowNum conf) := by
  refine coherent.setAf ?_
  split
  · simp [Agrees, putFlags]
    omega
  · exact coherent afi safi

/-! ## Unsetting it -/

section Unset

variable {c : Config} {afi : Afi} {safi : Safi}

/-- The number goes. -/
def zeroed (afi : Afi) (safi : Safi) (conf : Conf) : Conf :=
  conf.setAf afi safi fun af => { af with allowasIn := 0 }

/-- The flag goes. -/
abbrev unflagged (afi : Afi) (safi : Safi) : Conf → Conf := putAfFlags afi safi [.allowasIn] false

/-- The flag is one a member may change on its own, unless its group has it. -/
theorem refused_allowasIn (t : Target) (conf : Conf) :
    peerAfFlagRefused c t conf afi safi [.allowasIn] false =
      if (conf.af afi safi).afc = false then some .peerInactive
      else if (conf.af afi safi).afGroup = true ∧
          (groupConf c conf).any (fun group => (group.af afi safi).afFlags .allowasIn) = true then
        some .peerGroupHasTheFlag
      else none := by
  simp [peerAfFlagRefused, peerAfFlagAction, notForMember]

theorem zeroed_flag (afi' : Afi) (safi' : Safi) (conf : Conf) :
    ((zeroed afi safi conf).af afi' safi').afFlags = (conf.af afi' safi').afFlags := by
  unfold zeroed Conf.setAf
  dsimp only
  split <;> rfl

variable {conf : Conf}

theorem zeroed_unflagged_coherent (coherent : Coherent conf) :
    Coherent (unflagged afi safi (zeroed afi safi conf)) := by
  intro afi' safi'
  by_cases here : afi' = afi ∧ safi' = safi
  · obtain ⟨rfl, rfl⟩ := here
    simp [Agrees, unflagged, putAfFlags, setAf_same, zeroed, putFlags]
  · rw [unflagged, putAfFlags, setAf_other _ _ here, zeroed, setAf_other _ _ here]
    exact coherent afi' safi'

theorem unflagged_flag (conf : Conf) :
    ((unflagged afi safi conf).af afi safi).afFlags .allowasIn = false := by
  simp [unflagged, putAfFlags, setAf_same, putFlags]

theorem unflagged_coherent (coherent : Coherent conf)
    (unset : (conf.af afi safi).afFlags .allowasIn = false) :
    Coherent (unflagged afi safi conf) := by
  refine coherent.setAf ?_
  have agrees := coherent afi safi
  simp only [Agrees, unset] at agrees
  simp [Agrees, putFlags, agrees]

variable {t : Target}

/-- Where the flag is set and may be unset, the number goes and then the flag. -/
theorem disallowAsIn_eq (found : c.conf t = some conf) (clears : Clears c t conf afi safi) :
    disallowAsIn c t afi safi =
      if (conf.af afi safi).afFlags .allowasIn = true then
        spread (c.modify t (zeroed afi safi)) t (unflagged afi safi)
    (ifBound afi safi (unflagged afi safi))
      else c := by
  unfold disallowAsIn
  rw [found, Option.any_some]
  split
  · rename_i flagged
    have accepted := clears flagged
    rw [refused_allowasIn] at accepted
    have now : (c.modify t (zeroed afi safi)).conf t = some (zeroed afi safi conf) := by
      rw [conf_modify, if_pos rfl, found]
      rfl
    have template : (groupConf (c.modify t (zeroed afi safi)) (zeroed afi safi conf)).any
          (fun group => (group.af afi safi).afFlags .allowasIn) =
        (groupConf c conf).any fun group => (group.af afi safi).afFlags .allowasIn := by
      have flags : (groupConf (c.modify t (zeroed afi safi)) (zeroed afi safi conf)).map
            (fun group => (group.af afi safi).afFlags .allowasIn) =
          (groupConf c conf).map fun group => (group.af afi safi).afFlags .allowasIn :=
        groupConf_modify t rfl _ fun conf => by rw [zeroed_flag]
      simpa [Option.any_map] using congrArg (Option.any id) flags
    change (peerAfFlagModify (c.modify t (zeroed afi safi)) t afi safi [.allowasIn] false).1 = _
    unfold peerAfFlagModify
    rw [now]
    dsimp only
    rw [refused_allowasIn, template]
    have same : ((zeroed afi safi conf).af afi safi).afc = (conf.af afi safi).afc ∧
        ((zeroed afi safi conf).af afi safi).afGroup = (conf.af afi safi).afGroup := by
      simp [zeroed, setAf_same]
    rw [same.1, same.2, accepted]
  · rfl

/-- Of a neighbour the flag goes too, or there was none. The others are as before. -/
theorem disallow_peer (su : SockUnion)
    (clears : ∀ conf, c.peer su = some conf → Clears c (.peer su) conf afi safi) :
    (disallowAsIn c (.peer su) afi safi).group = c.group ∧
      ∀ su' conf', (disallowAsIn c (.peer su) afi safi).peer su' = some conf' →
        (conf'.af afi safi).afFlags .allowasIn = true → su' ≠ su ∧ c.peer su' = some conf' := by
  cases here : c.peer su with
  | none =>
    have nothing : disallowAsIn c (.peer su) afi safi = c := by
      simp [disallowAsIn, Config.conf, here]
    rw [nothing]
    refine ⟨rfl, fun su' conf' found _ => ⟨?_, found⟩⟩
    rintro rfl
    rw [here] at found
    cases found
  | some conf =>
    have found : c.conf (.peer su) = some conf := here
    rw [disallowAsIn_eq found (clears conf here)]
    split
    · refine ⟨rfl, fun su' conf' now flagged => ?_⟩
      have now :
        ((c.modify (.peer su) (zeroed afi safi)).modify (.peer su) (unflagged afi safi)).conf
          (.peer su') = some conf' := now
      by_cases itself : su' = su
      · subst itself
        rw [conf_modify, if_pos rfl] at now
        obtain ⟨conf'', -, rfl⟩ := Option.map_eq_some_iff.mp now
        rw [unflagged_flag] at flagged
        cases flagged
      · have other : Target.peer su' ≠ .peer su := fun same => itself (Target.peer.inj same)
        rw [conf_modify, if_neg other, conf_modify, if_neg other] at now
        exact ⟨itself, now⟩
    · rename_i unset
      refine ⟨rfl, fun su' conf' now flagged => ⟨?_, now⟩⟩
      rintro rfl
      rw [here] at now
      obtain rfl := Option.some.inj now
      exact unset flagged

theorem disallow_peer_coherent (coherent : Everywhere Coherent c) (su : SockUnion)
    (clears : ∀ conf, c.peer su = some conf → Clears c (.peer su) conf afi safi) :
    Everywhere Coherent (disallowAsIn c (.peer su) afi safi) := by
  cases here : c.peer su with
  | none =>
    have nothing : disallowAsIn c (.peer su) afi safi = c := by
      simp [disallowAsIn, Config.conf, here]
    rwa [nothing]
  | some conf =>
    have found : c.conf (.peer su) = some conf := here
    rw [disallowAsIn_eq found (clears conf here)]
    split
    · intro t conf' now
      have now :
        ((c.modify (.peer su) (zeroed afi safi)).modify (.peer su) (unflagged afi safi)).conf t =
          some conf' := now
      rw [conf_modify] at now
      split at now <;> rename_i place
      · rw [conf_modify, if_pos place, Option.map_map] at now
        obtain ⟨old, before, rfl⟩ := Option.map_eq_some_iff.mp now
        exact zeroed_unflagged_coherent (coherent t old before)
      · rw [conf_modify, if_neg place] at now
        exact coherent t conf' now
    · exact coherent

/-- Whether the flag may be unset depends on the neighbour and on the groups. -/
theorem Clears.of_group {c' : Config} (clears : Clears c t conf afi safi)
    (same : c'.group = c.group) : Clears c' t conf afi safi := by
  intro flagged
  have accepted := clears flagged
  rw [refused_allowasIn] at accepted ⊢
  rwa [groupConf, same]

/-- The loop over the members. None of them has the flag at the end. -/
theorem disallow_members (coherent : Everywhere Coherent c) (members : List SockUnion)
    (clears : ∀ su ∈ members, ∀ conf, c.peer su = some conf → Clears c (.peer su) conf afi safi) :
    Everywhere Coherent (members.foldl (fun c su => disallowAsIn c (.peer su) afi safi) c) ∧
      (members.foldl (fun c su => disallowAsIn c (.peer su) afi safi) c).group = c.group ∧
      ∀ su conf, (members.foldl (fun c su => disallowAsIn c (.peer su) afi safi) c).peer su =
        some conf →
        (conf.af afi safi).afFlags .allowasIn = true → su ∉ members ∧ c.peer su = some conf := by
  induction members generalizing c with
  | nil => exact ⟨coherent, rfl, fun su conf found _ => ⟨List.not_mem_nil, found⟩⟩
  | cons su later ih =>
    have first := clears su List.mem_cons_self
    obtain ⟨groups, kept⟩ := disallow_peer su first
    obtain ⟨settled, same, gone⟩ :=
        ih (disallow_peer_coherent coherent su first) fun su' member conf found flagged => by
      obtain ⟨-, before⟩ := kept su' conf found flagged
      exact (clears su' (List.mem_cons_of_mem su member) conf before).of_group groups flagged
    refine ⟨settled, same.trans groups, fun su' conf found flagged => ?_⟩
    obtain ⟨unlisted, between⟩ := gone su' conf found flagged
    obtain ⟨other, before⟩ := kept su' conf between flagged
    exact ⟨by simp [other, unlisted], before⟩

/-- A template gives it up, and so do the members that are bound; none of these may have
the flag, since their numbers stay. -/
theorem disallow_group (coherent : Everywhere Coherent c) (name : String)
    (fair : Fair c (.noAllowasIn (.group name) afi safi)) :
    Everywhere Coherent (disallowAsIn c (.group name) afi safi) ∧
      (disallowAsIn c (.group name) afi safi).members name = c.members name ∧
      ∀ su ∈ c.members name, ∀ conf, (disallowAsIn c (.group name) afi safi).peer su = some conf →
        Clears (disallowAsIn c (.group name) afi safi) (.peer su) conf afi safi := by
  cases here : c.conf (.group name) with
  | none =>
    have nothing : disallowAsIn c (.group name) afi safi = c := by simp [disallowAsIn, here]
    rw [nothing]
    refine ⟨coherent, rfl, fun su member => ?_⟩
    simp [Config.members, Option.map_eq_none_iff.mp here] at member
  | some template =>
    obtain ⟨clears, each⟩ := fair template here
    have each := each name rfl
    rw [disallowAsIn_eq here clears]
    split
    · rename_i flagged
      have unbound : ∀ su ∈ c.members name, ∀ conf, c.peer su = some conf →
          (conf.af afi safi).afGroup = true → (conf.af afi safi).afFlags .allowasIn = false := by
        intro su member conf found bound
        cases set : (conf.af afi safi).afFlags .allowasIn with
        | false => rfl
        | true => rw [(each su member conf found).2 bound set] at flagged; cases flagged
      -- what a member has after the loop it had before, without the flag if it is bound
      have after : ∀ su conf', (spread (c.modify (.group name) (zeroed afi safi)) (.group name)
            (unflagged afi safi) (ifBound afi safi (unflagged afi safi))).peer su = some conf' →
          (∃ conf, su ∈ c.members name ∧ c.peer su = some conf ∧ (conf.af afi safi).afGroup = true ∧
            conf' = unflagged afi safi conf) ∨
          (c.peer su = some conf' ∧ (su ∈ c.members name →
              (conf'.af afi safi).afGroup = false)) := by
        intro su conf' found
        rw [spread, Config.eachMember, members_modify, members_modify] at found
        dsimp only at found
        split at found <;> rename_i member
        · obtain ⟨conf, before, rfl⟩ := Option.map_eq_some_iff.mp found
          unfold ifBound
          split <;> rename_i bound
          · exact .inl ⟨conf, member, before, bound, rfl⟩
          · exact .inr ⟨before, fun _ => by simpa using bound⟩
        · exact .inr ⟨found, fun is => absurd is member⟩
      refine ⟨?_, ?_, fun su member conf found set => ?_⟩
      · intro t conf' found
        cases t with
        | peer su =>
          obtain ⟨conf, member, before, bound, rfl⟩ | ⟨before, -⟩ := after su conf' found
          · exact unflagged_coherent (coherent (.peer su) conf before)
              (unbound su member conf before bound)
          · exact coherent (.peer su) conf' before
        | group name' =>
          have found : ((c.modify (.group name) (zeroed afi safi)).modify (.group name)
            (unflagged afi safi)).conf (.group name') = some conf' := found
          rw [conf_modify] at found
          split at found <;> rename_i place
          · rw [conf_modify, if_pos place, Option.map_map] at found
            obtain ⟨old, before, rfl⟩ := Option.map_eq_some_iff.mp found
            exact zeroed_unflagged_coherent (coherent (.group name') old before)
          · rw [conf_modify, if_neg place] at found
            exact coherent (.group name') conf' found
      · change ((c.modify (.group name) _).modify (.group name) _).members name = _
        rw [members_modify, members_modify]
      · obtain ⟨old, -, before, -, rfl⟩ | ⟨before, free⟩ := after su conf found
        · rw [unflagged_flag] at set
          cases set
        · have accepted := (each su member conf before).1 set
          rw [refused_allowasIn] at accepted ⊢
          rw [free member] at accepted ⊢
          simpa using accepted
    · exact ⟨coherent, rfl, fun su member conf found => (each su member conf found).1⟩

end Unset

variable {c : Config} {conf : Conf}

theorem allowasInUnset_coherent {t : Target} (coherent : Everywhere Coherent c)
    (fair : Fair c (.noAllowasIn t afi safi)) :
    Everywhere Coherent (peerAllowasInUnset c t afi safi) := by
  cases t with
  | peer su => exact disallow_peer_coherent coherent su fun conf found => (fair conf found).1
  | group name =>
    obtain ⟨settled, members, clears⟩ := disallow_group coherent name fair
    unfold peerAllowasInUnset
    dsimp only
    rw [members]
    exact (disallow_members settled _ clears).1

/-! ## Every command -/

theorem multihop_coherent (coherent : Everywhere Coherent c) (t : Target) (ttl : Nat) :
    Everywhere Coherent (peerEbgpMultihopSet c t ttl).1 :=
  coherent.peerEbgpMultihopSet t ttl (fun conf found _ _ => coherent t conf found)
    fun _ _ _ _ _ su _ conf found _ => coherent (.peer su) conf found

theorem noMultihop_coherent (coherent : Everywhere Coherent c) (t : Target) :
    Everywhere Coherent (peerEbgpMultihopUnset c t).1 :=
  coherent.peerEbgpMultihopUnset t (fun conf found _ _ => coherent t conf found)
    fun _ _ _ _ _ _ su _ conf found _ => coherent (.peer su) conf found

theorem hops_coherent (coherent : Everywhere Coherent c) (t : Target) (own members : Nat)
    (bgp : Bgp) :
    Everywhere Coherent (spread c t (fun conf => { conf with gtsmHops := own })
      (ifExternal bgp fun conf => { conf with gtsmHops := members })) :=
  coherent.spread (fun conf found => coherent t conf found) fun _ _ su _ conf found =>
    coherent.ifExternal found fun _ => coherent (.peer su) conf found

theorem putFilter_coherent (coherent : Coherent conf) (afi : Afi) (safi : Safi) (kind : FilterKind)
    (direct : Direct) (list : Option String) :
    Coherent (conf.setAf afi safi (putFilter kind direct list)) :=
  coherent.setAf (by cases kind <;> exact coherent afi safi)

theorem putAfFlags_coherent (coherent : Coherent conf) (afi : Afi) (safi : Safi)
    (mask : List AfFlag) (set : Bool)
    (same : .allowasIn ∈ mask → (conf.af afi safi).afFlags .allowasIn = set) :
    Coherent (putAfFlags afi safi mask set conf) := by
  refine coherent.setAf ?_
  have kept : putFlags mask set (conf.af afi safi).afFlags .allowasIn =
      (conf.af afi safi).afFlags .allowasIn := by
    unfold putFlags
    split
    · rename_i member
      exact (same member).symm
    · rfl
  change (conf.af afi safi).allowasIn ≠ 0 ↔
    putFlags mask set (conf.af afi safi).afFlags .allowasIn = true
  rw [kept]
  exact coherent afi safi

theorem filterSet_coherent (coherent : Everywhere Coherent c) (kind : FilterKind) (t : Target)
    (afi : Afi) (safi : Safi) (direct : Direct) (list : String) :
    Everywhere Coherent (peerFilterSet kind c t afi safi direct list).1 :=
  coherent.peerFilterSet kind t afi safi direct list
    (fun conf found _ => putFilter_coherent (coherent t conf found) afi safi kind direct _)
    fun _ _ _ _ _ _ su _ conf found _ =>
      putFilter_coherent (coherent (.peer su) conf found) afi safi kind direct _

theorem filterUnset_coherent (coherent : Everywhere Coherent c) (kind : FilterKind) (t : Target)
    (afi : Afi) (safi : Safi) (direct : Direct) :
    Everywhere Coherent (peerFilterUnset kind c t afi safi direct).1 :=
  coherent.peerFilterUnset kind t afi safi direct
    (fun conf _ found _ _ _ => putFilter_coherent (coherent t conf found) afi safi kind direct _)
    fun t conf found => putFilter_coherent (coherent t conf found) afi safi kind direct _

/-- A neighbour that leaves its group in a family keeps the number, but not the flag. -/
theorem leaveFamily_coherent (coherent : Coherent conf) (configCisco : Bool)
    (zero : (conf.af afi safi).allowasIn = 0) : Coherent (leaveFamily configCisco afi safi conf) :=
  coherent.setAf (defaults_agree configCisco _ zero rfl)

/-- Each command that is fair keeps the numbers and the flags together. -/
theorem step_coherent (c : Config) (command : Command) (coherent : Everywhere Coherent c)
    (fair : Fair c command) : Everywhere Coherent (step c command) := by
  cases command with
  | peerGroup name => exact coherent.peerGroupGet name (newTemplate_coherent c name)
  | remoteAs su as afi safi =>
    exact coherent.peerRemoteAs su as afi safi (fun localAs family =>
      peerCreate_coherent c localAs as family)
      fun conf found _ => peerAsChange_coherent c _ conf as (coherent _ conf found)
  | groupRemoteAs name as =>
    exact coherent.peerGroupRemoteAs name as
      (fun conf found _ => peerAsChange_coherent c _ conf as (coherent _ conf found))
      fun _ _ _ su _ conf found _ c' _ =>
        peerAsChange_coherent c' _ conf as (coherent (.peer su) conf found)
  | noGroupRemoteAs name =>
    exact coherent.peerGroupRemoteAsDelete name fun conf found => coherent _ conf found
  | noPeer su => exact coherent.of_conf (peerDelete_conf su)
  | noPeerGroup name => exact coherent.peerGroupDelete name
  | activate t afi safi =>
    exact coherent.modify fun conf found =>
      (coherent t conf found).setAf (coherent t conf found afi safi)
  | deactivate t afi safi =>
    refine coherent.peerDeactivate t afi safi fun conf found accepted active => ?_
    exact (coherent t conf found).setAf
      (defaults_agree c.configCisco _ (fair conf found accepted active) rfl)
  | bind su name afi safi =>
    refine coherent.peerGroupBind su name afi safi (fun group conf grouped _ _ new => ?_)
      (fun group conf grouped here _ template before same entering => ?_) fun sort conf found =>
        coherent _ conf found
    · have given := coherent (.group name) group.conf (by simp [Config.conf, grouped])
      refine copy_coherent c.bgp afi safi given fun afi' safi' other => ?_
      rw [new, setAf_other _ _ other]
      exact peerCreate_coherent c _ _ _ afi' safi'
    · have given := coherent (.group name) group.conf (by simp [Config.conf, grouped])
      refine copy_coherent c.bgp afi safi ?_ fun afi' safi' other => ?_
      · obtain rfl | ⟨sort, rfl⟩ := same
        · exact given
        · exact given
      · rw [entering.others afi' safi' other]
        exact coherent (.peer su) conf here afi' safi'
  | unbind su name afi safi =>
    refine coherent.peerGroupUnbind su name afi safi
      (fun group conf grouped here bound own active => ?_)
      fun group conf grouped lacks here bound own _ => ?_
    · obtain zero | ⟨-, inactive⟩ := fair conf group here grouped bound own
      · exact leaveFamily_coherent (coherent (.peer su) conf here) c.configCisco zero
      · rw [inactive] at active
        cases active
    · obtain zero | ⟨given, -⟩ := fair conf group here grouped bound own
      · exact leaveFamily_coherent (coherent (.peer su) conf here) c.configCisco zero
      · exact absurd lacks given
  | flag t mask set =>
    exact coherent.peerFlagModify t mask set (fun conf found _ => coherent t conf found)
      fun _ _ _ _ _ su _ conf found => coherent (.peer su) conf found
  | afFlag t afi safi mask set =>
    refine coherent.peerAfFlagModify t afi safi mask set (fun conf found accepted => ?_)
      fun name template group found accepted su member conf here bound => ?_
    · exact putAfFlags_coherent (coherent t conf found) afi safi mask set
        fun marked => (fair marked conf found accepted).1
    · exact putAfFlags_coherent (coherent (.peer su) conf here) afi safi mask set
        fun marked => (fair marked template found accepted).2 name group su member conf here bound
  | multihop t ttl => exact multihop_coherent coherent t ttl
  | noMultihop t => exact noMultihop_coherent coherent t
  | ttlSecurity t gtsmHops =>
    have raised := multihop_coherent coherent t maxttl
    refine coherent.peerTtlSecurityHopsSet t gtsmHops (fun c' conf _ _ prepared => ?_) raised
    obtain ⟨-, -, rfl⟩ | ⟨-, rfl⟩ := prepared
    · exact hops_coherent raised t gtsmHops gtsmHops _
    · exact hops_coherent coherent t gtsmHops gtsmHops _
  | noTtlSecurity t =>
    change Everywhere Coherent (peerTtlSecurityHopsUnset c t).1
    unfold peerTtlSecurityHopsUnset
    split
    · exact coherent
    · dsimp only
      split
      · exact coherent
      · exact noMultihop_coherent (hops_coherent coherent t _ 0 _) t
  | allowasIn t afi safi allowNum =>
    change Everywhere Coherent (peerAllowasInSet c t afi safi allowNum).1
    unfold peerAllowasInSet
    split
    · exact coherent
    · rename_i valid
      have counted : 1 ≤ allowNum := by omega
      exact coherent.spread (fun conf found =>
        allowAsIn_coherent afi safi counted (coherent t conf found))
        fun _ _ su _ conf found =>
          allowAsIn_coherent afi safi counted (coherent (.peer su) conf found)
  | noAllowasIn t afi safi => exact allowasInUnset_coherent coherent fair
  | distribute t afi safi direct name =>
      exact filterSet_coherent coherent .dlist t afi safi direct name
  | noDistribute t afi safi direct => exact filterUnset_coherent coherent .dlist t afi safi direct
  | prefixList t afi safi direct name =>
      exact filterSet_coherent coherent .plist t afi safi direct name
  | noPrefixList t afi safi direct => exact filterUnset_coherent coherent .plist t afi safi direct

/-! ## Runs -/

/-- The neighbour of a session is configured like this. -/
def Configured (peer : Peer) (conf : Conf) : Prop :=
  ∀ afi safi, peer.allowasIn afi safi = (conf.af afi safi).allowasIn

/-- Whatever a member that is bound in the family sends, a path with the local AS number
keeps it out. -/
def Rejects (c : Config) (name : String) (afi : Afi) (safi : Safi) : Prop :=
  ∀ su ∈ c.members name, ∀ conf, c.peer su = some conf → (conf.af afi safi).afGroup = true →
    ∀ (peer : Peer) (connected : Connected) (p : Prefix) (attr : Attr), Configured peer conf →
      p.family = afi → (∃ seg ∈ (attr.aspath.getD aspathEmpty).segments, c.bgp.as ∈ seg.as) →
      admitMain c.bgp connected peer p attr safi = none

theorem aspathLoopCheck_pos {path : Aspath} {as : U32}
    (present : ∃ seg ∈ path.segments, as ∈ seg.as) : 0 < aspathLoopCheck path as := by
  obtain ⟨seg, here, member⟩ := present
  have counted : 0 < seg.as.count as := List.count_pos_iff.mpr member
  have bounded : seg.as.count as ≤ aspathLoopCheck path as :=
    List.single_le_sum (fun _ _ => Nat.zero_le _) _ (List.mem_map_of_mem here)
  omega

theorem admitMain_looped {bgp : Bgp} {peer : Peer} {p : Prefix} {attr : Attr}
    (connected : Connected) (never : peer.allowasIn p.family safi = 0)
    (present : ∃ seg ∈ (attr.aspath.getD aspathEmpty).segments, bgp.as ∈ seg.as) :
    admitMain bgp connected peer p attr safi = none := by
  have counted := aspathLoopCheck_pos present
  have loops : looped bgp peer attr p.family safi = true := by
    simp [looped, never, decide_eq_true counted]
  rw [admitMain, if_pos loops]

/-- After a group gives it up no member that is bound has a number left. -/
theorem unset_rejects {name : String} (coherent : Everywhere Coherent c)
    (fair : Fair c (.noAllowasIn (.group name) afi safi)) :
    Rejects (step c (.noAllowasIn (.group name) afi safi)) name afi safi := by
  intro su member conf found _ peer connected p attr configured family present
  obtain ⟨settled, members, clears⟩ := disallow_group coherent name fair
  have after : step c (.noAllowasIn (.group name) afi safi) =
      (c.members name).foldl (fun c su => disallowAsIn c (.peer su) afi safi)
        (disallowAsIn c (.group name) afi safi) := by
    rw [← members]
    rfl
  obtain ⟨still, groups, gone⟩ := disallow_members settled _ clears
  rw [after] at found member present ⊢
  have listed : su ∈ c.members name := by
    rw [Config.members, groups] at member
    rwa [← members]
  refine admitMain_looped connected ?_ present
  subst family
  rw [configured]
  by_contra counts
  exact (gone su conf found ((still (.peer su) conf found _ _).mp counts)).1 listed

/-- As long as every command is fair, the numbers and the flags agree, and a group that
gives it up protects its members. The number goes before it is known whether
the flag may, and a group's flag takes that of its members along, but not the number. -/
theorem coherent_when_fair (start : Config) (bare : Bare start) (commands : List Command)
    (fair : Guarded step Fair start commands) :
    (∀ t conf, (run step start commands).conf t = some conf → Coherent conf) ∧
      ∀ name afi safi, Fair (run step start commands) (.noAllowasIn (.group name) afi safi) →
        Rejects (step (run step start commands) (.noAllowasIn (.group name) afi safi)) name afi
          safi := by
  have coherent := guarded_invariant step Fair (Everywhere Coherent) step_coherent start commands
    bare.everywhere fair
  exact ⟨coherent, fun name afi safi => unset_rejects coherent⟩

section Examples

/-- A member has a number of its own. -/
def ownNumber : Config :=
  run step nothing (oneMember ++ [.allowasIn (.peer customer) .ip .unicast 3])

/-- The number goes with the command on the group. -/
theorem coherent_when_fair_member :
    Rejects (step ownNumber (.noAllowasIn (.group "customers") .ip .unicast)) "customers" .ip
      .unicast := by
  have fair :
      Guarded step Fair nothing (oneMember ++ [.allowasIn (.peer customer) .ip .unicast 3]) := by
    simp [Guarded, oneMember, Fair]
  refine (coherent_when_fair nothing nothing_bare _ fair).2 _ _ _ ?_
  have template : (ownNumber.conf (.group "customers")).all (fun conf =>
      !(conf.af .ip .unicast).afFlags .allowasIn) = true := by decide
  have member : (ownNumber.peer customer).all (fun conf =>
      (peerAfFlagRefused ownNumber (.peer customer) conf .ip .unicast [.allowasIn] false).isNone) =
          true := by
    decide
  have listed : ownNumber.members "customers" = [customer] := by decide
  intro conf found
  change ownNumber.conf (.group "customers") = some conf at found
  rw [found, Option.all_some, Bool.not_eq_true'] at template
  refine ⟨fun flagged => ?_, fun name same su is conf' here => ⟨fun _ => ?_, fun _ _ => template⟩⟩
  · rw [template] at flagged
    cases flagged
  · obtain rfl := Target.group.inj same
    change su ∈ ownNumber.members "customers" at is
    rw [listed, List.mem_singleton] at is
    subst is
    change ownNumber.peer customer = some conf' at here
    rw [here, Option.all_some] at member
    exact Option.isNone_iff_eq_none.mp member

/-- The group has a number, and gives it up. -/
def givenUp : Config :=
  run step nothing (oneMember ++ [.allowasIn (.group "customers") .ip .unicast 3,
    .noAllowasIn (.group "customers") .ip .unicast])

/-- The session of a member with some configuration. -/
def session (conf : Conf) : Peer :=
  { Peer.plain 2 65002 65001 with allowasIn := fun afi safi => (conf.af afi safi).allowasIn }

/-- A route that has been here. -/
def returned : Attr :=
  { Attr.zero with aspath := some ⟨[⟨.asSequence, [65002, 65001]⟩]⟩, nexthop := 0x0A000001 }

/-- The flag of the member goes with that of the group, so that the number stays, and
routes that have been here get in. -/
theorem group_leaves_number :
    ¬ (∀ su conf, givenUp.peer su = some conf → Coherent conf) ∧
      ¬ Rejects givenUp "customers" .ip .unicast := by
  have left : (givenUp.peer customer).any (fun conf =>
      (conf.af .ip .unicast).afGroup && ((conf.af .ip .unicast).allowasIn = 3 : Bool)
        && !(conf.af .ip .unicast).afFlags .allowasIn
        && (admitMain givenUp.bgp .everywhere (session conf) (.default .ip) returned
            .unicast).isSome) = true := by
    decide
  obtain ⟨conf, found, holds⟩ := Option.any_eq_true _ _ |>.mp left
  simp only [Bool.and_eq_true, decide_eq_true_eq, Bool.not_eq_true'] at holds
  obtain ⟨⟨⟨bound, number⟩, unset⟩, admitted⟩ := holds
  refine ⟨fun coherent => ?_, fun rejects => ?_⟩
  · have agrees := coherent customer conf found .ip .unicast
    simp [Agrees, number, unset] at agrees
  · rw [rejects customer (by decide) conf found bound (session conf) .everywhere
      (.default .ip) returned
      (fun _ _ => rfl) rfl (by decide)] at admitted
    cases admitted

end Examples

end Bgpd.AllowasIn
