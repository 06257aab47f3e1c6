import Bgpd.PeerOptions

/-!
# What holds of every configuration

A property of one configuration, a neighbour's or a template's, holds everywhere if it
holds of all of them. Of every command it is said here which configurations it leaves as
they are, and what it makes of the others.
-/

namespace Bgpd.PeerInvariants

open Octets Prefixes Neighbors PeerConfig PeerOptions

/-- A property of every neighbour's configuration and every template. -/
def Everywhere (Holds : Conf → Prop) (c : Config) : Prop :=
  ∀ t conf, c.conf t = some conf → Holds conf

variable {Holds : Conf → Prop} {c : Config}
variable (name : String) (t : Target) (change : Conf → Conf)

/-! ## Changing one configuration -/

theorem conf_modify (t t' : Target) (change : Conf → Conf) :
    (c.modify t change).conf t' = if t' = t then (c.conf t').map change else c.conf t' := by
  cases t with
  | peer su =>
    cases t' with
    | peer su' => simp [Config.modify, Config.conf]
    | group name => simp [Config.modify, Config.conf]
  | group name =>
    cases t' with
    | peer su => simp [Config.modify, Config.conf]
    | group name' =>
      simp only [Config.modify, Config.conf, Target.group.injEq]
      split
      · rw [Option.map_map, Option.map_map]
        rfl
      · rfl

theorem conf_eachMember :
    (c.eachMember name change).conf t =
      match t with
      | .peer su => if su ∈ c.members name then (c.peer su).map change else c.peer su
      | .group _ => c.conf t := by
  cases t <;> rfl

@[simp] theorem members_modify (name : String) :
    (c.modify t change).members name = c.members name := by
  cases t with
  | peer su => rfl
  | group name' =>
    simp only [Config.members, Config.modify]
    split
    · rw [Option.map_map]
      rfl
    · rfl

@[simp] theorem bgp_modify : (c.modify t change).bgp = c.bgp := by
  cases t <;> rfl

@[simp] theorem conf_join (su : SockUnion) (t : Target) : (c.join name su).conf t = c.conf t := by
  cases t with
  | peer su' => rfl
  | group name' =>
    simp only [Config.conf, Config.join]
    split
    · rw [Option.map_map]
      rfl
    · rfl

@[simp] theorem conf_leave (su : SockUnion) (t : Target) : (c.leave name su).conf t = c.conf t := by
  cases t with
  | peer su' => rfl
  | group name' =>
    simp only [Config.conf, Config.leave]
    split
    · rw [Option.map_map]
      rfl
    · rfl

namespace Everywhere

theorem modify (everywhere : Everywhere Holds c) {t : Target} {change : Conf → Conf}
    (kept : ∀ conf, c.conf t = some conf → Holds (change conf)) :
    Everywhere Holds (c.modify t change) := by
  intro t' conf' found
  rw [conf_modify] at found
  split at found <;> rename_i here
  · subst here
    obtain ⟨conf, old, rfl⟩ := Option.map_eq_some_iff.mp found
    exact kept conf old
  · exact everywhere t' conf' found

theorem eachMember (everywhere : Everywhere Holds c) {name : String} {change : Conf → Conf}
    (kept : ∀ su ∈ c.members name, ∀ conf, c.peer su = some conf → Holds (change conf)) :
    Everywhere Holds (c.eachMember name change) := by
  intro t conf' found
  rw [conf_eachMember] at found
  cases t with
  | group name' => exact everywhere _ conf' found
  | peer su =>
    dsimp only at found
    split at found <;> rename_i member
    · obtain ⟨conf, old, rfl⟩ := Option.map_eq_some_iff.mp found
      exact kept su member conf old
    · exact everywhere (.peer su) conf' found

/-- Where every configuration was there before, nothing is to show. -/
theorem of_conf (everywhere : Everywhere Holds c) {c' : Config}
    (old : ∀ t conf, c'.conf t = some conf → c.conf t = some conf) : Everywhere Holds c' :=
  fun t conf found => everywhere t conf (old t conf found)

theorem addPeer (everywhere : Everywhere Holds c) (su : SockUnion) {conf : Conf}
    (new : Holds conf) :
    Everywhere Holds (addPeer c su conf) := by
  intro t conf' found
  cases t with
  | group name => exact everywhere (.group name) conf' found
  | peer su' =>
    change (if su' = su then some conf else c.peer su') = some conf' at found
    split at found
    · exact Option.some.inj found ▸ new
    · exact everywhere (.peer su') conf' found

end Everywhere

variable (t : Target) (conf : Conf) (own members : Conf → Conf)

/-! ## Neighbours and groups that go -/

theorem peerDelete_conf (su : SockUnion) (t : Target) (conf : Conf)
    (found : (peerDelete c su).conf t = some conf) : c.conf t = some conf := by
  unfold peerDelete at found
  split at found
  · exact found
  · cases t with
    | peer su' =>
      simp only [Config.conf] at found ⊢
      split at found
      · cases found
      · exact found
    | group name =>
      simp only [Config.conf] at found ⊢
      split at found
      · rwa [Option.map_map] at found
      · exact found

theorem peerDelete_gone (su : SockUnion) : (peerDelete c su).conf (.peer su) = none := by
  unfold peerDelete
  split
  · assumption
  · exact if_pos rfl

/-- The loop that deletes the members of a group leaves the other configurations. -/
theorem deleteMembers_conf (members : List SockUnion) (t : Target) (conf : Conf)
    (found : (members.foldl (fun c su =>
      peerDelete (c.modify (.peer su) fun conf => { conf with group := none }) su) c).conf t =
        some conf) :
    c.conf t = some conf := by
  induction members generalizing c with
  | nil => exact found
  | cons su later ih =>
    have kept := ih found
    by_cases here : t = .peer su
    · subst here
      rw [peerDelete_gone] at kept
      cases kept
    · have old := peerDelete_conf su t conf kept
      rwa [conf_modify, if_neg here] at old

theorem Everywhere.peerGroupDelete (everywhere : Everywhere Holds c) (name : String) :
    Everywhere Holds (peerGroupDelete c name) := by
  unfold PeerConfig.peerGroupDelete
  split
  · exact everywhere
  · rename_i group _
    refine everywhere.of_conf fun t conf found => deleteMembers_conf group.peer t conf ?_
    cases t with
    | peer su => exact found
    | group name' =>
      simp only [Config.conf] at found ⊢
      split at found
      · cases found
      · exact found

/-- The template loses its AS number. -/
theorem Everywhere.peerGroupRemoteAsDelete (everywhere : Everywhere Holds c) (name : String)
    (kept : ∀ conf, c.conf (.group name) = some conf → Holds { conf with as := 0 }) :
    Everywhere Holds (peerGroupRemoteAsDelete c name) := by
  unfold PeerConfig.peerGroupRemoteAsDelete
  split
  · exact everywhere
  · rename_i group here
    split
    · exact everywhere
    · intro t conf found
      cases t with
      | peer su => exact everywhere _ conf (deleteMembers_conf group.peer (.peer su) conf found)
      | group name' =>
        simp only [Config.conf] at found
        split at found
        · obtain rfl := Option.some.inj found
          exact kept group.conf (by rw [Config.conf, here]; rfl)
        · exact everywhere _ conf (deleteMembers_conf group.peer (.group name') conf found)

theorem Everywhere.peerGroupGet (everywhere : Everywhere Holds c) (name : String)
    (new : Holds (newTemplate c name)) : Everywhere Holds (peerGroupGet c name) := by
  unfold PeerConfig.peerGroupGet
  split
  · exact everywhere
  · intro t conf found
    cases t with
    | peer su => exact everywhere (.peer su) conf found
    | group name' =>
      simp only [Config.conf] at found
      split at found
      · exact Option.some.inj found ▸ new
      · exact everywhere (.group name') conf found

/-! ## AS numbers -/

/-- A branch that changes nothing of what is looked at. -/
theorem ite_kept {α β : Type} (look : α → β) {p : Prop} [Decidable p] {new old : α}
    (same : look new = look old) : look (if p then new else old) = look old := by
  split
  · exact same
  · rfl

/-- Another AS number leaves what is configured in a family, but for the flag of a client
of the reflector. -/
theorem peerAsChange_af (as : U32) (afi : Afi) (safi : Safi) :
    ∃ flags, (peerAsChange c t conf as).af afi safi = { conf.af afi safi with afFlags := flags } ∧
      ∀ flag, flag ≠ .reflectorClient → flags flag = (conf.af afi safi).afFlags flag := by
  have prepends : ∀ (resets : Prop) [Decidable resets] (conf : Conf),
      (if resets then { prependLocalAs conf with changeLocalAs := 0 } else conf).af = conf.af :=
    fun _ _ _ => ite_kept Conf.af rfl
  have reflects : ∀ (resets : Prop) [Decidable resets] (conf : Conf), ∃ flags,
      (if resets then resetReflectors conf else conf).af afi safi =
          { conf.af afi safi with afFlags := flags } ∧
        ∀ flag, flag ≠ .reflectorClient → flags flag = (conf.af afi safi).afFlags flag := by
    intro resets _ conf
    split
    · exact ⟨_, rfl, fun flag other => if_neg fun is => other is.1⟩
    · exact ⟨_, rfl, fun _ _ => rfl⟩
  unfold peerAsChange
  rw [prepends]
  exact reflects _ _

/-- Of the other flags none changes. -/
theorem peerAsChange_flags (as : U32) {flag : PeerFlag} (other : flag ≠ .localAsNoPrepend) :
    (peerAsChange c t conf as).flags flag = conf.flags flag :=
  Eq.trans (ite_kept (fun conf : Conf => conf.flags flag) (if_neg other))
    (ite_kept (fun conf : Conf => conf.flags flag) rfl)

/-- The time to live follows the sort. -/
theorem peerAsChange_hops (as : U32) :
    (peerAsChange c t conf as).gtsmHops = conf.gtsmHops ∧
      (peerAsChange c t conf as).ttl =
        if confSort c t (renumber c.bgp as conf) = .ibgp then 255
        else if confSort c t conf = .ibgp then 1 else conf.ttl :=
  ⟨Eq.trans (ite_kept Conf.gtsmHops rfl) (ite_kept Conf.gtsmHops rfl),
    Eq.trans (ite_kept Conf.ttl rfl) (ite_kept Conf.ttl rfl)⟩

theorem Everywhere.peerRemoteAs (everywhere : Everywhere Holds c) (su : SockUnion) (as : U32)
    (afi : Afi) (safi : Safi) (new : ∀ localAs family, Holds (peerCreate c localAs as family))
    (kept : ∀ conf, c.conf (.peer su) = some conf → conf.as ≠ as →
      Holds (peerAsChange c (.peer su) conf as)) :
    Everywhere Holds (peerRemoteAs c su as afi safi).1 := by
  unfold PeerConfig.peerRemoteAs
  split
  · rename_i conf here
    dsimp only
    split
    · exact everywhere
    · split
      · rename_i other
        dsimp only
        refine everywhere.modify fun conf' found => ?_
        obtain rfl := Option.some.inj (Eq.trans here.symm found)
        exact kept conf here other
      · exact everywhere
  · exact everywhere.addPeer su (new _ _)

theorem Everywhere.peerGroupRemoteAs (everywhere : Everywhere Holds c) (name : String) (as : U32)
    (kept : ∀ conf, c.conf (.group name) = some conf → conf.as ≠ as →
      Holds (peerAsChange c (.group name) conf as))
    (members : ∀ template, c.conf (.group name) = some template → template.as ≠ as →
      ∀ su ∈ c.members name, ∀ conf, c.peer su = some conf → conf.as ≠ as →
      ∀ c' : Config, c'.bgp = c.bgp → Holds (peerAsChange c' (.peer su) conf as)) :
    Everywhere Holds (peerGroupRemoteAs c name as) := by
  unfold PeerConfig.peerGroupRemoteAs
  split
  · exact everywhere
  · rename_i group grouped
    have here : c.conf (.group name) = some group.conf := by simp [Config.conf, grouped]
    split
    · exact everywhere
    · rename_i given
      intro t conf' found
      have changed : Everywhere Holds
          (c.modify (.group name) fun conf => peerAsChange c (.group name) conf as) := by
        refine everywhere.modify fun conf found => ?_
        obtain rfl := Option.some.inj (here.symm.trans found)
        exact kept group.conf here given
      cases t with
      | group name' => exact changed (.group name') conf' found
      | peer su =>
        simp only [Config.conf] at found
        split at found <;> rename_i member
        · obtain ⟨conf, old, rfl⟩ := Option.map_eq_some_iff.mp found
          split
          · rename_i other
            rw [members_modify] at member
            exact members group.conf here given su member conf old other _ (bgp_modify _ _)
          · exact changed (.peer su) conf old
        · exact changed (.peer su) conf' found

/-! ## Families -/

theorem Everywhere.peerDeactivate (everywhere : Everywhere Holds c) (t : Target) (afi : Afi)
    (safi : Safi)
    (kept : ∀ conf, c.conf t = some conf → peerDeactivateRefused c t conf afi safi = none →
      (conf.af afi safi).afc = true →
      Holds (conf.setAf afi safi fun af =>
        peerAfFlagReset c.configCisco { af with afc := false })) :
    Everywhere Holds (peerDeactivate c t afi safi).1 := by
  unfold PeerConfig.peerDeactivate
  cases here : c.conf t with
  | none => exact everywhere
  | some conf =>
    dsimp only
    split
    · exact everywhere
    · rename_i accepted
      cases active : (conf.af afi safi).afc with
      | false => exact everywhere
      | true =>
        refine everywhere.modify fun conf' found => ?_
        obtain rfl := Option.some.inj (here.symm.trans found)
        exact kept conf here accepted active

/-! ## Groups -/

/-- What becomes of a neighbour on its way into a group, before the template is copied. -/
structure Entering (conf before : Conf) (afi : Afi) (safi : Safi) : Prop where
  dlist : (before.af afi safi).dlist = (conf.af afi safi).dlist
  plist : (before.af afi safi).plist = (conf.af afi safi).plist
  others : ∀ afi' safi', ¬ (afi' = afi ∧ safi' = safi) → before.af afi' safi' = conf.af afi' safi'

theorem setAf_same (afi : Afi) (safi : Safi) (change : AfConf → AfConf) :
    (conf.setAf afi safi change).af afi safi = change (conf.af afi safi) := if_pos ⟨rfl, rfl⟩

theorem setAf_other {afi afi' : Afi} {safi safi' : Safi} (change : AfConf → AfConf)
    (other : ¬ (afi' = afi ∧ safi' = safi)) :
    (conf.setAf afi safi change).af afi' safi' = conf.af afi' safi' :=
  if_neg other

theorem giveUpTable_lists (serves : Bool) (af : AfConf) :
    (giveUpTable serves af).dlist = af.dlist ∧ (giveUpTable serves af).plist = af.plist := by
  unfold giveUpTable
  split <;> exact ⟨rfl, rfl⟩

/-- What a neighbour that enters a group has after it, the template, and everything else. -/
theorem bindPeer_conf (su : SockUnion) (conf : Conf) (name : String) (group : Group) (afi : Afi)
    (safi : Safi) (t : Target) (conf' : Conf)
    (found : (bindPeer c su conf name group afi safi).conf t = some conf') :
    (t ≠ .peer su ∧ (c.conf t = some conf' ∨
      t = .group name ∧ ∃ sort old, c.conf t = some old ∧ conf' = firstMember sort old)) ∨
    (t = .peer su ∧ ∃ template before, (template = group.conf ∨
      ∃ sort, template = firstMember sort group.conf) ∧
      Entering conf before afi safi ∧
      conf' = peerGroup2peerConfigCopy c.bgp template before afi safi) := by
  unfold bindPeer at found
  rw [conf_modify] at found
  split at found <;> rename_i here
  · right
    obtain ⟨_, -, rfl⟩ := Option.map_eq_some_iff.mp found
    refine ⟨here, _, _, ?_, ?_, rfl⟩
    · split
      · exact Or.inr ⟨_, rfl⟩
      · exact Or.inl rfl
    · have flags : ∀ (resets : Prop) [Decidable resets] (conf : Conf),
          (if resets then prependLocalAs conf else conf).af = conf.af := by
        intro resets _ conf
        split <;> rfl
      refine ⟨?_, ?_, fun afi' safi' other => ?_⟩
      · rw [setAf_same, (giveUpTable_lists _ _).1, flags]
        simp [Conf.setAf]
      · rw [setAf_same, (giveUpTable_lists _ _).2, flags]
        simp [Conf.setAf]
      · rw [setAf_other _ _ other, flags]
        exact if_neg other
  · left
    refine ⟨here, ?_⟩
    have unlisted : ∀ (leaves : Prop) [Decidable leaves] (c : Config) (rsclient : List Target),
        (if leaves then { c with rsclient } else c).conf t = c.conf t := by
      intro leaves _ c rsclient
      split <;> rfl
    have joined : (if conf.group = none then c.join name su else c).conf t = c.conf t := by
      split
      · exact conf_join name su t
      · rfl
    rw [unlisted] at found
    split at found
    · rw [conf_modify] at found
      split at found <;> rename_i template
      · obtain ⟨old, held, rfl⟩ := Option.map_eq_some_iff.mp found
        rw [conf_modify, if_neg here, joined] at held
        exact Or.inr ⟨template, _, old, held, rfl⟩
      · rw [conf_modify, if_neg here, joined] at found
        exact Or.inl found
    · rw [conf_modify, if_neg here, joined] at found
      exact Or.inl found

/-- A neighbour that is new, one that was there, and the template on its first member. -/
theorem Everywhere.peerGroupBind (everywhere : Everywhere Holds c) (su : SockUnion) (name : String)
    (afi : Afi) (safi : Safi)
    (created : ∀ group conf, c.group name = some group → c.peer su = none → group.conf.as ≠ 0 →
      conf.af = ((peerCreate c c.bgp.as group.conf.as (some (afi, safi))).setAf afi safi
        fun af => { af with afGroup := true }).af →
      Holds (peerGroup2peerConfigCopy c.bgp group.conf conf afi safi))
    (entered : ∀ group conf, c.group name = some group → c.peer su = some conf →
      (conf.af afi safi).afGroup = false → ∀ template before,
        (template = group.conf ∨ ∃ sort, template = firstMember sort group.conf) →
        Entering conf before afi safi →
          Holds (peerGroup2peerConfigCopy c.bgp template before afi safi))
    (first : ∀ sort conf, c.conf (.group name) = some conf → Holds (firstMember sort conf)) :
    Everywhere Holds (peerGroupBind c su name afi safi).1 := by
  unfold PeerConfig.peerGroupBind
  cases grouped : c.group name with
  | none => exact everywhere
  | some group =>
    dsimp only
    split
    · exact everywhere
    · cases here : c.peer su with
      | none =>
        dsimp only
        split
        · exact everywhere
        · rename_i given
          refine Everywhere.addPeer ?_ su (created group _ grouped here given rfl)
          exact everywhere.of_conf fun t conf found => conf_join name su t ▸ found
      | some conf =>
        dsimp only
        split
        · exact everywhere
        · rename_i outside
          split
          · exact everywhere
          · split
            · exact everywhere
            · intro t conf' found
              obtain ⟨-, old | ⟨rfl, sort, old, held, rfl⟩⟩ | ⟨-, template, before, same,
                  entering, rfl⟩ :=
                bindPeer_conf su conf name group afi safi t conf' found
              · exact everywhere t conf' old
              · exact first sort old held
              · exact entered group conf grouped here (by simpa using outside) template before
                  same entering

/-- A neighbour stays in its group, or is on its own again. -/
theorem Everywhere.peerGroupUnbind (everywhere : Everywhere Holds c) (su : SockUnion)
    (name : String) (afi : Afi) (safi : Safi)
    (left : ∀ group conf, c.group name = some group → c.peer su = some conf →
      (conf.af afi safi).afGroup = true → conf.group = some name →
      peerGroupActive (leaveFamily c.configCisco afi safi conf) = true →
      Holds (leaveFamily c.configCisco afi safi conf))
    (alone : ∀ group conf, c.group name = some group → group.conf.as = 0 → c.peer su = some conf →
      (conf.af afi safi).afGroup = true → conf.group = some name →
      peerGroupActive (leaveFamily c.configCisco afi safi conf) = false →
      Holds (peerGlobalConfigReset c.bgp
        { leaveFamily c.configCisco afi safi conf with group := none })) :
    Everywhere Holds (peerGroupUnbind c su name afi safi).1 := by
  unfold PeerConfig.peerGroupUnbind
  split
  · rename_i conf group here grouped
    split
    · exact everywhere
    · rename_i bound
      split
      · exact everywhere
      · rename_i own
        have bound : (conf.af afi safi).afGroup = true := by simpa using bound
        have own : conf.group = some name := not_not.mp own
        dsimp only
        split
        · rename_i active
          dsimp only
          exact everywhere.modify fun _ _ => left group conf grouped here bound own active
        · rename_i inactive
          have inactive : peerGroupActive (leaveFamily c.configCisco afi safi conf) = false := by
            simpa using inactive
          -- whatever the other configurations are, they were there
          have others : ∀ t conf', t ≠ .peer su →
              (((c.modify (.peer su) fun _ => leaveFamily c.configCisco afi safi conf).leave name
                su).modify
                (.peer su) fun conf => { conf with group := none }).conf t = some conf' →
              Holds conf' := by
            intro t conf' elsewhere found
            rw [conf_modify, if_neg elsewhere, conf_leave, conf_modify, if_neg elsewhere] at found
            exact everywhere t conf' found
          split
          · intro t conf' found
            by_cases gone : t = .peer su
            · rw [gone, peerDelete_gone] at found
              cases found
            · exact others t conf' gone (peerDelete_conf su t conf' found)
          · rename_i lacks
            intro t conf' found
            by_cases itself : t = .peer su
            · subst itself
              simp only [conf_modify, conf_leave, if_true, Option.map_map] at found
              obtain ⟨_, -, rfl⟩ := Option.map_eq_some_iff.mp found
              rw [bgp_modify]
              exact alone group conf grouped (not_not.mp lacks) here bound own inactive
            · rw [conf_modify, if_neg itself] at found
              exact others t conf' itself found
  · exact everywhere

/-! ## Options -/

theorem Everywhere.spread (everywhere : Everywhere Holds c) {t : Target} {own members : Conf → Conf}
    (itself : ∀ conf, c.conf t = some conf → Holds (own conf))
    (each : ∀ name, t = .group name → ∀ su ∈ c.members name, ∀ conf, c.peer su = some conf →
      Holds (members conf)) : Everywhere Holds (spread c t own members) := by
  have changed := everywhere.modify itself
  cases t with
  | peer su => exact changed
  | group name =>
    refine changed.eachMember fun su member conf found => ?_
    rw [members_modify] at member
    exact each name rfl su member conf found

variable {su : SockUnion}

/-- Of members that the loop may leave out, only the others are to be looked at. -/
theorem Everywhere.ifBound (everywhere : Everywhere Holds c) {conf : Conf}
    (found : c.peer su = some conf) {afi : Afi} {safi : Safi} {change : Conf → Conf}
    (kept : (conf.af afi safi).afGroup = true → Holds (change conf)) :
    Holds (ifBound afi safi change conf) := by
  unfold PeerOptions.ifBound
  split
  · rename_i bound
    exact kept bound
  · exact everywhere (.peer su) conf found

theorem Everywhere.ifExternal (everywhere : Everywhere Holds c) {conf : Conf}
    (found : c.peer su = some conf) {bgp : Bgp} {change : Conf → Conf}
    (kept : sortOf bgp conf ≠ .ibgp → Holds (change conf)) :
    Holds (ifExternal bgp change conf) := by
  unfold PeerOptions.ifExternal
  split
  · exact everywhere (.peer su) conf found
  · rename_i external
    exact kept external

theorem conf_spread :
    (PeerOptions.spread c t own members).conf t = (c.conf t).map own := by
  cases t with
  | peer su => rw [PeerOptions.spread, conf_modify, if_pos rfl]
  | group name =>
    change (c.modify (.group name) own).conf (.group name) = _
    rw [conf_modify, if_pos rfl]

theorem listed_spread (name : String) :
    (PeerOptions.spread c t own members).members name = c.members name := by
  cases t with
  | peer su => exact members_modify (.peer su) own name
  | group name' => exact members_modify (.group name') own name

theorem bgp_spread :
    (PeerOptions.spread c t own members).bgp = c.bgp := by
  cases t <;> rfl

theorem group_spread :
    (PeerOptions.spread c t own members).group = (c.modify t own).group := by
  cases t <;> rfl

theorem members_spread (name : String) (own members : Conf → Conf) (su : SockUnion) :
    (PeerOptions.spread c (.group name) own members).peer su =
      if su ∈ c.members name then (c.peer su).map members else c.peer su := by
  change (if su ∈ (c.modify (.group name) own).members name then _ else _) = _
  rw [members_modify]
  rfl

/-- What a command does not change is as before in the template of a neighbour's group. -/
theorem groupConf_modify {View : Type} (t : Target) {change : Conf → Conf} {conf conf' : Conf}
    (same : conf'.group = conf.group) (view : Conf → View)
    (kept : ∀ conf, view (change conf) = view conf) :
    (groupConf (c.modify t change) conf').map view = (groupConf c conf).map view := by
  unfold groupConf
  rw [same]
  cases conf.group with
  | none => rfl
  | some name =>
    cases t with
    | peer su => rfl
    | group name' =>
      simp only [Option.bind_some, Config.modify]
      split
      · cases c.group name with
        | none => rfl
        | some group => exact congrArg some (kept group.conf)
      · rfl

theorem Everywhere.peerFlagModify (everywhere : Everywhere Holds c) (t : Target)
    (mask : List PeerFlag) (set : Bool)
    (own : ∀ conf, c.conf t = some conf → peerFlagRefused c conf mask set = none →
      Holds { conf with flags := putFlags mask set conf.flags })
    (members : ∀ name template, t = .group name → c.conf t = some template →
      peerFlagRefused c template mask set = none →
        ∀ su ∈ c.members name, ∀ conf, c.peer su = some conf →
      Holds { conf with flags := putFlags mask set conf.flags }) :
    Everywhere Holds (peerFlagModify c t mask set).1 := by
  unfold PeerOptions.peerFlagModify
  cases here : c.conf t with
  | none => exact everywhere
  | some conf =>
    dsimp only
    split
    · exact everywhere
    · rename_i accepted
      refine everywhere.spread (fun conf' found => ?_)
        fun name group => members name conf group here accepted
      obtain rfl := Option.some.inj (here.symm.trans found)
      exact own conf here accepted

theorem Everywhere.peerAfFlagModify (everywhere : Everywhere Holds c) (t : Target) (afi : Afi)
    (safi : Safi) (mask : List AfFlag) (set : Bool)
    (own : ∀ conf, c.conf t = some conf → peerAfFlagRefused c t conf afi safi mask set = none →
      Holds (putAfFlags afi safi mask set conf))
    (members : ∀ name template, t = .group name → c.conf t = some template →
      peerAfFlagRefused c t template afi safi mask set = none → ∀ su ∈ c.members name,
      ∀ conf, c.peer su = some conf → (conf.af afi safi).afGroup = true →
      Holds (putAfFlags afi safi mask set conf)) :
    Everywhere Holds (peerAfFlagModify c t afi safi mask set).1 := by
  unfold PeerOptions.peerAfFlagModify
  cases here : c.conf t with
  | none => exact everywhere
  | some conf =>
    dsimp only
    split
    · exact everywhere
    · rename_i accepted
      refine everywhere.spread (fun conf' found => own conf' found ?_)
        fun name group su member conf' found => everywhere.ifBound found
          (members name conf group here accepted su member conf' found)
      rw [here] at found
      exact Option.some.inj found ▸ accepted

/-- What none of them has a neighbour or a template does not have, nor does a member. -/
theorem anyOf_false {t : Target} {conf : Conf} {has : Conf → Bool}
    (none : anyOf c t conf has = false) :
    has conf = false ∧ ∀ name, t = .group name →
      ∀ su ∈ c.members name, ∀ member, c.peer su = some member →
      sortOf c.bgp member ≠ .ibgp → has member = false := by
  unfold anyOf at none
  rw [Bool.or_eq_false_iff] at none
  refine ⟨none.1, ?_⟩
  rintro name rfl su listed member found external
  have others := none.2
  dsimp only at others
  rw [anyExternal, List.any_eq_false] at others
  have other := others su listed
  simpa [found, external] using other

theorem Everywhere.peerEbgpMultihopSet (everywhere : Everywhere Holds c) (t : Target) (ttl : Nat)
    (own : ∀ conf, c.conf t = some conf → confSort c t conf ≠ .ibgp →
      ¬ (ttl ≠ maxttl ∧ anyOf c t conf (fun conf => conf.gtsmHops ≠ 0) = true) →
        Holds { conf with ttl })
    (members : ∀ name template, t = .group name → c.conf t = some template →
      ¬ (ttl ≠ maxttl ∧ anyOf c t template (fun conf => conf.gtsmHops ≠ 0) = true) →
      ∀ su ∈ c.members name, ∀ conf, c.peer su = some conf → sortOf c.bgp conf ≠ .ibgp →
      Holds { conf with ttl }) :
    Everywhere Holds (peerEbgpMultihopSet c t ttl).1 := by
  unfold PeerOptions.peerEbgpMultihopSet
  cases here : c.conf t with
  | none => exact everywhere
  | some conf =>
    dsimp only
    split
    · exact everywhere
    · rename_i external
      split
      · exact everywhere
      · rename_i free
        refine everywhere.spread (fun conf' found => ?_)
          fun name group su member conf' found => everywhere.ifExternal found
            (members name conf group here free su member conf' found)
        obtain rfl := Option.some.inj (here.symm.trans found)
        exact own conf here external free

theorem Everywhere.peerEbgpMultihopUnset (everywhere : Everywhere Holds c) (t : Target)
    (own : ∀ conf, c.conf t = some conf → confSort c t conf ≠ .ibgp →
      ¬ (conf.gtsmHops ≠ 0 ∧ conf.ttl ≠ maxttl) →
      Holds { conf with
        ttl := if peerGroupActive conf then ((groupConf c conf).map Conf.ttl).getD 1 else 1 })
    (members : ∀ name template, t = .group name → c.conf t = some template →
      confSort c t template ≠ .ibgp → ¬ (template.gtsmHops ≠ 0 ∧ template.ttl ≠ maxttl) →
      ∀ su ∈ c.members name, ∀ conf, c.peer su = some conf → sortOf c.bgp conf ≠ .ibgp →
      Holds { conf with ttl := 1 }) :
    Everywhere Holds (peerEbgpMultihopUnset c t).1 := by
  unfold PeerOptions.peerEbgpMultihopUnset
  cases here : c.conf t with
  | none => exact everywhere
  | some conf =>
    dsimp only
    split
    · exact everywhere
    · rename_i external
      split
      · exact everywhere
      · rename_i free
        refine everywhere.spread (fun conf' found => ?_)
          fun name group su member conf' found => everywhere.ifExternal found
            (members name conf group here external free su member conf' found)
        obtain rfl := Option.some.inj (here.symm.trans found)
        exact own conf here external free

/-- The time to live goes up before the number of hops is set, where none was. -/
theorem Everywhere.peerTtlSecurityHopsSet (everywhere : Everywhere Holds c) (t : Target)
    (gtsmHops : Nat)
    (raised : ∀ (c' : Config) conf, c.conf t = some conf → confSort c t conf ≠ .ibgp →
      ((conf.gtsmHops = 0 ∧ anyOf c t conf (fun conf => conf.ttl ≠ 1) = false ∧
          c' = (PeerOptions.peerEbgpMultihopSet c t maxttl).1) ∨
        (conf.gtsmHops ≠ 0 ∧ c' = c)) →
      Everywhere Holds (PeerOptions.spread c' t (fun conf => { conf with gtsmHops })
        (PeerOptions.ifExternal c'.bgp fun conf => { conf with gtsmHops })))
    (refused : Everywhere Holds (PeerOptions.peerEbgpMultihopSet c t maxttl).1) :
    Everywhere Holds (peerTtlSecurityHopsSet c t gtsmHops).1 := by
  unfold PeerOptions.peerTtlSecurityHopsSet
  cases here : c.conf t with
  | none => exact everywhere
  | some conf =>
    dsimp only
    split
    · exact everywhere
    · rename_i external
      split
      · rename_i c' error ready
        split at ready
        · split at ready
          · exact (Prod.ext_iff.mp ready).1 ▸ everywhere
          · exact (Prod.ext_iff.mp ready).1 ▸ refused
        · cases ready
      · rename_i c' ready
        refine raised c' conf here external ?_
        split at ready <;> rename_i unset
        · split at ready <;> rename_i single
          · cases ready
          · exact .inl ⟨unset, by simpa using single, (Prod.ext_iff.mp ready).1.symm⟩
        · exact .inr ⟨unset, (Prod.ext_iff.mp ready).1.symm⟩

/-- A list goes on a neighbour or a template, and on the members bound in the family. -/
theorem Everywhere.bindFilter (everywhere : Everywhere Holds c) (t : Target) (afi : Afi)
    (safi : Safi) (kind : FilterKind) (direct : Direct) (list : Option String)
    (own : ∀ conf, c.conf t = some conf → Holds (conf.setAf afi safi (putFilter kind direct list)))
    (members : ∀ name, t = .group name → ∀ su ∈ c.members name, ∀ conf, c.peer su = some conf →
      (conf.af afi safi).afGroup = true →
        Holds (conf.setAf afi safi (putFilter kind direct list))) :
    Everywhere Holds (bindFilter c t afi safi kind direct list) :=
  everywhere.spread own fun name group su member conf found =>
    everywhere.ifBound found (members name group su member conf found)

theorem Everywhere.peerFilterSet (everywhere : Everywhere Holds c) (kind : FilterKind) (t : Target)
    (afi : Afi) (safi : Safi) (direct : Direct) (list : String)
    (own : ∀ conf, c.conf t = some conf → filterOf (conf.af afi safi) kind.other direct = none →
      Holds (conf.setAf afi safi (putFilter kind direct (some list))))
    (members : ∀ name template, t = .group name → c.conf t = some template →
      (template.af afi safi).afc = true → filterOf (template.af afi safi) kind.other direct = none →
      ∀ su ∈ c.members name, ∀ conf, c.peer su = some conf → (conf.af afi safi).afGroup = true →
      Holds (conf.setAf afi safi (putFilter kind direct (some list)))) :
    Everywhere Holds (peerFilterSet kind c t afi safi direct list).1 := by
  unfold PeerOptions.peerFilterSet
  cases here : c.conf t with
  | none => exact everywhere
  | some conf =>
    dsimp only
    split
    · exact everywhere
    · rename_i active
      split
      · exact everywhere
      · split
        · exact everywhere
        · rename_i free
          have free := Option.not_isSome_iff_eq_none.mp free
          refine everywhere.bindFilter t afi safi kind direct _ (fun conf' found => ?_)
            fun name group => members name conf group here (by simpa using active) free
          obtain rfl := Option.some.inj (here.symm.trans found)
          exact own conf here free

theorem Everywhere.peerFilterUnset (everywhere : Everywhere Holds c) (kind : FilterKind)
    (t : Target) (afi : Afi) (safi : Safi) (direct : Direct)
    (back : ∀ conf list, c.conf t = some conf → (conf.af afi safi).afGroup = true →
      direct = .filterIn →
      ((groupConf c conf).bind fun group => filterOf (group.af afi safi) kind direct) = some list →
      Holds (conf.setAf afi safi (putFilter kind direct (some list))))
    (gone : ∀ t conf, c.conf t = some conf →
      Holds (conf.setAf afi safi (putFilter kind direct none))) :
    Everywhere Holds (peerFilterUnset kind c t afi safi direct).1 := by
  unfold PeerOptions.peerFilterUnset
  cases here : c.conf t with
  | none => exact everywhere
  | some conf =>
    dsimp only
    split
    · exact everywhere
    · split
      · exact everywhere
      · rename_i allowed
        split
        · rename_i list ofGroup
          split at ofGroup <;> rename_i bound
          · have inbound : direct = .filterIn := by
              cases direct with
              | filterIn => rfl
              | filterOut => exact absurd ⟨rfl, bound⟩ allowed
            refine everywhere.modify fun conf' found => ?_
            obtain rfl := Option.some.inj (here.symm.trans found)
            exact back conf list here bound inbound ofGroup
          · cases ofGroup
        · exact everywhere.bindFilter t afi safi kind direct none (gone t)
            fun name group su member conf' found _ => gone (.peer su) conf' found

/-! ## Where runs start -/

/-- A configuration without neighbours and groups. -/
def Bare (c : Config) : Prop := ∀ t, c.conf t = none

theorem Bare.everywhere (bare : Bare c) : Everywhere Holds c := by
  intro t conf found
  rw [bare t] at found
  cases found

/-- An instance with nothing configured. -/
def nothing : Config where
  bgp := Bgp.plain 65001 1
  configCisco := false
  noDefaultIpv4 := false
  peer := fun _ => none
  group := fun _ => none
  rsclient := []
  tables := 0

theorem nothing_bare : Bare nothing := fun t => by cases t <;> rfl

def customer : SockUnion := .inet 2

/-- A group of external neighbours with one member. -/
def oneMember : List Command :=
  [.peerGroup "customers", .groupRemoteAs "customers" 65002,
    .bind customer "customers" .ip .unicast]

end Bgpd.PeerInvariants
