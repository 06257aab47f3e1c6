import Bgpd.PeerInvariants
import Bgpd.Runs

/-!
# Options that exclude each other

A neighbour has a distribute list or a prefix list in a direction, matches capabilities
strictly or overrides them, and is secured by its number of hops or reached over several.
Each command checks this of the neighbour or the template it is about. What it then does to
the members of a group, and what a neighbour brings along into a group, is not checked.
-/

namespace Bgpd.ExclusiveOptions

open Octets Prefixes Neighbors PeerConfig PeerOptions PeerInvariants Runs

/-- The two kinds of lists. -/
def OneList (af : AfConf) : Prop :=
  ∀ direct kind, filterOf af kind direct = none ∨ filterOf af kind.other direct = none

/-- The two ways to treat capabilities. -/
def OneWay (flags : PeerFlag → Bool) : Prop :=
  ¬ (flags .strictCapMatch = true ∧ flags .overrideCapability = true)

/-- No option is combined with one that excludes it. -/
structure Exclusive (conf : Conf) : Prop where
  lists : ∀ afi safi, OneList (conf.af afi safi)
  way : OneWay conf.flags
  secured : conf.gtsmHops ≠ 0 → conf.ttl = maxttl

/-! ## When a command keeps them apart -/

/-- A secured neighbour that was internal stays so with another AS number. -/
def KeepsSort (c : Config) (t : Target) (conf : Conf) (as : U32) : Prop :=
  conf.gtsmHops ≠ 0 → confSort c t conf = .ibgp → confSort c t (renumber c.bgp as conf) = .ibgp

/-- No member bound in the family has a list of the other kind. -/
def MembersTake (c : Config) (t : Target) (afi : Afi) (safi : Safi) (kind : FilterKind)
    (direct : Direct) : Prop :=
  ∀ name template, t = .group name → c.conf t = some template → (template.af afi safi).afc = true →
    filterOf (template.af afi safi) kind.other direct = none →
    ∀ su ∈ c.members name, ∀ conf, c.peer su = some conf → (conf.af afi safi).afGroup = true →
      filterOf (conf.af afi safi) kind.other direct = none

/-- A member that gets the list of its group back has none of the other kind. -/
def TakesBack (c : Config) (t : Target) (afi : Afi) (safi : Safi) (kind : FilterKind)
    (direct : Direct) : Prop :=
  ∀ conf, c.conf t = some conf → (conf.af afi safi).afGroup = true → direct = .filterIn →
    ((groupConf c conf).bind fun group => filterOf (group.af afi safi) kind direct).isSome →
    filterOf (conf.af afi safi) kind.other direct = none

/-- The commands that keep exclusive options apart, in the configuration in which they are
given. -/
def Fair (c : Config) : Command → Prop
  | .remoteAs su as _ _ => ∀ conf, c.peer su = some conf → conf.as ≠ as →
    KeepsSort c (.peer su) conf as
  | .groupRemoteAs name as =>
    ∀ template, c.conf (.group name) = some template → template.as ≠ as →
      KeepsSort c (.group name) template as ∧
        ∀ su ∈ c.members name, ∀ conf, c.peer su = some conf → conf.as ≠ as →
          KeepsSort c (.peer su) conf as
  | .bind su name afi safi =>
    ∀ group conf, c.group name = some group → c.peer su = some conf →
      (conf.af afi safi).afGroup = false →
      ∀ kind, filterOf (conf.af afi safi) kind .filterIn = none ∨
        filterOf (group.conf.af afi safi) kind.other .filterIn = none
  | .unbind su name afi safi =>
    ∀ group conf, c.group name = some group → group.conf.as = 0 → c.peer su = some conf →
      (conf.af afi safi).afGroup = true → conf.group = some name →
      peerGroupActive (leaveFamily c.configCisco afi safi conf) = false →
      conf.gtsmHops = 0 ∨ sortOf c.bgp conf = .ibgp
  | .flag t mask set =>
    ∀ name template, t = .group name → c.conf t = some template →
      peerFlagRefused c template mask set = none →
        ∀ su ∈ c.members name, ∀ conf, c.peer su = some conf →
      OneWay (putFlags mask set conf.flags)
  | .noMultihop t =>
    ∀ conf, c.conf t = some conf → confSort c t conf ≠ .ibgp →
      (conf.gtsmHops ≠ 0 → peerGroupActive conf = true ∧
        (groupConf c conf).map Conf.ttl = some maxttl) ∧
        ∀ name, t = .group name → ∀ su ∈ c.members name, ∀ conf, c.peer su = some conf →
          sortOf c.bgp conf ≠ .ibgp → conf.gtsmHops = 0
  | .ttlSecurity t gtsmHops =>
    gtsmHops ≠ 0 → ∀ name template, t = .group name → c.conf t = some template →
      confSort c t template ≠ .ibgp → template.gtsmHops ≠ 0 → ∀ su ∈ c.members name, ∀ conf,
      c.peer su = some conf → sortOf c.bgp conf ≠ .ibgp → conf.ttl = maxttl
  | .noTtlSecurity t =>
    ∀ conf, c.conf t = some conf → confSort c t conf ≠ .ibgp → peerGroupActive conf = true →
      (groupConf c conf).any (fun group => group.gtsmHops ≠ 0) = true → conf.ttl = maxttl
  | .distribute t afi safi direct _ => MembersTake c t afi safi .dlist direct
  | .noDistribute t afi safi direct => TakesBack c t afi safi .dlist direct
  | .prefixList t afi safi direct _ => MembersTake c t afi safi .plist direct
  | .noPrefixList t afi safi direct => TakesBack c t afi safi .plist direct
  | _ => True

/-! ## Configurations -/

variable {af : AfConf}

theorem oneList_putFilter (one : OneList af) (kind : FilterKind) (direct : Direct)
    (list : Option String) (free : list = none ∨ filterOf af kind.other direct = none) :
    OneList (putFilter kind direct list af) := by
  intro direct' kind'
  have old := one direct' kind'
  by_cases here : direct' = direct
  · subst here
    cases kind <;> cases kind' <;> simp_all [putFilter, filterOf, FilterKind.other] <;>
      exact free.symm
  · cases kind <;> cases kind' <;> simp_all [putFilter, filterOf, FilterKind.other]

theorem oneList_none (dlist : af.dlist = fun _ => none) (plist : af.plist = fun _ => none) :
    OneList af := by
  intro direct kind
  cases kind <;> simp [filterOf, dlist, plist]

theorem OneList.of_same {af' : AfConf} (one : OneList af) (dlist : af'.dlist = af.dlist)
    (plist : af'.plist = af.plist) : OneList af' := by
  intro direct kind
  have old := one direct kind
  cases kind <;> simpa [filterOf, FilterKind.other, dlist, plist] using old

variable {conf : Conf} {afi : Afi} {safi : Safi}

/-- What a command does in one family leaves the flags and the hops. -/
theorem Exclusive.setAf (exclusive : Exclusive conf) {change : AfConf → AfConf}
    (one : OneList (change (conf.af afi safi))) : Exclusive (conf.setAf afi safi change) := by
  refine ⟨fun afi' safi' => ?_, exclusive.way, exclusive.secured⟩
  by_cases here : afi' = afi ∧ safi' = safi
  · obtain ⟨rfl, rfl⟩ := here
    rw [setAf_same]
    exact one
  · rw [setAf_other conf change here]
    exact exclusive.lists afi' safi'

theorem putFilter_exclusive (exclusive : Exclusive conf) (afi : Afi) (safi : Safi)
    (kind : FilterKind) (direct : Direct) (list : Option String)
    (free : list = none ∨ filterOf (conf.af afi safi) kind.other direct = none) :
    Exclusive (conf.setAf afi safi (putFilter kind direct list)) :=
  exclusive.setAf (oneList_putFilter (exclusive.lists afi safi) kind direct list free)

theorem peerCreate_lists (c : Config) (localAs as : U32) (family : Option (Afi × Safi)) (afi : Afi)
    (safi : Safi) : ((peerCreate c localAs as family).af afi safi).dlist = (fun _ => none) ∧
      ((peerCreate c localAs as family).af afi safi).plist = fun _ => none := by
  cases family with
  | none => exact ⟨rfl, rfl⟩
  | some family =>
    unfold peerCreate Conf.setAf
    dsimp only
    split <;> exact ⟨rfl, rfl⟩

theorem peerCreate_exclusive (c : Config) (localAs as : U32) (family : Option (Afi × Safi)) :
    Exclusive (peerCreate c localAs as family) := by
  refine ⟨fun afi safi => ?_, ?_, ?_⟩
  · obtain ⟨dlist, plist⟩ := peerCreate_lists c localAs as family afi safi
    exact oneList_none dlist plist
  · cases family <;> simp [OneWay, peerCreate, peerNew, Conf.setAf]
  · cases family <;> simp [peerCreate, peerNew, Conf.setAf]

theorem newTemplate_exclusive (c : Config) (name : String) : Exclusive (newTemplate c name) := by
  have fresh :
      Exclusive { peerNew c.configCisco with ttl := 1, vRouteadv := 30, group := some name } :=
    ⟨fun _ _ => oneList_none rfl rfl, by simp [OneWay, peerNew], by simp [peerNew]⟩
  unfold newTemplate
  split
  · exact fresh
  · exact fresh.setAf (oneList_none rfl rfl)

theorem peerAsChange_exclusive (c : Config) (t : Target) (conf : Conf) (as : U32)
    (exclusive : Exclusive conf) (keeps : KeepsSort c t conf as) :
    Exclusive (peerAsChange c t conf as) := by
  refine ⟨fun afi safi => ?_, ?_, ?_⟩
  · obtain ⟨flags, changed, -⟩ := peerAsChange_af (c := c) t conf as afi safi
    rw [changed]
    exact (exclusive.lists afi safi).of_same rfl rfl
  · rw [OneWay, peerAsChange_flags t conf as (by decide), peerAsChange_flags t conf as (by decide)]
    exact exclusive.way
  · obtain ⟨hops, ttl⟩ := peerAsChange_hops (c := c) t conf as
    rw [hops, ttl]
    intro secured
    split
    · rfl
    · rename_i external
      split
      · rename_i internal
        exact absurd (keeps secured internal) external
      · exact exclusive.secured secured

theorem copy_exclusive (bgp : Bgp) {template before : Conf} (afi : Afi) (safi : Safi)
    (given : Exclusive template) (lists : ∀ afi safi, OneList (before.af afi safi))
    (free : ∀ kind, filterOf (before.af afi safi) kind .filterIn = none ∨
      filterOf (template.af afi safi) kind.other .filterIn = none) :
    Exclusive (peerGroup2peerConfigCopy bgp template before afi safi) := by
  refine ⟨fun afi' safi' => ?_, given.way, given.secured⟩
  unfold peerGroup2peerConfigCopy
  by_cases here : afi' = afi ∧ safi' = safi
  · obtain ⟨rfl, rfl⟩ := here
    rw [setAf_same]
    intro direct kind
    have template := given.lists afi' safi' direct kind
    have own := lists afi' safi' direct kind
    obtain ⟨mixed, mixed'⟩ := And.intro (free kind) (free kind.other)
    clear free
    cases direct with
    | filterIn => cases kind <;> simp_all [filterOf, FilterKind.other] <;> tauto
    | filterOut => cases kind <;> simp_all [filterOf, FilterKind.other]
  · rw [setAf_other _ _ here]
    exact lists afi' safi'

/-- Flags that are cleared conflict no more than before. -/
theorem oneWay_cleared {flags : PeerFlag → Bool} (way : OneWay flags) (mask : List PeerFlag) :
    OneWay (putFlags mask false flags) := by
  have kept : ∀ flag, putFlags mask false flags flag = true → flags flag = true := by
    intro flag
    unfold putFlags
    split
    · exact fun unset => by cases unset
    · exact id
  rintro ⟨strict, override⟩
  exact way ⟨kept _ strict, kept _ override⟩

variable {c : Config}

theorem oneWay_accepted {mask : List PeerFlag} {set : Bool} (way : OneWay conf.flags)
    (accepted : peerFlagRefused c conf mask set = none) :
    OneWay (putFlags mask set conf.flags) := by
  cases set with
  | false => exact oneWay_cleared way mask
  | true =>
    unfold peerFlagRefused at accepted
    intro both
    split at accepted
    · cases accepted
    · split at accepted
      · cases accepted
      · split at accepted
        · cases accepted
        · rename_i agree
          exact agree ⟨rfl, both.1, both.2⟩

theorem firstMember_exclusive (exclusive : Exclusive conf) (sort : PeerSort) :
    Exclusive (firstMember sort conf) := by
  refine ⟨exclusive.lists, exclusive.way, fun secured => ?_⟩
  change (if sort = .ibgp then 255 else conf.ttl) = maxttl
  split
  · rfl
  · exact exclusive.secured secured

/-! ## Hops -/

section Hops

variable {c : Config} {t : Target}

theorem multihop_exclusive (exclusive : Everywhere Exclusive c) (ttl : Nat) :
    Everywhere Exclusive (peerEbgpMultihopSet c t ttl).1 := by
  -- another time to live than the largest one is for those that are not secured
  have free : ∀ conf, ¬ (ttl ≠ maxttl ∧ anyOf c t conf (fun conf => conf.gtsmHops ≠ 0) = true) →
      ttl ≠ maxttl → anyOf c t conf (fun conf => conf.gtsmHops ≠ 0) = false := by
    intro conf refused other
    cases secured : anyOf c t conf (fun conf => conf.gtsmHops ≠ 0) with
    | false => rfl
    | true => exact absurd ⟨other, secured⟩ refused
  refine exclusive.peerEbgpMultihopSet t ttl (fun conf found _ accepted => ?_)
    fun name template group found accepted su member conf here outside => ?_
  · refine ⟨(exclusive t conf found).lists, (exclusive t conf found).way, fun secured => ?_⟩
    by_contra other
    have none := (anyOf_false (free conf accepted other)).1
    simp only [decide_eq_false_iff_not, not_not] at none
    exact secured none
  · have old := exclusive (.peer su) conf here
    refine ⟨old.lists, old.way, fun secured => ?_⟩
    by_contra other
    have none :=
      (anyOf_false (free template accepted other)).2 name group su member conf here outside
    simp only [decide_eq_false_iff_not, not_not] at none
    exact secured none

theorem noMultihop_exclusive (exclusive : Everywhere Exclusive c)
    (fair : ∀ conf, c.conf t = some conf → confSort c t conf ≠ .ibgp →
      (conf.gtsmHops ≠ 0 → peerGroupActive conf = true ∧
        (groupConf c conf).map Conf.ttl = some maxttl) ∧
        ∀ name, t = .group name → ∀ su ∈ c.members name, ∀ conf, c.peer su = some conf →
          sortOf c.bgp conf ≠ .ibgp → conf.gtsmHops = 0) :
    Everywhere Exclusive (peerEbgpMultihopUnset c t).1 := by
  refine exclusive.peerEbgpMultihopUnset t (fun conf found external _ => ?_)
    fun name template group found external _ su member conf here outside => ?_
  · refine ⟨(exclusive t conf found).lists, (exclusive t conf found).way, fun secured => ?_⟩
    obtain ⟨active, template⟩ := (fair conf found external).1 secured
    simp [active, template]
  · have old := exclusive (.peer su) conf here
    exact ⟨old.lists, old.way, fun secured =>
      absurd ((fair template found external).2 name group su member conf here outside) secured⟩

/-- An external member after the loop is an external member that the loop changed. -/
theorem member_spread {name : String} {own change : Conf → Conf} {su : SockUnion} {conf' : Conf}
    (member : su ∈ c.members name)
    (found : (spread c (.group name) own (ifExternal c.bgp change)).peer su = some conf')
    (outside : sortOf c.bgp conf' ≠ .ibgp) : ∃ conf, conf' = change conf := by
  rw [members_spread, if_pos member] at found
  obtain ⟨conf, -, rfl⟩ := Option.map_eq_some_iff.mp found
  unfold ifExternal at outside ⊢
  split
  · rename_i internal
    rw [if_pos internal] at outside
    exact absurd internal outside
  · exact ⟨conf, rfl⟩

/-- The largest time to live is never refused. -/
theorem peerEbgpMultihopSet_maxttl (found : c.conf t = some conf)
    (external : confSort c t conf ≠ .ibgp) :
    (peerEbgpMultihopSet c t maxttl).1 =
      spread c t (fun conf => { conf with ttl := maxttl })
        (ifExternal c.bgp fun conf => { conf with ttl := maxttl }) := by
  unfold peerEbgpMultihopSet
  rw [found]
  dsimp only
  rw [if_neg external, if_neg fun refused => refused.1 rfl]

theorem ttlSecurity_exclusive (exclusive : Everywhere Exclusive c) (gtsmHops : Nat)
    (fair : Fair c (.ttlSecurity t gtsmHops)) :
    Everywhere Exclusive (peerTtlSecurityHopsSet c t gtsmHops).1 := by
  refine exclusive.peerTtlSecurityHopsSet t gtsmHops (fun c' conf found external prepared => ?_)
    (multihop_exclusive exclusive maxttl)
  obtain ⟨-, -, rfl⟩ | ⟨set, rfl⟩ := prepared
  · have raised := multihop_exclusive exclusive maxttl (t := t)
    rw [peerEbgpMultihopSet_maxttl found external] at raised ⊢
    refine raised.spread (fun conf' here => ?_) fun name group su member conf' here =>
      raised.ifExternal here fun outside => ?_
    · have old := raised t conf' here
      rw [conf_spread] at here
      obtain ⟨_, -, rfl⟩ := Option.map_eq_some_iff.mp here
      exact ⟨old.lists, old.way, fun _ => rfl⟩
    · subst group
      have old := raised (.peer su) conf' here
      rw [listed_spread] at member
      rw [bgp_spread] at outside
      obtain ⟨_, rfl⟩ := member_spread member here outside
      exact ⟨old.lists, old.way, fun _ => rfl⟩
  · refine exclusive.spread (fun conf' here => ?_) fun name group su member conf' here =>
      exclusive.ifExternal here fun outside => ?_
    · obtain rfl := Option.some.inj (found.symm.trans here)
      have old := exclusive t conf found
      exact ⟨old.lists, old.way, fun _ => old.secured set⟩
    · have old := exclusive (.peer su) conf' here
      exact ⟨old.lists, old.way, fun secured =>
        fair secured name conf group found external set su member conf' here outside⟩

theorem noTtlSecurity_exclusive (exclusive : Everywhere Exclusive c)
    (fair : Fair c (.noTtlSecurity t)) : Everywhere Exclusive (peerTtlSecurityHopsUnset c t).1 := by
  unfold peerTtlSecurityHopsUnset
  cases found : c.conf t with
  | none => exact exclusive
  | some conf =>
    dsimp only
    split
    · exact exclusive
    · rename_i external
      have own := exclusive t conf found
      -- what the neighbour is left with, it has from its group
      have back : ∀ hops : Nat, hops = (if peerGroupActive conf then
            ((groupConf c conf).map Conf.gtsmHops).getD 0 else 0) → hops ≠ 0 →
          peerGroupActive conf = true ∧ conf.ttl = maxttl ∧
            (groupConf c conf).map Conf.ttl = some maxttl := by
        rintro hops rfl secured
        cases active : peerGroupActive conf with
        | false => simp [active] at secured
        | true =>
          cases template : groupConf c conf with
          | none => simp [template] at secured
          | some group =>
            simp only [active, template, Option.map_some, Option.getD_some, if_true] at secured
            refine ⟨rfl, fair conf found external active (by simpa [template] using secured), ?_⟩
            obtain ⟨group', here, rfl⟩ := Option.map_eq_some_iff.mp template
            obtain ⟨name, -, named⟩ := Option.bind_eq_some_iff.mp here
            have given := exclusive (.group name) group'.conf (by simp [Config.conf, named])
            exact congrArg some (given.secured secured)
      generalize reset : (if peerGroupActive conf then
        ((groupConf c conf).map Conf.gtsmHops).getD 0 else 0) = hops
      have back := back hops reset.symm
      have unset : Everywhere Exclusive (spread c t (fun conf => { conf with gtsmHops := hops })
          (ifExternal c.bgp fun conf => { conf with gtsmHops := 0 })) := by
        refine exclusive.spread (fun conf' here => ?_) fun name group su member conf' here =>
          exclusive.ifExternal here fun outside => ?_
        · obtain rfl := Option.some.inj (found.symm.trans here)
          exact ⟨own.lists, own.way, fun secured => (back secured).2.1⟩
        · have old := exclusive (.peer su) conf' here
          exact ⟨old.lists, old.way, fun secured => absurd rfl secured⟩
      refine noMultihop_exclusive unset fun conf' here _ => ⟨fun secured => ?_, ?_⟩
      · rw [conf_spread, found] at here
        obtain rfl := Option.some.inj here
        obtain ⟨active, -, template⟩ := back secured
        refine ⟨active, ?_⟩
        rw [groupConf, group_spread]
        refine Eq.trans (groupConf_modify t rfl Conf.ttl ?_) template
        exact fun _ => rfl
      · rintro name rfl su member conf'' here' outside
        rw [listed_spread] at member
        rw [bgp_spread] at outside
        obtain ⟨_, rfl⟩ := member_spread member here' outside
        rfl

end Hops

/-! ## Every command -/

variable {su : SockUnion} {name : String}

/-- A neighbour that joins a group takes the template's options, which exclude each other, and
keeps those of its own that the template leaves alone. -/
theorem bind_exclusive (exclusive : Everywhere Exclusive c)
    (fair : Fair c (.bind su name afi safi)) :
    Everywhere Exclusive (peerGroupBind c su name afi safi).1 := by
  refine exclusive.peerGroupBind su name afi safi (fun group conf grouped _ _ new => ?_)
    (fun group conf grouped here outside template before same entering => ?_)
    fun sort conf found => firstMember_exclusive (exclusive _ conf found) sort
  · have given := exclusive (.group name) group.conf (by simp [Config.conf, grouped])
    have bare : ∀ afi' safi', (conf.af afi' safi').dlist = (fun _ => none) ∧
        (conf.af afi' safi').plist = fun _ => none := by
      intro afi' safi'
      rw [new]
      by_cases same : afi' = afi ∧ safi' = safi
      · obtain ⟨rfl, rfl⟩ := same
        rw [setAf_same]
        exact peerCreate_lists c _ _ _ afi' safi'
      · rw [setAf_other _ _ same]
        exact peerCreate_lists c _ _ _ afi' safi'
    refine copy_exclusive c.bgp afi safi given
      (fun afi' safi' => oneList_none (bare afi' safi').1 (bare afi' safi').2) fun kind => ?_
    cases kind <;> simp [filterOf, bare afi safi]
  · have given := exclusive (.group name) group.conf (by simp [Config.conf, grouped])
    have old := exclusive (.peer su) conf here
    refine copy_exclusive c.bgp afi safi ?_ (fun afi' safi' => ?_) fun kind => ?_
    · obtain rfl | ⟨sort, rfl⟩ := same
      · exact given
      · exact firstMember_exclusive given sort
    · by_cases place : afi' = afi ∧ safi' = safi
      · obtain ⟨rfl, rfl⟩ := place
        exact (old.lists afi' safi').of_same entering.dlist entering.plist
      · rw [entering.others afi' safi' place]
        exact old.lists afi' safi'
    · have free := fair group conf grouped here outside kind
      have lists : template.af = group.conf.af := by
        obtain rfl | ⟨sort, rfl⟩ := same <;> rfl
      cases kind <;> simpa [filterOf, FilterKind.other, lists, entering.dlist,
        entering.plist] using free

theorem unbind_exclusive (exclusive : Everywhere Exclusive c)
    (fair : Fair c (.unbind su name afi safi)) :
    Everywhere Exclusive (peerGroupUnbind c su name afi safi).1 := by
  refine exclusive.peerGroupUnbind su name afi safi (fun _ conf _ here _ _ _ => ?_)
    fun group conf grouped lacks here bound own inactive => ?_
  · exact (exclusive (.peer su) conf here).setAf (oneList_none rfl rfl)
  · have left : Exclusive (leaveFamily c.configCisco afi safi conf) :=
      (exclusive (.peer su) conf here).setAf (oneList_none rfl rfl)
    refine ⟨left.lists, fun both => absurd both.1 Bool.false_ne_true, fun secured => ?_⟩
    obtain free | internal := fair group conf grouped lacks here bound own inactive
    · exact absurd free secured
    · change defaultTtl (sortOf c.bgp conf) = maxttl
      rw [internal]
      rfl

theorem allowasIn_exclusive (exclusive : Everywhere Exclusive c) (t : Target) (afi : Afi)
    (safi : Safi) (allowNum : Nat) :
    Everywhere Exclusive (peerAllowasInSet c t afi safi allowNum).1 := by
  have kept : ∀ conf, Exclusive conf → Exclusive (allowAsIn afi safi allowNum conf) := by
    refine fun conf old => old.setAf ?_
    split
    · exact (old.lists afi safi).of_same rfl rfl
    · exact old.lists afi safi
  unfold peerAllowasInSet
  split
  · exact exclusive
  · exact exclusive.spread (fun conf found => kept conf (exclusive t conf found))
      fun _ _ su _ conf found => kept conf (exclusive (.peer su) conf found)

/-- The local AS number in paths has to do with none of this. -/
theorem noAllowasIn_exclusive (exclusive : Everywhere Exclusive c) (t : Target) (afi : Afi)
    (safi : Safi) : Everywhere Exclusive (peerAllowasInUnset c t afi safi) := by
  have step : ∀ c t, Everywhere Exclusive c → Everywhere Exclusive (disallowAsIn c t afi safi) := by
    intro c t exclusive
    unfold disallowAsIn
    split
    · have zero : Everywhere Exclusive
          (c.modify t fun conf => conf.setAf afi safi fun af => { af with allowasIn := 0 }) :=
        exclusive.modify fun conf found =>
          (exclusive t conf found).setAf (((exclusive t conf found).lists afi safi).of_same rfl rfl)
      refine zero.peerAfFlagModify t afi safi _ _ (fun conf found _ =>
        ?_) fun _ _ _ _ _ su _ conf found _ => ?_
      · exact (zero t conf found).setAf (((zero t conf found).lists afi safi).of_same rfl rfl)
      · have old := zero (.peer su) conf found
        exact old.setAf ((old.lists afi safi).of_same rfl rfl)
    · exact exclusive
  have first := step c t exclusive
  cases t with
  | peer su => exact first
  | group name =>
    unfold peerAllowasInUnset
    dsimp only
    generalize (disallowAsIn c (.group name) afi safi).members name = members
    generalize disallowAsIn c (.group name) afi safi = c' at first
    induction members generalizing c' with
    | nil => exact first
    | cons su later ih => exact ih _ (step c' (.peer su) first)

theorem filterSet_exclusive (exclusive : Everywhere Exclusive c) (kind : FilterKind) (t : Target)
    (afi : Afi) (safi : Safi) (direct : Direct) (list : String)
    (take : MembersTake c t afi safi kind direct) :
    Everywhere Exclusive (peerFilterSet kind c t afi safi direct list).1 :=
  exclusive.peerFilterSet kind t afi safi direct list
    (fun conf found free =>
      putFilter_exclusive (exclusive t conf found) afi safi kind direct _ (.inr free))
    fun name template group found active free su member conf here bound =>
      putFilter_exclusive (exclusive (.peer su) conf here) afi safi kind direct _
        (.inr (take name template group found active free su member conf here bound))

theorem filterUnset_exclusive (exclusive : Everywhere Exclusive c) (kind : FilterKind) (t : Target)
    (afi : Afi) (safi : Safi) (direct : Direct) (back : TakesBack c t afi safi kind direct) :
    Everywhere Exclusive (peerFilterUnset kind c t afi safi direct).1 :=
  exclusive.peerFilterUnset kind t afi safi direct
    (fun conf list found bound inbound ofGroup =>
      putFilter_exclusive (exclusive t conf found) afi safi kind direct _
        (.inr (back conf found bound inbound (by rw [ofGroup]; rfl))))
    fun t conf found =>
      putFilter_exclusive (exclusive t conf found) afi safi kind direct _ (.inl rfl)

/-- Each command that is fair keeps exclusive options apart. -/
theorem step_exclusive (c : Config) (command : Command) (exclusive : Everywhere Exclusive c)
    (fair : Fair c command) : Everywhere Exclusive (step c command) := by
  cases command with
  | peerGroup name => exact exclusive.peerGroupGet name (newTemplate_exclusive c name)
  | remoteAs su as afi safi =>
    exact exclusive.peerRemoteAs su as afi safi (fun localAs family =>
      peerCreate_exclusive c localAs as family)
      fun conf found other =>
        peerAsChange_exclusive c _ conf as (exclusive _ conf found) (fair conf found other)
  | groupRemoteAs name as =>
    refine exclusive.peerGroupRemoteAs name as
      (fun template found other =>
        peerAsChange_exclusive c _ template as (exclusive _ template found)
        (fair template found other).1)
      fun template found given su member conf here other c' same => ?_
    refine peerAsChange_exclusive c' _ conf as (exclusive (.peer su) conf here) ?_
    have keeps := (fair template found given).2 su member conf here other
    simp only [KeepsSort, confSort, same] at keeps ⊢
    exact keeps
  | noGroupRemoteAs name =>
    exact exclusive.peerGroupRemoteAsDelete name fun conf found =>
      ⟨(exclusive _ conf found).lists, (exclusive _ conf found).way,
        (exclusive _ conf found).secured⟩
  | noPeer su => exact exclusive.of_conf (peerDelete_conf su)
  | noPeerGroup name => exact exclusive.peerGroupDelete name
  | activate t afi safi =>
    exact exclusive.modify fun conf found =>
      (exclusive t conf found).setAf (((exclusive t conf found).lists afi safi).of_same rfl rfl)
  | deactivate t afi safi =>
    exact exclusive.peerDeactivate t afi safi fun conf found _ _ =>
      (exclusive t conf found).setAf (oneList_none rfl rfl)
  | bind su name afi safi => exact bind_exclusive exclusive fair
  | unbind su name afi safi => exact unbind_exclusive exclusive fair
  | flag t mask set =>
    refine exclusive.peerFlagModify t mask set (fun conf found accepted => ?_)
      fun name template group found accepted su member conf here => ?_
    · have old := exclusive t conf found
      exact ⟨old.lists, oneWay_accepted old.way accepted, old.secured⟩
    · have old := exclusive (.peer su) conf here
      exact ⟨old.lists, fair name template group found accepted su member conf here, old.secured⟩
  | afFlag t afi safi mask set =>
    refine exclusive.peerAfFlagModify t afi safi mask set (fun conf found _ => ?_)
      fun _ _ _ _ _ su _ conf here _ => ?_
    · exact (exclusive t conf found).setAf
        (((exclusive t conf found).lists afi safi).of_same rfl rfl)
    · have old := exclusive (.peer su) conf here
      exact old.setAf ((old.lists afi safi).of_same rfl rfl)
  | multihop t ttl => exact multihop_exclusive exclusive ttl
  | noMultihop t => exact noMultihop_exclusive exclusive fair
  | ttlSecurity t gtsmHops => exact ttlSecurity_exclusive exclusive gtsmHops fair
  | noTtlSecurity t => exact noTtlSecurity_exclusive exclusive fair
  | allowasIn t afi safi allowNum => exact allowasIn_exclusive exclusive t afi safi allowNum
  | noAllowasIn t afi safi => exact noAllowasIn_exclusive exclusive t afi safi
  | distribute t afi safi direct name =>
      exact filterSet_exclusive exclusive .dlist t afi safi direct name fair
  | noDistribute t afi safi direct =>
      exact filterUnset_exclusive exclusive .dlist t afi safi direct fair
  | prefixList t afi safi direct name =>
      exact filterSet_exclusive exclusive .plist t afi safi direct name fair
  | noPrefixList t afi safi direct =>
      exact filterUnset_exclusive exclusive .plist t afi safi direct fair

/-! ## Runs -/

/-- As long as every command is fair, no configuration combines options that exclude each
other. The source tests the neighbour or the template that the command names; what it
then does to the members of a group is tested nowhere. -/
theorem exclusive_when_fair (start : Config) (bare : Bare start) (commands : List Command)
    (fair : Guarded step Fair start commands) :
    ∀ t conf, (run step start commands).conf t = some conf → Exclusive conf :=
  guarded_invariant step Fair (Everywhere Exclusive) step_exclusive start commands
    bare.everywhere fair

section Examples

/-- The group has a prefix list, and its member one of each of the others. -/
def oneOfEach : List Command :=
  oneMember ++ [.prefixList (.group "customers") .ip .unicast .filterIn "own",
    .flag (.peer customer) [.strictCapMatch] true, .ttlSecurity (.peer customer) 1]

theorem exclusive_when_fair_neighbor :
    ∃ conf, (run step nothing oneOfEach).peer customer = some conf ∧ conf.gtsmHops = 1 ∧
      Exclusive conf := by
  have secured :
      ((run step nothing oneOfEach).peer customer).any (fun conf => conf.gtsmHops = 1) = true := by
    decide
  obtain ⟨conf, found, hops⟩ := Option.any_eq_true _ _ |>.mp secured
  refine ⟨conf, found, of_decide_eq_true hops, ?_⟩
  refine exclusive_when_fair nothing nothing_bare oneOfEach ?_ (.peer customer) conf found
  refine ⟨trivial, ?_, ?_, ?_, ?_, ?_, trivial⟩
  · rintro template found -
    obtain rfl := Option.some.inj found
    exact ⟨fun given => absurd rfl given, nofun⟩
  · rintro group conf - found
    cases found
  · rintro name template ⟨⟩ - - - su member conf found -
    have free : ∀ su ∈ (run step nothing oneMember).members "customers",
        ∀ conf ∈ (run step nothing oneMember).peer su,
          filterOf (conf.af .ip .unicast) .dlist .filterIn = none := by decide
    exact free su member conf found
  · rintro name template ⟨⟩
  · rintro - name template ⟨⟩

/-- The member has a distribute list and the group then a prefix list. -/
def bothLists : List Command :=
  oneMember ++ [.distribute (.peer customer) .ip .unicast .filterIn "own",
    .prefixList (.group "customers") .ip .unicast .filterIn "theirs"]

/-- The member matches strictly and the group then overrides. -/
def bothWays : List Command :=
  oneMember ++ [.flag (.peer customer) [.strictCapMatch] true,
    .flag (.group "customers") [.overrideCapability] true]

/-- A neighbour is secured, and then no longer reached over several hops. -/
def oneHop : List Command :=
  [.remoteAs customer 65002 .ip .unicast, .ttlSecurity (.peer customer) 1,
    .noMultihop (.peer customer)]

/-- A command on a group does not look at the members, and the test of the time to live
passes exactly where securing has raised it. -/
theorem options_combined :
    (∃ conf, (run step nothing bothLists).peer customer = some conf ∧
      ((conf.af .ip .unicast).dlist .filterIn).isSome ∧
        ((conf.af .ip .unicast).plist .filterIn).isSome) ∧
    (∃ conf, (run step nothing bothWays).peer customer = some conf ∧
      conf.flags .strictCapMatch = true ∧ conf.flags .overrideCapability = true) ∧
    ∃ conf, (run step nothing oneHop).peer customer = some conf ∧
      sortOf nothing.bgp conf = .ebgp ∧ conf.gtsmHops ≠ 0 ∧ conf.ttl ≠ maxttl := by
  refine ⟨⟨_, rfl, by decide, by decide⟩, ⟨_, rfl, by decide, by decide⟩,
    ⟨_, rfl, by decide, by decide, by decide⟩⟩

end Examples

end Bgpd.ExclusiveOptions
