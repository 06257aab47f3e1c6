import Bgpd.Prefixes

/-!
# The walk over a dynamic capability message

`bgp_capability_msg_parse` advances its pointer at the bottom of its loop, where the
branches of a capability that it leaves alone do not get. The fixed structure behind a
header is copied before the code and the length of the capability are looked at.

The octets of the message and those behind them are a memory here, and a walk notes which
of them it read. `parses_iff_clear` says for which messages it stays inside and ends.
-/

namespace Bgpd.CapabilityMessage

open Octets Prefixes

/-! ## The capabilities of a message -/

/-- `CAPABILITY_ACTION_SET`, `CAPABILITY_ACTION_UNSET` and `CAPABILITY_CODE_MP`. -/
def capabilityActionSet : U8 := 0
def capabilityActionUnset : U8 := 1
def capabilityCodeMp : U8 := 1

/-- `BGP_SAFI_VPNV4`, `BGP_SAFI_VPNV6` and `SAFI_MPLS_VPN`. -/
def bgpSafiVpnv4 : U8 := 128
def bgpSafiVpnv6 : U8 := 129
def safiMplsVpn : U8 := 4

/-- `struct capability_mp_data`. -/
structure CapabilityMpData where
  afi : U16
  reserved : U8
  safi : U8
  deriving DecidableEq, Repr

/-- A capability, and the structure that lies behind its header. -/
structure Capability where
  action : U8
  code : U8
  length : U8
  mpc : CapabilityMpData
  deriving DecidableEq, Repr

/-- `bgp_afi_safi_valid_indices`, with the indices. -/
def bgpAfiSafiValidIndices (afi : U16) (safi : U8) : Option (Afi × Safi) :=
  if (afi = Afi.ip6.code ∧ safi = bgpSafiVpnv4) ∨
    (afi = Afi.ip.code ∧ safi = bgpSafiVpnv6) then none
  else if afi = Afi.ip.code then (index safi).map (Afi.ip, ·)
  else if afi = Afi.ip6.code then (index safi).map (Afi.ip6, ·)
  else none
where
  index (safi : U8) : Option Safi :=
    if safi = bgpSafiVpnv4 ∨ safi = bgpSafiVpnv6 ∨ safi = safiMplsVpn then some .mplsVpn
    else if safi = Safi.unicast.code then some .unicast
    else if safi = Safi.multicast.code then some .multicast
    else none

/-! ## The peer -/

/-- What is done of the peer outside of its tables. -/
inductive Call
  | bgpNotifySend
  | bgpAnnounceRoute (afi : Afi) (safi : Safi)
  | bgpClearRoute (afi : Afi) (safi : Safi)
  | bgpStop
  | ignored (code : U8)
  deriving DecidableEq, Repr

/-- The fields of a peer that the walk looks at, and what it had done. -/
structure Peer where
  overrideCapability : Bool := false
  afc : Afi → Safi → Bool := fun _ _ => false
  afcRecv : Afi → Safi → Bool := fun _ _ => false
  afcNego : Afi → Safi → Bool := fun _ _ => false
  calls : List Call := []

/-- An entry of a table. -/
def put (table : Afi → Safi → Bool) (afi : Afi) (safi : Safi) (value : Bool) : Afi → Safi → Bool :=
  fun afi' safi' => if afi' = afi ∧ safi' = safi then value else table afi' safi'

def Peer.call (peer : Peer) (call : Call) : Peer := { peer with calls := peer.calls ++ [call] }

/-- `peer_active_nego`. -/
def peerActiveNego (peer : Peer) : Bool :=
  peer.afcNego .ip .unicast || peer.afcNego .ip .multicast || peer.afcNego .ip .mplsVpn
    || peer.afcNego .ip6 .unicast || peer.afcNego .ip6 .multicast

/-- A family is announced, or withdrawn. -/
def multiprotocol (peer : Peer) (action : U8) (afi : Afi) (safi : Safi) : Peer :=
  if action = capabilityActionSet then
    let peer := { peer with afcRecv := put peer.afcRecv afi safi true }
    if peer.afc afi safi then
      { peer with afcNego := put peer.afcNego afi safi true }.call (.bgpAnnounceRoute afi safi)
    else peer
  else
    let peer := { peer with
      afcRecv := put peer.afcRecv afi safi false, afcNego := put peer.afcNego afi safi false }
    if peerActiveNego peer then peer.call (.bgpClearRoute afi safi) else peer.call .bgpStop

/-- What a capability does to the peer. There is nothing to do where the loop goes on
without an advance. -/
def capability (peer : Peer) (c : Capability) : Option Peer :=
  if c.code = capabilityCodeMp then
    if peer.overrideCapability then none
    else (bgpAfiSafiValidIndices c.mpc.afi c.mpc.safi).map fun family =>
      multiprotocol peer c.action family.1 family.2
  else some (peer.call (.ignored c.code))

/-! ## The walk -/

/-- The state of the loop: the pointer, the peer, and the octets that were read. -/
structure Walk where
  pnt : Nat
  peer : Peer
  reads : List Nat := []

section Walk

variable (memory : Nat → U8) (length : Nat)

/-- The capability that a pointer is at. -/
def capabilityAt (pnt : Nat) : Capability where
  action := memory pnt
  code := memory (pnt + 1)
  length := memory (pnt + 2)
  mpc := ⟨getw [memory (pnt + 3), memory (pnt + 4)], memory (pnt + 5), memory (pnt + 6)⟩

/-- Behind a capability. -/
def behind (pnt : Nat) : Nat := pnt + (memory (pnt + 2)).toNat + 3

/-- The walk ends with a notification. -/
def refuse (w : Walk) : Int × Walk := (-1, { w with peer := w.peer.call .bgpNotifySend })

/-- One turn of the loop: the function returns, or the loop goes on. -/
def turn (w : Walk) : (Int × Walk) ⊕ Walk :=
  if length < w.pnt + 3 then .inl (refuse w)
  else
    let w := { w with reads := w.reads ++ [w.pnt] }
    let c := capabilityAt memory w.pnt
    if c.action ≠ capabilityActionSet ∧ c.action ≠ capabilityActionUnset then .inl (refuse w)
    else
      let w := { w with reads := w.reads ++ [w.pnt + 2] }
      if length < behind memory w.pnt then .inl (refuse w)
      else
        -- the structure is fetched whatever the length says
        let w := { w with
          reads := w.reads ++ [w.pnt + 3, w.pnt + 4, w.pnt + 5, w.pnt + 6, w.pnt + 1] }
        match capability w.peer c with
        | none => .inr w
        | some peer => .inr { w with peer, pnt := behind memory w.pnt }

/-- `bgp_capability_msg_parse`, on fuel for the turns of its loop. -/
def bgpCapabilityMsgParse : Nat → Walk → Option (Int × Walk)
  | 0, _ => none
  | fuel + 1, w =>
    if w.pnt < length then
      match turn memory length w with
      | .inl returned => some returned
      | .inr w => bgpCapabilityMsgParse fuel w
    else some (0, w)

/-! ## What the message says -/

/-- A capability lies complete at the pointer. -/
def Whole (pnt : Nat) : Prop :=
  pnt + 3 ≤ length ∧ behind memory pnt ≤ length ∧
    (memory pnt = capabilityActionSet ∨ memory pnt = capabilityActionUnset)

/-- The message is a row of capabilities. -/
inductive Message : Nat → List Capability → Prop
  | done : Message length []
  | next {pnt : Nat} {rest : List Capability} :
    Whole memory length pnt → Message (behind memory pnt) rest →
      Message pnt (capabilityAt memory pnt :: rest)

/-- The pointer gets behind whole capabilities only. -/
inductive Reached : Nat → Nat → Prop
  | here {pnt : Nat} : Reached pnt pnt
  | next {pnt target : Nat} :
    Whole memory length pnt → Reached (behind memory pnt) target → Reached pnt target

/-- The walk leaves a capability alone, and does not get past it. -/
def Stuck (overrideCapability : Bool) (c : Capability) : Prop :=
  c.code = capabilityCodeMp ∧
    (overrideCapability = true ∨ bgpAfiSafiValidIndices c.mpc.afi c.mpc.safi = none)

/-- The structure behind a header lies inside the message, and the walk gets past the
capability. -/
def Passable (overrideCapability : Bool) (pnt : Nat) : Prop :=
  pnt + 7 ≤ length ∧ ¬ Stuck overrideCapability (capabilityAt memory pnt)

/-- The whole capabilities that are reached can be passed. -/
def Clear (overrideCapability : Bool) (start : Nat) : Prop :=
  ∀ pnt, Reached memory length start pnt → Whole memory length pnt →
    Passable memory length overrideCapability pnt

end Walk

/-! ## One turn -/

theorem capability_none_iff {peer : Peer} {c : Capability} :
    capability peer c = none ↔ Stuck peer.overrideCapability c := by
  by_cases known : c.code = capabilityCodeMp
  · cases overridden : peer.overrideCapability <;> simp [capability, Stuck, known, overridden]
  · simp [capability, Stuck, known]

@[simp] theorem multiprotocol_overrideCapability (peer : Peer) (action : U8) (afi : Afi)
    (safi : Safi) :
    (multiprotocol peer action afi safi).overrideCapability = peer.overrideCapability := by
  simp only [multiprotocol, Peer.call]
  split <;> split <;> rfl

theorem capability_overrideCapability {peer peer' : Peer} {c : Capability}
    (done : capability peer c = some peer') :
    peer'.overrideCapability = peer.overrideCapability := by
  simp only [capability] at done
  split at done
  · split at done
    · contradiction
    · obtain ⟨family, -, rfl⟩ := Option.map_eq_some_iff.mp done
      simp
  · obtain rfl := Option.some.inj done
    simp [Peer.call]

section Turn

variable {memory : Nat → U8} {length : Nat}

/-- What a turn at a whole capability reads. -/
def fetched (w : Walk) : List Nat :=
  w.reads ++ [w.pnt] ++ [w.pnt + 2] ++ [w.pnt + 3, w.pnt + 4, w.pnt + 5, w.pnt + 6, w.pnt + 1]

theorem mem_fetched {w : Walk} {i : Nat} :
    i ∈ fetched w ↔ i ∈ w.reads ∨ (w.pnt ≤ i ∧ i < w.pnt + 7) := by
  simp only [fetched, List.mem_append, List.mem_cons, List.not_mem_nil, or_false]
  constructor
  · rintro (((old | rfl) | rfl) | new)
    · exact Or.inl old
    all_goals omega
  · rintro (old | ⟨low, high⟩)
    · exact Or.inl (Or.inl (Or.inl old))
    · omega

/-- Where no capability lies complete, the walk ends, and read inside the message only. -/
theorem turn_refused (w : Walk) (inside : w.pnt < length) (torn : ¬ Whole memory length w.pnt) :
    ∃ w' more, turn memory length w = .inl (-1, w') ∧ w'.reads = w.reads ++ more ∧
      ∀ i ∈ more, i < length := by
  by_cases short : length < w.pnt + 3
  · exact ⟨_, [], if_pos short, (List.append_nil _).symm,
      fun _ read => absurd read List.not_mem_nil⟩
  by_cases known : memory w.pnt = capabilityActionSet ∨ memory w.pnt = capabilityActionUnset
  · have long : length < behind memory w.pnt := by
      by_contra fits
      exact torn ⟨by omega, by omega, known⟩
    refine ⟨{ w with
        peer := w.peer.call .bgpNotifySend
        reads := w.reads ++ [w.pnt] ++ [w.pnt + 2] }, [w.pnt, w.pnt + 2], ?_, ?_, ?_⟩
    · rw [turn, if_neg short, if_neg (by simp only [capabilityAt]; tauto), if_pos long, refuse]
    · simp
    · intro i read
      simp only [List.mem_cons, List.not_mem_nil, or_false] at read
      omega
  · refine ⟨{ w with peer := w.peer.call .bgpNotifySend, reads := w.reads ++ [w.pnt] },
      [w.pnt], ?_, rfl, ?_⟩
    · rw [turn, if_neg short, if_pos (by simp only [capabilityAt]; tauto), refuse]
    · intro i read
      obtain rfl := List.mem_singleton.mp read
      exact inside

/-- At a whole capability the loop goes on, at the same place where it is stuck. -/
theorem turn_whole (w : Walk) (whole : Whole memory length w.pnt) :
    turn memory length w =
      match capability w.peer (capabilityAt memory w.pnt) with
      | none => .inr { w with reads := fetched w }
      | some peer => .inr ⟨behind memory w.pnt, peer, fetched w⟩ := by
  obtain ⟨header, fits, known⟩ := whole
  rw [turn, if_neg (by omega), if_neg (by simp only [capabilityAt]; tauto),
    if_neg (Nat.not_lt.mpr fits)]
  rfl

end Turn

/-! ## Runs -/

section Runs

variable {memory : Nat → U8} {length : Nat}
variable {fuel : Nat} {w : Walk} {r : Int × Walk}

theorem pnt_lt_behind (memory : Nat → U8) (pnt : Nat) : pnt < behind memory pnt := by
  simp only [behind]
  omega

theorem parse_stuck (whole : Whole memory length w.pnt)
    (stuck : capability w.peer (capabilityAt memory w.pnt) = none) :
    bgpCapabilityMsgParse memory length (fuel + 1) w =
      bgpCapabilityMsgParse memory length fuel { w with reads := fetched w } := by
  have inside : w.pnt < length := by have := whole.1; omega
  rw [bgpCapabilityMsgParse, if_pos inside, turn_whole w whole, stuck]

theorem parse_passed {peer : Peer} (whole : Whole memory length w.pnt)
    (passed : capability w.peer (capabilityAt memory w.pnt) = some peer) :
    bgpCapabilityMsgParse memory length (fuel + 1) w =
      bgpCapabilityMsgParse memory length fuel ⟨behind memory w.pnt, peer, fetched w⟩ := by
  have inside : w.pnt < length := by have := whole.1; omega
  rw [bgpCapabilityMsgParse, if_pos inside, turn_whole w whole, passed]

/-- A run at a whole capability that gives a result goes on from there, at the same place or
behind the capability. -/
theorem parse_whole (whole : Whole memory length w.pnt)
    (run : bgpCapabilityMsgParse memory length (fuel + 1) w = some r) :
    (capability w.peer (capabilityAt memory w.pnt) = none ∧
      bgpCapabilityMsgParse memory length fuel { w with reads := fetched w } = some r) ∨
    ∃ peer, capability w.peer (capabilityAt memory w.pnt) = some peer ∧
      bgpCapabilityMsgParse memory length fuel ⟨behind memory w.pnt, peer, fetched w⟩ = some r := by
  cases did : capability w.peer (capabilityAt memory w.pnt) with
  | none => exact Or.inl ⟨rfl, parse_stuck whole did ▸ run⟩
  | some peer => exact Or.inr ⟨peer, rfl, parse_passed whole did ▸ run⟩

/-- A run that gives a result where no capability lies complete ends there. -/
theorem parse_torn (torn : ¬ Whole memory length w.pnt)
    (run : bgpCapabilityMsgParse memory length (fuel + 1) w = some r) :
    (∃ more, r.1 = -1 ∧ r.2.reads = w.reads ++ more ∧ ∀ i ∈ more, i < length) ∨
      (length ≤ w.pnt ∧ r = (0, w)) := by
  rw [bgpCapabilityMsgParse] at run
  split at run
  · rename_i inside
    obtain ⟨w', more, refused, grown, within⟩ := turn_refused w inside torn
    rw [refused] at run
    obtain rfl := Option.some.inj run
    exact Or.inl ⟨more, rfl, grown, within⟩
  · exact Or.inr ⟨by omega, (Option.some.inj run).symm⟩

theorem parse_reads (run : bgpCapabilityMsgParse memory length fuel w = some r) {i : Nat}
    (read : i ∈ w.reads) : i ∈ r.2.reads := by
  induction fuel generalizing w with
  | zero => contradiction
  | succ fuel ih =>
    by_cases whole : Whole memory length w.pnt
    · have fetching : i ∈ fetched w := mem_fetched.mpr (Or.inl read)
      rcases parse_whole whole run with ⟨-, rest⟩ | ⟨peer, -, rest⟩
      · exact ih rest fetching
      · exact ih rest fetching
    · rcases parse_torn whole run with ⟨more, -, grown, -⟩ | ⟨-, rfl⟩
      · rw [grown]
        exact List.mem_append_left _ read
      · exact read

/-- A message that is accepted is a row of capabilities, and the peer is what they make of it
one after the other. -/
theorem parse_accepted {w w' : Walk} (start : w.pnt ≤ length)
    (run : bgpCapabilityMsgParse memory length fuel w = some (0, w')) :
    ∃ cs, Message memory length w.pnt cs ∧ cs.foldlM capability w.peer = some w'.peer := by
  induction fuel generalizing w with
  | zero => contradiction
  | succ fuel ih =>
    by_cases whole : Whole memory length w.pnt
    · rcases parse_whole whole run with ⟨-, rest⟩ | ⟨peer, passed, rest⟩
      · exact ih (w := { w with reads := fetched w }) start rest
      · obtain ⟨cs, message, did⟩ := ih whole.2.1 rest
        refine ⟨capabilityAt memory w.pnt :: cs, .next whole message, ?_⟩
        rw [List.foldlM_cons, passed]
        exact did
    · rcases parse_torn whole run with ⟨more, refused, -⟩ | ⟨past, same⟩
      · exact absurd (show (0 : Int) = -1 from refused) (by decide)
      · obtain ⟨-, rfl⟩ := Prod.mk.inj same
        have done : w'.pnt = length := by omega
        exact ⟨[], done ▸ .done, rfl⟩

/-- Where a run gives a result and reads inside the message only, it passed all that it
reached. -/
theorem parse_clear (run : bgpCapabilityMsgParse memory length fuel w = some r)
    (within : ∀ i ∈ r.2.reads, i < length) :
    Clear memory length w.peer.overrideCapability w.pnt := by
  induction fuel generalizing w with
  | zero => contradiction
  | succ fuel ih =>
    by_cases whole : Whole memory length w.pnt
    · rcases parse_whole whole run with ⟨-, rest⟩ | ⟨peer, passed, rest⟩
      · exact ih (w := { w with reads := fetched w }) rest
      · have later := ih rest
        rw [capability_overrideCapability passed] at later
        intro pnt reached whole'
        cases reached with
        | here =>
          have last : w.pnt + 6 ∈ fetched w := mem_fetched.mpr (Or.inr (by omega))
          have inside := within _ (parse_reads rest last)
          refine ⟨by omega, fun stuck => ?_⟩
          rw [capability_none_iff.mpr stuck] at passed
          contradiction
        | next _ reached => exact later pnt reached whole'
    · intro pnt reached whole'
      cases reached with
      | here => exact absurd whole' whole
      | next whole'' _ => exact absurd whole'' whole

/-- Where the capabilities that are reached can be passed, the walk ends. -/
theorem parse_ends {w : Walk} (clear : Clear memory length w.peer.overrideCapability w.pnt) :
    ∃ fuel r, bgpCapabilityMsgParse memory length fuel w = some r ∧
      ∀ i ∈ r.2.reads, i ∈ w.reads ∨ i < length := by
  by_cases whole : Whole memory length w.pnt
  · obtain ⟨near, free⟩ := clear w.pnt .here whole
    obtain ⟨peer, passed⟩ := Option.ne_none_iff_exists'.mp (mt capability_none_iff.mp free)
    have advanced := pnt_lt_behind memory w.pnt
    have later : Clear memory length peer.overrideCapability (behind memory w.pnt) := by
      rw [capability_overrideCapability passed]
      exact fun pnt reached => clear pnt (.next whole reached)
    obtain ⟨fuel, r, run, within⟩ := parse_ends (w := ⟨behind memory w.pnt, peer, fetched w⟩) later
    refine ⟨fuel + 1, r, (parse_passed whole passed).trans run, fun i read => ?_⟩
    rcases within i read with fetching | inside
    · rcases mem_fetched.mp fetching with old | ⟨-, high⟩
      · exact Or.inl old
      · exact Or.inr (by omega)
    · exact Or.inr inside
  · by_cases inside : w.pnt < length
    · obtain ⟨w', more, refused, grown, within⟩ := turn_refused w inside whole
      refine ⟨1, (-1, w'), ?_, fun i read => ?_⟩
      · rw [bgpCapabilityMsgParse, if_pos inside, refused]
      · rw [grown] at read
        exact (List.mem_append.mp read).imp id (within i)
    · exact ⟨1, (0, w), if_neg inside, fun i read => Or.inl read⟩
termination_by length - w.pnt

end Runs

/-! ## The function -/

/-- The walk ends, reads inside the message only, and where it accepts the message it took
each of its capabilities once, in order. -/
def Parses (memory : Nat → U8) (length : Nat) (peer : Peer) : Prop :=
  ∃ fuel ret w, bgpCapabilityMsgParse memory length fuel ⟨0, peer, []⟩ = some (ret, w) ∧
    (∀ i ∈ w.reads, i < length) ∧
    (ret = 0 → ∃ cs, Message memory length 0 cs ∧ cs.foldlM capability peer = some w.peer)

/-- It does so exactly where all capabilities up to the first torn one can be passed. The
walk reads four octets behind every header, and does not go on behind a multiprotocol
capability that it is to ignore. -/
theorem parses_iff_clear (memory : Nat → U8) (length : Nat) (peer : Peer) :
    Parses memory length peer ↔ Clear memory length peer.overrideCapability 0 := by
  constructor
  · rintro ⟨fuel, ret, w, run, within, -⟩
    exact parse_clear run within
  · intro clear
    obtain ⟨fuel, ⟨ret, w⟩, run, within⟩ := parse_ends (w := ⟨0, peer, []⟩) clear
    refine ⟨fuel, ret, w, run, fun i read => ?_, fun accepted => ?_⟩
    · exact (within i read).resolve_left List.not_mem_nil
    · subst accepted
      exact parse_accepted (Nat.zero_le length) run

/-- A capability of IPv4 multicast, and one of a code that nobody knows, without a value. -/
def multicast : List U8 := [0, 1, 4, 0, 1, 0, 2]
def bare : List U8 := [0, 64, 0]

/-- Under override-capability the walk over the first does not end; the walk over the second
reads behind the message. -/
theorem multicast_never_ends_bare_overreads :
    ¬ Parses (multicast.getD · 0) multicast.length { overrideCapability := true } ∧
      ¬ Parses (bare.getD · 0) bare.length {} := by
  constructor
  · rintro ⟨fuel, ret, w, run, within, -⟩
    have whole : Whole (multicast.getD · 0) multicast.length 0 := ⟨by decide, by decide, by decide⟩
    exact (parse_clear run within 0 .here whole).2 ⟨by decide, Or.inl rfl⟩
  · rintro ⟨fuel, ret, w, run, within, -⟩
    have whole : Whole (bare.getD · 0) bare.length 0 := ⟨by decide, by decide, by decide⟩
    exact absurd (parse_clear run within 0 .here whole).1 (by decide)

end Bgpd.CapabilityMessage
