import Bgpd.Runs
import Bgpd.UpdateReceive
import Bgpd.Admission

/-!
# The order in which routes are announced

A session threads the neighbour's metric through its UPDATE messages: the first
preference that is not zero fixes it for all that follow. So the MED stored for a
route is the one announced plus the first preference other than zero among the
messages up to and including the route's own. Two orders of the same messages
store the same MED for a route exactly when that preference is the same in both,
and a route announced before the first one keeps its MED as it was sent.
-/

namespace Bgpd.MessageOrder

open Octets Prefixes Attributes Neighbors AttrParse AttrSection HandlerEffects LearnedMetric
  Admission UpdateReceive

/-- What a route is about: its family, and the prefix with the distinguisher of a
VPN route. -/
structure RouteKey where
  afi : Afi
  safi : Safi
  prd : Option (BitVec 64)
  p : Prefix
  deriving DecidableEq, Repr

/-- The key of one prefix of a block. -/
def NlriEntry.key (afi : Afi) (safi : Safi) (entry : NlriEntry) : RouteKey :=
  ⟨afi, safi, entry.prd, entry.p⟩

/-- The keys a call is about. -/
def RibCall.keys : RibCall → List RouteKey
  | .nlri _ afi safi entries => entries.map (NlriEntry.key afi safi)
  | .endOfRib _ _ => []

/-- The neighbour's metric, and the attributes stored for its routes. -/
structure Session where
  localMed : U32
  stored : RouteKey → Option Attr

/-- A newly created neighbour. -/
def Session.fresh : Session := ⟨0, fun _ => none⟩

variable (bgp : Bgp) (connected : Connected) (peer : Peer) (cap : PeerCap)

/-- The tables answer a call: every route of it is stored as it is admitted, and
removed when it is withdrawn or not admitted. -/
def applyCall (stored : RouteKey → Option Attr) (call : RibCall) : RouteKey → Option Attr :=
  match call with
  | .nlri attr afi safi entries => fun key =>
    if key ∈ entries.map (NlriEntry.key afi safi) then
      attr.bind fun attr => admitMain bgp connected peer key.p attr key.safi
    else stored key
  | .endOfRib _ _ => stored

/-- An UPDATE that announces routes with a MED and a preference. -/
structure Announcement where
  message : List U8
  withdrawn : List U8
  tlvs : List Tlv
  nlri : List U8
  /-- The routes the message is about. -/
  about : List RouteKey
  med : Tlv
  localPref : Tlv
  split : updateParts message = .ok ⟨withdrawn, encodeAll tlvs, nlri⟩
  framed : ∀ tlv ∈ tlvs, tlv.Framed
  hasMed : med ∈ tlvs
  hasLocalPref : localPref ∈ tlvs
  isMed : med.type = AttrType.multiExitDisc.code
  isLocalPref : localPref.type = AttrType.localPref.code

/-- The preference a message carries. -/
def Announcement.preference (announcement : Announcement) : U32 :=
  localPrefValue announcement.localPref

/-- One message arrives. -/
def hear (session : Session) (announcement : Announcement) : Session :=
  let received := bgpUpdateReceive bgp peer cap session.localMed announcement.message
  ⟨received.localMed, received.calls.foldl (applyCall bgp connected peer) session.stored⟩

/-- The message is accepted in a session, its attributes are, and the routes it
is about are the ones named. -/
def Accepted (session : Session) (announcement : Announcement) : Prop :=
  let received := bgpUpdateReceive bgp peer cap session.localMed announcement.message
  received.ok = true ∧
    (bgpAttrParse bgp peer cap session.localMed (encodeAll announcement.tlvs)).2 = .proceed ∧
    ∀ call ∈ received.calls, ∀ key ∈ RibCall.keys call, key ∈ announcement.about

instance (session : Session) (announcement : Announcement) :
    Decidable (Accepted bgp peer cap session announcement) := by
  unfold Accepted
  infer_instance

/-- The first preference other than zero, or zero. -/
def firstNonzero : List U32 → U32
  | [] => 0
  | pref :: later => if pref ≠ 0 then pref else firstNonzero later

/-- A later message fixes the metric only where no earlier one did. -/
theorem firstNonzero_append_singleton (prefs : List U32) (pref : U32) :
    firstNonzero (prefs ++ [pref]) = learned (firstNonzero prefs) pref := by
  induction prefs with
  | nil => by_cases zero : pref = 0#32 <;> simp [firstNonzero, learned, zero]
  | cons first later ih =>
    by_cases zero : first = 0#32
    · simpa [firstNonzero, zero] using ih
    · simp [firstNonzero, learned, zero]

/-- What a session of messages makes of the metric. -/
def heard (announcements : List Announcement) : U32 :=
  firstNonzero (announcements.map Announcement.preference)

theorem heard_append_singleton (earlier : List Announcement) (announcement : Announcement) :
    heard (earlier ++ [announcement]) = learned (heard earlier) announcement.preference := by
  unfold heard
  rw [List.map_append]
  exact firstNonzero_append_singleton _ _

/-- Every block handed over with attributes carries those the parser ended with. -/
theorem updateCalls_attr (parts : UpdateParts) (st : ParseState) (withdraw : Bool) (attr : Attr)
    (afi : Afi) (safi : Safi) (entries : List NlriEntry)
    (member : .nlri (some attr) afi safi entries ∈ (updateCalls peer parts st withdraw).2) :
    attr = st.attr := by
  have multiprotocol (afi' : Afi) (safi' : Safi)
      (called : .nlri (some attr) afi safi entries ∈ multiprotocolCalls peer afi' safi'
        (if withdraw then none else some st.attr) parts st.mpUpdate st.mpWithdraw) :
      attr = st.attr := by
    unfold multiprotocolCalls at called
    grind
  unfold updateCalls at member
  grind

/-- An accepted message leaves the learned metric, and hands over its MED with
that metric added. -/
theorem accepted_calls (session : Session) (announcement : Announcement)
    (accepted : Accepted bgp peer cap session announcement) :
    (hear bgp connected peer cap session announcement).localMed =
        learned session.localMed announcement.preference ∧
      ∀ attr afi safi entries, .nlri (some attr) afi safi entries ∈
          (bgpUpdateReceive bgp peer cap session.localMed announcement.message).calls →
        attr.med = medValue announcement.med +
          learned session.localMed announcement.preference := by
  obtain ⟨-, proceeded, -⟩ := accepted
  have nonempty : encodeAll announcement.tlvs ≠ [] := by
    intro empty
    have member := announcement.hasMed
    cases some : announcement.tlvs with
    | nil => simp [some] at member
    | cons tlv later => simp [some, encodeAll, Tlv.encode] at empty
  cases parsed : bgpAttrParse bgp peer cap session.localMed (encodeAll announcement.tlvs) with
  | mk final ret =>
    rw [parsed] at proceeded
    cases proceeded
    obtain ⟨distinct, effect⟩ := bgpAttrParse_absorb bgp peer cap session.localMed
      announcement.tlvs final announcement.framed parsed
    have both := absorb_both announcement.tlvs session.localMed announcement.med
      announcement.localPref distinct announcement.hasMed announcement.hasLocalPref
      announcement.isMed announcement.isLocalPref ⟨0, 0, session.localMed⟩ rfl
    rw [← effect] at both
    obtain ⟨medEq, -, localMedEq⟩ := Metric.mk.inj both
    unfold hear bgpUpdateReceive
    simp only [announcement.split, if_neg nonempty, parsed]
    constructor
    · split <;> exact localMedEq
    · intro attr afi safi entries member
      split at member
      · cases member
      · rw [updateCalls_attr peer _ final _ attr afi safi entries member]
        exact medEq

/-- What a table holds after the calls of a message was there before, or comes
from a block of the message about that route. -/
theorem foldl_applyCall (calls : List RibCall) (stored : RouteKey → Option Attr) (key : RouteKey)
    (attr : Attr) (held : calls.foldl (applyCall bgp connected peer) stored key = some attr) :
    stored key = some attr ∨ ∃ sent afi safi entries, .nlri (some sent) afi safi entries ∈ calls ∧
      key ∈ entries.map (NlriEntry.key afi safi) ∧
      admitMain bgp connected peer key.p sent key.safi = some attr := by
  induction calls generalizing stored with
  | nil => exact Or.inl held
  | cons call later ih =>
    rcases ih _ held with before | ⟨sent, afi, safi, entries, member, about, admitted⟩
    · unfold applyCall at before
      split at before
      · rename_i sent afi safi entries
        split at before
        · rename_i about
          obtain ⟨sent, rfl, admitted⟩ := Option.bind_eq_some_iff.mp before
          exact Or.inr ⟨sent, afi, safi, entries, List.mem_cons_self, about, admitted⟩
        · exact Or.inl before
      · exact Or.inl before
    · exact Or.inr ⟨sent, afi, safi, entries, List.mem_cons_of_mem call member, about, admitted⟩

variable (inMap : ∀ afi safi, MedKept (peer.policy afi safi).mapIn)

include inMap

/-- One accepted message: a stored MED is as it was, or the message is about the
route and the MED is the one it announces plus the metric it leaves. -/
theorem hear_stored (session : Session) (announcement : Announcement)
    (accepted : Accepted bgp peer cap session announcement) (key : RouteKey) (attr : Attr)
    (held : (hear bgp connected peer cap session announcement).stored key = some attr) :
    session.stored key = some attr ∨ key ∈ announcement.about ∧
      attr.med = medValue announcement.med +
        learned session.localMed announcement.preference := by
  rcases foldl_applyCall bgp connected peer _ _ key attr held with
    before | ⟨sent, afi, safi, entries, member, about, admitted⟩
  · exact Or.inl before
  · have sentMed := (accepted_calls bgp connected peer cap session announcement accepted).2
      sent afi safi entries member
    have stored := admitMain_some bgp connected peer key.p sent attr key.safi admitted
    refine Or.inr ⟨accepted.2.2 _ member key about, ?_⟩
    rw [bgpInputModifier_med peer key.p sent attr key.safi (inMap _ _) stored, sentMed]

/-- After a session of accepted messages the metric is the first preference other
than zero, and a stored MED is the one announced plus the metric at that
message. -/
theorem session_stored (announcements : List Announcement)
    (accepted : Runs.Guarded (hear bgp connected peer cap) (Accepted bgp peer cap) .fresh
      announcements) :
    (Runs.run (hear bgp connected peer cap) .fresh announcements).localMed =
        heard announcements ∧
      ∀ key attr, (Runs.run (hear bgp connected peer cap) .fresh announcements).stored key =
          some attr →
        ∃ earlier announcement later, announcements = earlier ++ announcement :: later ∧
          key ∈ announcement.about ∧
          attr.med = medValue announcement.med + heard (earlier ++ [announcement]) := by
  induction announcements using List.reverseRecOn with
  | nil =>
    refine ⟨rfl, ?_⟩
    intro key attr held
    cases held
  | append_singleton earlier last ih =>
    rw [Runs.guarded_append] at accepted
    obtain ⟨acceptedEarlier, acceptedLast, -⟩ := accepted
    obtain ⟨metric, medOf⟩ := ih acceptedEarlier
    rw [Runs.run_append]
    simp only [Runs.run_cons, Runs.run_nil]
    constructor
    · rw [(accepted_calls bgp connected peer cap _ last acceptedLast).1, metric,
        heard_append_singleton]
    · intro key attr held
      rcases hear_stored bgp connected peer cap inMap _ last acceptedLast key attr held with
        before | ⟨about, medEq⟩
      · obtain ⟨front, announcement, back, rfl, about, medEq⟩ := medOf key attr before
        refine ⟨front, announcement, back ++ [last], ?_, about, medEq⟩
        simp
      · refine ⟨earlier, last, [], rfl, about, ?_⟩
        rw [medEq, metric, heard_append_singleton]

omit inMap

/-- Messages about pairwise distinct routes: a route names its message's place. -/
theorem place_unique (announcements : List Announcement)
    (distinct : announcements.Pairwise fun left right => left.about.Disjoint right.about)
    (key : RouteKey) (earlier later earlier' later' : List Announcement)
    (left right : Announcement) (here : announcements = earlier ++ left :: later)
    (there : announcements = earlier' ++ right :: later') (aboutLeft : key ∈ left.about)
    (aboutRight : key ∈ right.about) : earlier = earlier' ∧ left = right := by
  induction earlier generalizing announcements earlier' with
  | nil =>
    subst here
    cases earlier' with
    | nil =>
      simp only [List.nil_append, List.cons.injEq] at there
      exact ⟨rfl, there.1⟩
    | cons first rest =>
      simp only [List.nil_append, List.cons_append, List.cons.injEq] at there
      obtain ⟨rfl, rfl⟩ := there
      rw [List.nil_append, List.pairwise_cons] at distinct
      have apart := distinct.1 right (by simp)
      exact absurd aboutRight (List.disjoint_left.mp apart aboutLeft)
  | cons first rest ih =>
    subst here
    cases earlier' with
    | nil =>
      simp only [List.nil_append, List.cons_append, List.cons.injEq] at there
      obtain ⟨rfl, rfl⟩ := there
      rw [List.cons_append, List.pairwise_cons] at distinct
      have apart := distinct.1 left (by simp)
      exact absurd aboutLeft (List.disjoint_left.mp apart aboutRight)
    | cons first' rest' =>
      simp only [List.cons_append, List.cons.injEq] at there
      rw [List.cons_append, List.pairwise_cons] at distinct
      obtain ⟨same, sameAnnouncement⟩ := ih _ distinct.2 rest' rfl there.2
      exact ⟨by rw [there.1, same], sameAnnouncement⟩

include inMap

/-- In two orders of messages about pairwise distinct routes, each accepted from
a newly created neighbour, the MED stored for a route is in either the one its
message announces plus the first preference other than zero up to and including
that message. The two are equal exactly when those preferences are. -/
theorem stored_med_same_iff (first second : List Announcement) (permuted : first.Perm second)
    (distinct : first.Pairwise fun left right => left.about.Disjoint right.about)
    (acceptedFirst : Runs.Guarded (hear bgp connected peer cap) (Accepted bgp peer cap)
      .fresh first)
    (acceptedSecond : Runs.Guarded (hear bgp connected peer cap) (Accepted bgp peer cap) .fresh
      second)
    (key : RouteKey) (announcement : Announcement) (about : key ∈ announcement.about)
    (earlier later earlier' later' : List Announcement)
    (placed : first = earlier ++ announcement :: later)
    (placed' : second = earlier' ++ announcement :: later') (left right : Attr)
    (storedLeft : (Runs.run (hear bgp connected peer cap) .fresh first).stored key = some left)
    (storedRight : (Runs.run (hear bgp connected peer cap) .fresh second).stored key =
      some right) :
    (left.med = medValue announcement.med + heard (earlier ++ [announcement]) ∧
        right.med = medValue announcement.med + heard (earlier' ++ [announcement])) ∧
      (left.med = right.med ↔
        heard (earlier ++ [announcement]) = heard (earlier' ++ [announcement])) := by
  have distinct' : second.Pairwise fun left right => left.about.Disjoint right.about :=
    (permuted.pairwise_iff fun apart => apart.symm).mp distinct
  obtain ⟨front, found, back, cut, aboutFound, leftMed⟩ :=
    (session_stored bgp connected peer cap inMap first acceptedFirst).2 key left storedLeft
  obtain ⟨front', found', back', cut', aboutFound', rightMed⟩ :=
    (session_stored bgp connected peer cap inMap second acceptedSecond).2 key right storedRight
  obtain ⟨rfl, rfl⟩ := place_unique first distinct key front back earlier later found announcement
    cut placed aboutFound about
  obtain ⟨rfl, rfl⟩ := place_unique second distinct' key front' back' earlier' later' found' found
    cut' placed' aboutFound' about
  refine ⟨⟨leftMed, rightMed⟩, ?_⟩
  rw [leftMed, rightMed]
  exact BitVec.add_right_inj _

omit inMap

/-! ## Two routes from one neighbour -/

/-- An UPDATE that announces one route in its body. -/
def updateOctets (tlvs : List Tlv) (nlri : List U8) : List U8 :=
  putw 0 ++ putw (encodeAll tlvs).length ++ encodeAll tlvs ++ nlri

/-- The network 10.0.0.0/8 with a preference of 100. -/
def announceTen : Announcement where
  message := updateOctets (fiveAttributes 0x0A000001 10 100) [8, 10]
  withdrawn := []
  tlvs := fiveAttributes 0x0A000001 10 100
  nlri := [8, 10]
  about := [⟨.ip, .unicast, none, ⟨.ip, [false, false, false, false, true, false, true, false],
    ten_fits⟩⟩]
  med := .wellKnown .multiExitDisc (putl 10)
  localPref := .wellKnown .localPref (putl 100)
  split := by decide
  framed := by decide
  hasMed := by decide
  hasLocalPref := by decide
  isMed := rfl
  isLocalPref := rfl

/-- The network 11.0.0.0/8 with a preference of 200. -/
def announceEleven : Announcement where
  message := updateOctets (fiveAttributes 0x0A000001 20 200) [8, 11]
  withdrawn := []
  tlvs := fiveAttributes 0x0A000001 20 200
  nlri := [8, 11]
  about := [⟨.ip, .unicast, none, ⟨.ip, [false, false, false, false, true, false, true, true],
    by decide⟩⟩]
  med := .wellKnown .multiExitDisc (putl 20)
  localPref := .wellKnown .localPref (putl 200)
  split := by decide
  framed := by decide
  hasMed := by decide
  hasLocalPref := by decide
  isMed := rfl
  isLocalPref := rfl

/-- An external neighbour hears the messages. -/
def hearPlain : Session → Announcement → Session :=
  hear (.plain 65001 1) .everywhere (.plain 1 65002 65001) {}

/-- The neighbour's messages are accepted. -/
def AcceptedPlain : Session → Announcement → Prop :=
  Accepted (.plain 65001 1) (.plain 1 65002 65001) {}

/-- The key of 10.0.0.0/8. -/
def keyTen : RouteKey :=
  ⟨.ip, .unicast, none, ⟨.ip, [false, false, false, false, true, false, true, false], ten_fits⟩⟩

theorem accepted_ten_eleven :
    Runs.Guarded hearPlain AcceptedPlain .fresh [announceTen, announceEleven] :=
  ⟨by unfold AcceptedPlain; decide, by unfold AcceptedPlain; decide, trivial⟩

theorem accepted_eleven_ten :
    Runs.Guarded hearPlain AcceptedPlain .fresh [announceEleven, announceTen] :=
  ⟨by unfold AcceptedPlain; decide, by unfold AcceptedPlain; decide, trivial⟩

/-- The preferences of the two messages differ, and so does the MED stored for
the first route. -/
theorem stored_med_same_iff_swapped :
    ∃ left right,
      (Runs.run hearPlain .fresh [announceTen, announceEleven]).stored keyTen = some left ∧
      (Runs.run hearPlain .fresh [announceEleven, announceTen]).stored keyTen = some right ∧
      left.med ≠ right.med := by
  obtain ⟨left, storedLeft⟩ := Option.isSome_iff_exists.mp (show
    ((Runs.run hearPlain .fresh [announceTen, announceEleven]).stored keyTen).isSome = true by
      decide)
  obtain ⟨right, storedRight⟩ := Option.isSome_iff_exists.mp (show
    ((Runs.run hearPlain .fresh [announceEleven, announceTen]).stored keyTen).isSome = true by
      decide)
  have law := stored_med_same_iff (.plain 65001 1) .everywhere (.plain 1 65002 65001) {}
    (fun _ _ _ bound => nomatch bound) [announceTen, announceEleven] [announceEleven, announceTen]
    (List.Perm.swap _ _ _) (by simp [announceTen, announceEleven]) accepted_ten_eleven
    accepted_eleven_ten keyTen announceTen (by decide) [] [announceEleven] [announceEleven] [] rfl
    rfl left right storedLeft storedRight
  refine ⟨left, right, storedLeft, storedRight, ?_⟩
  intro same
  exact absurd (law.2.mp same) (by decide)

/-- 10.0.0.0/8 is stored with a MED of 110 when it is announced first, and of 210
when it is announced after 11.0.0.0/8. -/
theorem stored_med_follows_order :
    [announceTen, announceEleven].Perm [announceEleven, announceTen] ∧
      announceTen.about.Disjoint announceEleven.about ∧
      Runs.Guarded hearPlain AcceptedPlain .fresh [announceTen, announceEleven] ∧
      Runs.Guarded hearPlain AcceptedPlain .fresh [announceEleven, announceTen] ∧
      ((Runs.run hearPlain .fresh [announceTen, announceEleven]).stored keyTen).map Attr.med =
        some 110 ∧
      ((Runs.run hearPlain .fresh [announceEleven, announceTen]).stored keyTen).map Attr.med =
        some 210 :=
  ⟨List.Perm.swap _ _ _, by simp [announceTen, announceEleven], accepted_ten_eleven,
    accepted_eleven_ten, by decide, by decide⟩

end Bgpd.MessageOrder
