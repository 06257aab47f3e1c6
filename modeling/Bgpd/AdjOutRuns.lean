import Bgpd.AdjOutSteps

/-!
# Runs of announcements and packets

Beside the book goes what every neighbour holds, and what it is to hold. What an entry says
was sent is what the neighbour holds, and what is pending for an entry is what the neighbour
has still to be told. An announcement has the attributes that were asked for, as far as
`attrhash` tells attribute sets apart: it does not compare the originator.
-/

namespace Bgpd.AdjOut

open Attributes AttrHash
open Function (update_of_ne update_self)

/-! ## What is owed -/

/-- What was sent, or what is pending, is what was asked for. -/
def Owed (view : Attr → Attr) (sent : Option Attr) (pend : Option Pending) (asked : Option Attr) :
    Prop :=
  match pend with
  | none => sent.map view = asked.map view
  | some pd =>
    match pd.group with
    | some (_, attr) => some (view attr) = asked.map view
    | none => sent.isSome ∧ asked = none

/-- The book keeps the state, and whoever is owed something has it pending. -/
structure Serves (view : Attr → Attr) (asked : Slot → Option Attr) (s : State) (bk : Book) :
    Prop where
  keeps : Keeps s bk
  owed : ∀ k, Owed view (bk.attr k) (bk.pend k) (asked k)

/-- What the neighbours hold. -/
def State.held (s : State) (k : Slot) : Option Attr := told (s.obuf k.1) k.2

/-- The invariant of a run. -/
def Inv (view : Attr → Attr) (asked : Slot → Option Attr) (s : State) : Prop :=
  ∃ bk, Serves view asked s bk ∧ ∀ k, bk.attr k = s.held k

theorem inv_start (view : Attr → Attr) : Inv view (fun _ => none) State.start :=
  ⟨Book.empty, ⟨keeps_start, fun _ => rfl⟩, fun _ => rfl⟩

theorem told_append (messages : List Message) (message : Message) :
    told (messages ++ [message]) = hear (told messages) message :=
  List.foldl_append

section Steps

variable {view : Attr → Attr} {asked : Slot → Option Attr} {s : State} {bk : Book} {k : Slot}
  {out : Out}

/-! ## Announcing and withdrawing -/

/-- `bgp_adj_out_set`, where the attributes found for the given ones look like them. -/
theorem Inv.set (inv : Inv view asked s) (k : Slot) (attr : Attr) (binfo : Binfo)
    (elsewhere : List Attr)
    (alike : ∀ chosen, Rib.attrhashCmp chosen attr →
      chosen = attr ∨ chosen ∈ s.attrhash elsewhere → view chosen = view attr) :
    ∃ s', s.bgpAdjOutSet k.2 k.1 (some attr) binfo elsewhere = some s'
      ∧ Inv view (Function.update asked k (some attr)) s' := by
  obtain ⟨bk, serves, heard⟩ := inv
  obtain ⟨i, s₁, found, keeps₁, obuf₁, shrinks₁⟩ := serves.keeps.entryFor k
  have entry : (bk.setAdj k (some i)).adj k = some i := by simp
  obtain ⟨s₂, cleaned, keeps₂, obuf₂, shrinks₂⟩ := keeps₁.cleanPending entry
  have vacant : ((bk.setAdj k (some i)).setPend k none).pend k = none := by simp
  obtain ⟨s₃, pd, baa, chosen, announced, keeps₃, obuf₃, group, equal, known⟩ :=
    keeps₂.announce entry vacant attr binfo elsewhere
  refine ⟨s₃, ?_, _, ⟨keeps₃, fun k' => ?_⟩, fun k' => ?_⟩
  · have cleaned' : s₁.cleanPending ⟨k.1, k.2.family⟩ i = some s₂ := cleaned
    simp only [State.bgpAdjOutSet, found, cleaned', Option.bind_eq_bind, Option.bind_some]
    exact announced
  · by_cases own : k' = k
    · subst own
      simp only [Book.setPend_pend, update_self, Owed, group, Option.map_some,
        Option.some.injEq]
      exact alike chosen equal (known.imp_right fun among =>
        shrinks₁ elsewhere (shrinks₂ elsewhere among))
    · simp only [Book.setPend_pend, Book.setPend_attr, Book.setAdj_attr, Book.setAdj_pend,
        update_of_ne own]
      exact serves.owed k'
  · unfold State.held
    rw [obuf₃, obuf₂, obuf₁]
    exact heard k'

/-- `bgp_adj_out_unset`. -/
theorem Inv.unset (inv : Inv view asked s) (k : Slot) :
    ∃ s', s.bgpAdjOutUnset k.2 k.1 = some s' ∧ Inv view (Function.update asked k none) s' := by
  obtain ⟨bk, serves, heard⟩ := inv
  have found := serves.keeps.entries.lookup k.1 k.2
  cases entry : bk.adj k with
  | none =>
    have unsent := serves.keeps.entries.sent k entry
    have vacant := serves.keeps.nothing_pending entry
    refine ⟨s, ?_, bk, ⟨serves.keeps, fun k' => ?_⟩, heard⟩
    · simp only [State.bgpAdjOutUnset, found, entry, Option.bind_eq_bind, Option.bind_some]
      rfl
    · by_cases own : k' = k
      · subst own
        rw [update_self, unsent, vacant]
        rfl
      · rw [update_of_ne own]
        exact serves.owed k'
  | some i =>
    obtain ⟨s₁, cleaned, keeps₁, obuf₁, -⟩ := serves.keeps.cleanPending entry
    have vacant : (bk.setPend k none).pend k = none := by simp
    have begun : ∀ s', s₁.withdrawOrDel k.2 (outOf k) i = some s' →
        s.bgpAdjOutUnset k.2 k.1 = some s' := by
      intro s' ended
      have cleaned' : s.cleanPending ⟨k.1, k.2.family⟩ i = some s₁ := cleaned
      simp only [State.bgpAdjOutUnset, found, entry, cleaned', Option.bind_eq_bind,
        Option.bind_some]
      exact ended
    cases sent : bk.attr k with
    | some attr =>
      have some_ : ((bk.setPend k none).attr k).isSome := by
        rw [Book.setPend_attr, sent]
        rfl
      obtain ⟨s₂, pd, ended, keeps₂, obuf₂, ungrouped⟩ := keeps₁.withdraw entry vacant some_
      refine ⟨s₂, begun s₂ ended, _, ⟨keeps₂, fun k' => ?_⟩, fun k' => ?_⟩
      · by_cases own : k' = k
        · subst own
          simp only [Book.setPend_pend, update_self, Owed, ungrouped]
          exact ⟨some_, trivial⟩
        · simp only [Book.setPend_pend, Book.setPend_attr, update_of_ne own]
          exact serves.owed k'
      · unfold State.held
        rw [obuf₂, obuf₁]
        exact heard k'
    | none =>
      have cell := keeps₁.entries.cell k i entry
      refine ⟨s₁.bgpAdjOutDel k.2 i, begun _ ?_, _, ⟨keeps₁.del entry sent vacant, fun k' => ?_⟩,
        fun k' => ?_⟩
      · simp only [State.withdrawOrDel, cell, Book.setPend_attr, sent, Option.bind_eq_bind,
          Option.bind_some]
        rfl
      · by_cases own : k' = k
        · subst own
          simp [Book.setAdj_pend, Book.setAdj_attr, Book.setPend_pend, Book.setPend_attr, sent,
            Owed]
        · simp only [Book.setAdj_pend, Book.setAdj_attr, Book.setPend_pend, Book.setPend_attr,
            update_of_ne own]
          exact serves.owed k'
      · exact (heard k').trans (congrArg
          (fun obuf : Nat → List Message => told (obuf k'.1) k'.2) obuf₁.symm)

/-! ## Announcements in a packet -/

/-- What the neighbours hold once the packet is sent. -/
def announced (out : Out) (held : Slot → Option Attr) : Option Written → Slot → Option Attr
  | none, k => held k
  | some written, k => if k.1 = out.peer ∧ k.2 ∈ written.nlri then some written.attr else held k

/-- The prefixes in a packet. -/
def placed (written : Option Written) : List Node := (written.map (·.nlri)).getD []

section Packets

variable {attributeLength : Attr → Node → Option Binfo → Nat}

/-- Whatever is announced, its attributes and one prefix fit in a packet. -/
def Fits (attributeLength : Attr → Node → Option Binfo → Nat) : Prop :=
  ∀ attr rn binfo, bgpHeaderSize + bgpUnfeasibleLen + bgpTotalAttrLen
    + attributeLength attr rn binfo + bgpNlriLength + rn.psize ≤ bgpMaxPacketSize

variable {written : Option Written}

/-- There is room for what is placed in a packet. -/
theorem place_some (fits : Fits attributeLength) (packs : Bool) (adv : BgpAdvertise) {attr : Attr}
    (same : ∀ w, written = some w → w.attr = attr)
    (room : ¬ bgpMaxPacketSize - (written.map (·.endp)).getD 0 ≤ bgpNlriLength + adv.rn.psize) :
    ∃ w, place attributeLength packs written adv attr = some w ∧ w.attr = attr
      ∧ w.nlri = placed written ++ [adv.rn] := by
  have bound := fits attr adv.rn adv.binfo
  cases written with
  | none =>
    refine ⟨_, if_pos ?_, rfl, rfl⟩
    dsimp only [Option.getD_none]
    split <;> omega
  | some w =>
    refine ⟨_, if_pos ?_, same w rfl, rfl⟩
    dsimp only [Option.map_some, Option.getD_some] at room ⊢
    split <;> omega

/-- The loop of `bgp_update_packet`. What is taken out of the queue next has the attributes
of the packet, since it is in the group of what was taken before. -/
theorem updateLoop_serves (fits : Fits attributeLength) (held : Slot → Option Attr) (attr : Attr)
    (fuel : Nat) {next : Option Nat} (serves : Serves view asked s bk)
    (heard : ∀ k, bk.attr k = announced out held written k)
    (same : ∀ w, written = some w → w.attr = attr)
    (head : ∀ adv, next = some adv → ∃ k pd baa, bk.pend k = some pd ∧ pd.adv = adv
      ∧ outOf k = out ∧ pd.group = some (baa, attr)) (enough : (s.update out).length ≤ fuel) :
    ∃ written' s' bk', updateLoop attributeLength out fuel s written next = some (written', s')
      ∧ Serves view asked s' bk' ∧ (∀ k, bk'.attr k = announced out held written' k)
      ∧ s'.obuf = s.obuf := by
  induction fuel generalizing s bk written next with
  | zero =>
    cases next with
    | none => exact ⟨written, s, bk, rfl, serves, heard, rfl⟩
    | some adv =>
      obtain ⟨k, pd, baa, here, rfl, of, group⟩ := head adv rfl
      have queued := (serves.keeps.queues.update out).listed here ⟨of, by rw [group]; rfl⟩
      exact absurd enough (Nat.not_le_of_lt (List.length_pos_of_mem queued))
  | succ fuel ih =>
    cases next with
    | none => exact ⟨written, s, bk, rfl, serves, heard, rfl⟩
    | some adv =>
      obtain ⟨k, pd, baa, here, rfl, rfl, group⟩ := head adv rfl
      have inside : bk.In k baa attr := ⟨pd, here, group⟩
      obtain ⟨i, entry, cell⟩ := serves.keeps.queues.cell k pd here
      obtain ⟨l, groupCell, -⟩ := serves.keeps.groups.cell k baa attr inside
      rw [group] at cell
      by_cases full : bgpMaxPacketSize - (written.map (·.endp)).getD 0 ≤ bgpNlriLength + k.2.psize
      · refine ⟨written, s, bk, ?_, serves, heard, rfl⟩
        simp only [updateLoop, cell, Option.bind_eq_bind, Option.bind_some, full, if_true]
        rfl
      · obtain ⟨w, wrote, attributes, nlri⟩ := place_some fits (outOf k).family.packs
          ⟨k.2, i, some baa, pd.binfo⟩ same full
        obtain ⟨s₁, synced, keeps₁, obuf₁, update₁, -⟩ := serves.keeps.synchronize entry attr
        obtain ⟨next', s₂, cleaned, keeps₂, gone, others⟩ := keeps₁.clean entry here
        have serves₂ : Serves view asked s₂ ((bk.setAttr k (some attr)).setPend k none) := by
          refine ⟨keeps₂, fun k' => ?_⟩
          have owed := serves.owed k'
          by_cases own : k' = k
          · subst own
            rw [here] at owed
            simp only [Owed, group] at owed
            simp only [Book.setPend_attr, Book.setPend_pend, Book.setAttr_attr,
              update_self, Owed]
            exact owed
          · simp only [Book.setPend_attr, Book.setPend_pend, Book.setAttr_attr, Book.setAttr_pend,
              update_of_ne own]
            exact owed
        have heard₂ : ∀ k', ((bk.setAttr k (some attr)).setPend k none).attr k'
            = announced (outOf k) held (some w) k' := by
          intro k'
          simp only [Book.setPend_attr, Book.setAttr_attr, announced, nlri, attributes,
            List.mem_append, List.mem_singleton]
          by_cases own : k' = k
          · subst own
            rw [update_self, if_pos ⟨rfl, .inr rfl⟩]
          · have apart : ¬ (k'.1 = (outOf k).peer ∧ k'.2 = k.2) := fun also =>
              own (Prod.ext also.1 also.2)
            have before := heard k'
            rw [update_of_ne own, before]
            cases written with
            | none =>
              refine (if_neg ?_).symm
              rintro ⟨peer, nothing | node⟩
              · cases nothing
              · exact apart ⟨peer, node⟩
            | some w' =>
              rw [announced, same w' rfl]
              refine if_congr ?_ rfl rfl
              refine and_congr_right fun peer => (or_iff_left fun node => apart ⟨peer, node⟩).symm
        have ran : updateLoop attributeLength (outOf k) (fuel + 1) s written (some pd.adv)
            = if (outOf k).family.packs then updateLoop attributeLength (outOf k) fuel s₂
              (some w) next'
              else some (some w, s₂) := by
          simp only [updateLoop, cell, Option.map_some, groupCell, wrote, synced, cleaned,
            Option.bind_eq_bind, Option.bind_some, full, if_false, Option.pure_def]
        have obuf₂ : s₂.obuf = s.obuf := gone.obuf.trans obuf₁
        by_cases packs : (outOf k).family.packs
        · have queued := (serves.keeps.queues.update _).listed here ⟨rfl, by rw [group]; rfl⟩
          have shorter : (s₂.update (outOf k)).length ≤ fuel := by
            rw [gone.update, update₁, List.length_erase_of_mem queued]
            exact Nat.sub_le_of_le_add enough
          obtain ⟨written', s', bk', looped, serves', heard', obuf'⟩ := ih serves₂ heard₂
            (fun w' this => Option.some.inj this ▸ attributes)
            (fun adv first => by
              obtain ⟨k', pd', apart, there, address, group'⟩ := others baa attr group adv first
              exact ⟨k', pd', baa, (update_of_ne apart ..).trans there, address,
                serves.keeps.groups.own k' k baa attr attr ⟨pd', there, group'⟩ inside, group'⟩)
            shorter
          exact ⟨written', s', bk', (ran.trans (if_pos packs)).trans looped, serves', heard',
            obuf'.trans obuf₂⟩
        · exact ⟨some w, s₂, _, ran.trans (if_neg packs), serves₂, heard₂, obuf₂⟩

/-- `bgp_update_packet`. -/
theorem Inv.updatePacket (fits : Fits attributeLength) (inv : Inv view asked s) (out : Out) :
    ∃ s', s.bgpUpdatePacket attributeLength out = some s' ∧ Inv view asked s' := by
  obtain ⟨bk, serves, heard⟩ := inv
  have head : ∃ attr, ∀ adv, (s.update out).head? = some adv → ∃ k pd baa, bk.pend k = some pd
      ∧ pd.adv = adv ∧ outOf k = out ∧ pd.group = some (baa, attr) := by
    cases first : (s.update out).head? with
    | none => exact ⟨Attr.zero, fun _ nothing => nomatch nothing⟩
    | some adv =>
      obtain ⟨k, pd, here, ⟨of, grouped⟩, rfl⟩ :=
        ((serves.keeps.queues.update out).mem adv).mp (List.mem_of_head? first)
      obtain ⟨⟨baa, attr⟩, group⟩ := Option.isSome_iff_exists.mp grouped
      refine ⟨attr, fun adv' also => ?_⟩
      cases also
      exact ⟨k, pd, baa, here, rfl, of, group⟩
  obtain ⟨attr, head⟩ := head
  have unwritten : ∀ w, (none : Option Written) = some w → w.attr = attr :=
    fun _ nothing => nomatch nothing
  have before : ∀ k, bk.attr k = announced out s.held none k := heard
  obtain ⟨written, s', bk', looped, serves', heard', obuf⟩ := updateLoop_serves fits s.held attr
    (s.update out).length serves before unwritten head (Nat.le_refl _)
  cases written with
  | none =>
    refine ⟨s', ?_, bk', serves', fun k => (heard' k).trans ?_⟩
    · simp [State.bgpUpdatePacket, looped]
    · unfold State.held
      rw [obuf]
      rfl
  | some w =>
    refine ⟨{ s' with
        obuf := Function.update s'.obuf out.peer
          (s'.obuf out.peer ++ [.announce w.attr w.nlri]) }, ?_, bk', ⟨?_, serves'.owed⟩,
      fun k => (heard' k).trans ?_⟩
    · simp [State.bgpUpdatePacket, looped]
    · exact ⟨serves'.keeps.entries.congr rfl rfl (Nat.le_refl _),
        serves'.keeps.queues.congr rfl rfl rfl (Nat.le_refl _) rfl fun _ _ => rfl,
        serves'.keeps.groups.congr rfl rfl (Nat.le_refl _) rfl, serves'.keeps.counts.congr rfl rfl⟩
    · unfold State.held
      rw [announced, obuf]
      dsimp only
      by_cases peer : k.1 = out.peer
      · rw [peer, update_self, told_append, hear]
        exact if_congr (and_iff_right rfl) rfl rfl
      · rw [update_of_ne peer]
        exact if_neg fun also => peer also.1

end Packets

/-! ## Withdrawals in a packet -/

/-- What the neighbours hold once the withdrawals are sent. -/
def withdrawn (out : Out) (held : Slot → Option Attr) (nlri : List Node) (k : Slot) : Option Attr :=
  if k.1 = out.peer ∧ k.2 ∈ nlri then none else held k

theorem Node.psize_le (rn : Node) : rn.psize ≤ 16 := by
  have bits := rn.p.fits
  unfold Node.psize Prefixes.Prefix.prefixlen
  cases family : rn.p.family <;> rw [family] at bits <;>
    simp only [Prefixes.Afi.bits] at bits <;> omega

/-- What ends the packet fits too. -/
def Ends (packs : Bool) (endp : Nat) : Prop :=
  (if packs then endp + bgpTotalAttrLen else endp) ≤ bgpMaxPacketSize

variable {endp : Nat}

/-- There is room for a prefix, if it is the first one or the check was passed. -/
theorem withdrawnEndp_ends {packs : Bool} (rn : Node) (first : packs = false → endp = 0)
    (room : ¬ bgpMaxPacketSize - endp < bgpNlriLength + bgpTotalAttrLen + rn.psize) :
    Ends packs (withdrawnEndp packs endp rn) ∧ withdrawnEndp packs endp rn ≤ bgpMaxPacketSize
      ∧ withdrawnEndp packs endp rn ≠ 0 := by
  have small := rn.psize_le
  unfold Ends withdrawnEndp
  simp only [bgpMaxPacketSize, bgpNlriLength, bgpTotalAttrLen, bgpHeaderSize, bgpUnfeasibleLen] at *
  cases packs with
  | true =>
    simp only [if_true]
    split <;> omega
  | false =>
    have unreach : bgpPacketWithdraw rn ≤ 6 + (12 + 16) := by
      unfold bgpPacketWithdraw
      split <;> omega
    rw [first rfl]
    simp only [Bool.false_eq_true, if_false, if_true]
    omega

/-- The loop of `bgp_withdraw_packet`. -/
theorem withdrawLoop_serves (held : Slot → Option Attr) (fuel : Nat) {nlri : List Node}
    (serves : Serves view asked s bk) (heard : ∀ k, bk.attr k = withdrawn out held nlri k)
    (first : out.family.packs = false → endp = 0) (ends : Ends out.family.packs endp)
    (begun : endp = 0 → nlri = []) (enough : (s.withdraw out).length ≤ fuel) :
    ∃ endp' nlri' s' bk', withdrawLoop out fuel s endp nlri = some (endp', nlri', s')
      ∧ Serves view asked s' bk' ∧ (∀ k, bk'.attr k = withdrawn out held nlri' k)
      ∧ Ends out.family.packs endp' ∧ (endp' = 0 → nlri' = []) ∧ s'.obuf = s.obuf := by
  induction fuel generalizing s bk endp nlri with
  | zero =>
    have empty : s.withdraw out = [] := List.eq_nil_of_length_eq_zero (Nat.le_zero.mp enough)
    refine ⟨endp, nlri, s, bk, ?_, serves, heard, ends, begun, rfl⟩
    rw [withdrawLoop.eq_def]
    simp only [empty]
  | succ fuel ih =>
    cases queue : s.withdraw out with
    | nil =>
      refine ⟨endp, nlri, s, bk, ?_, serves, heard, ends, begun, rfl⟩
      rw [withdrawLoop.eq_def]
      simp only [queue]
    | cons adv rest =>
      obtain ⟨k, pd, here, ⟨rfl, ungrouped⟩, rfl⟩ :=
        ((serves.keeps.queues.withdraw out).mem adv).mp (queue ▸ List.mem_cons_self)
      obtain ⟨i, entry, cell⟩ := serves.keeps.queues.cell k pd here
      have owed := serves.owed k
      rw [here] at owed
      simp only [Owed, ungrouped] at owed
      by_cases full : bgpMaxPacketSize - endp < bgpNlriLength + bgpTotalAttrLen + k.2.psize
      · refine ⟨endp, nlri, s, bk, ?_, serves, heard, ends, begun, rfl⟩
        rw [withdrawLoop.eq_def]
        simp only [queue, cell, Option.bind_eq_bind, Option.bind_some, full, if_true]
        rfl
      · obtain ⟨ends₁, inside, begun₁⟩ := withdrawnEndp_ends k.2 first full
        obtain ⟨s₁, removed, keeps₁, obuf₁, gone⟩ := serves.keeps.remove entry here owed.1
        have serves₁ : Serves view asked s₁
            (((bk.setAttr k none).setPend k none).setAdj k none) := by
          refine ⟨keeps₁, fun k' => ?_⟩
          by_cases own : k' = k
          · subst own
            simp [Book.setAdj_attr, Book.setAdj_pend, Book.setPend_attr, Book.setPend_pend,
              Book.setAttr_attr, Owed, owed.2]
          · simp only [Book.setAdj_attr, Book.setAdj_pend, Book.setPend_attr, Book.setPend_pend,
              Book.setAttr_attr, Book.setAttr_pend, update_of_ne own]
            exact serves.owed k'
        have heard₁ : ∀ k', (((bk.setAttr k none).setPend k none).setAdj k none).attr k'
            = withdrawn (outOf k) held (nlri ++ [k.2]) k' := by
          intro k'
          simp only [Book.setAdj_attr, Book.setPend_attr, Book.setAttr_attr, withdrawn,
            List.mem_append, List.mem_singleton]
          by_cases own : k' = k
          · subst own
            rw [update_self, if_pos ⟨rfl, .inr rfl⟩]
          · have apart : ¬ (k'.1 = (outOf k).peer ∧ k'.2 = k.2) := fun also =>
              own (Prod.ext also.1 also.2)
            rw [update_of_ne own, heard k', withdrawn]
            refine if_congr ?_ rfl rfl
            exact and_congr_right fun peer => (or_iff_left fun node => apart ⟨peer, node⟩).symm
        have ran : withdrawLoop (outOf k) (fuel + 1) s endp nlri
            = if (outOf k).family.packs then withdrawLoop (outOf k) fuel s₁
                (withdrawnEndp (outOf k).family.packs endp k.2) (nlri ++ [k.2])
              else some (withdrawnEndp (outOf k).family.packs endp k.2, nlri ++ [k.2], s₁) := by
          rw [withdrawLoop.eq_def]
          simp [queue, cell, full, inStream, inside, removed]
        by_cases packs : (outOf k).family.packs
        · have shorter : (s₁.withdraw (outOf k)).length ≤ fuel := by
            rw [gone]
            dsimp only
            rw [queue, List.erase_cons_head]
            rw [queue, List.length_cons] at enough
            exact Nat.le_of_succ_le_succ enough
          obtain ⟨endp', nlri', s', bk', looped, serves', heard', ends', begun', obuf'⟩ :=
            ih serves₁
            heard₁ (fun other => absurd packs (Bool.not_eq_true _ ▸ other)) ends₁
            (fun nothing => absurd nothing begun₁) shorter
          exact ⟨endp', nlri', s', bk', (ran.trans (if_pos packs)).trans looped, serves', heard',
            ends', begun', obuf'.trans obuf₁⟩
        · exact ⟨_, _, s₁, _, ran.trans (if_neg packs), serves₁, heard₁, ends₁,
            fun nothing => absurd nothing begun₁, obuf₁⟩

/-- `bgp_withdraw_packet`. -/
theorem Inv.withdrawPacket (inv : Inv view asked s) (out : Out) :
    ∃ s', s.bgpWithdrawPacket out = some s' ∧ Inv view asked s' := by
  obtain ⟨bk, serves, heard⟩ := inv
  have before : ∀ k, bk.attr k = withdrawn out s.held [] k := fun k =>
    (heard k).trans (if_neg fun also => List.not_mem_nil also.2).symm
  have room : Ends out.family.packs 0 := by
    unfold Ends
    split <;> decide
  obtain ⟨endp, nlri, s', bk', looped, serves', heard', ends, begun, obuf⟩ :=
    withdrawLoop_serves s.held (s.withdraw out).length serves before (fun _ => rfl) room
      (fun _ => rfl) (Nat.le_refl _)
  by_cases empty : endp = 0
  · refine ⟨s', ?_, bk', serves', fun k => (heard' k).trans ?_⟩
    · simp [State.bgpWithdrawPacket, looped, empty]
    · rw [begun empty]
      unfold State.held
      rw [obuf]
      exact if_neg fun also => List.not_mem_nil also.2
  · refine ⟨{ s' with
        obuf := Function.update s'.obuf out.peer (s'.obuf out.peer ++ [.withdraw nlri]) }, ?_, bk',
      ⟨?_, serves'.owed⟩, fun k => (heard' k).trans ?_⟩
    · simp only [State.bgpWithdrawPacket, looped, Option.bind_eq_bind, Option.bind_some, empty,
        if_false]
      exact if_pos ends
    · exact ⟨serves'.keeps.entries.congr rfl rfl (Nat.le_refl _),
        serves'.keeps.queues.congr rfl rfl rfl (Nat.le_refl _) rfl fun _ _ => rfl,
        serves'.keeps.groups.congr rfl rfl (Nat.le_refl _) rfl, serves'.keeps.counts.congr rfl rfl⟩
    · unfold State.held
      rw [withdrawn, obuf]
      dsimp only
      by_cases peer : k.1 = out.peer
      · rw [peer, update_self, told_append, hear]
        exact if_congr (and_iff_right rfl) rfl rfl
      · rw [update_of_ne peer]
        exact if_neg fun also => peer also.1

/-! ## What holds in every state -/

/-- The entries with attributes are the places of the book with attributes. -/
theorem Keeps.counted (keeps : Keeps s bk) (out : Out) : ∃ entries : Finset (Node × Nat),
    (∀ entry, entry ∈ entries ↔ s.Counted out entry) ∧ s.scount out = entries.card := by
  obtain ⟨slots, mem, count⟩ := keeps.counts out
  have entryAt : ∀ k ∈ slots, ∃ i, bk.adj k = some i := by
    intro k inside
    cases entry : bk.adj k with
    | some i => exact ⟨i, rfl⟩
    | none =>
      have sent := ((mem k).mp inside).2
      rw [keeps.entries.sent k entry] at sent
      cases sent
  refine ⟨slots.image fun k => (k.2, (bk.adj k).getD 0), fun entry => ?_, ?_⟩
  · rw [Finset.mem_image]
    constructor
    · rintro ⟨k, inside, rfl⟩
      obtain ⟨i, entry⟩ := entryAt k inside
      obtain ⟨rfl, sent⟩ := (mem k).mp inside
      rw [entry, Option.getD_some]
      exact ⟨rfl, (keeps.entries.rosters k.2).listed entry rfl, _,
        keeps.entries.cell k i entry, rfl, sent⟩
    · obtain ⟨rn, i⟩ := entry
      rintro ⟨family, listed, adj, cell, peer, sent⟩
      obtain ⟨k, j, entry, rfl, rfl⟩ := ((keeps.entries.rosters rn).mem i).mp listed
      dsimp only [id] at cell family
      rw [keeps.entries.cell k j entry] at cell
      cases cell
      refine ⟨k, (mem k).mpr ⟨?_, sent⟩, ?_⟩
      · obtain ⟨outPeer, outFamily⟩ := out
        exact congrArg₂ Out.mk peer family
      · rw [entry]
        rfl
  · rw [count, Finset.card_image_of_injOn]
    intro k inside k' inside' same
    obtain ⟨i, entry⟩ := entryAt k inside
    obtain ⟨i', entry'⟩ := entryAt k' inside'
    have address : i = i' := by
      have second := congrArg Prod.snd same
      dsimp only at second
      rw [entry, entry'] at second
      exact second
    exact keeps.entries.distinct entry entry' address

/-- What is pending is once in the queue of its kind, and in no other. -/
theorem Keeps.queuedOnce (keeps : Keeps s bk) {pd : Pending} (here : bk.pend k = some pd)
    (out : Out) : (s.update out).count pd.adv + (s.withdraw out).count pd.adv
      = if out = outOf k then 1 else 0 := by
  have alone : ∀ k' pd', bk.pend k' = some pd' → pd'.adv = pd.adv → k' = k ∧ pd' = pd := by
    intro k' pd' there same
    obtain rfl := keeps.queues.distinct there here same
    rw [here] at there
    exact ⟨rfl, (Option.some.inj there).symm⟩
  have updates : pd.adv ∈ s.update out ↔ out = outOf k ∧ pd.group.isSome := by
    rw [(keeps.queues.update out).mem]
    constructor
    · rintro ⟨k', pd', there, ⟨of, grouped⟩, same⟩
      obtain ⟨rfl, rfl⟩ := alone k' pd' there same
      exact ⟨of.symm, grouped⟩
    · rintro ⟨rfl, grouped⟩
      exact ⟨k, pd, here, ⟨rfl, grouped⟩, rfl⟩
  have withdraws : pd.adv ∈ s.withdraw out ↔ out = outOf k ∧ pd.group = none := by
    rw [(keeps.queues.withdraw out).mem]
    constructor
    · rintro ⟨k', pd', there, ⟨of, ungrouped⟩, same⟩
      obtain ⟨rfl, rfl⟩ := alone k' pd' there same
      exact ⟨of.symm, ungrouped⟩
    · rintro ⟨rfl, ungrouped⟩
      exact ⟨k, pd, here, ⟨rfl, ungrouped⟩, rfl⟩
  rw [(keeps.queues.update out).nodup.count, (keeps.queues.withdraw out).nodup.count]
  simp only [updates, withdraws]
  by_cases of : out = outOf k <;> cases pd.group <;> simp [of]

theorem Keeps.booked (keeps : Keeps s bk) : s.Booked where
  counted := keeps.counted
  once rn := (keeps.entries.rosters rn).nodup
  one rn i inside j inside' adj adj' cell cell' same := by
    obtain ⟨k, _, entry, rfl, rfl⟩ := ((keeps.entries.rosters rn).mem i).mp inside
    obtain ⟨k', _, entry', node, rfl⟩ := ((keeps.entries.rosters _).mem j).mp inside'
    dsimp only [id] at cell cell' ⊢
    rw [keeps.entries.cell k _ entry] at cell
    rw [keeps.entries.cell k' _ entry'] at cell'
    cases cell
    cases cell'
    obtain rfl : k = k' := Prod.ext same node.symm
    rw [entry] at entry'
    exact Option.some.inj entry'
  pending rn i inside adj cell adv pointed out := by
    obtain ⟨k, _, entry, rfl, rfl⟩ := ((keeps.entries.rosters rn).mem i).mp inside
    dsimp only [id] at cell
    rw [keeps.entries.cell k _ entry] at cell
    cases cell
    obtain ⟨pd, here, rfl⟩ := Option.map_eq_some_iff.mp pointed
    exact keeps.queuedOnce here out
  queued out adv inside := by
    have listed : ∃ k pd, bk.pend k = some pd ∧ outOf k = out ∧ pd.adv = adv := by
      rcases List.mem_append.mp inside with member | member
      · obtain ⟨k, pd, here, ⟨of, -⟩, same⟩ := ((keeps.queues.update out).mem adv).mp member
        exact ⟨k, pd, here, of, same⟩
      · obtain ⟨k, pd, here, ⟨of, -⟩, same⟩ := ((keeps.queues.withdraw out).mem adv).mp member
        exact ⟨k, pd, here, of, same⟩
    obtain ⟨k, pd, here, rfl, rfl⟩ := listed
    obtain ⟨i, entry, cell⟩ := keeps.queues.cell k pd here
    refine ⟨_, _, cell, (keeps.entries.rosters k.2).listed entry rfl,
      keeps.entries.cell k i entry, ?_, rfl⟩
    rw [here]
    rfl

theorem Inv.delivered (inv : Inv view asked s) : s.Delivered view asked := by
  obtain ⟨bk, serves, heard⟩ := inv
  intro peer rn updated withdrawn
  have owed := serves.owed (peer, rn)
  rw [heard] at owed
  cases here : bk.pend (peer, rn) with
  | none =>
    rw [here] at owed
    exact owed
  | some pd =>
    cases group : pd.group with
    | none =>
      have listed := (serves.keeps.queues.withdraw _).listed here ⟨rfl, group⟩
      rw [outOf, withdrawn] at listed
      cases listed
    | some both =>
      have listed := (serves.keeps.queues.update _).listed here ⟨rfl, by rw [group]; rfl⟩
      rw [outOf, updated] at listed
      cases listed

end Steps

/-! ## Runs -/

/-- An operation takes what is asked for and what a neighbour holds for the same, as far as
the view goes. -/
def Seen (view : Attr → Attr) (s : State) : Action → Prop
  | .set _ _ attr _ elsewhere => ∀ chosen, Rib.attrhashCmp chosen attr →
      chosen = attr ∨ chosen ∈ s.attrhash elsewhere → view chosen = view attr
  | _ => True

section Runs

variable {attributeLength : Nat → Attr → Node → Option Binfo → Nat}
variable {view : Attr → Attr} {s : State}

/-- One operation is carried out, and keeps the invariant. -/
theorem step_inv (fits : ∀ peer, Fits (attributeLength peer)) {asked : Slot → Option Attr}
    (inv : Inv view asked s)
    (action : Action) (seen : Seen view s action) :
    ∃ s', step attributeLength s action = some s' ∧ Inv view (ask asked action) s' := by
  cases action with
  | set rn peer attr binfo elsewhere => exact inv.set (peer, rn) attr binfo elsewhere seen
  | unset rn peer => exact inv.unset (peer, rn)
  | updatePacket out => exact inv.updatePacket (fits out.peer) out
  | withdrawPacket out => exact inv.withdrawPacket out

/-- One step of a run, which ends where a pointer is followed to what was freed, or where a
stream is written past its end. -/
def advance (attributeLength : Nat → Attr → Node → Option Binfo → Nat) (s : Option State)
    (action : Action) : Option State :=
  s.bind fun s => step attributeLength s action

/-- A condition on the state of a step of a run. -/
def InState (holds : State → Action → Prop) (s : Option State) (action : Action) : Prop :=
  ∀ state, s = some state → holds state action

/-- What a run reaches. -/
theorem run_inv (fits : ∀ peer, Fits (attributeLength peer)) (actions : List Action)
    {earlier : List Action}
    (inv : Inv view (asked earlier) s)
    (seen : Runs.Guarded (advance attributeLength) (InState (Seen view)) (some s) actions) :
    ∃ s', Runs.run (advance attributeLength) (some s) actions = some s'
      ∧ Inv view (asked (earlier ++ actions)) s' := by
  induction actions generalizing earlier s with
  | nil =>
    rw [List.append_nil]
    exact ⟨s, rfl, inv⟩
  | cons action rest ih =>
    obtain ⟨s₁, ran, inv₁⟩ := step_inv fits inv action (seen.1 s rfl)
    have next : advance attributeLength (some s) action = some s₁ := ran
    have inv₁ : Inv view (asked (earlier ++ [action])) s₁ := by
      rw [asked, List.foldl_append]
      exact inv₁
    have seen₁ := seen.2
    rw [next] at seen₁
    obtain ⟨s', reached, inv'⟩ := ih inv₁ seen₁
    rw [Runs.run_cons, next]
    refine ⟨s', reached, ?_⟩
    rw [List.append_assoc] at inv'
    exact inv'

/-- The rule for every state of a run. -/
theorem everywhere (fits : ∀ peer, Fits (attributeLength peer)) {actions : List Action}
    (seen : Runs.Guarded (advance attributeLength) (InState (Seen view)) (some .start) actions)
    {front later : List Action} (cut : actions = front ++ later) :
    ∃ s, Runs.run (advance attributeLength) (some .start) front = some s ∧ s.Booked
      ∧ s.Delivered view (asked front) := by
  rw [cut] at seen
  have initially : Inv view (asked []) .start := inv_start view
  obtain ⟨s, reached, inv⟩ := run_inv fits front initially
    ((Runs.guarded_append _ _ _ front later).mp seen).1
  obtain ⟨bk, serves, heard⟩ := inv
  exact ⟨s, reached, serves.keeps.booked, Inv.delivered ⟨bk, serves, heard⟩⟩

/-- No attribute set in `attrhash` differs from the one that is announced in the
originator alone. -/
def Unmistaken (s : State) : Action → Prop
  | .set _ _ attr _ elsewhere => ∀ other ∈ s.attrhash elsewhere, ¬ OriginatorAlone other attr
  | _ => True

theorem Unmistaken.seen {action : Action} (unmistaken : Unmistaken s action) :
    Seen id s action := by
  cases action with
  | set rn peer attr binfo elsewhere =>
    rintro chosen equal (rfl | among)
    · rfl
    · by_contra differ
      exact unmistaken chosen among ⟨differ, (ribAttrhashCmp_iff chosen attr).mp equal⟩
  | _ => trivial

/-- In every run in which no announcement comes while a set that differs from its own in the
originator alone is interned, every state has its entries, queues and counts in order, and
where the queues of a neighbour and a family are empty, it was told what was asked for. -/
theorem advertised_consistently (attributeLength : Nat → Attr → Node → Option Binfo → Nat)
    (fits : ∀ peer, Fits (attributeLength peer)) (actions : List Action)
    (unmistaken : Runs.Guarded (advance attributeLength) (InState Unmistaken) (some .start)
      actions) :
    ∀ front later, actions = front ++ later →
      ∃ s, Runs.run (advance attributeLength) (some .start) front = some s ∧ s.Booked
        ∧ s.Delivered id (asked front) := by
  intro front later cut
  have seen : ∀ s actions, Runs.Guarded (advance attributeLength) (InState Unmistaken) s actions →
      Runs.Guarded (advance attributeLength) (InState (Seen id)) s actions := by
    intro s actions
    induction actions generalizing s with
    | nil => exact fun _ => trivial
    | cons action rest ih =>
      exact fun guarded => ⟨fun state here => (guarded.1 state here).seen, ih _ guarded.2⟩
  exact everywhere fits (seen _ _ unmistaken) cut

end Runs

/-! ## A run in which an originator is lost -/

/-- The attributes of a reflected route. -/
def reflected (originator : Octets.U32) : Attr :=
  ((bgpAttrDefaultSet 0).mark .originatorId).withExtra fun extra =>
    { extra with originatorId := originator }

/-- One half of all addresses. -/
def half (upper : Bool) : Node := ⟨⟨.ip, .unicast⟩, none, ⟨.ip, [upper], Nat.le_add_left 1 31⟩⟩

/-- The first neighbour, for these. -/
def firstOut : Out := ⟨1, ⟨.ip, .unicast⟩⟩

/-- Both halves are announced to the first neighbour, with the attributes of routes that came
from the second and the third one. -/
def bothHalves (originator originator' : Octets.U32) : List Action :=
  [.set (half false) 1 (reflected originator) ⟨2, none⟩ [],
    .set (half true) 1 (reflected originator') ⟨3, none⟩ [], .updatePacket firstOut]

/-- Attributes of forty octets. -/
def fortyOctets (_ : Nat) (_ : Attr) (_ : Node) (_ : Option Binfo) : Nat := 40

theorem fortyOctets_fits (peer : Nat) : Fits (fortyOctets peer) := by
  intro attr rn binfo
  have small := rn.psize_le
  simp only [bgpHeaderSize, bgpUnfeasibleLen, bgpTotalAttrLen, fortyOctets, bgpNlriLength,
    bgpMaxPacketSize]
  omega

/-- Routes of one originator are announced together, and one of them is withdrawn. -/
def oneWithdrawn : List Action :=
  bothHalves 0x01010101 0x01010101 ++ [.unset (half true) 1, .withdrawPacket firstOut]

theorem advertised_consistently_halves :
    ∃ s, Runs.run (advance fortyOctets) (some .start) oneWithdrawn = some s
      ∧ s.Booked ∧ s.Delivered id (asked oneWithdrawn) := by
  refine advertised_consistently fortyOctets fortyOctets_fits oneWithdrawn ?_
    oneWithdrawn [] (List.append_nil _).symm
  refine ⟨fun state start => ?_, fun state reached => ?_, fun _ _ => trivial, fun _ _ => trivial,
    fun _ _ => trivial, trivial⟩
  · cases start
    exact fun other nobody => nomatch nobody
  · have interned : (some state).map (·.attrhash []) = some [reflected 0x01010101] := by
      rw [← reached]
      decide
    have one : state.attrhash [] = [reflected 0x01010101] := Option.some.inj interned
    intro other among
    rw [one, List.mem_singleton] at among
    exact fun alone => alone.1 among

/-- The second half is announced with the originator of the first one. -/
theorem originator_lost : (∀ peer, Fits (fortyOctets peer)) ∧
    ∃ s, Runs.run (advance fortyOctets) (some .start) (bothHalves 0x01010101 0x02020202) = some s
      ∧ s.update firstOut = [] ∧ s.withdraw firstOut = []
      ∧ told (s.obuf 1) (half true) = some (reflected 0x01010101)
      ∧ ¬ s.Delivered id (asked (bothHalves 0x01010101 0x02020202)) := by
  refine ⟨fortyOctets_fits, ?_⟩
  have reached : (Runs.run (advance fortyOctets) (some .start)
      (bothHalves 0x01010101 0x02020202)).map
        (fun s => (s.update firstOut, s.withdraw firstOut, told (s.obuf 1) (half true)))
      = some ([], [], some (reflected 0x01010101)) := by decide
  obtain ⟨s, run, found⟩ := Option.map_eq_some_iff.mp reached
  obtain ⟨updated, rest⟩ := Prod.mk.inj found
  obtain ⟨withdrawn, heard⟩ := Prod.mk.inj rest
  refine ⟨s, run, updated, withdrawn, heard, fun delivered => ?_⟩
  have equal := delivered 1 (half true) updated withdrawn
  rw [heard] at equal
  exact absurd equal (by decide)

end Bgpd.AdjOut
