import Bgpd.UpdateReceive

/-!
# Treating a message as a withdrawal

A malformed attribute that other speakers may have passed on is no reason to reset
the session: `bgp_attr_parse` returns at once, and the routes of the message are
withdrawn. The only attribute that this happens to is AS4_PATH. Its reader gives up
in the middle of the path, and never in front of its last octet. So the read pointer
stands inside the attributes, and `bgp_update_receive`, which takes everything behind
it for the routes of the body, starts with octets of the attributes.
-/

namespace Bgpd.TreatAsWithdraw

open Octets AsPath Attributes Neighbors AttrParse AttrSection LearnedMetric UpdateReceive

/-! ## Giving up in the middle of a path -/

theorem assegmentsUnread_suffix (use32bit : Bool) (fuel : Nat) (octets : List U8) :
    assegmentsUnread use32bit fuel octets <:+ octets := by
  induction fuel generalizing octets with
  | zero => exact List.suffix_refl octets
  | succ fuel ih =>
    match octets with
    | [] => exact List.suffix_refl _
    | [_] => exact List.suffix_refl _
    | code :: length :: data =>
      have behind : data <:+ code :: length :: data := ⟨[code, length], rfl⟩
      unfold assegmentsUnread
      split
      · exact List.suffix_refl _
      · split
        · exact behind
        · split
          · exact behind
          · exact ((ih _).trans (List.drop_suffix _ _)).trans behind

/-- A loop that gives up has octets left. -/
theorem assegmentsUnread_left (use32bit : Bool) (fuel : Nat) (octets : List U8)
    (failed : assegmentsLoop use32bit fuel octets = none) :
    assegmentsUnread use32bit fuel octets ≠ [] := by
  induction fuel generalizing octets with
  | zero =>
    match octets with
    | [] => cases failed
    | _ :: _ => exact List.cons_ne_nil _ _
  | succ fuel ih =>
    match octets with
    | [] => cases failed
    | [_] => exact List.cons_ne_nil _ _
    | code :: length :: data =>
      unfold assegmentsLoop at failed
      unfold assegmentsUnread
      split
      · exact List.cons_ne_nil _ _
      · rename_i more
        have some_octets : data ≠ [] := by
          rintro rfl
          exact more (Nat.le_refl 2)
        rw [if_neg more] at failed
        split
        · exact some_octets
        · rename_i whole
          rw [if_neg whole] at failed
          split
          · exact some_octets
          · rename_i known
            obtain ⟨type, known⟩ := Option.ne_none_iff_exists'.mp
              (fun missing => known (Option.isNone_iff_eq_none.mpr missing))
            rw [known] at failed
            refine ih _ ?_
            dsimp only at failed
            split at failed
            · assumption
            · cases failed

theorem aspathUnread_suffix (body : List U8) (use32bit : Bool) :
    aspathUnread body use32bit <:+ body := by
  unfold aspathUnread
  split
  · exact List.suffix_refl body
  · exact assegmentsUnread_suffix ..

theorem aspathUnread_left {body : List U8} {use32bit : Bool}
    (failed : aspathParse body use32bit = none) : aspathUnread body use32bit ≠ [] := by
  unfold aspathParse at failed
  unfold aspathUnread
  split
  · rename_i odd
    rintro rfl
    exact odd rfl
  · rename_i even
    rw [if_neg even, Option.map_eq_none_iff] at failed
    exact assegmentsUnread_left _ _ _ failed

/-! ## The attribute that asks for it -/

section Verdict

variable (bgp : Bgp) (peer : Peer) (cap : PeerCap)

theorem malformed_reset {type : AttrType} (other : type ≠ .as4Path) (flag subcode : U8)
    (data : List U8) (st : ParseState) (fetched : Nat) :
    ¬ (malformed bgp peer type flag subcode data st fetched).ret = .withdraw := by
  intro withdrawn
  dsimp only [malformed, bgpAttrMalformed] at withdrawn
  rw [AttrType.ofCode_code] at withdrawn
  split at withdrawn
  · cases withdrawn
  · cases type <;> first | exact other rfl | cases withdrawn

theorem bgpAttrUnknown_reset (tlv : Tlv) (st : ParseState)
    (unknown : AttrType.ofCode tlv.type = none) :
    ¬ (bgpAttrUnknown bgp peer tlv st).ret = .withdraw := by
  intro withdrawn
  unfold bgpAttrUnknown at withdrawn
  split at withdrawn
  · rename_i wellKnown
    have required : FlagWord.check tlv.flag attrFlagOptional = false := by simpa using wellKnown
    dsimp only [bgpAttrMalformed] at withdrawn
    rw [unknown, required, Bool.and_false, Bool.false_and] at withdrawn
    split at withdrawn <;> cases withdrawn
  · split at withdrawn <;> cases withdrawn

variable {st : ParseState}

/-- Only a malformed AS4_PATH is treated as a withdrawal. -/
theorem bgpAttrHandle_withdraw {tlv : Tlv}
    (withdrawn : (bgpAttrHandle bgp peer cap tlv st).ret = .withdraw) :
    tlv.type = AttrType.as4Path.code ∧ aspathParse tlv.body true = none := by
  unfold bgpAttrHandle at withdrawn
  cases named : AttrType.ofCode tlv.type with
  | none =>
    rw [named] at withdrawn
    exact absurd withdrawn (bgpAttrUnknown_reset bgp peer tlv st named)
  | some type =>
    rw [named] at withdrawn
    cases type with
    | as4Path =>
      refine ⟨AttrType.ofCode_eq named, ?_⟩
      dsimp only [bgpAttrAs4Path] at withdrawn
      split at withdrawn
      · exact absurd withdrawn (malformed_reset bgp peer (by decide) _ _ _ _ _)
      · split at withdrawn
        · rename_i failed
          exact Option.isNone_iff_eq_none.mp failed
        · cases withdrawn
    | mpReachNlri =>
      refine absurd withdrawn ?_
      dsimp only [bgpMpReachParse]
      split
      · nofun
      · split
        · nofun
        · split
          · nofun
          · split
            · nofun
            · split
              · nofun
              · split <;> nofun
    | mpUnreachNlri =>
      refine absurd withdrawn ?_
      dsimp only [bgpMpUnreachParse]
      split
      · nofun
      · split <;> nofun
    | _ =>
      -- what the other handlers do is give up with a reset, or go on
      dsimp only [bgpAttrOrigin, bgpAttrAspath, bgpAttrNexthop, bgpAttrMed, bgpAttrLocalPref,
        bgpAttrAtomic, bgpAttrAggregator, bgpAttrAs4Aggregator, bgpAttrCommunity,
        bgpAttrOriginatorId, bgpAttrClusterList, bgpAttrExtCommunities] at withdrawn
      split_ifs at withdrawn <;> first
        | exact absurd withdrawn (malformed_reset bgp peer (by decide) _ _ _ _ _)
        | cases withdrawn

variable {octets : List U8}
variable {rest : List U8}

theorem bgpAttrHeader_suffix {flag type : U8} {length : Nat}
    (read : bgpAttrHeader octets = some (flag, type, length, rest)) : rest <:+ octets := by
  unfold bgpAttrHeader at read
  split at read
  · split at read
    · split at read
      · cases read
        exact ⟨[_, _, _, _], rfl⟩
      · cases read
    · cases read
      exact ⟨[_, _, _], rfl⟩
  · cases read

variable {next : ParseState}

/-- A turn that goes on is behind its attribute. -/
theorem bgpAttrStep_suffix (advanced : bgpAttrStep bgp peer cap octets st = (next, .inr rest)) :
    rest <:+ octets := by
  unfold bgpAttrStep at advanced
  split at advanced
  · cases advanced
  · rename_i read
    split at advanced
    · cases advanced
    · dsimp only at advanced
      split at advanced
      · cases advanced
      · split at advanced
        · cases advanced
        · cases advanced
          exact (List.drop_suffix _ _).trans (bgpAttrHeader_suffix read)

/-- A turn that ends the walk to withdraw is at a malformed AS4_PATH. -/
theorem bgpAttrStep_withdraw
    (withdrawn : bgpAttrStep bgp peer cap octets st = (next, .inl .withdraw)) :
    ∃ flag length rest,
      bgpAttrHeader octets = some (flag, AttrType.as4Path.code, length, rest) ∧
        aspathParse (rest.take length) true = none := by
  unfold bgpAttrStep at withdrawn
  split at withdrawn
  · cases withdrawn
  · rename_i flag type length rest read
    split at withdrawn
    · cases withdrawn
    · dsimp only at withdrawn
      split at withdrawn
      · cases withdrawn
      · split at withdrawn
        · rename_i ret handled
          cases withdrawn
          unfold bgpAttrRead at handled
          dsimp only at handled
          split at handled
          · cases handled
          · rename_i asked
            obtain ⟨rfl, failed⟩ := bgpAttrHandle_withdraw bgp peer cap asked
            exact ⟨flag, length, rest, read, failed⟩
          · split at handled <;> cases handled
        · cases withdrawn

/-- The pointer stands inside the section when the walk ends to withdraw. -/
theorem attrUnread_spec (fuel : Nat) (octets : List U8) (st final : ParseState)
    (withdrawn : bgpAttrLoop bgp peer cap fuel octets st = (final, .withdraw)) :
    attrUnread bgp peer cap fuel octets st ≠ [] ∧
      attrUnread bgp peer cap fuel octets st <:+ octets := by
  induction fuel generalizing octets st with
  | zero => cases octets <;> cases withdrawn
  | succ fuel ih =>
    match octets with
    | [] => cases withdrawn
    | octet :: more =>
      unfold bgpAttrLoop at withdrawn
      unfold attrUnread
      cases turn : bgpAttrStep bgp peer cap (octet :: more) st with
      | mk next outcome =>
        rw [turn] at withdrawn
        cases outcome with
        | inr rest =>
          obtain ⟨left, inside⟩ := ih rest next withdrawn
          exact ⟨left, inside.trans (bgpAttrStep_suffix bgp peer cap turn)⟩
        | inl ret =>
          obtain ⟨rfl, rfl⟩ := Prod.mk.inj withdrawn
          obtain ⟨flag, length, rest, read, failed⟩ := bgpAttrStep_withdraw bgp peer cap turn
          rw [read]
          dsimp only
          rw [if_pos rfl]
          refine ⟨List.append_ne_nil_of_left_ne_nil (aspathUnread_left failed) _, ?_⟩
          have whole : aspathUnread (rest.take length) true ++ rest.drop length <:+ rest := by
            obtain ⟨front, split⟩ := aspathUnread_suffix (rest.take length) true
            exact ⟨front, by rw [← List.append_assoc, split, List.take_append_drop]⟩
          exact whole.trans (bgpAttrHeader_suffix read)

/-- A parse that ends to withdraw ends in the walk. -/
theorem bgpAttrParse_withdraw {localMed : U32} {final : ParseState}
    (withdrawn : bgpAttrParse bgp peer cap localMed octets = (final, .withdraw)) :
    bgpAttrLoop bgp peer cap octets.length octets (.start localMed) = (final, .withdraw) := by
  unfold bgpAttrParse at withdrawn
  split at withdrawn
  · cases withdrawn
  · rename_i walked
    cases withdrawn
    exact walked
  · split at withdrawn
    · cases withdrawn
    · cases withdrawn
    · split at withdrawn
      · refine absurd withdrawn ?_
        unfold bgpAttrAspathCheck bgpAttrMalformed
        dsimp only
        rw [AttrType.ofCode_code]
        split_ifs <;> nofun
      · cases withdrawn

end Verdict

/-! ## The routes of the body -/

section Message

variable (bgp : Bgp) (peer : Peer) (cap : PeerCap) (localMed : U32) (message : List U8)

/-- What treating a message as a withdrawal comes to: its routes are the octets behind
the attributes, they are withdrawn, and nothing is reported. -/
structure Delimits (parts : UpdateParts) : Prop where
  block : updateNlri bgp peer cap localMed parts .withdraw = parts.nlri
  withdrawn : peer.afc .ip .unicast = true → parts.nlri ≠ [] →
    .nlri none .ip .unicast (bgpNlriParse .ip .unicast parts.nlri) ∈
      (bgpUpdateReceive bgp peer cap localMed message).calls
  quiet : (bgpUpdateReceive bgp peer cap localMed message).notifications = []

variable {bgp peer cap localMed message}

/-- A message that asks for a withdrawal is refused, or everything behind the read
pointer is withdrawn. -/
theorem withdraw_received {parts : UpdateParts} {st : ParseState}
    (split : updateParts message = .ok parts)
    (asked : bgpAttrParse bgp peer cap localMed parts.attributes = (st, .withdraw)) :
    let received := bgpUpdateReceive bgp peer cap localMed message
    let block := updateNlri bgp peer cap localMed parts .withdraw
    received.ok = false ∧ received.notifications ≠ [] ∨
      (peer.afc .ip .unicast = true → block ≠ [] →
        .nlri none .ip .unicast (bgpNlriParse .ip .unicast block) ∈ received.calls) := by
  intro received block
  have filled : parts.attributes ≠ [] := by
    intro none
    obtain ⟨left, inside⟩ := attrUnread_spec bgp peer cap _ _ _ _
      (bgpAttrParse_withdraw bgp peer cap asked)
    rw [none] at inside left
    exact left (List.suffix_nil.mp inside)
  have whole : received =
      if bgpNlriSanityCheck 1 block = false then
        ⟨false, st.localMed, [], st.notifications ++ [⟨notifyUpdateInvalNetwork, []⟩]⟩
      else
        let result := updateCalls peer { parts with nlri := block } st true
        ⟨result.1, st.localMed, result.2,
          st.notifications ++ missingNotification peer { parts with nlri := block } st.attr⟩ := by
    simp only [received, bgpUpdateReceive, split, if_neg filled, asked]
    rfl
  by_cases sane : bgpNlriSanityCheck 1 block = false
  · rw [if_pos sane] at whole
    left
    rw [whole]
    exact ⟨rfl, List.append_ne_nil_of_right_ne_nil _ (List.cons_ne_nil _ _)⟩
  · rw [if_neg sane] at whole
    by_cases missing : peer.afc .ip .unicast = true ∧ block ≠ [] ∧
        (bgpAttrCheck st.attr).isSome = true
    · obtain ⟨family, some_octets, missing⟩ := missing
      obtain ⟨type, absent⟩ := Option.isSome_iff_exists.mp missing
      left
      rw [whole]
      simp [updateCalls, missingNotification, family, some_octets, absent]
    · right
      intro family some_octets
      have present : bgpAttrCheck st.attr = none := by
        by_contra absent
        exact missing ⟨family, some_octets, Option.isSome_iff_ne_none.mpr absent⟩
      rw [whole]
      simp [updateCalls, family, some_octets, present]

/-- Whenever the attributes ask for a withdrawal, the routes are taken to begin with
the last octets of the attributes. The message is refused for them, or what they spell
is withdrawn. -/
theorem withdraw_misreads {parts : UpdateParts} {st : ParseState}
    (split : updateParts message = .ok parts)
    (asked : bgpAttrParse bgp peer cap localMed parts.attributes = (st, .withdraw)) :
    let received := bgpUpdateReceive bgp peer cap localMed message
    (∃ unread, unread ≠ [] ∧ unread <:+ parts.attributes ∧
      (received.ok = false ∧ received.notifications ≠ [] ∨
        (peer.afc .ip .unicast = true →
          .nlri none .ip .unicast (bgpNlriParse .ip .unicast (unread ++ parts.nlri)) ∈
            received.calls))) ∧
      ¬ Delimits bgp peer cap localMed message parts := by
  intro received
  obtain ⟨left, inside⟩ := attrUnread_spec bgp peer cap _ _ _ _
    (bgpAttrParse_withdraw bgp peer cap asked)
  have block : updateNlri bgp peer cap localMed parts .withdraw =
      attrUnread bgp peer cap parts.attributes.length parts.attributes (.start localMed)
        ++ parts.nlri := if_pos rfl
  refine ⟨⟨_, left, inside, ?_⟩, fun delimits => left ?_⟩
  · rw [← block]
    have some_octets : updateNlri bgp peer cap localMed parts .withdraw ≠ [] := by
      rw [block]
      exact List.append_ne_nil_of_left_ne_nil left _
    exact (withdraw_received split asked).imp_right fun handed family => handed family some_octets
  · exact List.append_left_eq_self.mp (block.symm.trans delimits.block)

end Message

/-- A complete route to 11.0.0.0/8, whose AS4_PATH came through other speakers and is
cut off behind two octets. -/
def cutOff : UpdateParts where
  withdrawn := []
  attributes := encodeAll (fiveAttributes 0x0A000001 10 100 ++ [⟨0xE0, 17, 2, [8, 10]⟩])
  nlri := [8, 11]

/-- The parts as they are sent. -/
def cutOffMessage : List U8 :=
  putw 0 ++ putw cutOff.attributes.length ++ cutOff.attributes ++ cutOff.nlri

theorem cutOff_split : updateParts cutOffMessage = .ok cutOff := by
  decide +kernel

/-- The message of a neighbour in another AS asks for a withdrawal. -/
theorem withdraw_misreads_cutOff :
    let received := bgpUpdateReceive (.plain 65001 1) (.plain 1 65002 65001) {} 0 cutOffMessage
    (∃ unread, unread ≠ [] ∧ unread <:+ cutOff.attributes ∧
      (received.ok = false ∧ received.notifications ≠ [] ∨
        ((Peer.plain 1 65002 65001).afc .ip .unicast = true →
          .nlri none .ip .unicast (bgpNlriParse .ip .unicast (unread ++ cutOff.nlri)) ∈
            received.calls))) ∧
      ¬ Delimits (.plain 65001 1) (.plain 1 65002 65001) {} 0 cutOffMessage cutOff := by
  have asked : (bgpAttrParse (.plain 65001 1) (.plain 1 65002 65001) {} 0 cutOff.attributes).2 =
      .withdraw := by decide +kernel
  obtain ⟨st, ret, parsed⟩ : ∃ st ret, bgpAttrParse (.plain 65001 1) (.plain 1 65002 65001) {} 0
      cutOff.attributes = (st, ret) := ⟨_, _, rfl⟩
  rw [parsed] at asked
  cases asked
  exact withdraw_misreads cutOff_split parsed

/-- What the two octets spell, 10.0.0.0/8, is withdrawn along with the route. -/
theorem spelled_withdrawn :
    updateParts cutOffMessage = .ok cutOff ∧
      (bgpAttrParse (.plain 65001 1) (.plain 1 65002 65001) {} 0 cutOff.attributes).2 = .withdraw ∧
      bgpNlriParse .ip .unicast cutOff.nlri =
        [⟨⟨.ip, [false, false, false, false, true, false, true, true], by decide⟩, none, []⟩] ∧
      (bgpUpdateReceive (.plain 65001 1) (.plain 1 65002 65001) {} 0 cutOffMessage).calls =
        [.nlri none .ip .unicast
          [⟨⟨.ip, [false, false, false, false, true, false, true, false], by decide⟩, none, []⟩,
            ⟨⟨.ip, [false, false, false, false, true, false, true, true], by decide⟩, none,
              []⟩]] := by
  decide +kernel

end Bgpd.TreatAsWithdraw
