import Bgpd.TableInvariant

/-!
# Descents

The three loops over a table go down from the top along the bits of a prefix.
Every turn reaches a longer prefix, so the fuel they carry is enough, and they
stay on nodes of the heap. What they find is read off the trie: a node whose key
the bits begin with has been passed or is still ahead on the link the loop is at.
-/

namespace Bgpd.NodeTable

open PrefixBits BitTrie

variable {ι : Type} {t : BgpTable ι} {p : OctetPrefix}

/-- One bit further along a prefix. -/
theorem bits_snoc {n : OctetPrefix} (below : n.bits <+: p.bits)
    (shorter : n.prefixlen < p.prefixlen) :
    n.bits ++ [prefixBit p.octets n.prefixlen] <+: p.bits := by
  obtain ⟨rest, whole⟩ := below
  cases rest with
  | nil =>
    rw [List.append_nil] at whole
    have := congrArg List.length whole
    simp only [bits_length] at this
    omega
  | cons bit rest =>
    have grows : n.bits ++ [bit] <+: p.bits := ⟨rest, by rw [← whole]; simp⟩
    rw [link_bit grows]
    exact grows

theorem bits_eq_of_length {n : OctetPrefix} (below : n.bits <+: p.bits)
    (same : n.prefixlen = p.prefixlen) : n.bits = p.bits :=
  below.eq_of_length (by simpa using same)

/-- The test of the loops. -/
theorem covers_iff (n : OctetPrefix) :
    (n.prefixlen ≤ p.prefixlen ∧ prefixMatch n p = true) ↔ n.bits <+: p.bits := by
  rw [prefixMatch_iff]
  exact ⟨And.right, fun below => ⟨by simpa using below.length_le, below⟩⟩

/-- Octets of the prefix behind the last node passed. -/
def passedLength (t : BgpTable ι) (up : Option Ptr) : Nat :=
  match up.bind t.view.key with
  | none => 0
  | some key => key.length + 1

/-- The loops have fuel for the rest of the prefix. -/
def Fuelled (t : BgpTable ι) (p : OctetPrefix) (fuel : Nat) (up : Option Ptr) : Prop :=
  p.prefixlen + 2 ≤ fuel + passedLength t up

variable {n : BgpNode ι} {a : Ptr}

theorem passedLength_some (here : t.heap a = some n) :
    passedLength t (some a) = n.p.prefixlen + 1 := by
  simp [passedLength, view_key here]

variable {up : Option Ptr} {bit : Bool}

/-- A link from a node leads to a longer prefix. -/
theorem passedLength_lt (tidy : Tidy t) (link : t.view.child up bit = some a)
    (here : t.heap a = some n) : passedLength t up ≤ n.p.prefixlen := by
  cases up with
  | none => exact Nat.zero_le _
  | some b =>
    obtain ⟨kb, key⟩ := Option.ne_none_iff_exists'.mp (tidy.wf.link_parent link)
    obtain ⟨ka, key_a, grows⟩ := tidy.wf.link_grows link key
    cases key_a.symm.trans (view_key here)
    have := grows.length_le
    simp only [List.length_append, List.length_singleton, bits_length] at this
    simp only [passedLength, Option.bind_some, key]
    exact this

/-- A descent that has fuel for the rest and stands at a node goes on. -/
theorem Fuelled.turn (tidy : Tidy t) {fuel : Nat} (fuelled : Fuelled t p (fuel + 1) up)
    (link : t.view.child up bit = some a) (here : t.heap a = some n) :
    Fuelled t p fuel (some a) := by
  have := passedLength_lt tidy link here
  unfold Fuelled at *
  rw [passedLength_some here]
  omega

/-- A descent does not run out of fuel: behind the whole prefix there is no
link on its way. -/
theorem Fuelled.last (way : OnWay t.view p.bits up bit) : ¬Fuelled t p 0 up := by
  unfold Fuelled passedLength
  cases up with
  | none => simp
  | some b =>
    obtain ⟨kb, key, below, -⟩ := way b rfl
    have := below.length_le
    simp only [Option.bind_some, key, bits_length] at *
    omega

/-- A node that covers the prefix passes the descent on along the prefix. -/
theorem onWay_turn (here : t.heap a = some n) (below : n.p.bits <+: p.bits) :
    OnWay t.view p.bits (some a) (prefixBit p.octets n.p.prefixlen) := by
  rintro b ⟨⟩
  exact ⟨_, view_key here, below, fun shorter => bits_snoc below (by simpa using shorter)⟩

theorem onWay_top (bit : Bool) : OnWay t.view p.bits none bit := fun _ => nofun

variable {c : Ptr} {m : BgpNode ι}

/-- A link with nothing behind it, or with a node that does not cover the
prefix, has all nodes that cover the prefix before it. -/
theorem all_passed (tidy : Tidy t) (way : OnWay t.view p.bits up bit)
    (stops : ∀ a n, t.view.child up bit = some a → t.heap a = some n → ¬n.p.bits <+: p.bits)
    (there : t.heap c = some m) (below : m.p.bits <+: p.bits) :
    ∃ b kb, up = some b ∧ t.view.key b = some kb ∧ m.p.bits <+: kb := by
  rcases tidy.wf.passed_or_behind way (view_key there) below with passed | ⟨d, link, above⟩
  · exact passed
  · obtain ⟨k, known⟩ := Option.ne_none_iff_exists'.mp (tidy.wf.child_key link)
    obtain ⟨n, here, rfl⟩ := node_of_key known
    obtain ⟨km, key_c, ahead⟩ := tidy.wf.key_below above known
    cases key_c.symm.trans (view_key there)
    exact absurd (ahead.trans below) (stops d n link here)

/-! ## `bgp_node_lookup` -/

/-- The answer of a lookup: the node of the prefix, if it has contents. -/
def Found (t : BgpTable ι) (p : OctetPrefix) (answer : Option Ptr) : Prop :=
  ∀ a, answer = some a ↔ ∃ n, t.heap a = some n ∧ n.p.bits = p.bits ∧ n.info ≠ none

/-- No node passed is one the lookup is for. -/
def NotPassed (t : BgpTable ι) (p : OctetPrefix) (up : Option Ptr) : Prop :=
  ∀ b n, up = some b → t.heap b = some n → n.p.bits = p.bits → n.info = none

/-- Where a lookup stops without an answer there is none. -/
theorem found_none (tidy : Tidy t) (way : OnWay t.view p.bits up bit) (passed : NotPassed t p up)
    (stops : ∀ a n, t.view.child up bit = some a → t.heap a = some n → ¬n.p.bits <+: p.bits) :
    Found t p none := by
  intro a
  refine ⟨nofun, fun ⟨n, here, same, contents⟩ => ?_⟩
  obtain ⟨b, kb, rfl, key, earlier⟩ := all_passed tidy way stops here (same ▸ List.prefix_rfl)
  obtain ⟨kb', key', below, -⟩ := way b rfl
  cases key.symm.trans key'
  have whole : kb = p.bits := below.eq_of_length_le (by rw [← same]; exact earlier.length_le)
  have known : t.view.key b = some n.p.bits := by rw [key, whole, same]
  cases tidy.wf.key_unique (view_key here) known
  exact absurd (passed a n rfl here same) contents

variable {node : Option Ptr}

theorem lookupLoop_spec (tidy : Tidy t) (fuel : Nat) (link : t.view.child up bit = node)
    (way : OnWay t.view p.bits up bit) (fuelled : Fuelled t p fuel up) (passed : NotPassed t p up) :
    ∃ answer, lookupLoop t p fuel node = some answer ∧ Found t p answer := by
  induction fuel generalizing up node bit with
  | zero => exact absurd fuelled (Fuelled.last way)
  | succ fuel ih =>
    cases node with
    | none =>
      refine ⟨none, rfl, found_none tidy way passed fun a n link' => ?_⟩
      cases link.symm.trans link'
    | some a =>
      obtain ⟨ka, known⟩ := Option.ne_none_iff_exists'.mp (tidy.wf.child_key link)
      obtain ⟨n, here, rfl⟩ := node_of_key known
      simp only [lookupLoop, here, Option.bind_eq_bind, Option.bind_some]
      split
      · rename_i covers
        have below := (covers_iff n.p).mp covers
        split
        · rename_i hit
          have same := bits_eq_of_length below hit.1
          refine ⟨some a, rfl, fun c => ⟨?_, ?_⟩⟩
          · rintro ⟨⟩
            exact ⟨n, here, same, Option.isSome_iff_ne_none.mp hit.2⟩
          · rintro ⟨m, there, same', -⟩
            have known : t.view.key c = some n.p.bits := by rw [view_key there, same', same]
            rw [tidy.wf.key_unique (view_key here) known]
        · rename_i other
          refine ih (view_child here _) (onWay_turn here below) (fuelled.turn tidy link here) ?_
          rintro b m ⟨⟩ there same
          cases here.symm.trans there
          by_contra contents
          refine other ⟨?_, Option.isSome_iff_ne_none.mpr contents⟩
          simpa using congrArg List.length same
      · rename_i apart
        refine ⟨none, rfl, found_none tidy way passed fun b m link' there below => ?_⟩
        cases link.symm.trans link'
        cases here.symm.trans there
        exact apart ((covers_iff n.p).mpr below)

/-! ## `bgp_node_match` -/

/-- The best among the nodes with keys of a kind: one with contents and the
longest key, or none where none of them has contents. -/
def Best (t : BgpTable ι) (kind : List Bool → Prop) (matched : Option Ptr) : Prop :=
  match matched with
  | none => ∀ c n, t.heap c = some n → kind n.p.bits → n.info = none
  | some a => ∃ n, t.heap a = some n ∧ kind n.p.bits ∧ n.info ≠ none ∧
      ∀ c m, t.heap c = some m → kind m.p.bits → m.info ≠ none → m.p.prefixlen ≤ n.p.prefixlen

/-- The kind of the nodes a descent has passed. -/
def Passed (t : BgpTable ι) (up : Option Ptr) (key : List Bool) : Prop :=
  ∃ b kb, up = some b ∧ t.view.key b = some kb ∧ key <+: kb

variable {matched : Option Ptr}

/-- The best of one kind is the best of another with the same nodes. -/
theorem Best.congr {kind kind' : List Bool → Prop} (best : Best t kind matched)
    (same : ∀ c n, t.heap c = some n → (kind n.p.bits ↔ kind' n.p.bits)) :
    Best t kind' matched := by
  cases matched with
  | none => exact fun c n here inside => best c n here ((same c n here).mpr inside)
  | some a =>
    obtain ⟨n, here, inside, contents, longest⟩ := best
    exact ⟨n, here, (same a n here).mp inside, contents,
      fun c m there inside' => longest c m there ((same c m there).mpr inside')⟩

variable {key : List Bool}

theorem passed_below (way : OnWay t.view p.bits up bit) (passed : Passed t up key) :
    key <+: p.bits := by
  obtain ⟨b, kb, rfl, known, earlier⟩ := passed
  obtain ⟨kb', known', below, -⟩ := way b rfl
  cases known.symm.trans known'
  exact earlier.trans below

/-- One turn passes one node more. -/
theorem passed_turn (tidy : Tidy t) (link : t.view.child up bit = some a) (here : t.heap a = some n)
    (way : OnWay t.view p.bits up bit) (below : n.p.bits <+: p.bits) (there : t.heap c = some m) :
    Passed t (some a) m.p.bits ↔ Passed t up m.p.bits ∨ c = a := by
  constructor
  · rintro ⟨_, _, ⟨⟩, known, earlier⟩
    cases known.symm.trans (view_key here)
    rcases tidy.wf.passed_or_behind way (view_key there) (earlier.trans below) with
      passed | ⟨d, link', above⟩
    · exact .inl passed
    · cases link.symm.trans link'
      obtain ⟨kc, known', ahead⟩ := tidy.wf.key_below above (view_key here)
      cases known'.symm.trans (view_key there)
      have same := earlier.eq_of_length_le ahead.length_le
      have known : t.view.key c = some n.p.bits := by rw [view_key there, same]
      exact .inr (tidy.wf.key_unique known (view_key here))
  · rintro (⟨b, kb, rfl, known, earlier⟩ | rfl)
    · obtain ⟨ka, known', grows⟩ := tidy.wf.link_grows link known
      cases known'.symm.trans (view_key here)
      exact ⟨a, n.p.bits, rfl, view_key here,
        earlier.trans ((List.prefix_append _ _).trans grows)⟩
    · cases here.symm.trans there
      exact ⟨c, n.p.bits, rfl, view_key here, List.prefix_rfl⟩

theorem Best.turn (tidy : Tidy t) (link : t.view.child up bit = some a) (here : t.heap a = some n)
    (way : OnWay t.view p.bits up bit) (below : n.p.bits <+: p.bits)
    (best : Best t (Passed t up) matched) :
    Best t (Passed t (some a)) (if n.info.isSome then some a else matched) := by
  split
  · rename_i contents
    refine ⟨n, here, ⟨a, _, rfl, view_key here, List.prefix_rfl⟩,
      Option.isSome_iff_ne_none.mp contents, ?_⟩
    rintro c m there ⟨_, _, ⟨⟩, known, earlier⟩ -
    cases known.symm.trans (view_key here)
    simpa using earlier.length_le
  · rename_i empty
    have without : n.info = none := by simpa using empty
    cases matched with
    | none =>
      intro c m there passed
      rcases (passed_turn tidy link here way below there).mp passed with earlier | rfl
      · exact best c m there earlier
      · cases here.symm.trans there
        exact without
    | some d =>
      obtain ⟨o, at_d, passed_d, contents, longest⟩ := best
      refine ⟨o, at_d, (passed_turn tidy link here way below at_d).mpr (.inl passed_d),
        contents, ?_⟩
      intro c m there passed contents'
      rcases (passed_turn tidy link here way below there).mp passed with earlier | rfl
      · exact longest c m there earlier contents'
      · cases here.symm.trans there
        exact absurd without contents'

theorem matchLoop_spec (tidy : Tidy t) (fuel : Nat) (link : t.view.child up bit = node)
    (way : OnWay t.view p.bits up bit) (fuelled : Fuelled t p fuel up)
    (best : Best t (Passed t up) matched) :
    ∃ answer, matchLoop t p fuel matched node = some answer ∧ Best t (· <+: p.bits) answer := by
  induction fuel generalizing up node matched bit with
  | zero => exact absurd fuelled (Fuelled.last way)
  | succ fuel ih =>
    cases node with
    | none =>
      refine ⟨matched, rfl, best.congr fun c m there => ⟨passed_below way, fun below => ?_⟩⟩
      exact all_passed tidy way (fun a n link' => by cases link.symm.trans link') there below
    | some a =>
      obtain ⟨ka, known⟩ := Option.ne_none_iff_exists'.mp (tidy.wf.child_key link)
      obtain ⟨n, here, rfl⟩ := node_of_key known
      simp only [matchLoop, here, Option.bind_eq_bind, Option.bind_some]
      split
      · rename_i covers
        have below := (covers_iff n.p).mp covers
        exact ih (view_child here _) (onWay_turn here below) (fuelled.turn tidy link here)
          (best.turn tidy link here way below)
      · rename_i apart
        refine ⟨matched, rfl, best.congr fun c m there => ⟨passed_below way, fun below => ?_⟩⟩
        refine all_passed tidy way (fun b o link' at_b covers => ?_) there below
        cases link.symm.trans link'
        cases here.symm.trans at_b
        exact apart ((covers_iff n.p).mpr covers)

/-! ## `bgp_node_get` -/

/-- Where the loop of `bgp_node_get` ends. -/
def Ended (t : BgpTable ι) (p : OctetPrefix) : Descent → Prop
  | .found a => ∃ n, t.heap a = some n ∧ n.p.bits = p.bits
  | .stopped matched none =>
    ∃ bit, t.view.child matched bit = none ∧ t.view.Fits matched bit p.bits
  | .stopped matched (some a) => ∃ bit n, t.view.child matched bit = some a ∧
      t.view.Fits matched bit p.bits ∧ t.heap a = some n ∧ ¬n.p.bits <+: p.bits

theorem Trie.Fits.onWay {t : Trie Ptr} (fits : t.Fits up bit key) : OnWay t key up bit := by
  intro b here
  obtain ⟨kb, known, below⟩ := fits b here
  exact ⟨kb, known, (List.prefix_append _ _).trans below, fun _ => below⟩

theorem getLoop_spec (tidy : Tidy t) (fuel : Nat) (link : t.view.child up bit = node)
    (fits : t.view.Fits up bit p.bits) (fuelled : Fuelled t p fuel up) :
    ∃ descent, getLoop t p fuel up node = some descent ∧ Ended t p descent := by
  induction fuel generalizing up node bit with
  | zero => exact absurd fuelled (Fuelled.last (Trie.Fits.onWay fits))
  | succ fuel ih =>
    cases node with
    | none => exact ⟨.stopped up none, rfl, bit, link, fits⟩
    | some a =>
      obtain ⟨ka, known⟩ := Option.ne_none_iff_exists'.mp (tidy.wf.child_key link)
      obtain ⟨n, here, rfl⟩ := node_of_key known
      simp only [getLoop, here, Option.bind_eq_bind, Option.bind_some]
      split
      · rename_i covers
        have below := (covers_iff n.p).mp covers
        split
        · rename_i whole
          exact ⟨.found a, rfl, n, here, bits_eq_of_length below whole⟩
        · rename_i longer
          refine ih (view_child here _) ?_ (fuelled.turn tidy link here)
          rintro b ⟨⟩
          exact ⟨_, view_key here, bits_snoc below (by omega)⟩
      · rename_i apart
        exact ⟨.stopped up (some a), rfl, bit, n, link, fits, here,
          fun below => apart ((covers_iff n.p).mpr below)⟩

end Bgpd.NodeTable
