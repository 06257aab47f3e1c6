import Bgpd.TableLookup

/-!
# Tables in use

A run of a table: nodes are asked for, looked up and matched, locked and
unlocked, and contents are hung on locked nodes and taken off them. In every
state of a run the table is in order, every operation returns, no node with a
lock is lost, and the three searches answer what their names say.
-/

namespace Bgpd.NodeTable

open PrefixBits Prefixes BitTrie

variable {ι : Type}

/-- `node->info = info`. -/
def setInfo (t : BgpTable ι) (a : Ptr) (info : Option ι) : Option (BgpTable ι) :=
  t.update a fun n => { n with info }

/-- What a user of a table does. -/
inductive Op (ι : Type)
  | get (p : OctetPrefix)
  | lookup (p : OctetPrefix)
  | nodeMatch (p : OctetPrefix)
  | lock (a : Ptr)
  | unlock (a : Ptr)
  | setInfo (a : Ptr) (info : Option ι)

/-- The table after an operation. -/
def step (t : BgpTable ι) : Op ι → Option (BgpTable ι)
  | .get p => (bgpNodeGet t p).map Prod.fst
  | .lookup p => (bgpNodeLookup t p).map Prod.fst
  | .nodeMatch p => (bgpNodeMatch t p).map Prod.fst
  | .lock a => bgpLockNode t a
  | .unlock a => bgpUnlockNode t a
  | .setInfo a info => NodeTable.setInfo t a info

/-- What a user may do: ask for prefixes of the table's family, lock a node of
the table, give back a lock somebody holds, the last one only without contents,
and change the contents of a node somebody has locked. -/
def Op.Allowed (family : Afi) (t : BgpTable ι) : Op ι → Prop
  | .get p | .lookup p | .nodeMatch p => p.family = family
  | .lock a => t.heap a ≠ none
  | .unlock a => ∃ n, t.heap a = some n ∧ 0 < n.lock ∧ (n.lock = 1 → n.info = none)
  | .setInfo a _ => ∃ n, t.heap a = some n ∧ 0 < n.lock

/-- The tables of a family that come out of an empty one. -/
inductive Reachable (family : Afi) : BgpTable ι → Prop
  | init : Reachable family .init
  | step {t t' : BgpTable ι} {op : Op ι} (reached : Reachable family t)
      (allowed : op.Allowed family t) (stepped : step t op = some t') : Reachable family t'

/-- All prefixes are of one family. -/
def OfFamily (family : Afi) (t : BgpTable ι) : Prop :=
  ∀ a n, t.heap a = some n → n.p.family = family

/-- What every table keeps between operations. -/
structure Kept (family : Afi) (t : BgpTable ι) : Prop where
  tidy : Tidy t
  filled : Filled t none
  ofFamily : OfFamily family t

/-! ## Changes to a node -/

section Retouch

variable {t : BgpTable ι} {a : Ptr} {n : BgpNode ι}

/-- The table with a node's lock and contents replaced. -/
def retouched (t : BgpTable ι) (a : Ptr) (n : BgpNode ι) (lock : Nat) (info : Option ι) :
    BgpTable ι :=
  { t with heap := Function.update t.heap a (some { n with lock, info }) }

theorem retouched_self (lock : Nat) (info : Option ι) :
    (retouched t a n lock info).heap a = some { n with lock, info } := Function.update_self ..

theorem retouched_ne (lock : Nat) (info : Option ι) {b : Ptr} (other : b ≠ a) :
    (retouched t a n lock info).heap b = t.heap b := Function.update_of_ne other _ _

/-- The view does not show locks and contents. -/
theorem retouched_view (here : t.heap a = some n) (lock : Nat) (info : Option ι) :
    (retouched t a n lock info).view = t.view := by
  ext1
  · funext b
    by_cases at_a : b = a
    · subst at_a
      simp [BgpTable.view, retouched, here]
    · simp [BgpTable.view, retouched, at_a]
  · funext b
    by_cases at_a : b = a
    · subst at_a
      simp [BgpTable.view, retouched, here]
    · simp [BgpTable.view, retouched, at_a]
  · funext up side
    cases up with
    | none => rfl
    | some b =>
      by_cases at_a : b = a
      · subst at_a
        cases side <;> simp [BgpTable.view, retouched, here, BgpNode.link]
      · simp [BgpTable.view, retouched, at_a]

theorem retouched_present (here : t.heap a = some n) (lock : Nat) (info : Option ι) (b : Ptr) :
    (retouched t a n lock info).heap b ≠ none ↔ t.heap b ≠ none := by
  by_cases at_a : b = a
  · subst at_a
    simp [retouched_self, here]
  · rw [retouched_ne lock info at_a]

variable {lock : Nat} {info : Option ι}

theorem Tidy.retouch (tidy : Tidy t) (here : t.heap a = some n) (idle : lock = 0 → info = none) :
    Tidy (retouched t a n lock info) where
  wf := retouched_view here lock info ▸ tidy.wf
  counted := by
    obtain ⟨nodes, members, count⟩ := tidy.counted
    exact ⟨nodes, fun b => (members b).trans (retouched_present here lock info b).symm, count⟩
  below b present := tidy.below b ((retouched_present here lock info b).mp present)
  idle b m there unlocked := by
    by_cases at_a : b = a
    · subst at_a
      rw [retouched_self] at there
      cases there
      exact idle unlocked
    · rw [retouched_ne lock info at_a] at there
      exact tidy.idle b m there unlocked

/-- Afterwards the node is exempt, and others are exempt as before. -/
theorem Filled.retouch {exempt : Option Ptr} (filled : Filled t exempt)
    (own : exempt = none ∨ exempt = some a) : Filled (retouched t a n lock info) (some a) := by
  intro b m there unlocked other side
  have at_a : b ≠ a := fun same => other (same ▸ rfl)
  rw [retouched_ne lock info at_a] at there
  refine filled b m there unlocked (fun same => ?_) side
  rcases own with rfl | rfl
  · cases same
  · exact other same

/-- A node with a lock need not be exempt. -/
theorem Filled.held (filled : Filled (retouched t a n lock info) (some a)) (held : 0 < lock) :
    Filled (retouched t a n lock info) none := by
  intro b m there unlocked _ side
  refine filled b m there unlocked (fun same => ?_) side
  cases same
  rw [retouched_self] at there
  cases there
  exact absurd unlocked held.ne'

theorem bgpLockNode_eq (here : t.heap a = some n) :
    bgpLockNode t a = some (retouched t a n (n.lock + 1) n.info) := update_eq here _

theorem setInfo_eq (here : t.heap a = some n) (info : Option ι) :
    NodeTable.setInfo t a info = some (retouched t a n n.lock info) := update_eq here _

end Retouch

variable {t t' : BgpTable ι} {p : OctetPrefix}

/-! ## One operation -/

/-- Nodes stay with their prefixes and contents, and with their locks or more. -/
def Lasting (t t' : BgpTable ι) : Prop :=
  ∀ b n, t.heap b = some n →
    ∃ n', t'.heap b = some n' ∧ n'.p = n.p ∧ n'.info = n.info ∧ n.lock ≤ n'.lock

theorem Lasting.refl (t : BgpTable ι) : Lasting t t :=
  fun _ n here => ⟨n, here, rfl, rfl, le_rfl⟩

theorem Lasting.trans {u v : BgpTable ι} (left : Lasting t u) (right : Lasting u v) :
    Lasting t v := by
  intro b n here
  obtain ⟨n', here', p', info', lock'⟩ := left b n here
  obtain ⟨n'', here'', p'', info'', lock''⟩ := right b n' here'
  exact ⟨n'', here'', p''.trans p', info''.trans info', lock'.trans lock''⟩

theorem Grown.lasting (grown : Grown t t' p) : Lasting t t' := by
  intro b n here
  obtain ⟨n', here', same⟩ := grown.kept b n here
  exact ⟨n', here', same.p, same.info, same.lock.ge⟩

variable {family : Afi}

theorem Grown.ofFamily (grown : Grown t t' p) (old : OfFamily family t) (new : p.family = family) :
    OfFamily family t' := by
  intro a n here
  rcases grown.only a (by rw [here]; exact Option.some_ne_none n) with present | rfl
  · obtain ⟨m, there⟩ := Option.ne_none_iff_exists'.mp present
    obtain ⟨n', here', same⟩ := grown.kept a m there
    cases here.symm.trans here'
    rw [same.p]
    exact old a m there
  · obtain ⟨m, fresh, same, -⟩ := grown.fresh
    cases here.symm.trans fresh
    rwa [same]

/-- A node of the prefix is there and has a lock. -/
def Holds (t : BgpTable ι) (p : OctetPrefix) (a : Ptr) : Prop :=
  ∃ n, t.heap a = some n ∧ n.p.bits = p.bits ∧ 0 < n.lock

/-- Locking a node gives back a table in order, also where that node was exempt. -/
theorem bgpLockNode_spec {exempt : Option Ptr} {a : Ptr} {n : BgpNode ι} (tidy : Tidy t)
    (filled : Filled t exempt) (ofFamily : OfFamily family t) (here : t.heap a = some n)
    (own : exempt = none ∨ exempt = some a) :
    ∃ t', bgpLockNode t a = some t' ∧ Kept family t' ∧ Lasting t t' ∧ Holds t' n.p a := by
  refine ⟨_, bgpLockNode_eq here, ⟨tidy.retouch here fun zero => absurd zero (Nat.succ_ne_zero _),
    (filled.retouch own).held (Nat.succ_pos _), ?_⟩, ?_, ?_⟩
  · intro b m there
    by_cases at_a : b = a
    · subst at_a
      rw [retouched_self] at there
      cases there
      exact ofFamily b n here
    · rw [retouched_ne _ _ at_a] at there
      exact ofFamily b m there
  · intro b m there
    by_cases at_a : b = a
    · subst at_a
      cases here.symm.trans there
      exact ⟨_, retouched_self _ _, rfl, rfl, Nat.le_succ _⟩
    · exact ⟨m, (retouched_ne _ _ at_a).trans there, rfl, rfl, le_rfl⟩
  · exact ⟨_, retouched_self _ _, rfl, Nat.succ_pos _⟩

variable {up : Option Ptr} {key : List Bool}

/-- A node that is new is the only one that may lack children, if the others keep theirs. -/
theorem Filled.grown (filled : Filled t none) (grown : Grown t t' p)
    (keeps : ∀ b side, b ≠ t.next → t.view.child b side ≠ none → t'.view.child b side ≠ none) :
    Filled t' (some t.next) := by
  intro b n' here unlocked other side
  have apart : b ≠ t.next := fun same => other (same ▸ rfl)
  obtain ⟨n, there⟩ := Option.ne_none_iff_exists'.mp
    ((grown.only b (by rw [here]; exact Option.some_ne_none n')).resolve_right apart)
  obtain ⟨n'', here'', same⟩ := grown.kept b n there
  cases here.symm.trans here''
  have children := filled b n there (same.lock.symm.trans unlocked) nofun side
  rw [← view_child there] at children
  rw [← view_child here]
  exact keeps b side apart children

/-- So is a node planted on an empty link. -/
theorem Filled.plant {bit : Bool} (filled : Filled t none) (grown : Grown t t' p)
    (view : t'.view = t.view.plant up bit t.next key) : Filled t' (some t.next) := by
  refine filled.grown grown fun b side apart children => ?_
  rw [view, Trie.plant]
  simp only [Option.some.injEq, if_neg apart]
  split
  · exact Option.some_ne_none _
  · exact children

/-- And one put on a link to another. -/
theorem Filled.above {bit side : Bool} {old : Ptr} (filled : Filled t none) (grown : Grown t t' p)
    (view : t'.view = t.view.above up bit t.next key side old) : Filled t' (some t.next) := by
  refine filled.grown grown fun b way apart children => ?_
  rw [view, Trie.above]
  simp only [Option.some.injEq, if_neg apart]
  split
  · exact Option.some_ne_none _
  · exact children

/-- What `bgp_node_get` gives: a locked node of the prefix, in a table in order
that has lost nothing. -/
def Got (family : Afi) (t : BgpTable ι) (p : OctetPrefix) : Prop :=
  ∃ t' a, bgpNodeGet t p = some (t', a) ∧ Kept family t' ∧ Lasting t t' ∧ Holds t' p a

section Get

variable {t : BgpTable ι} {family : Afi} {p : OctetPrefix} (kept : Kept family t)
include kept
variable {n : BgpNode ι}

/-- The descent found the node. -/
theorem get_found {a : Ptr} (loop : getLoop t p (p.prefixlen + 2) none t.top = some (.found a))
    (here : t.heap a = some n) (same : n.p.bits = p.bits) : Got family t p := by
  obtain ⟨t', locked, kept', lasting, m, there, bits, held⟩ :=
    bgpLockNode_spec kept.tidy kept.filled kept.ofFamily here (.inl rfl)
  refine ⟨t', a, ?_, kept', lasting, m, there, bits.trans same, held⟩
  simp [bgpNodeGet, loop, locked]

variable (own : p.family = family)
include own
variable {matched : Option Ptr} {bit : Bool}

/-- The descent ended at an empty link. -/
theorem get_leaf (loop : getLoop t p (p.prefixlen + 2) none t.top = some (.stopped matched none))
    (empty : t.view.child matched bit = none) (fits : t.view.Fits matched bit p.bits) :
    Got family t p := by
  obtain ⟨t₁, inserted, view, grown⟩ := insertLeaf_spec kept.tidy p fits
  have wf : Wf t₁.view := view ▸ kept.tidy.wf.plant (view_key_none.mpr kept.tidy.unused) empty fits
  obtain ⟨n, fresh, new, -⟩ := grown.fresh
  obtain ⟨t', locked, kept', lasting, m, there, bits, held⟩ :=
    bgpLockNode_spec (kept.tidy.grow grown wf) (kept.filled.plant grown view)
      (grown.ofFamily kept.ofFamily own) fresh (.inr rfl)
  refine ⟨t', t.next, ?_, kept', grown.lasting.trans lasting, m, there, ?_, held⟩
  · simp [bgpNodeGet, loop, inserted, locked]
  · rw [bits, new, prefixCopy_bits]

/-- The descent ended before a node that does not cover the prefix: a node of
the common prefix goes between, and the prefix below that unless it is the same. -/
theorem get_common {old : Ptr}
    (loop : getLoop t p (p.prefixlen + 2) none t.top = some (.stopped matched (some old)))
    (link : t.view.child matched bit = some old) (fits : t.view.Fits matched bit p.bits)
    (here : t.heap old = some n) (apart : ¬n.p.bits <+: p.bits) : Got family t p := by
  obtain ⟨shorter, below⟩ := routeCommon_shorter n.p p apart
  have aside := bits_snoc below shorter
  generalize side_eq : prefixBit n.p.octets (routeCommon n.p p).prefixlen = side at aside
  have fits_common : t.view.Fits matched bit (routeCommon n.p p).bits := by
    intro b up
    obtain ⟨kb, known, begins⟩ := fits b up
    obtain ⟨kn, known', -, fits'⟩ := kept.tidy.wf.down link
    cases known'.symm.trans (view_key here)
    obtain ⟨kb', known_b, begins'⟩ := fits' b up
    cases known.symm.trans known_b
    exact ⟨kb, known, routeCommon_longest n.p p begins' begins⟩
  obtain ⟨t₁, inserted, view, grown⟩ := insertCommon_spec kept.tidy p here fits_common aside
  have wf : Wf t₁.view := view ▸ kept.tidy.wf.above (view_key_none.mpr kept.tidy.unused) link
    fits_common (view_key here) aside
  have tidy₁ := kept.tidy.grow grown wf
  have filled₁ := kept.filled.above grown view
  have ofFamily₁ : OfFamily family t₁ := grown.ofFamily kept.ofFamily own
  obtain ⟨c, fresh, new, -⟩ := grown.fresh
  by_cases whole : (routeCommon n.p p).prefixlen = p.prefixlen
  · obtain ⟨t', locked, kept', lasting, m, there, bits, held⟩ :=
      bgpLockNode_spec tidy₁ filled₁ ofFamily₁ fresh (.inr rfl)
    refine ⟨t', t.next, ?_, kept', grown.lasting.trans lasting, m, there, ?_, held⟩
    · simp [bgpNodeGet, loop, here, inserted, whole, locked]
    · rw [bits, new]
      exact bits_eq_of_length (routeCommon_below n.p p) whole
  · -- below the common prefix the two part
    have short : (routeCommon n.p p).prefixlen < p.prefixlen := by
      have := (routeCommon_below n.p p).length_le
      simp only [bits_length] at this
      omega
    have parts : prefixBit p.octets (routeCommon n.p p).prefixlen = !side := by
      have differ := routeCommon_parts n.p p short
      rw [← prefixBit_eq, ← prefixBit_eq, side_eq] at differ
      cases side <;> simpa using differ.symm
    have fits₁ : t₁.view.Fits (some t.next) (!side) p.bits := by
      rintro b ⟨⟩
      refine ⟨_, view_key fresh, ?_⟩
      rw [new, ← parts]
      exact bits_snoc (routeCommon_below n.p p) short
    have empty : t₁.view.child (some t.next) (!side) = none := by
      rw [view]
      cases side <;> simp [Trie.above]
    obtain ⟨t₂, inserted₂, view₂, grown₂⟩ := insertLeaf_spec tidy₁ p fits₁
    have wf₂ : Wf t₂.view := view₂ ▸ wf.plant (view_key_none.mpr tidy₁.unused) empty fits₁
    have filled₂ : Filled t₂ (some t₁.next) := by
      intro b n' there unlocked other way
      have apart : b ≠ t₁.next := fun same => other (same ▸ rfl)
      obtain ⟨m, before⟩ := Option.ne_none_iff_exists'.mp
        ((grown₂.only b (by rw [there]; exact Option.some_ne_none n')).resolve_right apart)
      obtain ⟨n'', there', same⟩ := grown₂.kept b m before
      cases there.symm.trans there'
      rw [← view_child there, view₂, Trie.plant]
      simp only [Option.some.injEq, if_neg apart]
      split
      · exact Option.some_ne_none _
      · rename_i unlike
        by_cases glue : b = t.next
        · -- the node of the common prefix has the old node on the other side
          subst glue
          have way_eq : way = side := by
            by_contra differ
            refine unlike ⟨rfl, .inr ?_⟩
            cases way <;> cases side <;> simp_all
          rw [view, Trie.above]
          simp [way_eq]
        · rw [view_child before]
          exact filled₁ b m before (same.lock.symm.trans unlocked)
            (fun same => glue (Option.some.inj same).symm) way
    obtain ⟨m, fresh₂, new₂, -⟩ := grown₂.fresh
    obtain ⟨t', locked, kept', lasting, m', there, bits, held⟩ :=
      bgpLockNode_spec (tidy₁.grow grown₂ wf₂) filled₂ (grown₂.ofFamily ofFamily₁ own) fresh₂
        (.inr rfl)
    refine ⟨t', t₁.next, ?_, kept', (grown.lasting.trans grown₂.lasting).trans lasting, m', there,
      ?_, held⟩
    · simp [bgpNodeGet, loop, here, inserted, whole, inserted₂, locked]
    · rw [bits, new₂, prefixCopy_bits]

theorem bgpNodeGet_spec : Got family t p := by
  obtain ⟨descent, loop, ended⟩ := @getLoop_spec _ t p none false t.top kept.tidy (p.prefixlen + 2)
    rfl (fun _ => nofun) (by simp [Fuelled])
  cases descent with
  | found a =>
    obtain ⟨n, here, same⟩ := ended
    exact get_found kept loop here same
  | stopped matched node =>
    cases node with
    | none =>
      obtain ⟨bit, empty, fits⟩ := ended
      exact get_leaf kept own loop empty fits
    | some old =>
      obtain ⟨bit, n, link, fits, here, apart⟩ := ended
      exact get_common kept own loop link fits here apart

end Get

/-- What a step may do to a node that has a lock: it keeps its prefix and a lock. -/
def Survives (t t' : BgpTable ι) (b : Ptr) : Prop :=
  ∀ n, t.heap b = some n → 0 < n.lock → ∃ n', t'.heap b = some n' ∧ n'.p = n.p ∧ 0 < n'.lock

theorem Lasting.survives (lasting : Lasting t t') (b : Ptr) : Survives t t' b := by
  intro n here held
  obtain ⟨n', here', same, -, more⟩ := lasting b n here
  exact ⟨n', here', same, held.trans_le more⟩

section Searches

variable {t : BgpTable ι} {family : Afi} (kept : Kept family t) (p : OctetPrefix)
include kept
variable {a : Ptr}

/-- Locking the answer of a search. -/
theorem lock_answer (there : t.heap a ≠ none) :
    ∃ t', bgpLockNode t a = some t' ∧ Kept family t' ∧ Lasting t t' := by
  obtain ⟨n, here⟩ := Option.ne_none_iff_exists'.mp there
  obtain ⟨t', locked, kept', lasting, -⟩ :=
    bgpLockNode_spec kept.tidy kept.filled kept.ofFamily here (.inl rfl)
  exact ⟨t', locked, kept', lasting⟩

theorem bgpNodeLookup_spec :
    ∃ t' answer, bgpNodeLookup t p = some (t', answer) ∧ Kept family t' ∧ Lasting t t' ∧
      Found t p answer := by
  obtain ⟨answer, loop, found⟩ := @lookupLoop_spec _ t p none false t.top kept.tidy
    (p.prefixlen + 2) rfl (onWay_top _) (by simp [Fuelled]) (fun _ _ => nofun)
  cases answer with
  | none =>
    exact ⟨t, none, by simp only [bgpNodeLookup, loop, Option.bind_eq_bind, Option.bind_some,
      Option.pure_def], kept, .refl t, found⟩
  | some a =>
    obtain ⟨n, here, -⟩ := (found a).mp rfl
    obtain ⟨t', locked, kept', lasting⟩ :=
      lock_answer kept (by rw [here]; exact Option.some_ne_none n)
    exact ⟨t', some a, by simp only [bgpNodeLookup, loop, Option.bind_eq_bind, Option.bind_some,
      locked, Option.pure_def], kept', lasting, found⟩

theorem bgpNodeMatch_spec :
    ∃ t' answer, bgpNodeMatch t p = some (t', answer) ∧ Kept family t' ∧ Lasting t t' ∧
      Best t (· <+: p.bits) answer := by
  obtain ⟨answer, loop, best⟩ := @matchLoop_spec _ t p none false t.top none kept.tidy
    (p.prefixlen + 2) rfl (onWay_top _)
    (by simp [Fuelled]) (fun _ _ _ ⟨_, _, impossible, _⟩ => nomatch impossible)
  cases answer with
  | none =>
    exact ⟨t, none, by simp only [bgpNodeMatch, loop, Option.bind_eq_bind, Option.bind_some,
      Option.pure_def], kept, .refl t, best⟩
  | some a =>
    obtain ⟨n, here, -⟩ := id best
    obtain ⟨t', locked, kept', lasting⟩ :=
      lock_answer kept (by rw [here]; exact Option.some_ne_none n)
    exact ⟨t', some a, by simp only [bgpNodeMatch, loop, Option.bind_eq_bind, Option.bind_some,
      locked, Option.pure_def], kept', lasting, best⟩

variable {n : BgpNode ι}

/-- Giving back a lock takes nothing else from the nodes that still have one. -/
theorem bgpUnlockNode_pruned (here : t.heap a = some n) (held : 0 < n.lock)
    (last : n.lock = 1 → n.info = none) :
    ∃ t', bgpUnlockNode t a = some t' ∧ Kept family t' ∧
      Pruned (retouched t a n (n.lock - 1) n.info) t' := by
  have retouched_family : OfFamily family (retouched t a n (n.lock - 1) n.info) := by
    intro b m there
    by_cases at_a : b = a
    · subst at_a
      rw [retouched_self] at there
      cases there
      exact kept.ofFamily b n here
    · rw [retouched_ne _ _ at_a] at there
      exact kept.ofFamily b m there
  have tidy : Tidy (retouched t a n (n.lock - 1) n.info) :=
    kept.tidy.retouch here fun zero => last (by omega)
  have filled := @Filled.retouch _ t a n (n.lock - 1) n.info none kept.filled (.inl rfl)
  have touched : t.update a (fun n => { n with lock := n.lock - 1 }) =
      some (retouched t a n (n.lock - 1) n.info) := update_eq here _
  by_cases one : n.lock = 1
  · obtain ⟨t', deleted, tidy', filled', pruned⟩ :=
      bgpNodeDelete_spec (n.p.prefixlen + 1) tidy filled (retouched_self _ _) (by simp [one])
        (Nat.lt_succ_self _)
    refine ⟨t', ?_, ⟨tidy', filled', fun b m' there => ?_⟩, pruned⟩
    · simp only [bgpUnlockNode, here, Option.bind_eq_bind, Option.bind_some, if_neg held.ne',
        touched]
      exact (if_pos one).trans deleted
    · obtain ⟨m, before, same⟩ := pruned.old b m' there
      rw [same.p]
      exact retouched_family b m before
  · refine ⟨_, ?_, ⟨tidy, filled.held (by omega), retouched_family⟩, .refl _⟩
    simp [bgpUnlockNode, here, if_neg held.ne', touched, if_neg one]

/-- Giving back a lock. Only the node itself can go, and only with its last lock. -/
theorem bgpUnlockNode_spec (here : t.heap a = some n) (held : 0 < n.lock)
    (last : n.lock = 1 → n.info = none) :
    ∃ t', bgpUnlockNode t a = some t' ∧ Kept family t' ∧
      ∀ b, (b = a → 1 < n.lock) → Survives t t' b := by
  obtain ⟨t', unlocked, kept', pruned⟩ := bgpUnlockNode_pruned kept here held last
  refine ⟨t', unlocked, kept', fun b other m there held' => ?_⟩
  by_cases at_a : b = a
  · subst at_a
    cases here.symm.trans there
    obtain ⟨m', there', same⟩ :=
      pruned.locked b _ (retouched_self _ _) (by simpa using other rfl)
    refine ⟨m', there', same.p, ?_⟩
    rw [same.lock]
    simpa using other rfl
  · obtain ⟨m', there', same⟩ := pruned.locked b m ((retouched_ne _ _ at_a).trans there) held'
    exact ⟨m', there', same.p, same.lock ▸ held'⟩

/-- Changing the contents of a node that has a lock. -/
theorem setInfo_spec (here : t.heap a = some n) (held : 0 < n.lock) (info : Option ι) :
    ∃ t', NodeTable.setInfo t a info = some t' ∧ Kept family t' ∧ ∀ b, Survives t t' b := by
  refine ⟨_, setInfo_eq here info, ⟨kept.tidy.retouch here fun zero => absurd zero held.ne',
    (kept.filled.retouch (.inl rfl)).held held, fun b m there => ?_⟩, fun b m there held' => ?_⟩
  · by_cases at_a : b = a
    · subst at_a
      rw [retouched_self] at there
      cases there
      exact kept.ofFamily b n here
    · rw [retouched_ne _ _ at_a] at there
      exact kept.ofFamily b m there
  · by_cases at_a : b = a
    · subst at_a
      cases here.symm.trans there
      exact ⟨_, retouched_self _ _, rfl, held⟩
    · exact ⟨m, (retouched_ne _ _ at_a).trans there, rfl, held'⟩

/-- Every operation a user may do returns, keeps the table in order, and loses
no node that keeps a lock. -/
theorem step_spec {op : Op ι} (allowed : op.Allowed family t) :
    ∃ t', step t op = some t' ∧ Kept family t' ∧
      ∀ b, (op = .unlock b → ∀ n, t.heap b = some n → 1 < n.lock) → Survives t t' b := by
  cases op with
  | get p =>
    obtain ⟨t', a, returns, kept', lasting, -⟩ := bgpNodeGet_spec kept allowed
    exact ⟨t', by simp [step, returns], kept', fun b _ => lasting.survives b⟩
  | lookup p =>
    obtain ⟨t', answer, returns, kept', lasting, -⟩ := bgpNodeLookup_spec kept p
    exact ⟨t', by simp [step, returns], kept', fun b _ => lasting.survives b⟩
  | nodeMatch p =>
    obtain ⟨t', answer, returns, kept', lasting, -⟩ := bgpNodeMatch_spec kept p
    exact ⟨t', by simp [step, returns], kept', fun b _ => lasting.survives b⟩
  | lock a =>
    obtain ⟨t', locked, kept', lasting⟩ := lock_answer kept allowed
    exact ⟨t', locked, kept', fun b _ => lasting.survives b⟩
  | unlock a =>
    obtain ⟨n, here, held, last⟩ := allowed
    obtain ⟨t', unlocked, kept', survives⟩ := bgpUnlockNode_spec kept here held last
    exact ⟨t', unlocked, kept', fun b other => survives b fun same =>
      other (by rw [same]) n (same ▸ here)⟩
  | setInfo a info =>
    obtain ⟨n, here, held⟩ := allowed
    obtain ⟨t', changed, kept', survives⟩ := setInfo_spec kept here held info
    exact ⟨t', changed, kept', fun b _ => survives b⟩

end Searches

theorem init_wf : Wf (BgpTable.init : BgpTable ι).view := by
  refine ⟨@fun up bit c link => ?_, @fun c key known => ?_, rfl⟩
  · cases up <;> cases link
  · cases known

theorem init_kept (family : Afi) : Kept family (BgpTable.init : BgpTable ι) where
  tidy := {
    wf := init_wf
    counted := ⟨∅, fun a => by simp [BgpTable.init], rfl⟩
    below := fun _ present => absurd rfl present
    idle := fun _ _ here => (nomatch here) }
  filled := fun _ _ here => (nomatch here)
  ofFamily := fun _ _ here => (nomatch here)

/-- Every table that is reached is in order. -/
theorem Reachable.kept (reached : Reachable family t) : Kept family t := by
  induction reached with
  | init => exact init_kept family
  | step _ allowed stepped ih =>
    obtain ⟨t', stepped', kept', -⟩ := step_spec ih allowed
    cases stepped.symm.trans stepped'
    exact kept'

/-! ## A table in order -/

/-- The table, read link by link: parents and links agree, a child is longer
than its parent, is covered by it and hangs on the side of its bit, no two nodes
have one masked prefix, nodes without a lock have two children, and the count is
right. -/
structure Ordered (t : BgpTable ι) : Prop where
  top : ∀ a, t.top = some a → ∃ n, t.heap a = some n ∧ n.parent = none
  links : ∀ a n bit c, t.heap a = some n → n.link bit = some c →
    ∃ m, t.heap c = some m ∧ m.parent = some a ∧ n.p.prefixlen < m.p.prefixlen ∧
      prefixMatch n.p m.p = true ∧ prefixBit m.p.octets n.p.prefixlen = bit
  hangs : ∀ c m, t.heap c = some m → match m.parent with
    | none => t.top = some c
    | some a => ∃ n bit, t.heap a = some n ∧ n.link bit = some c
  unique : ∀ a b n m, t.heap a = some n → t.heap b = some m → n.p.masked = m.p.masked → a = b
  filled : ∀ a n, t.heap a = some n → n.lock = 0 → ∀ bit, n.link bit ≠ none
  counted : t.Counted

theorem masked_bits {n m : OctetPrefix} (same : n.masked = m.masked) : n.bits = m.bits := by
  simp only [OctetPrefix.masked, Prefix.mk.injEq] at same
  exact same.2

theorem masked_eq_iff {n m : OctetPrefix} (family : n.family = m.family) :
    n.masked = m.masked ↔ n.bits = m.bits := by
  simp [OctetPrefix.masked, Prefix.mk.injEq, family]

theorem Kept.ordered (kept : Kept family t) : Ordered t where
  top a is_top := by
    have below : t.view.child none false = some a := is_top
    obtain ⟨key, known, parent, -⟩ := kept.tidy.wf.down below
    obtain ⟨n, here, -⟩ := node_of_key known
    exact ⟨n, here, (view_parent here).symm.trans parent⟩
  links a n bit c here link := by
    obtain ⟨key, known, parent, fits⟩ :=
      kept.tidy.wf.down ((view_child here bit).trans link)
    obtain ⟨m, there, rfl⟩ := node_of_key known
    obtain ⟨kn, known_n, grows⟩ := fits a rfl
    cases known_n.symm.trans (view_key here)
    have longer := grows.length_le
    simp only [List.length_append, List.length_singleton, bits_length] at longer
    exact ⟨m, there, (view_parent there).symm.trans parent, longer,
      (prefixMatch_iff _ _).mpr ((List.prefix_append _ _).trans grows), link_bit grows⟩
  hangs c m there := by
    obtain ⟨bit, link⟩ := kept.tidy.wf.up (view_key there)
    rw [view_parent there] at link
    cases up : m.parent with
    | none =>
      rw [up] at link
      exact link
    | some a =>
      rw [up] at link
      obtain ⟨n, here⟩ := Option.ne_none_iff_exists'.mp
        (fun missing => kept.tidy.wf.link_parent link (view_key_none.mpr missing))
      exact ⟨n, bit, here, (view_child here bit).symm.trans link⟩
  unique a b n m here there same := by
    refine kept.tidy.wf.key_unique (view_key here) ?_
    rw [view_key there, masked_bits same]
  filled a n here unlocked := kept.filled a n here unlocked nofun
  counted := kept.tidy.counted

/-- A table anywhere in a run is in order. Whatever its users may do returns, and
a node with a lock survives it with its prefix unless its last lock is what they
give back. The node that `bgp_node_get` returns is the only one of the prefix,
`bgp_node_lookup` finds exactly the nodes with contents, and `bgp_node_match`
the longest of those that cover the prefix. -/
theorem table_in_order {family : Afi} {t : BgpTable ι} (reached : Reachable family t) :
    Ordered t ∧
    (∀ op : Op ι, op.Allowed family t → ∃ t', step t op = some t' ∧
      ∀ b n, t.heap b = some n → 0 < n.lock → (op = .unlock b → 1 < n.lock) →
        ∃ n', t'.heap b = some n' ∧ n'.p = n.p ∧ 0 < n'.lock) ∧
    ∀ p : OctetPrefix, p.family = family →
      (∃ t' a n, bgpNodeGet t p = some (t', a) ∧ t'.heap a = some n ∧ n.p.masked = p.masked ∧
        0 < n.lock ∧ ∀ b m, t'.heap b = some m → m.p.masked = p.masked → b = a) ∧
      (∃ t' answer, bgpNodeLookup t p = some (t', answer) ∧
        ∀ a, answer = some a ↔
          ∃ n, t.heap a = some n ∧ n.p.masked = p.masked ∧ n.info ≠ none) ∧
      ∃ t' answer, bgpNodeMatch t p = some (t', answer) ∧ match answer with
        | none => ∀ a n, t.heap a = some n → prefixMatch n.p p = true → n.info = none
        | some a => ∃ n, t.heap a = some n ∧ prefixMatch n.p p = true ∧ n.info ≠ none ∧
          ∀ b m, t.heap b = some m → prefixMatch m.p p = true → m.info ≠ none →
            m.p.prefixlen ≤ n.p.prefixlen := by
  have kept := reached.kept
  refine ⟨kept.ordered, fun op allowed => ?_, fun p own => ⟨?_, ?_, ?_⟩⟩
  · obtain ⟨t', stepped, -, survives⟩ := step_spec kept allowed
    refine ⟨t', stepped, fun b n here held other => survives b (fun same m there => ?_) n here held⟩
    cases here.symm.trans there
    exact other same
  · obtain ⟨t', a, returns, kept', -, n, here, same, held⟩ := bgpNodeGet_spec kept own
    have family_n := kept'.ofFamily a n here
    have masked := (masked_eq_iff (family_n.trans own.symm)).mpr same
    refine ⟨t', a, n, returns, here, masked, held, fun b m there same' => ?_⟩
    exact kept'.ordered.unique b a m n there here (same'.trans masked.symm)
  · obtain ⟨t', answer, returns, -, -, found⟩ := bgpNodeLookup_spec kept p
    refine ⟨t', answer, returns, fun a => (found a).trans (exists_congr fun n => ?_)⟩
    refine and_congr_right fun here => ?_
    rw [masked_eq_iff ((kept.ofFamily a n here).trans own.symm)]
  · obtain ⟨t', answer, returns, -, -, best⟩ := bgpNodeMatch_spec kept p
    refine ⟨t', answer, returns, ?_⟩
    cases answer with
    | none => exact fun a n here covers => best a n here ((prefixMatch_iff _ _).mp covers)
    | some a =>
      obtain ⟨n, here, covers, contents, longest⟩ := best
      exact ⟨n, here, (prefixMatch_iff _ _).mpr covers, contents,
        fun b m there covers' => longest b m there ((prefixMatch_iff _ _).mp covers')⟩

/-- 10.0.0.0/8. -/
def sampleEight : OctetPrefix := ⟨.ip, 8, [10, 0, 0, 0], by decide⟩

/-- 10.128.0.0/9. -/
def sampleNine : OctetPrefix := ⟨.ip, 9, [10, 128, 0, 0], by decide⟩

/-- An empty table asked for 10.128.0.0/9. -/
def sampleFirst : BgpTable Nat := (step .init (.get sampleNine)).get (by decide)

/-- Then for 10.0.0.0/8, whose node goes above the other. -/
def sampleSecond : BgpTable Nat := (step sampleFirst (.get sampleEight)).get (by decide)

theorem sampleSecond_reached : Reachable .ip sampleSecond :=
  have first : Reachable .ip sampleFirst :=
    @Reachable.step _ _ _ _ (.get sampleNine) .init rfl (Option.some_get _).symm
  @Reachable.step _ _ _ _ (.get sampleEight) first rfl (Option.some_get _).symm

/-- The node of 10.0.0.0/8 is the top, and the lock on the other keeps it. -/
theorem table_in_order_sample :
    Ordered sampleSecond ∧ sampleSecond.top = some 1 ∧ sampleSecond.count = 2 ∧
      ∃ t', step sampleSecond (.unlock 1) = some t' ∧ ∃ n', t'.heap 0 = some n' ∧ 0 < n'.lock := by
  have node : sampleSecond.heap 1 ≠ none := by decide
  obtain ⟨n, here⟩ := Option.ne_none_iff_exists'.mp node
  have held : (sampleSecond.heap 1).map (·.lock) = some 1 := by decide
  have empty : (sampleSecond.heap 1).map (·.info) = some none := by decide
  have nine : (sampleSecond.heap 0).map (·.lock) = some 1 := by decide
  obtain ⟨m, there, one⟩ := Option.map_eq_some_iff.mp nine
  rw [here] at held empty
  have lock_n : n.lock = 1 := Option.some.inj held
  obtain ⟨t', stepped, survives⟩ := (table_in_order sampleSecond_reached).2.1 (.unlock 1)
    ⟨n, here, by omega, fun _ => Option.some.inj empty⟩
  obtain ⟨n', here', -, held'⟩ := survives 0 m there (by omega) nofun
  exact ⟨(table_in_order sampleSecond_reached).1, by decide, by decide, t', stepped, n', here',
    held'⟩

end Bgpd.NodeTable
