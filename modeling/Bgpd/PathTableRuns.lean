import Bgpd.PathTable

/-!
# The table of AS paths over a run

The table is right as long as every path that is interned has the string of its
segments. `aspath_add_seq` and `aspath_add_confed_seq` leave the string as it was; a
run is right if no path is interned between such an addition and the next function
that makes its string again.
-/

namespace Bgpd.PathTable

open Octets AsPath Interning PathStore HashChains
open AttrHash (aspathKeyMake)

variable {m : Ashash} {stale : Nat → Bool}

/-! ## Which strings are stale -/

/-- The private paths to which an AS number was added since their string was made. -/
def staleAfter (m : Ashash) (stale : Nat → Bool) : Event → Nat → Bool
  | .addSeq aspath _ => Function.update stale aspath true
  | .addConfedSeq aspath _ => Function.update stale aspath true
  | .deleteConfedSeq aspath =>
    if (segmentsAt m.paths.store aspath).any startsConfed then Function.update stale aspath false
    else stale
  | .prepend as1 as2 =>
    if segmentsAt m.paths.store as1 = some [] ∧ segmentsAt m.paths.store as2 ≠ some [] then stale
    else Function.update stale as2 false
  | _ => stale

/-- The path is private. -/
def Unshared (m : Ashash) (aspath : Nat) : Prop :=
  ∃ data, m.paths.store.cells aspath = some ⟨0, data⟩

/-- What the callers see to: paths are edited before they are interned, and uninterned
after. -/
def Allowed (m : Ashash) : Event → Prop
  | .addSeq aspath _ => Unshared m aspath
  | .addConfedSeq aspath _ => Unshared m aspath
  | .deleteConfedSeq aspath => Unshared m aspath
  | .prepend _ as2 => Unshared m as2
  | .filterExclude source _ => Unshared m source
  | .unintern aspath => ¬ Unshared m aspath
  | _ => True

/-- A path that is interned has had its string made since an AS number was added. -/
def Fresh (stale : Nat → Bool) : Event → Prop
  | .intern aspath => stale aspath = false
  | _ => True

/-- The states of all runs. -/
inductive Occurs : Ashash → Prop
  | start : Occurs Ashash.start
  | step {m m' : Ashash} (event : Event) : Occurs m → Allowed m event → m.step event = some m' →
      Occurs m'

/-- The states of the runs that intern fresh paths only, with the stale ones. -/
inductive Reached : Ashash → (Nat → Bool) → Prop
  | start : Reached Ashash.start (fun _ => false)
  | step {m m' : Ashash} {stale : Nat → Bool} (event : Event) : Reached m stale → Allowed m event →
      Fresh stale event → m.step event = some m' → Reached m' (staleAfter m stale event)

/-! ## What is right -/

/-- Every interned path has the string of its segments, and no two entries of the
table have the same segments. -/
structure Right (m : Ashash) : Prop where
  named : ∀ i, ∀ backet ∈ m.chains i, ∃ data, m.paths.store.read backet.data = some data ∧
    data.str = some (aspathMakeStrCount data.segments)
  distinct : ∀ (i j k l : Nat) (first second : Backet U32 Nat), (m.chains i)[k]? = some first →
    (m.chains j)[l]? = some second →
    segmentsAt m.paths.store first.data = segmentsAt m.paths.store second.data → i = j ∧ k = l

/-- The key of some segments. -/
def keyOf (segments : List Assegment) : U32 := aspathKeyMake (newPath segments)

/-- The string is the one of the segments. -/
def Named (data : PathData) : Prop := data.str = some (aspathMakeStrCount data.segments)

/-- The table files the shared paths, which have their strings, as have the private
ones that are not stale. -/
structure Coherent (m : Ashash) (stale : Nat → Bool) : Prop where
  filed : Filed slot keyOf (segmentsAt m.paths.store) m.chains
  shared : ∀ aspath, Holds m.chains aspath ↔
    ∃ count data, m.paths.store.cells aspath = some ⟨count + 1, data⟩
  named : ∀ aspath count data, m.paths.store.cells aspath = some ⟨count + 1, data⟩ → Named data
  fresh : ∀ aspath data, m.paths.store.cells aspath = some ⟨0, data⟩ → stale aspath = false →
    Named data

theorem Coherent.start : Coherent Ashash.start (fun _ => false) where
  filed := Filed.empty
  shared _ := ⟨nofun, nofun⟩
  named _ _ _ := nofun
  fresh _ _ := nofun

variable {data : PathData}

theorem key_named (named : Named data) : aspathKeyMake data = keyOf data.segments := by
  obtain ⟨segments, str⟩ := data
  cases (show str = some (aspathMakeStrCount segments) from named)
  rfl

theorem makeStr_named (named : Named data) : makeStr data = data := by
  obtain ⟨segments, str⟩ := data
  cases (show str = some (aspathMakeStrCount segments) from named)
  rfl

theorem Coherent.right (coherent : Coherent m stale) : Right m where
  named i backet member := by
    obtain ⟨count, data, live⟩ := (coherent.shared _).mp ⟨i, backet, member, rfl⟩
    refine ⟨data, ?_, coherent.named _ _ _ live⟩
    unfold Store.read
    rw [live]
    rfl
  distinct i j k l first second found found' same := by
    have member := List.mem_of_getElem? found
    have member' := List.mem_of_getElem? found'
    obtain ⟨value, is, key, place⟩ := coherent.filed.placed i first member
    obtain ⟨value', is', key', place'⟩ := coherent.filed.placed j second member'
    obtain rfl : value = value' := Option.some.inj (is.symm.trans (same.trans is'))
    obtain rfl : i = j := by rw [place, place', key, key']
    refine ⟨rfl, ?_⟩
    by_contra apart
    obtain ⟨inside, rfl⟩ := List.getElem?_eq_some_iff.mp found
    obtain ⟨inside', rfl⟩ := List.getElem?_eq_some_iff.mp found'
    have pairs := List.pairwise_iff_getElem.mp (coherent.filed.unique i)
    rcases Nat.lt_or_gt_of_ne apart with before | behind
    · exact pairs k l inside inside' before same
    · exact pairs l k inside' inside behind same.symm

/-! ## Building a path -/

variable {paths : Paths}

/-- A change of one place in memory that holds no shared path, before or after. -/
theorem Coherent.local_ {stale' : Nat → Bool} (coherent : Coherent m stale) (aspath : Nat)
    (before : ∀ count data, m.paths.store.cells aspath ≠ some ⟨count + 1, data⟩)
    (elsewhere : ∀ other, other ≠ aspath → paths.store.cells other = m.paths.store.cells other ∧
      stale' other = stale other)
    (here : ∀ cell, paths.store.cells aspath = some cell → cell.refcnt = 0 ∧
      (stale' aspath = false → Named cell.value)) :
    Coherent { m with paths } stale' := by
  have apart (other : Nat) (held : Holds m.chains other) : other ≠ aspath := by
    rintro rfl
    obtain ⟨count, data, live⟩ := (coherent.shared _).mp held
    exact before count data live
  have after (count : Nat) (data : PathData) :
      paths.store.cells aspath ≠ some ⟨count + 1, data⟩ := by
    intro live
    have zero : count + 1 = 0 := (here _ live).1
    exact Nat.succ_ne_zero _ zero
  constructor
  · refine coherent.filed.congr fun other held => ?_
    unfold segmentsAt Store.read
    rw [(elsewhere other (apart other held)).1]
  · intro other
    rw [coherent.shared other]
    by_cases same : other = aspath
    · subst same
      exact ⟨fun ⟨count, data, live⟩ => absurd live (before count data),
        fun ⟨count, data, live⟩ => absurd live (after count data)⟩
    · dsimp only
      rw [(elsewhere other same).1]
  · intro other count data live
    by_cases same : other = aspath
    · subst same
      exact absurd live (after count data)
    · dsimp only at live
      rw [(elsewhere other same).1] at live
      exact coherent.named other count data live
  · intro other data live fresh
    by_cases same : other = aspath
    · subst same
      exact (here _ live).2 fresh
    · dsimp only at live
      rw [(elsewhere other same).1] at live
      exact coherent.fresh other data live ((elsewhere other same).2 ▸ fresh)

/-- A new private path. -/
theorem Coherent.alloc (coherent : Coherent m stale) (segments : List Assegment)
    (lost : List Assegment) :
    Coherent { m with paths := ⟨(m.paths.store.alloc (newPath segments)).2, lost⟩ } stale := by
  have none := m.paths.store.beyond m.paths.store.next (Nat.le_refl _)
  refine coherent.local_ m.paths.store.next (fun count data live => ?_)
    (fun other apart => ⟨Store.put_elsewhere _ _ _ apart, rfl⟩) (fun cell live => ?_)
  · rw [none] at live
    cases live
  · dsimp only [Store.alloc] at live
    rw [Store.put_here] at live
    obtain rfl := Option.some.inj live
    exact ⟨rfl, fun _ => rfl⟩

variable {aspath : Nat}
variable {store : Store PathData}

/-- A private path is edited. -/
theorem Coherent.write (coherent : Coherent m stale) (stale' : Nat → Bool) (lost : List Assegment)
    (unshared : Unshared m aspath) (written : m.paths.store.write aspath data = some store)
    (elsewhere : ∀ other, other ≠ aspath → stale' other = stale other)
    (here : stale' aspath = false → Named data) :
    Coherent { m with paths := ⟨store, lost⟩ } stale' := by
  obtain ⟨old, private_⟩ := unshared
  unfold Store.write at written
  rw [private_] at written
  obtain rfl := Option.some.inj written
  refine coherent.local_ aspath (fun count data live => ?_)
    (fun other apart => ⟨Store.put_elsewhere _ _ _ apart, elsewhere other apart⟩)
      (fun cell live => ?_)
  · rw [private_] at live
    cases live
  · rw [Store.put_here] at live
    obtain rfl := Option.some.inj live
    exact ⟨rfl, here⟩

/-- A private path is freed. -/
theorem Coherent.free (coherent : Coherent m stale) (lost : List Assegment)
    (unshared : Unshared m aspath) (freed : m.paths.store.free aspath = some store) :
    Coherent { m with paths := ⟨store, lost⟩ } stale := by
  obtain ⟨old, private_⟩ := unshared
  unfold Store.free at freed
  rw [private_] at freed
  obtain rfl := Option.some.inj freed
  refine coherent.local_ aspath (fun count data live => ?_)
    (fun other apart => ⟨Store.put_elsewhere _ _ _ apart, rfl⟩) (fun cell live => ?_)
  · rw [private_] at live
    cases live
  · rw [Store.put_here] at live
    cases live

/-! ## Interning -/

variable {count : Nat}

theorem segmentsAt_cell {s : Store PathData} (live : s.cells aspath = some ⟨count, data⟩) :
    segmentsAt s aspath = some data.segments := by
  unfold segmentsAt Store.read
  rw [live]
  rfl

/-- A named path is found if and only if its segments are interned. -/
theorem Coherent.find (coherent : Coherent m stale) (named : Named data) (found : Nat) :
    aspathFind m data = some found ↔
      Holds m.chains found ∧ segmentsAt m.paths.store found = some data.segments := by
  unfold aspathFind
  rw [key_named named]
  exact coherent.filed.get data.segments found

theorem Coherent.missing (coherent : Coherent m stale) (named : Named data) :
    aspathFind m data = none ↔
      ∀ other, Holds m.chains other → segmentsAt m.paths.store other ≠ some data.segments := by
  constructor
  · intro none other held is
    rw [(coherent.find named other).mpr ⟨held, is⟩] at none
    cases none
  · intro absent
    cases found : aspathFind m data with
    | none => rfl
    | some other =>
      obtain ⟨held, is⟩ := (coherent.find named other).mp found
      exact absurd is (absent other held)

/-- One more reference to an interned path. -/
theorem Coherent.addRef (coherent : Coherent m stale) {found : Nat} (count' : Nat)
    (lost : List Assegment) (live : m.paths.store.cells found = some ⟨count + 1, data⟩) :
    Coherent { m with paths := ⟨m.paths.store.put found (some ⟨count' + 1, data⟩), lost⟩ }
      stale := by
  have same (other : Nat) : segmentsAt (m.paths.store.put found (some ⟨count' + 1, data⟩)) other =
      segmentsAt m.paths.store other := by
    by_cases here : other = found
    · subst here
      rw [segmentsAt_cell live, segmentsAt_cell (Store.put_here _ _ _)]
    · unfold segmentsAt Store.read
      rw [Store.put_elsewhere _ _ _ here]
  constructor
  · exact coherent.filed.congr fun other _ => same other
  · intro other
    rw [coherent.shared other]
    by_cases here : other = found
    · subst here
      simp only [Store.put_here, live, Option.some.injEq, Cell.mk.injEq]
      exact ⟨fun _ => ⟨count', data, rfl, rfl⟩, fun _ => ⟨count, data, rfl, rfl⟩⟩
    · simp only [Store.put_elsewhere _ _ _ here]
  · intro other count'' data' live'
    by_cases here : other = found
    · subst here
      simp only [Store.put_here, Option.some.injEq, Cell.mk.injEq] at live'
      exact live'.2 ▸ coherent.named other count data live
    · simp only [Store.put_elsewhere _ _ _ here] at live'
      exact coherent.named other count'' data' live'
  · intro other data' live'
    by_cases here : other = found
    · subst here
      simp only [Store.put_here, Option.some.injEq, Cell.mk.injEq] at live'
      exact absurd live'.1 (Nat.succ_ne_zero _)
    · simp only [Store.put_elsewhere _ _ _ here] at live'
      exact coherent.fresh other data' live'

/-- A named path whose segments are not interned enters the table. -/
theorem Coherent.put (coherent : Coherent m stale) {lost : List Assegment} (named : Named data)
    (before : ∀ count data', m.paths.store.cells aspath ≠ some ⟨count + 1, data'⟩)
    (missing : aspathFind m data = none) :
    Coherent
      { paths := ⟨m.paths.store.put aspath (some ⟨0 + 1, data⟩), lost⟩
        chains := hashPut slot (keyOf data.segments) aspath m.chains } stale := by
  have apart (other : Nat) (held : Holds m.chains other) : other ≠ aspath := by
    rintro rfl
    obtain ⟨count, data', live⟩ := (coherent.shared _).mp held
    exact before count data' live
  have same (other : Nat) (held : Holds m.chains other) :
      segmentsAt (m.paths.store.put aspath (some ⟨0 + 1, data⟩)) other =
        segmentsAt m.paths.store other := by
    unfold segmentsAt Store.read
    rw [Store.put_elsewhere _ _ _ (apart other held)]
  have filed := coherent.filed.congr same
  constructor
  · refine filed.put (segmentsAt_cell (Store.put_here _ _ _)) ?_
    cases found : hashGet slot (keyOf data.segments)
        (valued (segmentsAt (m.paths.store.put aspath (some ⟨0 + 1, data⟩))) data.segments)
        m.chains with
    | none => rfl
    | some other =>
      obtain ⟨held, is⟩ := (filed.get _ _).mp found
      rw [same other held] at is
      rw [(coherent.find named other).mpr ⟨held, is⟩] at missing
      cases missing
  · intro other
    rw [holds_put, coherent.shared other]
    by_cases here : other = aspath
    · subst here
      simp only [Store.put_here, Option.some.injEq, Cell.mk.injEq]
      exact ⟨fun _ => ⟨0, data, rfl, rfl⟩, fun _ => Or.inr trivial⟩
    · simp [here]
  · intro other count data' live
    by_cases here : other = aspath
    · subst here
      simp only [Store.put_here, Option.some.injEq, Cell.mk.injEq] at live
      exact live.2 ▸ named
    · simp only [Store.put_elsewhere _ _ _ here] at live
      exact coherent.named other count data' live
  · intro other data' live
    by_cases here : other = aspath
    · subst here
      simp only [Store.put_here, Option.some.injEq, Cell.mk.injEq] at live
      exact absurd live.1.symm (Nat.succ_ne_zero _).symm
    · simp only [Store.put_elsewhere _ _ _ here] at live
      exact coherent.fresh other data' live

variable {m' : Ashash}

/-- Parsing keeps the table right. -/
theorem Coherent.parse (coherent : Coherent m stale) {body : List U8} {use32bit : Bool}
    {result : Option Nat} (done : aspathParse m body use32bit = some (result, m')) :
    Coherent m' stale := by
  unfold aspathParse at done
  cases parsed : AsPath.aspathParse body use32bit with
  | none =>
    rw [parsed] at done
    obtain ⟨_, rfl⟩ := Prod.mk.inj (Option.some.inj done)
    exact coherent
  | some path =>
    rw [parsed] at done
    have named : Named (newPath path.segments) := rfl
    dsimp only at done
    cases found : aspathFind m (newPath path.segments) with
    | some find =>
      rw [found] at done
      obtain ⟨held, _⟩ := (coherent.find named find).mp found
      obtain ⟨count, data, live⟩ := (coherent.shared find).mp held
      simp only [Store.addRef, live, Option.map_some, Option.bind_eq_bind, Option.bind_some,
        Option.some.injEq, Prod.mk.injEq] at done
      obtain ⟨_, rfl⟩ := done
      exact coherent.addRef _ _ live
    | none =>
      rw [found] at done
      simp only [Store.addRef, Store.alloc, Store.put_here, Option.map_some, Option.bind_eq_bind,
        Option.bind_some, Option.some.injEq, Prod.mk.injEq] at done
      obtain ⟨_, rfl⟩ := done
      have absent := (coherent.missing named).mp found
      have made := coherent.alloc path.segments m.paths.lost
      refine made.put named (fun count data live =>
        ?_) ((made.missing named).mpr fun other held is => ?_)
      · dsimp only [Store.alloc] at live
        rw [Store.put_here] at live
        cases live
      · obtain ⟨count, data, live⟩ := (coherent.shared other).mp held
        have apart : other ≠ m.paths.store.next := (Store.lt_next live).ne
        refine absent other held (Eq.trans ?_ is)
        unfold segmentsAt Store.read
        dsimp only [Store.alloc]
        rw [Store.put_elsewhere _ _ _ apart]

variable {result : Nat}

/-- Interning a path that is not stale keeps the table right. -/
theorem Coherent.intern (coherent : Coherent m stale) (fresh : stale aspath = false)
    (done : aspathIntern m aspath = some (result, m')) : Coherent m' stale := by
  unfold aspathIntern at done
  cases live : m.paths.store.cells aspath with
  | none =>
    rw [live] at done
    cases done
  | some cell =>
    obtain ⟨count, data⟩ := cell
    rw [live] at done
    cases count with
    | succ count => simp at done
    | zero =>
      have named := coherent.fresh aspath data live fresh
      have written : m.paths.store.write aspath data =
          some (m.paths.store.put aspath (some ⟨0, data⟩)) := by
        unfold Store.write
        rw [live]
        rfl
      simp only [Option.bind_eq_bind, Option.bind_some, ne_eq, not_true, if_false,
        makeStr_named named, written] at done
      have coherent' := coherent.write stale m.paths.lost ⟨data, live⟩ written
        (fun _ _ => rfl) (fun _ => named)
      cases found : aspathFind
          { m with paths := ⟨m.paths.store.put aspath (some ⟨0, data⟩), m.paths.lost⟩ } data with
      | none =>
        rw [found] at done
        simp only [Store.addRef, Store.put_here, Option.map_some, Option.bind_some,
          Option.some.injEq, Prod.mk.injEq, key_named named] at done
        obtain ⟨_, rfl⟩ := done
        refine coherent'.put named (fun count data' live' => ?_) found
        rw [Store.put_here] at live'
        cases live'
      | some find =>
        rw [found] at done
        obtain ⟨held, _⟩ := (coherent'.find named find).mp found
        obtain ⟨count, data', live'⟩ := (coherent'.shared find).mp held
        have apart : find ≠ aspath := by
          rintro rfl
          rw [Store.put_here] at live'
          cases live'
        have freed : (m.paths.store.put aspath (some ⟨0, data⟩)).free aspath =
            some ((m.paths.store.put aspath (some ⟨0, data⟩)).put aspath none) := by
          unfold Store.free
          rw [Store.put_here]
          rfl
        have coherent'' := coherent'.free m.paths.lost ⟨data, Store.put_here _ _ _⟩ freed
        have live'' : ((m.paths.store.put aspath (some ⟨0, data⟩)).put aspath none).cells find =
            some ⟨count + 1, data'⟩ := by
          rw [Store.put_elsewhere _ _ _ apart]
          exact live'
        have referred := coherent''.addRef (count + 1) m.paths.lost live''
        have named' := coherent'.named find count data' live'
        simp only [freed, Option.bind_some, Store.addRef, live'', Option.map_some, Store.read,
          Store.put_here, Store.write, makeStr_named named', Option.some.injEq,
            Prod.mk.injEq] at done
        obtain ⟨_, rfl⟩ := done
        exact referred.addRef _ _ (Store.put_here _ _ _)

/-- Uninterning keeps the table right. -/
theorem Coherent.unintern (coherent : Coherent m stale) (shared : ¬ Unshared m aspath)
    (done : aspathUnintern m aspath = some m') : Coherent m' stale := by
  unfold aspathUnintern at done
  cases live : m.paths.store.cells aspath with
  | none =>
    rw [live] at done
    cases done
  | some cell =>
    obtain ⟨count, data⟩ := cell
    rw [live] at done
    cases count with
    | zero => exact absurd ⟨data, live⟩ shared
    | succ count =>
      simp only [Option.bind_eq_bind, Option.bind_some, Nat.add_sub_cancel] at done
      cases count with
      | succ count =>
        rw [if_pos (Nat.succ_ne_zero count)] at done
        obtain rfl := Option.some.inj done
        exact coherent.addRef _ _ live
      | zero =>
        have named := coherent.named aspath 0 data live
        obtain ⟨chains, released, filed, holds⟩ :=
          coherent.filed.release ((coherent.shared aspath).mpr ⟨0, data, live⟩)
            (segmentsAt_cell live)
        have freed : m.paths.store.free aspath = some (m.paths.store.put aspath none) := by
          unfold Store.free
          rw [live]
          rfl
        rw [if_neg (not_not.mpr rfl), key_named named, released] at done
        simp only [Option.bind_some, freed, Option.some.injEq] at done
        obtain rfl := done
        constructor
        · refine filed.congr fun other held => ?_
          unfold segmentsAt Store.read
          rw [Store.put_elsewhere _ _ _ ((holds other).mp held).2]
        · intro other
          rw [holds, coherent.shared other]
          by_cases here : other = aspath
          · subst here
            simp only [Store.put_here, ne_eq, not_true, and_false, false_iff]
            rintro ⟨count, live, kept⟩
            cases kept
          · simp [here]
        · intro other count data' live'
          by_cases here : other = aspath
          · subst here
            simp only [Store.put_here] at live'
            cases live'
          · simp only [Store.put_elsewhere _ _ _ here] at live'
            exact coherent.named other count data' live'
        · intro other data' live'
          by_cases here : other = aspath
          · subst here
            simp only [Store.put_here] at live'
            cases live'
          · simp only [Store.put_elsewhere _ _ _ here] at live'
            exact coherent.fresh other data' live'

/-! ## Steps -/

/-- What an edit in place writes over a private path. -/
theorem Coherent.rewrite (coherent : Coherent m stale) (unshared : Unshared m aspath)
    {segments : List Assegment} (done : rewriteSegments m.paths aspath segments = some paths) :
    Coherent { m with paths } (Function.update stale aspath false) := by
  unfold rewriteSegments at done
  obtain ⟨store, written, rfl⟩ := Option.bind_eq_some_iff.mp done |>.imp fun _ both =>
    And.imp_right Option.some.inj both
  exact coherent.write _ m.paths.lost unshared written (fun _ apart =>
    Function.update_of_ne apart _ _)
    fun _ => rfl

/-- An AS number is added and the string left as it was. -/
theorem Coherent.addOneAs (coherent : Coherent m stale) (unshared : Unshared m aspath) {asno : U32}
    {type : SegmentType} (done : aspathAddOneAs m.paths aspath asno type = some paths) :
    Coherent { m with paths } (Function.update stale aspath true) := by
  unfold PathStore.aspathAddOneAs at done
  simp only [Option.bind_eq_bind, Option.bind_eq_some_iff] at done
  obtain ⟨data, _, store, written, same⟩ := done
  obtain rfl := Option.some.inj same
  refine coherent.write _ _ unshared written (fun _ apart => Function.update_of_ne apart _ _) ?_
  intro fresh
  rw [Function.update_self] at fresh
  cases fresh

theorem Coherent.deleteConfedSeq (coherent : Coherent m stale) (unshared : Unshared m aspath)
    (done : aspathDeleteConfedSeq m.paths aspath = some paths) :
    Coherent { m with paths } (staleAfter m stale (.deleteConfedSeq aspath)) := by
  unfold PathStore.aspathDeleteConfedSeq at done
  simp only [Option.bind_eq_bind, Option.bind_eq_some_iff] at done
  obtain ⟨data, read, done⟩ := done
  have at_ : segmentsAt m.paths.store aspath = some data.segments := congrArg (Option.map _) read
  dsimp only [staleAfter]
  rw [at_]
  by_cases starts : startsConfed data.segments = true
  · rw [if_pos starts] at done
    dsimp only [Option.any_some]
    rw [if_pos starts]
    exact coherent.rewrite unshared done
  · rw [if_neg starts] at done
    obtain rfl := Option.some.inj done
    dsimp only [Option.any_some]
    rw [if_neg starts]
    exact coherent

theorem Coherent.prepend (coherent : Coherent m stale) {as1 as2 : Nat} (unshared : Unshared m as2)
    {data1 : PathData} (read1 : m.paths.store.read as1 = some data1)
    (done : aspathPrepend m.paths data1.path as2 = some paths) :
    Coherent { m with paths } (staleAfter m stale (.prepend as1 as2)) := by
  unfold aspathPrepend at done
  simp only [Option.bind_eq_bind, Option.bind_eq_some_iff] at done
  obtain ⟨data2, read2, done⟩ := done
  have at1 : segmentsAt m.paths.store as1 = some data1.segments := congrArg (Option.map _) read1
  have at2 : segmentsAt m.paths.store as2 = some data2.segments := congrArg (Option.map _) read2
  dsimp only [staleAfter]
  rw [at1, at2]
  cases segments2 : data2.segments with
  | nil =>
    rw [segments2] at done
    rw [if_neg (by simp)]
    exact coherent.rewrite unshared done
  | cons seg2 next =>
    rw [segments2] at done
    cases last : data1.path.segments.getLast? with
    | none =>
      rw [last] at done
      have empty : data1.segments = [] := List.getLast?_eq_none_iff.mp last
      rw [if_pos ⟨congrArg some empty, by simp⟩]
      obtain rfl := Option.some.inj done
      exact coherent
    | some seg1 =>
      rw [last] at done
      have filled : data1.segments ≠ [] := by
        intro empty
        have none : data1.path.segments.getLast? = none := List.getLast?_eq_none_iff.mpr empty
        rw [none] at last
        cases last
      rw [if_neg (by simpa using fun empty => absurd empty filled)]
      dsimp only at done
      split at done
      · cases done
      · split at done
        · exact coherent.rewrite unshared done
        · split at done
          · exact coherent.rewrite unshared done
          · exact coherent.rewrite unshared done

theorem Coherent.filterExclude (coherent : Coherent m stale) {source : Nat}
    (unshared : Unshared m source) {exclude : Aspath}
    (done : aspathFilterExclude m.paths source exclude = some (result, paths)) :
    Coherent { m with paths } stale := by
  unfold aspathFilterExclude at done
  simp only [Option.bind_eq_bind, Option.bind_eq_some_iff] at done
  obtain ⟨data, read, done⟩ := done
  obtain ⟨paths', freed, same⟩ := done
  obtain ⟨_, rfl⟩ := Prod.mk.inj (Option.some.inj same)
  unfold aspathFree at freed
  simp only [Option.bind_eq_bind, Option.bind_eq_some_iff] at freed
  obtain ⟨store, freed, same'⟩ := freed
  obtain rfl := Option.some.inj same'
  obtain ⟨old, live⟩ := unshared
  refine Coherent.free (coherent.alloc _ m.paths.lost) m.paths.lost ⟨old, ?_⟩ freed
  exact (Store.put_elsewhere _ _ _ (Store.lt_next live).ne).trans live

variable {event : Event}

theorem Coherent.step (coherent : Coherent m stale) (allowed : Allowed m event)
    (fresh : Fresh stale event) (next : m.step event = some m') :
    Coherent m' (staleAfter m stale event) := by
  cases event with
  | parse body use32bit =>
    obtain ⟨⟨result, m''⟩, done, rfl⟩ := Option.map_eq_some_iff.mp next
    exact coherent.parse done
  | str2aspath str =>
    obtain rfl := Option.some.inj next
    cases aspathStr2aspath str with
    | none => exact coherent
    | some segments => exact coherent.alloc segments m.paths.lost
  | dup aspath =>
    obtain ⟨⟨result, paths⟩, done, rfl⟩ := Option.map_eq_some_iff.mp next
    unfold aspathDup at done
    simp only [Option.bind_eq_bind, Option.bind_eq_some_iff] at done
    obtain ⟨data, _, same⟩ := done
    obtain ⟨_, rfl⟩ := Prod.mk.inj (Option.some.inj same)
    exact coherent.alloc data.segments m.paths.lost
  | addSeq aspath asno =>
    obtain ⟨paths, done, rfl⟩ := Option.map_eq_some_iff.mp next
    exact coherent.addOneAs allowed done
  | addConfedSeq aspath asno =>
    obtain ⟨paths, done, rfl⟩ := Option.map_eq_some_iff.mp next
    exact coherent.addOneAs allowed done
  | deleteConfedSeq aspath =>
    obtain ⟨paths, done, rfl⟩ := Option.map_eq_some_iff.mp next
    exact coherent.deleteConfedSeq allowed done
  | prepend as1 as2 =>
    unfold Ashash.step at next
    simp only [Option.bind_eq_bind, Option.bind_eq_some_iff] at next
    obtain ⟨data1, read1, paths, done, same⟩ := next
    obtain rfl := Option.some.inj same
    exact coherent.prepend allowed read1 done
  | filterExclude source exclude =>
    unfold Ashash.step at next
    simp only [Option.bind_eq_bind, Option.bind_eq_some_iff] at next
    obtain ⟨data, _, ⟨result, paths⟩, done, same⟩ := next
    obtain rfl := Option.some.inj same
    exact coherent.filterExclude allowed done
  | aggregate as1 as2 =>
    unfold Ashash.step at next
    simp only [Option.bind_eq_bind, Option.bind_eq_some_iff] at next
    obtain ⟨data1, _, data2, _, same⟩ := next
    obtain rfl := Option.some.inj same
    exact coherent.alloc _ m.paths.lost
  | reconcileAs4 aspath as4path =>
    unfold Ashash.step at next
    simp only [Option.bind_eq_bind, Option.bind_eq_some_iff] at next
    obtain ⟨data, _, data4, _, same⟩ := next
    obtain rfl := Option.some.inj same
    exact coherent.alloc _ m.paths.lost
  | intern aspath =>
    obtain ⟨⟨result, m''⟩, done, rfl⟩ := Option.map_eq_some_iff.mp next
    exact coherent.intern fresh done
  | unintern aspath => exact coherent.unintern allowed next

/-- In every run that interns fresh paths only, the table is right in every state. A path is
stale where a number was put in front of it: its string, by which it is hashed, is not
made again. -/
theorem paths_right {m : Ashash} {stale : Nat → Bool} (reached : Reached m stale) : Right m := by
  suffices coherent : Coherent m stale from coherent.right
  induction reached with
  | start => exact Coherent.start
  | step event _ allowed fresh next ih => exact ih.step allowed fresh next

/-! ## A run that is right and one that is not -/

/-- The state after one event. -/
def after (event : Event) (m : Ashash) : Ashash := (m.step event).getD m

theorem step_after (goes : (m.step event).isSome = true) : m.step event = some (after event m) := by
  obtain ⟨m', next⟩ := Option.isSome_iff_exists.mp goes
  unfold after
  rw [next]
  rfl

theorem unshared_of (count : (m.paths.store.cells aspath).map (·.refcnt) = some 0) :
    Unshared m aspath := by
  obtain ⟨⟨refcnt, data⟩, live, rfl⟩ := Option.map_eq_some_iff.mp count
  exact ⟨data, live⟩

/-- The path `1` is received and copied. -/
def copied : Ashash :=
  after (.dup 0) (after (.parse [2, 1, 0, 0, 0, 1] true) Ashash.start)

/-- An AS number is added to the copy. -/
def extended : Ashash := after (.addSeq 1 5) copied

theorem paths_right_copied : Right (after (.intern 1) copied) := by
  have parsed : Reached _ _ :=
    .step (.parse [2, 1, 0, 0, 0, 1] true) .start trivial trivial (step_after (by decide +kernel))
  have copied : Reached copied _ :=
    .step (.dup 0) parsed trivial trivial (step_after (by decide +kernel))
  exact paths_right (.step (.intern 1) copied trivial rfl (step_after (by decide +kernel)))

/-- The path with the AS number in front is interned under the string of the path
without it. -/
theorem paths_not_right : ∃ m, Occurs m ∧ ¬ Right m := by
  have parsed : Occurs _ :=
    .step (.parse [2, 1, 0, 0, 0, 1] true) .start trivial (step_after (by decide +kernel))
  have copied : Occurs copied := .step (.dup 0) parsed trivial (step_after (by decide +kernel))
  have extended : Occurs extended :=
    .step (.addSeq 1 5) copied (unshared_of (by decide +kernel)) (step_after (by decide +kernel))
  have interned : Occurs (after (.intern 1) PathTable.extended) :=
    .step (.intern 1) extended trivial (step_after (by decide +kernel))
  refine ⟨_, interned, fun right => ?_⟩
  have wrong : ∃ backet ∈ (after (.intern 1) PathTable.extended).chains
        (slot (keyOf [⟨.asSequence, [1]⟩])),
      ((after (.intern 1) PathTable.extended).paths.store.read backet.data).any
        (fun data => data.str = some (aspathMakeStrCount data.segments)) = false := by
    decide +kernel
  obtain ⟨backet, member, mistaken⟩ := wrong
  obtain ⟨data, read, named⟩ := right.named _ backet member
  rw [read, Option.any_some, decide_eq_true named] at mistaken
  cases mistaken

end Bgpd.PathTable
