import Mathlib.Data.List.Nodup
import Mathlib.Logic.Function.Basic
import Mathlib.Tactic.Basic

/-!
# Chains of cells in memory

Cells that are allocated one by one, linked through an address of the next, and freed. A
read of a cell that is not there any more gives nothing, and neither does a walk that runs
out of fuel.

`Holds` says which cells lie between two pointers, with what each of them holds. Walks are
specified by it, and a copy of a chain lies in new cells.
-/

namespace Bgpd.Chains

universe u
variable {α : Type u}

/-- A cell: what it holds, and the address of the next one. -/
structure Cell (α : Type u) where
  value : α
  next : Option Nat
  deriving DecidableEq, Repr

/-- The cells, and the first address that was never used. -/
structure Memory (α : Type u) where
  cells : Nat → Option (Cell α)
  fresh : Nat

namespace Memory

/-- Nothing lies where nothing was allocated. -/
def Bounded (m : Memory α) : Prop := ∀ addr, m.fresh ≤ addr → m.cells addr = none

/-- A cell is written or freed. -/
def put (m : Memory α) (addr : Nat) (cell : Option (Cell α)) : Memory α :=
  { m with cells := Function.update m.cells addr cell }

/-- A new cell at the end of no chain. -/
def alloc (m : Memory α) (value : α) : Memory α :=
  { cells := Function.update m.cells m.fresh (some ⟨value, none⟩), fresh := m.fresh + 1 }

/-- The pointer of a cell is set. -/
def link (m : Memory α) (addr : Nat) (next : Option Nat) : Option (Memory α) :=
  (m.cells addr).map fun cell => m.put addr (some { cell with next })

/-- The value of a cell is set. -/
def write (m : Memory α) (addr : Nat) (value : α) : Option (Memory α) :=
  (m.cells addr).map fun cell => m.put addr (some { cell with value })

/-- A cell is freed. -/
def free (m : Memory α) (addr : Nat) : Option (Memory α) :=
  (m.cells addr).map fun _ => m.put addr none

/-- The address of the last cell of a chain. -/
def last (m : Memory α) : Nat → Nat → Option Nat
  | 0, _ => none
  | fuel + 1, addr =>
    (m.cells addr).bind fun cell =>
      match cell.next with
      | none => some addr
      | some next => last m fuel next

/-- The values of a chain. -/
def collect (m : Memory α) : Nat → Option Nat → Option (List α)
  | 0, _ => none
  | _ + 1, none => some []
  | fuel + 1, some addr =>
    (m.cells addr).bind fun cell => (collect m fuel cell.next).map (cell.value :: ·)

/-- The loop of a copy: `new` is the last cell copied, `head` the rest of the source. -/
def copyRest (copy : α → α) : Nat → Nat → Option Nat → Memory α → Option (Memory α)
  | 0, _, _, _ => none
  | _ + 1, _, none, m => some m
  | fuel + 1, new, some addr, m =>
    (m.cells addr).bind fun cell =>
      ((m.alloc (copy cell.value)).link new (some m.fresh)).bind fun m' =>
        (m'.cells addr).bind fun cell => copyRest copy fuel m.fresh cell.next m'

/-- A copy of a chain, and the pointer to its first cell. -/
def copyAll (copy : α → α) (fuel : Nat) (head : Option Nat) (m : Memory α) :
    Option (Option Nat × Memory α) :=
  match head with
  | none => some (none, m)
  | some addr =>
    (m.cells addr).bind fun cell =>
      (copyRest copy fuel m.fresh cell.next (m.alloc (copy cell.value))).map (some m.fresh, ·)

@[simp] theorem put_cells_same (m : Memory α) (addr : Nat) (cell : Option (Cell α)) :
    (m.put addr cell).cells addr = cell := Function.update_self ..

theorem put_cells_other (m : Memory α) {addr other : Nat} (cell : Option (Cell α))
    (apart : other ≠ addr) : (m.put addr cell).cells other = m.cells other :=
  Function.update_of_ne apart ..

theorem Bounded.lt {m : Memory α} (bounded : m.Bounded) {addr : Nat} {cell : Cell α}
    (found : m.cells addr = some cell) : addr < m.fresh := by
  by_contra past
  rw [bounded addr (Nat.not_lt.mp past)] at found
  contradiction

end Memory

/-- The cells between two pointers, each with its address and its value. -/
inductive Holds (m : Memory α) : Option Nat → List (Nat × α) → Option Nat → Prop
  | nil (head : Option Nat) : Holds m head [] head
  | cons {addr : Nat} {value : α} {next after : Option Nat} {rest : List (Nat × α)} :
    m.cells addr = some ⟨value, next⟩ → Holds m next rest after →
      Holds m (some addr) ((addr, value) :: rest) after

namespace Holds

variable {m m' : Memory α} {head mid after : Option Nat} {l front back : List (Nat × α)}

/-- Only the cells themselves matter. -/
theorem congr (holds : Holds m head l after)
    (same : ∀ addr ∈ l.map Prod.fst, m'.cells addr = m.cells addr) : Holds m' head l after := by
  induction holds with
  | nil head => exact .nil head
  | cons found _ ih =>
    rw [List.map_cons, List.forall_mem_cons] at same
    exact .cons (same.1.trans found) (ih same.2)

theorem append (first : Holds m head front mid) (second : Holds m mid back after) :
    Holds m head (front ++ back) after := by
  induction first with
  | nil head => exact second
  | cons found _ ih => exact .cons found (ih second)

theorem split (holds : Holds m head (front ++ back) after) :
    ∃ mid, Holds m head front mid ∧ Holds m mid back after := by
  induction front generalizing head with
  | nil => exact ⟨head, .nil head, holds⟩
  | cons first front ih =>
    cases holds with
    | cons found rest =>
      obtain ⟨mid, before, behind⟩ := ih rest
      exact ⟨mid, .cons found before, behind⟩

variable {addr : Nat}

/-- All cells of a chain are there. -/
theorem found (holds : Holds m head l after) (member : addr ∈ l.map Prod.fst) :
    ∃ cell, m.cells addr = some cell := by
  induction holds with
  | nil => contradiction
  | cons found _ ih =>
    rcases List.mem_cons.mp member with rfl | later
    · exact ⟨_, found⟩
    · exact ih later

/-- A whole chain is what lies behind its pointer. -/
theorem unique {l' : List (Nat × α)} (left : Holds m head l none) (right : Holds m head l' none) :
    l' = l := by
  induction l generalizing head l' with
  | nil =>
    cases left
    cases right
    rfl
  | cons first rest ih =>
    cases left with
    | cons found more =>
      cases right with
      | cons found' more' =>
        obtain ⟨rfl, rfl⟩ := Cell.mk.inj (Option.some.inj (found.symm.trans found'))
        rw [ih more more']

/-- A chain with cells begins at the first. -/
theorem head_eq {value : α} {rest : List (Nat × α)}
    (holds : Holds m head ((addr, value) :: rest) after) :
    head = some addr ∧ ∃ next, m.cells addr = some ⟨value, next⟩ ∧ Holds m next rest after := by
  cases holds with
  | cons found more => exact ⟨rfl, _, found, more⟩

/-- No cell lies twice in a whole chain: it would lie in front of itself without end. -/
theorem nodup (holds : Holds m head l none) : (l.map Prod.fst).Nodup := by
  induction l generalizing head with
  | nil => exact List.nodup_nil
  | cons first rest ih =>
    cases holds with
    | @cons addr value next _ _ found more =>
      refine List.nodup_cons.mpr ⟨fun again => ?_, ih more⟩
      obtain ⟨⟨addr', value'⟩, member, same⟩ := List.mem_map.mp again
      obtain ⟨before, behind, split⟩ := List.append_of_mem member
      rw [split] at more
      obtain ⟨mid, -, tail⟩ := more.split
      have whole : Holds m (some addr) ((addr, value) :: rest) none := by
        rw [split]
        exact .cons found more
      have from_ : mid = some addr := by
        cases tail
        exact congrArg some same
      rw [from_] at tail
      have equal := whole.unique tail
      have longer := congrArg List.length equal
      rw [split] at longer
      simp only [List.length_cons, List.length_append] at longer
      omega

theorem lt_fresh (holds : Holds m head l after) (bounded : m.Bounded)
    (member : addr ∈ l.map Prod.fst) : addr < m.fresh := by
  obtain ⟨cell, found⟩ := holds.found member
  exact bounded.lt found

end Holds

/-! ## The last cell -/

section Ends

variable {m : Memory α} {head : Option Nat} {front : List (Nat × α)} {addr : Nat} {value : α}

/-- The cells in front of the last one do not include it. -/
theorem Holds.front_apart (holds : Holds m head (front ++ [(addr, value)]) none) :
    ∀ other ∈ front.map Prod.fst, other ≠ addr := by
  rintro other member rfl
  have distinct := holds.nodup
  rw [List.map_append] at distinct
  exact (List.nodup_append.mp distinct).2.2 _ member _ (by simp) rfl

/-- The last cell is there, and points to nothing. -/
theorem Holds.last_found (holds : Holds m head (front ++ [(addr, value)]) none) :
    Holds m head front (some addr) ∧ m.cells addr = some ⟨value, none⟩ := by
  obtain ⟨mid, before, last⟩ := holds.split
  cases last with
  | cons found ending =>
    cases ending
    exact ⟨before, found⟩

/-- Another last cell in its place. -/
theorem Holds.put_last (holds : Holds m head (front ++ [(addr, value)]) none) (value' : α)
    (next : Option Nat) :
    Holds (m.put addr (some ⟨value', next⟩)) head (front ++ [(addr, value')]) next := by
  refine Holds.append ?_ (.cons (Memory.put_cells_same ..) (.nil next))
  exact holds.last_found.1.congr fun other member =>
    Memory.put_cells_other _ _ (holds.front_apart other member)

end Ends

/-! ## Walks -/

section Walks

variable {m : Memory α} {head : Option Nat} {l : List (Nat × α)}

/-- The walk to the last cell gets there with enough fuel, and nowhere without. -/
theorem last_eq {first addr : Nat} {value : α} {front : List (Nat × α)}
    (holds : Holds m (some first) (front ++ [(addr, value)]) none) (fuel : Nat) :
    m.last fuel first = if front.length < fuel then some addr else none := by
  induction front generalizing first fuel with
  | nil =>
    cases holds with
    | cons found more =>
      cases more
      cases fuel with
      | zero => rfl
      | succ fuel => simp [Memory.last, found]
  | cons second front ih =>
    cases fuel with
    | zero => rfl
    | succ fuel =>
      cases holds with
      | @cons _ _ next _ _ found more =>
      obtain ⟨behind, rfl⟩ : ∃ behind, next = some behind := by
        cases front <;> cases more <;> exact ⟨_, rfl⟩
      simp [Memory.last, found, ih more fuel]

theorem collect_eq (holds : Holds m head l none) (fuel : Nat) :
    m.collect fuel head = if l.length < fuel then some (l.map Prod.snd) else none := by
  induction l generalizing head fuel with
  | nil =>
    cases holds
    cases fuel <;> simp [Memory.collect]
  | cons first rest ih =>
    cases holds with
    | cons found more =>
      cases fuel with
      | zero => simp [Memory.collect]
      | succ fuel =>
        rw [Memory.collect, found, Option.bind_some, ih more fuel]
        split <;> simp_all

end Walks

/-! ## Copies -/

/-- What lies in memory behind a copy: the new cells, and the old ones as they were. -/
structure Copied (copy : α → α) (m m' : Memory α) (l l' : List (Nat × α)) : Prop where
  bounded : m'.Bounded
  values : l'.map Prod.snd = l.map fun cell => copy cell.2
  old : ∀ addr < m.fresh, m'.cells addr = m.cells addr
  new : ∀ addr ∈ l'.map Prod.fst, m.fresh ≤ addr

section Copies

variable {m : Memory α} {head src : Option Nat} {l : List (Nat × α)}

theorem Memory.Bounded.alloc (bounded : m.Bounded) (value : α) : (m.alloc value).Bounded := by
  intro addr past
  have behind : m.fresh + 1 ≤ addr := past
  have other : addr ≠ m.fresh := by omega
  exact (Function.update_of_ne other ..).trans (bounded addr (Nat.le_of_succ_le behind))

variable {addr : Nat}

theorem Memory.Bounded.put (bounded : m.Bounded) (inside : addr < m.fresh)
    (cell : Option (Cell α)) :
    (m.put addr cell).Bounded := by
  intro other past
  rw [Memory.put_cells_other m cell (by have : m.fresh ≤ other := past; omega)]
  exact bounded other past

theorem Memory.alloc_cells_old (inside : addr < m.fresh) (value : α) :
    (m.alloc value).cells addr = m.cells addr :=
  Function.update_of_ne (Nat.ne_of_lt inside) ..

/-- The loop of a copy appends the copies to the cells it already has. -/
theorem copyRest_spec (copy : α → α) {new : Nat} {value : α} {built : List (Nat × α)}
    (bounded : m.Bounded) (source : Holds m src l none)
    (chain : Holds m head (built ++ [(new, value)]) none)
    (apart : ∀ addr ∈ l.map Prod.fst, addr ∉ (built ++ [(new, value)]).map Prod.fst) (fuel : Nat) :
    (fuel ≤ l.length ∧ Memory.copyRest copy fuel new src m = none) ∨
      (l.length < fuel ∧ ∃ m' l', Memory.copyRest copy fuel new src m = some m' ∧
        m'.Bounded ∧ Holds m' head (built ++ [(new, value)] ++ l') none ∧
        (l'.map Prod.snd = l.map fun cell => copy cell.2) ∧
        (∀ addr < m.fresh, addr ≠ new → m'.cells addr = m.cells addr) ∧
        ∀ addr ∈ l'.map Prod.fst, m.fresh ≤ addr) := by
  induction l generalizing m src new value built fuel with
  | nil =>
    cases source
    cases fuel with
    | zero => exact Or.inl ⟨Nat.le_refl _, rfl⟩
    | succ fuel =>
      refine Or.inr ⟨Nat.succ_pos fuel, m, [], rfl, bounded, ?_, rfl, fun _ _ _ => rfl, nofun⟩
      rwa [List.append_nil]
  | cons first rest ih =>
    cases source with
    | @cons addr held next _ _ found more =>
    cases fuel with
    | zero => exact Or.inl ⟨Nat.zero_le _, rfl⟩
    | succ fuel =>
      -- the last cell of the copy so far points to nothing yet
      obtain ⟨front, newFound⟩ := chain.last_found
      have inside := bounded.lt found
      have newInside := bounded.lt newFound
      have others := List.forall_mem_cons.mp apart
      have notNew : addr ≠ new := fun same => others.1 (by simp [same])
      -- the memory behind one turn
      let m₁ := (m.alloc (copy held)).put new (some ⟨value, some m.fresh⟩)
      have kept {a : Nat} (below : a < m.fresh) (other : a ≠ new) : m₁.cells a = m.cells a :=
        (Memory.put_cells_other _ _ other).trans (Memory.alloc_cells_old below _)
      have linked : (m.alloc (copy held)).link new (some m.fresh) = some m₁ := by
        rw [Memory.link, Memory.alloc_cells_old newInside, newFound]
        rfl
      have copied : m₁.cells m.fresh = some ⟨copy held, none⟩ :=
        (Memory.put_cells_other _ _ (Nat.ne_of_gt newInside)).trans (Function.update_self ..)
      have turn : Memory.copyRest copy (fuel + 1) new (some addr) m =
          Memory.copyRest copy fuel m.fresh next m₁ := by
        rw [Memory.copyRest, found, Option.bind_some, linked, Option.bind_some,
          kept inside notNew, found, Option.bind_some]
      have source₁ : Holds m₁ next rest none := by
        refine more.congr fun a member => kept (more.lt_fresh bounded member) ?_
        rintro rfl
        exact others.2 _ member (by simp)
      have front₁ : Holds m₁ head built (some new) := front.congr fun a member =>
        kept (front.lt_fresh bounded member) (chain.front_apart a member)
      have chain₁ : Holds m₁ head (built ++ [(new, value)] ++ [(m.fresh, copy held)]) none := by
        rw [List.append_assoc]
        exact front₁.append (.cons (Memory.put_cells_same ..) (.cons copied (.nil none)))
      have apart₁ : ∀ a ∈ rest.map Prod.fst,
          a ∉ (built ++ [(new, value)] ++ [(m.fresh, copy held)]).map Prod.fst := by
        intro a member again
        rw [List.map_append, List.mem_append] at again
        rcases again with earlier | last
        · exact others.2 a member earlier
        · have below := more.lt_fresh bounded member
          simp only [List.map_cons, List.map_nil, List.mem_singleton] at last
          omega
      have bounded₁ : m₁.Bounded :=
        (bounded.alloc _).put (Nat.lt_succ_of_lt newInside) _
      rcases ih bounded₁ source₁ chain₁ apart₁ fuel with
        ⟨short, stops⟩ | ⟨enough, m', l', run, boundedEnd, holds, values, old, fresh⟩
      · exact Or.inl ⟨Nat.succ_le_succ short, turn.trans stops⟩
      · refine Or.inr ⟨Nat.succ_lt_succ enough, m', (m.fresh, copy held) :: l', turn.trans run,
          boundedEnd, ?_, ?_, ?_, ?_⟩
        · rw [List.append_assoc (built ++ [(new, value)])] at holds
          exact holds
        · rw [List.map_cons, List.map_cons, values]
        · intro a below other
          exact (old a (Nat.lt_succ_of_lt below) (Nat.ne_of_lt below)).trans (kept below other)
        · intro a member
          rcases List.mem_cons.mp member with rfl | later
          · exact Nat.le_refl _
          · exact Nat.le_of_succ_le (fresh a later)

/-- A copy of a chain, with enough fuel. -/
theorem copyAll_spec (copy : α → α) (bounded : m.Bounded) (source : Holds m head l none)
    (fuel : Nat) :
    (fuel < l.length ∧ Memory.copyAll copy fuel head m = none) ∨
      (l.length ≤ fuel ∧ ∃ head' m' l', Memory.copyAll copy fuel head m = some (head', m') ∧
        Holds m' head' l' none ∧ Copied copy m m' l l') := by
  cases l with
  | nil =>
    cases source
    exact Or.inr ⟨Nat.zero_le _, none, m, [], rfl, .nil none, bounded, rfl, fun _ _ => rfl, nofun⟩
  | cons first rest =>
    cases source with
    | @cons addr held next _ _ found more =>
    let m₁ := m.alloc (copy held)
    have kept {a : Nat} (below : a < m.fresh) : m₁.cells a = m.cells a :=
      Memory.alloc_cells_old below _
    have source₁ : Holds m₁ next rest none :=
      more.congr fun a member => kept (more.lt_fresh bounded member)
    have chain₁ : Holds m₁ (some m.fresh) ([] ++ [(m.fresh, copy held)]) none :=
      .cons (Function.update_self ..) (.nil none)
    have apart₁ : ∀ a ∈ rest.map Prod.fst, a ∉ ([] ++ [(m.fresh, copy held)]).map Prod.fst := by
      intro a member again
      have below := more.lt_fresh bounded member
      simp only [List.nil_append, List.map_cons, List.map_nil, List.mem_singleton] at again
      omega
    have begins : Memory.copyAll copy fuel (some addr) m =
        (Memory.copyRest copy fuel m.fresh next m₁).map (some m.fresh, ·) := by
      rw [Memory.copyAll, found, Option.bind_some]
    rcases copyRest_spec copy (bounded.alloc _) source₁ chain₁ apart₁ fuel with
      ⟨short, stops⟩ | ⟨enough, m', l', run, boundedEnd, holds, values, old, fresh⟩
    · exact Or.inl ⟨Nat.lt_succ_of_le short, by rw [begins, stops, Option.map_none]⟩
    · refine Or.inr ⟨enough, some m.fresh, m', (m.fresh, copy held) :: l',
        by rw [begins, run, Option.map_some], holds, boundedEnd, ?_, ?_, ?_⟩
      · rw [List.map_cons, List.map_cons, values]
      · intro a below
        exact (old a (Nat.lt_succ_of_lt below) (Nat.ne_of_lt below)).trans (kept below)
      · intro a member
        rcases List.mem_cons.mp member with rfl | later
        · exact Nat.le_refl _
        · exact Nat.le_of_succ_le (fresh a later)

end Copies

end Bgpd.Chains
