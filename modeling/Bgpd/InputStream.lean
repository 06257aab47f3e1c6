import Bgpd.Octets

/-!
# Input streams

A stream as its readers use it: a buffer, the position of the next octet and
the end of the data. The stream functions check every access against the end.
An access beyond it trips an assertion, which ends the process, so a reader is
a partial function and having a value means that no assertion failed. A raw
pointer into the buffer is not checked by anything.

`touched` is history: the positions read or written so far, through the stream
functions or through a raw pointer. No function looks at it.
-/

namespace Bgpd.InputStream

open Octets

/-- `struct stream`. The end of the data lies inside the buffer. -/
structure Stream where
  data : List U8
  getp : Nat
  endp : Nat
  touched : List Nat
  sized : endp ≤ data.length
  deriving DecidableEq

namespace Stream

/-- The octets from a position on. -/
def octetsAt (s : Stream) (pos count : Nat) : List U8 := (s.data.drop pos).take count

/-- Note that the octets of a range were accessed. -/
def touch (s : Stream) (pos count : Nat) : Stream :=
  { s with touched := List.range' pos count ++ s.touched }

/-- Move the read pointer over octets that are read. -/
def advance (s : Stream) (count : Nat) : Stream :=
  { s.touch s.getp count with getp := s.getp + count }

/-- Move the read pointer only. -/
def skip (s : Stream) (count : Nat) : Stream := { s with getp := s.getp + count }

/-- `stream_get`, and the common part of its fixed-size relatives. -/
def streamGet (s : Stream) (count : Nat) : Option (List U8 × Stream) :=
  if s.endp < s.getp + count then none
  else some (s.octetsAt s.getp count, s.advance count)

/-- `stream_getc`. -/
def streamGetc (s : Stream) : Option (U8 × Stream) := do
  let (octets, s) ← s.streamGet 1
  return (getc octets, s)

/-- `stream_getw`. -/
def streamGetw (s : Stream) : Option (U16 × Stream) := do
  let (octets, s) ← s.streamGet 2
  return (getw octets, s)

/-- `stream_getl`, and `stream_get_ipv4`, which keeps the order of the wire. -/
def streamGetl (s : Stream) : Option (U32 × Stream) := do
  let (octets, s) ← s.streamGet 4
  return (getl octets, s)

/-- `stream_forward_getp`. -/
def streamForwardGetp (s : Stream) (size : Nat) : Option Stream :=
  if s.endp < s.getp + size then none else some (s.skip size)

/-- Read through a raw pointer. -/
def readAt (s : Stream) (pos count : Nat) : List U8 × Stream :=
  (s.octetsAt pos count, s.touch pos count)

/-- Write one octet through a raw pointer. -/
def writeAt (s : Stream) (pos : Nat) (octet : U8) : Stream :=
  { s with
    data := s.data.set pos octet
    touched := pos :: s.touched
    sized := by simpa only [List.length_set] using s.sized }

section Fields

variable (s : Stream) (pos count : Nat) (octet : U8)

@[simp] theorem touch_getp : (s.touch pos count).getp = s.getp := rfl
@[simp] theorem advance_data : (s.advance count).data = s.data := rfl
@[simp] theorem advance_getp : (s.advance count).getp = s.getp + count := rfl
@[simp] theorem advance_endp : (s.advance count).endp = s.endp := rfl

@[simp] theorem skip_getp : (s.skip count).getp = s.getp + count := rfl
@[simp] theorem writeAt_getp : (s.writeAt pos octet).getp = s.getp := rfl

theorem mem_touch (p : Nat) :
    p ∈ (s.touch pos count).touched ↔ (pos ≤ p ∧ p < pos + count) ∨ p ∈ s.touched := by
  simp [touch]

end Fields

/-! ## Accesses that stay before the end -/

theorem streamGet_eq (s : Stream) (count : Nat) (room : s.getp + count ≤ s.endp) :
    s.streamGet count = some (s.octetsAt s.getp count, s.advance count) :=
  if_neg (by omega)

/-- What is left behind a read. -/
theorem advance_room {s : Stream} {count more : Nat} (room : s.getp + count + more ≤ s.endp) :
    (s.advance count).getp + more ≤ (s.advance count).endp := room

theorem streamGetc_eq (s : Stream) (room : s.getp + 1 ≤ s.endp) :
    s.streamGetc = some (getc (s.octetsAt s.getp 1), s.advance 1) := by
  rw [streamGetc, streamGet_eq s 1 room]
  rfl

theorem streamGetw_eq (s : Stream) (room : s.getp + 2 ≤ s.endp) :
    s.streamGetw = some (getw (s.octetsAt s.getp 2), s.advance 2) := by
  rw [streamGetw, streamGet_eq s 2 room]
  rfl

theorem streamGetl_eq (s : Stream) (room : s.getp + 4 ≤ s.endp) :
    s.streamGetl = some (getl (s.octetsAt s.getp 4), s.advance 4) := by
  rw [streamGetl, streamGet_eq s 4 room]
  rfl

theorem streamForwardGetp_eq (s : Stream) (size : Nat) (room : s.getp + size ≤ s.endp) :
    s.streamForwardGetp size = some (s.skip size) :=
  if_neg (by omega)

theorem octetsAt_length (s : Stream) {pos count : Nat} (room : pos + count ≤ s.data.length) :
    (s.octetsAt pos count).length = count := by
  rw [Stream.octetsAt, List.length_take, List.length_drop]
  omega

/-- A window of the buffer behind its first octets. -/
theorem octetsAt_drop (s : Stream) (pos count front : Nat) :
    (s.octetsAt pos count).drop front = s.octetsAt (pos + front) (count - front) := by
  rw [Stream.octetsAt, List.drop_take, List.drop_drop]
  rfl

theorem octetsAt_cons (s : Stream) {pos : Nat} (room : pos < s.data.length) :
    ∃ octet, ∀ count, 0 < count →
      s.octetsAt pos count = octet :: s.octetsAt (pos + 1) (count - 1) := by
  refine ⟨s.data[pos], fun count some => ?_⟩
  obtain ⟨count, rfl⟩ := Nat.exists_eq_add_of_le' some
  simp only [Stream.octetsAt, List.drop_eq_getElem_cons room]
  rfl

/-- The next octet, with those behind it. -/
theorem streamGetc_cons (s : Stream) (room : s.getp + 1 ≤ s.endp) :
    ∃ octet, s.streamGetc = some (octet, s.advance 1) ∧ ∀ count, 0 < count →
      s.octetsAt s.getp count = octet :: s.octetsAt (s.getp + 1) (count - 1) := by
  obtain ⟨octet, octets⟩ := s.octetsAt_cons (room.trans s.sized)
  refine ⟨octet, ?_, octets⟩
  rw [s.streamGetc_eq room, octets 1 Nat.one_pos]
  rfl

end Stream

/-! ## Readers that return -/

/-- A reader returns, with a result of which the postcondition holds. -/
def Ensures {α : Type} (reader : Option α) (post : α → Prop) : Prop :=
  ∃ result, reader = some result ∧ post result

section Returning

variable {α β : Type} {post : α → Prop}
variable {result : α}

theorem Ensures.intro (holds : post result) : Ensures (some result) post :=
  ⟨result, rfl, holds⟩

variable {reader : Option α}

theorem Ensures.of_eq (returned : reader = some result) : Ensures reader (· = result) :=
  ⟨result, returned, rfl⟩

theorem Ensures.mono {weaker : α → Prop} (returns : Ensures reader post)
    (weaken : ∀ result, post result → weaker result) : Ensures reader weaker :=
  let ⟨result, returned, holds⟩ := returns
  ⟨result, returned, weaken result holds⟩

variable {goal : β → Prop}

/-- A reader that goes on with the result of another. -/
theorem Ensures.bind {next : α → Option β} (returns : Ensures reader post)
    (continues : ∀ result, post result → Ensures (next result) goal) :
    Ensures (reader >>= next) goal := by
  obtain ⟨result, rfl, holds⟩ := returns
  exact continues result holds

theorem Ensures.map {next : α → β} (returns : Ensures reader post)
    (holds : ∀ result, post result → goal (next result)) : Ensures (reader.map next) goal := by
  obtain ⟨result, rfl, held⟩ := returns
  exact .intro (holds result held)

end Returning

section Reading

variable {s : Stream}

/-- What a fixed-size reader does to the stream. -/
theorem Ensures.streamGet {count : Nat} (room : s.getp + count ≤ s.endp) :
    Ensures (s.streamGet count) fun read => read.2 = s.advance count :=
  ⟨_, s.streamGet_eq count room, rfl⟩

theorem Ensures.streamGetc (room : s.getp + 1 ≤ s.endp) :
    Ensures s.streamGetc fun read => read.2 = s.advance 1 :=
  ⟨_, s.streamGetc_eq room, rfl⟩

theorem Ensures.streamGetw (room : s.getp + 2 ≤ s.endp) :
    Ensures s.streamGetw fun read => read.2 = s.advance 2 :=
  ⟨_, s.streamGetw_eq room, rfl⟩

theorem Ensures.streamGetl (room : s.getp + 4 ≤ s.endp) :
    Ensures s.streamGetl fun read => read.2 = s.advance 4 :=
  ⟨_, s.streamGetl_eq room, rfl⟩

theorem Ensures.streamForwardGetp {size : Nat} (room : s.getp + size ≤ s.endp) :
    Ensures (s.streamForwardGetp size) fun after => after = s.skip size :=
  ⟨_, s.streamForwardGetp_eq size room, rfl⟩

end Reading

/-! ## What a reader leaves alone -/

/-- From one stream to a later one a reader touched only octets of a window,
its pointer moved forward and did not leave the window, and the octets ahead of
the pointer are what they were. -/
structure Within (first last : Nat) (before after : Stream) : Prop where
  endp : after.endp = before.endp
  forward : before.getp ≤ after.getp
  stops : after.getp ≤ last
  ahead : ∀ pos, after.getp ≤ pos → after.data[pos]? = before.data[pos]?
  touched : ∀ pos ∈ after.touched, pos ∈ before.touched ∨ (first ≤ pos ∧ pos < last)

namespace Within

variable {first last : Nat} {s t u : Stream}

theorem refl (inside : s.getp ≤ last) : Within first last s s where
  endp := rfl
  forward := le_rfl
  stops := inside
  ahead := fun _ _ => rfl
  touched := fun _ known => .inl known

theorem trans (left : Within first last s t) (right : Within first last t u) :
    Within first last s u where
  endp := right.endp.trans left.endp
  forward := left.forward.trans right.forward
  stops := right.stops
  ahead := fun pos later =>
    (right.ahead pos later).trans (left.ahead pos (right.forward.trans later))
  touched := by
    intro pos known
    rcases right.touched pos known with earlier | inside
    · exact left.touched pos earlier
    · exact .inr inside

/-- A window inside another. -/
theorem widen {outer_first outer_last : Nat} (within : Within first last s t)
    (lower : outer_first ≤ first) (upper : last ≤ outer_last) :
    Within outer_first outer_last s t where
  endp := within.endp
  forward := within.forward
  stops := within.stops.trans upper
  ahead := within.ahead
  touched := by
    intro pos known
    rcases within.touched pos known with earlier | inside
    · exact .inl earlier
    · exact .inr ⟨by omega, by omega⟩

variable {count : Nat}
variable {pos : Nat}

/-- Accessing octets of the window. -/
theorem touch (within : Within first last s t) (lower : first ≤ pos) (upper : pos + count ≤ last) :
    Within first last s (t.touch pos count) where
  endp := within.endp
  forward := within.forward
  stops := within.stops
  ahead := within.ahead
  touched := by
    intro p known
    rcases (Stream.mem_touch t pos count p).mp known with inside | earlier
    · exact .inr ⟨by omega, by omega⟩
    · exact within.touched p earlier

/-- Moving the pointer over octets of the window. -/
theorem skip (within : Within first last s t) (upper : t.getp + count ≤ last) :
    Within first last s (t.skip count) where
  endp := within.endp
  forward := within.forward.trans (Nat.le_add_right _ _)
  stops := upper
  ahead := fun pos later => within.ahead pos ((Nat.le_add_right _ _).trans later)
  touched := within.touched

/-- Reading octets of the window. -/
theorem advance (within : Within first last s t) (lower : first ≤ t.getp)
    (upper : t.getp + count ≤ last) : Within first last s (t.advance count) :=
  (within.touch lower upper).skip upper

/-- One read behind another. -/
theorem twice {more : Nat} (lower : first ≤ s.getp) (upper : s.getp + count + more ≤ last) :
    Within first last s ((s.advance count).advance more) :=
  advance (advance (refl (by omega)) lower (by omega)) (lower.trans (Nat.le_add_right _ _)) upper

/-- Writing an octet of the window that the pointer has passed. -/
theorem writeAt {octet : U8} (within : Within first last s t) (lower : first ≤ pos)
    (upper : pos < last) (passed : pos < t.getp) :
    Within first last s (t.writeAt pos octet) where
  endp := within.endp
  forward := within.forward
  stops := within.stops
  ahead := by
    intro p later
    have apart : pos ≠ p := by
      rw [Stream.writeAt_getp] at later
      omega
    exact (List.getElem?_set_ne apart).trans (within.ahead p later)
  touched := by
    intro p known
    rcases List.mem_cons.mp known with rfl | earlier
    · exact .inr ⟨lower, upper⟩
    · exact within.touched p earlier

end Within

/-- The octets at a position are those of the original buffer, as long as the
pointer has not passed them. -/
theorem drop_ahead {first last : Nat} {s t : Stream} (within : Within first last s t) {pos : Nat}
    (ahead : t.getp ≤ pos) : t.data.drop pos = s.data.drop pos := by
  apply List.ext_getElem?
  intro i
  rw [List.getElem?_drop, List.getElem?_drop]
  exact within.ahead _ (ahead.trans (Nat.le_add_right _ _))

end Bgpd.InputStream
