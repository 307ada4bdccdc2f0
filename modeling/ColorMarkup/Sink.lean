import ColorMarkup.Object
/-!
# Output under a capacity

A sink collects bytes. With a capacity, one byte of it is kept for a terminator:
data fits only if it is shorter than the room left. Data that does not fit leaves
the sink as it was.

Any object can be offered. The room is checked against the length of one that has
a length, and only then must it have memory, whose bytes are written. So an object
without memory that would fit takes its room and adds nothing, and one whose items
are wider than a byte adds more bytes than it takes room.

Results:
* `toBytes_append`: what an accepted append adds.
* `append_isOk_iff`, `room_append`: which data is accepted, and the room after.
* `ensureFits_isOk_iff`: which sources are accepted.
-/
namespace ColorMarkup

/-- Bytes written so far, the last one first, and the room left, if limited. Mirrors
`OutputBuffer`. -/
structure Sink where
  reversed : Bytes
  room : Option Amount
  deriving DecidableEq, Repr

namespace Sink

def toBytes (b : Sink) : Bytes := b.reversed.reverse

def size (b : Sink) : Nat := b.reversed.length

/-- An empty sink of a capacity; none is no limit. -/
def ofCapacity : Value → Except Error Sink
  | .none => .ok ⟨[], none⟩
  | v => match v.amount? with
    | some c => if c.isBelow 1 then .error (.capacity (.notPositive c)) else .ok ⟨[], some c⟩
    | none => .error (.misuse (.order v))

/-- Takes the room of data of some length, if there is enough. -/
def take (b : Sink) (length : Nat) : Except Error Sink :=
  match b.room with
  | none => .ok b
  | some room =>
    if room.atMost length then .error (.capacity (.append length room))
    else .ok { b with room := some (room.minus length) }

/-- Writes data behind what is there, whatever the room. -/
def push (b : Sink) (data : Bytes) : Sink := { b with reversed := data.reverseAux b.reversed }

/-- Writes data behind what is there, if it fits. -/
def append (b : Sink) (data : Bytes) : Except Error Sink :=
  (b.take data.length).map (·.push data)

/-- Refuses a source of some length that would not fit unchanged. -/
def ensureFits (b : Sink) (length : Nat) : Except Error Unit :=
  match b.room with
  | none => .ok ()
  | some room =>
    if room.atMost length then .error (.capacity (.source length room)) else .ok ()

/-- The length of an object, which matters only if the room is limited. -/
def lengthOf (b : Sink) (o : Object) : Except Error Nat :=
  match b.room with
  | none => .ok 0
  | some _ => o.length

/-- Writes the memory of an object behind what is there, whatever the room. -/
def pushObject (b : Sink) (o : Object) : Sink × Except Error Unit :=
  match o.memory? with
  | some data => (b.push data, .ok ())
  | none => (b, .error (.misuse (.bytes o.typeName)))

/-- Writes an object, which must fit and have memory: the sink after it. Mirrors
`OutputBuffer.append`. -/
def offer (b : Sink) (o : Object) : Sink × Except Error Unit :=
  match (b.lengthOf o).bind b.take with
  | .error e => (b, .error e)
  | .ok b => b.pushObject o

/-- Refuses an object as a source if it would not fit. Mirrors `OutputBuffer.check_source`. -/
def ensureFitsObject (b : Sink) (o : Object) : Except Error Unit :=
  (b.lengthOf o).bind b.ensureFits

/-- Is there room for so many bytes and a terminator? -/
def Fits (b : Sink) (n : Nat) : Prop := ∀ room ∈ b.room, room.atMost n = false

@[simp] theorem size_eq (b : Sink) : b.size = b.toBytes.length := by simp [size, toBytes]

theorem toBytes_push (b : Sink) (data : Bytes) : (b.push data).toBytes = b.toBytes ++ data := by
  simp [push, toBytes, List.reverseAux_eq]

theorem take_isOk_iff (b : Sink) (n : Nat) : (∃ b', b.take n = .ok b') ↔ b.Fits n := by
  unfold take Fits
  cases b.room with
  | none => simp
  | some room => cases h : room.atMost n <;> simp [h]

theorem take_eq {b b' : Sink} {n : Nat} (h : b.take n = .ok b') :
    b' = { b with room := b.room.map (·.minus n) } := by
  unfold take at h
  split at h
  · next hr =>
    obtain ⟨r, room⟩ := b
    cases h
    cases hr
    rfl
  · next hr =>
    split at h
    · cases h
    · cases h; simp [hr]

theorem append_eq_ok_iff {b b' : Sink} {data : Bytes} :
    b.append data = .ok b' ↔ ∃ t, b.take data.length = .ok t ∧ t.push data = b' := by
  unfold append
  cases b.take data.length <;> simp [Except.map]

theorem toBytes_append {b b' : Sink} {data : Bytes} (h : b.append data = .ok b') :
    b'.toBytes = b.toBytes ++ data := by
  obtain ⟨t, ht, rfl⟩ := append_eq_ok_iff.1 h
  rw [toBytes_push, take_eq ht]
  rfl

theorem append_isOk_iff (b : Sink) (data : Bytes) :
    (∃ b', b.append data = .ok b') ↔ b.Fits data.length := by
  rw [← take_isOk_iff]
  constructor
  · rintro ⟨b', h⟩
    obtain ⟨t, ht, -⟩ := append_eq_ok_iff.1 h
    exact ⟨t, ht⟩
  · rintro ⟨t, ht⟩
    exact ⟨t.push data, append_eq_ok_iff.2 ⟨t, ht, rfl⟩⟩

theorem room_append {b b' : Sink} {data : Bytes} (h : b.append data = .ok b') :
    b'.room = b.room.map (·.minus data.length) := by
  obtain ⟨t, ht, rfl⟩ := append_eq_ok_iff.1 h
  rw [take_eq ht]
  rfl

theorem ensureFits_isOk_iff (b : Sink) (n : Nat) : b.ensureFits n = .ok () ↔ b.Fits n := by
  unfold ensureFits Fits
  cases b.room with
  | none => simp
  | some room => cases h : room.atMost n <;> simp [h]

end Sink
end ColorMarkup
