import ColorMarkup.Notice
/-!
# Asking for a mode

A value asks for a depth if it is one, or the integer of its bits (no boolean);
it asks for a direction if it is one, or its code in any letter case. A request
never fails: a value that asks for nothing is rejected with a notice and the
mode stays.

Where a depth or a direction must be meant, a value means it only by being equal
to its bits or its code.

Results:
* `requestDepth_ok`, `requestDirection_ok`: a request always answers with what
  the mode has afterwards.
* `requestDepth_keeps_direction`, `requestDirection_keeps_depth`: a request
  touches its own part only.
-/
namespace ColorMarkup

/-- The depth a value asks for. Mirrors `_coerce`. -/
def Depth.ofValue? : Value → Option Depth
  | .depth d => some d
  | .int n => Depth.ofBits? n
  | _ => none

/-- The direction a value asks for. Only ASCII letters lower to the letters of a code. Mirrors
`_coerce`. -/
def Direction.ofValue? : Value → Option Direction
  | .direction d => some d
  | .text t => Direction.ofCode? t.lower
  | _ => none

/-- The depth whose bits a value equals, as a number of any kind. -/
def Depth.matching (v : Value) : Except Error Depth :=
  match Depth.all.find? fun d => v.same (.depth d) with
  | some d => .ok d
  | none => .error (.noDepth v)

/-- The direction that a value is, or whose code it equals. -/
def Direction.matching (v : Value) : Except Error Direction :=
  match Direction.all.find? fun d =>
      v.same (.direction d) || v.same (.text (Text.ofString d.code)) with
  | some d => .ok d
  | none => .error (.noDirection v)

namespace Mode

def ofValues (depth direction : Value) : Except Error Mode :=
  match Depth.ofValue? depth with
  | none => .error (.badDepth depth)
  | some d => match Direction.ofValue? direction with
    | none => .error (.badDirection direction)
    | some dir => .ok ⟨d, dir⟩

/-- Changes the depth if the value asks for one. Mirrors `ModeState.set_depth`. -/
def requestDepth (m : Mode) (v : Value) : Outcome Depth :=
  match Depth.ofValue? v with
  | some d => ⟨.ok d, { m with depth := d }, []⟩
  | none => ⟨.ok m.depth, m, [.rejectedDepth v m.depth]⟩

/-- Changes the direction if the value asks for one. Mirrors `ModeState.set_direction`. -/
def requestDirection (m : Mode) (v : Value) : Outcome Direction :=
  match Direction.ofValue? v with
  | some d => ⟨.ok d, { m with direction := d }, []⟩
  | none => ⟨.ok m.direction, m, [.rejectedDirection v m.direction]⟩

theorem requestDepth_ok (m : Mode) (v : Value) :
    (m.requestDepth v).result = .ok (m.requestDepth v).mode.depth := by
  unfold requestDepth; split <;> rfl

theorem requestDirection_ok (m : Mode) (v : Value) :
    (m.requestDirection v).result = .ok (m.requestDirection v).mode.direction := by
  unfold requestDirection; split <;> rfl

theorem requestDepth_keeps_direction (m : Mode) (v : Value) :
    (m.requestDepth v).mode.direction = m.direction := by
  unfold requestDepth; split <;> rfl

theorem requestDirection_keeps_depth (m : Mode) (v : Value) :
    (m.requestDirection v).mode.depth = m.depth := by
  unfold requestDirection; split <;> rfl

end Mode
end ColorMarkup
