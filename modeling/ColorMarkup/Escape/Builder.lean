import ColorMarkup.Escape.Basic
import ColorMarkup.Mode.Reach
import ColorMarkup.Mode.Request
/-!
# Building one escape

Escapes from a code, a palette index, the channels of a color or its number,
or the body of a tag. Numbers are checked before the direction; for a tag's
body, the direction and depth are checked before the body. Only a tag that
changes the mode changes it.

Where a mode is needed, it is looked for there: an escape that needs a direction looks for
that only, and a tag's body for the whole mode.

Results:
* `ofIndexIn_given`, `ofColorIn_given`, `ofNameIn_given`: a mode that is given is the only one
  that matters.
* `ofName_mode_of_error`: a refused name leaves the mode alone.
-/
namespace ColorMarkup.Builder

/-- An argument that must be an integer, and no boolean. -/
def integer (argument : String) (v : Value) : Except Error Int :=
  match v.number? with
  | some n => .ok n
  | none => .error (.wrongType (Text.ofString argument) v.typeName)

/-- Mirrors `_check_byte`. -/
def byte (argument : String) (v : Value) : Except Error Int := do
  let n ← integer argument v
  if Color.isByte n then return n else throw (.outOfRange (Text.ofString argument) n)

/-- An argument that must ask for a direction; none asks for nothing. -/
def direction? : Value → Except Error (Option Direction)
  | .none => .ok none
  | v => match Direction.ofValue? v with
    | some d => .ok (some d)
    | none => .error (.badValue (Text.ofString "direction") v)

/-- An argument that must ask for a depth; none asks for nothing. -/
def depth? : Value → Except Error (Option Depth)
  | .none => .ok none
  | v => match Depth.ofValue? v with
    | some d => .ok (some d)
    | none => .error (.badValue (Text.ofString "depth") v)

/-- The escape of a code. Mirrors `build_escape_4bit`. -/
def ofCode (code : Value) : Except Error Escape := do
  let n ← byte "sgr_code" code
  return Escape.ofCode n

/-- The direction that is asked for, or else that of the mode which is given, or else that of the
shared one. Mirrors `_get_direction`. -/
def directionIn (direction : Value) (r : Reach) : Except Error Direction := do
  match ← direction? direction with
  | some d => return d
  | none => match r with
    | ⟨none, shared⟩ => return shared.direction
    | ⟨some m, _⟩ => return m.direction

/-- The escape of a palette index. Mirrors `build_escape_8bit`. -/
def ofIndexIn (index direction : Value) (r : Reach) : Except Error Escape := do
  let n ← byte "palette_index" index
  let d ← directionIn direction r
  return Escape.ofIndex d n

/-- The escape of a palette index under a mode. -/
def ofIndex (index direction : Value) (m : Mode) : Except Error Escape :=
  ofIndexIn index direction ⟨none, m⟩

/-- The color of three arguments, or of the first alone as a color's number. -/
def color (red green blue : Value) : Except Error Color :=
  match green, blue with
  | .none, .none => do
    let n ← integer "red" red
    if Color.isColorNumber n then return Color.ofLowBits n
    else throw (.packedOutOfRange (Text.ofString "red") n)
  | green, blue => do
    let r ← byte "red" red
    let g ← byte "green" green
    let b ← byte "blue" blue
    return ⟨r, g, b⟩

/-- The escape of a color. Mirrors `build_escape_24bit`. -/
def ofColorIn (red green blue direction : Value) (r : Reach) : Except Error Escape := do
  let c ← color red green blue
  let d ← directionIn direction r
  return Escape.ofColor d c

/-- The escape of a color under a mode. -/
def ofColor (red green blue direction : Value) (m : Mode) : Except Error Escape :=
  ofColorIn red green blue direction ⟨none, m⟩

/-- What the arguments for a tag's body ask for: its meaning and the overrides. -/
def request (name direction depth : Value) :
    Except Error (Option Meaning × Option Direction × Option Depth) := do
  let d ← direction? direction
  let depth ← depth? depth
  let meaning ← Meaning.ofValue? name
  return (meaning, d, depth)

/-- The escape of a tag's body; a mode change is applied to the mode that is given, or else to the
shared one. Mirrors `build_escape_for_name`. -/
def ofNameIn (name direction depth : Value) (r : Reach) : Effect (Option Escape) :=
  match request name direction depth with
  | .error e => .ofResult (.error e) r
  | .ok (none, _, _) => .ofResult (.ok none) r
  | .ok (some meaning, d, depth) => match r with
    | ⟨none, shared⟩ => (meaning.perform shared depth d).onShared
    | ⟨some m, shared⟩ => (meaning.perform m depth d).onGiven shared

/-- The escape of a tag's body under a mode. -/
def ofName (name direction depth : Value) (m : Mode) : Outcome (Option Escape) :=
  (ofNameIn name direction depth ⟨none, m⟩).outcome

theorem directionIn_shared (direction : Value) (m : Mode) :
    directionIn direction ⟨none, m⟩ = (direction? direction).map (·.getD m.direction) := by
  unfold directionIn
  rcases direction? direction with e | _ | d <;> rfl

theorem directionIn_given (direction : Value) (m shared : Mode) :
    directionIn direction ⟨some m, shared⟩ = directionIn direction ⟨none, m⟩ := by
  unfold directionIn
  rcases direction? direction with e | _ | d <;> rfl

theorem ofIndexIn_given (index direction : Value) (m shared : Mode) :
    ofIndexIn index direction ⟨some m, shared⟩ = ofIndex index direction m := by
  rw [ofIndex, ofIndexIn, directionIn_given]
  rfl

theorem ofColorIn_given (red green blue direction : Value) (m shared : Mode) :
    ofColorIn red green blue direction ⟨some m, shared⟩ = ofColor red green blue direction m := by
  rw [ofColor, ofColorIn, directionIn_given]
  rfl

theorem ofNameIn_shared (name direction depth : Value) (m : Mode) :
    ofNameIn name direction depth ⟨none, m⟩ = (ofName name direction depth m).onShared := by
  unfold ofName ofNameIn
  rcases request name direction depth with e | ⟨_ | meaning, d, depth⟩ <;> rfl

theorem ofNameIn_given (name direction depth : Value) (m shared : Mode) :
    ofNameIn name direction depth ⟨some m, shared⟩ =
      (ofName name direction depth m).onGiven shared := by
  unfold ofName ofNameIn
  rcases request name direction depth with e | ⟨_ | meaning, d, depth⟩ <;> rfl

theorem ofName_eq_match (name direction depth : Value) (m : Mode) :
    ofName name direction depth m = match request name direction depth with
      | .error e => .ofResult (.error e) m
      | .ok (none, _, _) => .ofResult (.ok none) m
      | .ok (some meaning, d, depth) => meaning.perform m depth d := by
  unfold ofName ofNameIn
  rcases request name direction depth with e | ⟨_ | meaning, d, depth⟩ <;> rfl

theorem ofName_mode_of_error {name direction depth : Value} {m : Mode} {e : Error}
    (h : (ofName name direction depth m).result = .error e) :
    (ofName name direction depth m).mode = m := by
  rw [ofName_eq_match] at h ⊢
  split at h
  · rfl
  · rfl
  · next meaning d depth _ =>
    unfold Meaning.perform at h ⊢
    split at h
    · cases h
    · rfl

end ColorMarkup.Builder
