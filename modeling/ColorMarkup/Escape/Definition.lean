import ColorMarkup.Channels
import ColorMarkup.Escape.Basic
import ColorMarkup.Mode.Request
/-!
# Entries and numbers from values

An entry can be defined outside the vocabulary, and a numeric color be given by
its parts. All that is asked of an entry is a name and that it defines something
besides a background code; parts keep the values they are given. A part of a
wrong type is refused where it is written, so one that is never written does no
harm.

Results:
* `Definition.ofFields_definesSomething`: what is accepted defines something.
* `Entry.definition_build`: a definition is written as the entry it is of.
* `NumberParts.escape?_of_color`: channels that are integers are written as the numeric
  color they make up.
-/
namespace ColorMarkup

namespace Value

/-- A value, unless it is none. -/
def given? : Value → Option Value
  | none => Option.none
  | v => some v

end Value

/-- An escape as a value; none if there is nothing to write. -/
def Escape.answer : Option Escape → Value
  | some e => .text e.text
  | none => .none

/-- An entry made of values; a part that is none is not defined. Mirrors `ColorDefinition`. -/
structure Definition where
  name : Value
  code : Value
  backgroundCode : Value
  paletteIndex : Value
  rgb : Value
  forcesDepth : Value
  forcesDirection : Value
  literal : Value
  isDisplayable : Value
  aliases : Value
  deriving Repr

namespace Definition

def changesMode (e : Definition) : Bool :=
  e.forcesDepth.given?.isSome || e.forcesDirection.given?.isSome

/-- Is something other than a background code defined? -/
def definesSomething (e : Definition) : Bool :=
  e.code.given?.isSome || e.paletteIndex.given?.isSome || e.rgb.given?.isSome || e.changesMode
    || e.literal.given?.isSome

/-- The parts besides the name, and the value of one that is not given. -/
def defaults : List (String × Value) :=
  [("sgr_fg", .none), ("sgr_bg", .none), ("palette_index", .none), ("rgb", .none),
   ("forces_depth", .none), ("forces_direction", .none), ("literal_replacement", .none),
   ("is_displayable", .bool true), ("aliases", .list [])]

def field? (fields : List (Text × Value)) (part : String) : Option Value :=
  (fields.find? fun f => f.1 == Text.ofString part).map (·.2)

def part (fields : List (Text × Value)) (part : String) : Value :=
  (field? fields part).getD ((defaults.lookup part).getD .none)

def isField (f : Text × Value) : Bool :=
  f.1 == Text.ofString "name" || defaults.any fun p => f.1 == Text.ofString p.1

/-- The entry of a name and fields, unchecked. -/
def ofParts (name : Value) (fields : List (Text × Value)) : Definition :=
  { name := name
    code := part fields "sgr_fg"
    backgroundCode := part fields "sgr_bg"
    paletteIndex := part fields "palette_index"
    rgb := part fields "rgb"
    forcesDepth := part fields "forces_depth"
    forcesDirection := part fields "forces_direction"
    literal := part fields "literal_replacement"
    isDisplayable := part fields "is_displayable"
    aliases := part fields "aliases" }

/-- The entry of fields, unless one is unknown, the name is missing or nothing is
defined. -/
def ofFields (fields : List (Text × Value)) : Except Error Definition :=
  match fields.find? fun f => !isField f with
  | some f => .error (.unknownField f.1)
  | none => match field? fields "name" with
    | none => .error .noName
    | some name =>
      let e := ofParts name fields
      if e.definesSomething then .ok e else .error (.nothingDefined name)

/-- The parts of the entry by name, and whether it switches the mode. -/
def toFields (e : Definition) : List (String × Value) :=
  [("name", e.name), ("sgr_fg", e.code), ("sgr_bg", e.backgroundCode),
   ("palette_index", e.paletteIndex), ("rgb", e.rgb), ("forces_depth", e.forcesDepth),
   ("forces_direction", e.forcesDirection), ("literal_replacement", e.literal),
   ("is_displayable", e.isDisplayable), ("aliases", e.aliases),
   ("is_mode_change", .bool e.changesMode)]

def codeFor (e : Definition) : Direction → Value
  | .foreground => e.code
  | .background => (e.backgroundCode.given?).getD e.code

/-- The escape of the entry at exactly this depth, if it is defined there. -/
def escapeAt? (e : Definition) (d : Direction) : Depth → Option (Except Error Escape)
  | .twentyFour => e.rgb.given?.map fun v => do
    return Escape.ofColor d (← Color.ofValue v)
  | .eight => e.paletteIndex.given?.map fun v => v.written.map (Escape.ofIndex d)
  | .four => (e.codeFor d).given?.map fun v => v.written.map Escape.ofCode

/-- What is written for the entry, without changing any mode. Mirrors `build_escape`. -/
def build (e : Definition) (depth : Depth) (d : Direction) : Except Error Value :=
  if e.changesMode then .ok (.text [])
  else match (Entry.depthsFrom depth).findSome? (e.escapeAt? d) with
    | some r => r.map fun escape => .text escape.text
    | none => .ok e.literal

def requestDepth (e : Definition) (m : Mode) : Outcome Unit :=
  match e.forcesDepth.given? with
  | some v => (m.requestDepth v).map fun _ => ()
  | none => .ofResult (.ok ()) m

def requestDirection (e : Definition) (m : Mode) : Outcome Unit :=
  match e.forcesDirection.given? with
  | some v => (m.requestDirection v).map fun _ => ()
  | none => .ofResult (.ok ()) m

/-- Asks for the mode that the entry forces, or gives what is written for it; a depth or direction
given here takes the place of the mode's. Mirrors `render`. -/
def perform (e : Definition) (m : Mode) (depth : Option Depth) (d : Option Direction) :
    Outcome Value :=
  if e.changesMode then
    ((e.requestDepth m).andThen fun _ m => e.requestDirection m).map fun _ => .text []
  else .ofResult (e.build (depth.getD m.depth) (d.getD m.direction)) m

theorem ofFields_definesSomething {fields : List (Text × Value)} {e : Definition}
    (h : ofFields fields = .ok e) : e.definesSomething = true := by
  unfold ofFields at h
  split at h
  · cases h
  · split at h
    · cases h
    · dsimp only at h
      split at h
      · next hd => cases h; exact hd
      · cases h

end Definition

def Entry.definition (e : Entry) : Definition :=
  let number (n : Option Int) : Value := n.elim .none .int
  { name := .text e.name
    code := number e.code
    backgroundCode := number e.backgroundCode
    paletteIndex := number e.paletteIndex
    rgb := number e.rgb
    forcesDepth := e.forcesDepth.elim .none .depth
    forcesDirection := e.forcesDirection.elim .none .direction
    literal := e.literal.elim .none .text
    isDisplayable := .bool e.isDisplayable
    aliases := .list (e.aliases.map .text) }

namespace Entry

theorem definition_changesMode (e : Entry) : e.definition.changesMode = e.changesMode := by
  obtain ⟨_, _, _, _, _, depth, direction, _, _, _⟩ := e
  cases depth <;> cases direction <;> rfl

theorem definition_escapeAt? (e : Entry) (d : Direction) (depth : Depth) :
    e.definition.escapeAt? d depth = e.escapeAt? d depth := by
  obtain ⟨_, code, background, index, rgb, _, _, _, _, _⟩ := e
  cases depth with
  | four => cases d <;> cases code <;> cases background <;> rfl
  | eight => cases index <;> rfl
  | twentyFour =>
    cases rgb with
    | none => rfl
    | some n =>
      show some (Except.bind (Color.ofNumber n) _) = some (Except.map _ (Color.ofNumber n))
      cases Color.ofNumber n <;> rfl

theorem definition_build (e : Entry) (depth : Depth) (d : Direction) :
    e.definition.build depth d = ((Meaning.entry e).build depth d).map Escape.answer := by
  unfold Definition.build Meaning.build
  rw [definition_changesMode, funext (definition_escapeAt? e d)]
  dsimp only
  split
  · rfl
  · unfold escape?
    cases (depthsFrom depth).findSome? (e.escapeAt? d) with
    | none =>
      obtain ⟨_, _, _, _, _, _, _, literal, _, _⟩ := e
      cases literal <;> rfl
    | some r => cases r <;> rfl

end Entry

/-- A numeric color by its parts; one without a red channel is a single number. Mirrors
`NumericColor`. -/
structure NumberParts where
  value : Value
  channels : Channels
  deriving Repr

namespace NumberParts

def escapeOfValue? (v : Value) (depth : Depth) (d : Direction) : Except Error (Option Escape) :=
  match depth with
  | .twentyFour => .ok none
  | .eight => v.written.map fun n => some (Escape.ofIndex d n)
  | .four => v.written.map fun n => some (Escape.ofCode n)

/-- The escape of the channels: at 24 bits they are only written, elsewhere reduced. -/
def escapeOfChannels (c : Channels) (depth : Depth) (d : Direction) : Except Error Escape :=
  match depth with
  | .twentyFour => do
    return Escape.ofColor d ⟨← c.red.written, ← c.green.written, ← c.blue.written⟩
  | .eight => do
    let index ← c.nearestIndex
    return Escape.ofIndex d (← index.value.written)
  | .four => c.code.map fun n => Escape.ofCode (n + NumberTag.backgroundOffset d)

/-- What is written for the parts. Mirrors `_build_numeric`. -/
def escape? (p : NumberParts) (depth : Depth) (d : Direction) : Except Error (Option Escape) :=
  match p.channels.red.given? with
  | none => escapeOfValue? p.value depth d
  | some _ => (escapeOfChannels p.channels depth d).map some

theorem escapeOfChannels_given (c : Color) (depth : Depth) (d : Direction) :
    (escapeOfChannels c.given depth d).map some = NumberTag.escape? ⟨0, some c⟩ depth d := by
  cases depth with
  | twentyFour => rfl
  | eight =>
    unfold escapeOfChannels
    rw [Channels.nearestIndex_given]
    rfl
  | four =>
    show (c.given.code.map _).map some = c.code.map _
    rw [Channels.code_given]
    cases c.code <;> rfl

theorem escape?_of_color (n : Int) (c : Color) (depth : Depth) (d : Direction) :
    escape? ⟨.int n, c.given⟩ depth d = NumberTag.escape? ⟨n, some c⟩ depth d :=
  (escapeOfChannels_given c depth d).trans (by cases depth <;> rfl)

end NumberParts
end ColorMarkup
