import ColorMarkup.Vocabulary
import ColorMarkup.Notice
import ColorMarkup.Numeral
/-!
# Escapes

What a tag is written as: nothing, a fixed text, or a select-graphic-rendition
sequence `ESC [ p₁ ; p₂ … m`. A tag means an entry of the vocabulary or a
number. An entry is written at the mode's depth, or at the next lower depth it
defines, or as its fixed text. A color is reduced to the depth; a single number
is a code at 4 bits, a palette entry at 8 bits, and nothing at 24 bits.

Results:
* `Meaning.build_of_changesMode`: a mode change is written as nothing.
* `NumberTag.escape?_none_iff`: a numeric color has no escape exactly if it is a single
  number and the depth is 24.
-/
namespace ColorMarkup

/-- What is written for a tag. -/
inductive Escape where
  | nothing
  | fixed (t : Text)
  | sequence (params : List Int)
  deriving DecidableEq, Repr

namespace Escape

/-- The two bytes that start a sequence. -/
def introducer : Bytes := [0x1B, 0x5B]

/-- Parameters in decimal, joined by semicolons. -/
def joinParams : List Int → Bytes
  | [] => []
  | [p] => Decimal.ofInt p
  | p :: ps => Decimal.ofInt p ++ 0x3B :: joinParams ps

def sequenceBytes (params : List Int) : Bytes := introducer ++ joinParams params ++ [0x6D]

def text : Escape → Text
  | nothing => []
  | fixed t => t
  | sequence params => (sequenceBytes params).toText

/-- The escape as bytes; a fixed text holds no surrogate. -/
def bytes : Escape → Bytes
  | nothing => []
  | fixed t => (Utf8.encode t).getD []
  | sequence params => sequenceBytes params

/-- First parameter of a color in a direction. -/
def selector : Direction → Int
  | .foreground => 38
  | .background => 48

def ofCode (code : Int) : Escape := sequence [code]

def ofIndex (d : Direction) (index : Int) : Escape := sequence [selector d, 5, index]

def ofColor (d : Direction) (c : Color) : Escape :=
  sequence [selector d, 2, c.red, c.green, c.blue]

end Escape

namespace Entry

/-- The escape of the entry at exactly this depth, if it is defined there. -/
def escapeAt? (e : Entry) (d : Direction) : Depth → Option (Except Error Escape)
  | .twentyFour => e.rgb.map fun n => (Color.ofNumber n).map (Escape.ofColor d)
  | .eight => e.paletteIndex.map fun i => .ok (Escape.ofIndex d i)
  | .four => (e.codeFor d).map fun c => .ok (Escape.ofCode c)

/-- A depth and those below it, downwards. -/
def depthsFrom : Depth → List Depth
  | .twentyFour => [.twentyFour, .eight, .four]
  | .eight => [.eight, .four]
  | .four => [.four]

/-- The escape of the entry: at this depth, else at the highest lower one, else its fixed text.
Mirrors `_build_definition`. -/
def escape? (e : Entry) (depth : Depth) (d : Direction) : Except Error (Option Escape) :=
  match (depthsFrom depth).findSome? (e.escapeAt? d) with
  | some r => r.map some
  | none => .ok (e.literal.map Escape.fixed)

end Entry

namespace NumberTag

/-- How far a background code lies above its foreground code. -/
def backgroundOffset : Direction → Int
  | .foreground => 0
  | .background => 10

/-- The escape of a numeric color. Mirrors `_build_numeric`. -/
def escape? (n : NumberTag) (depth : Depth) (d : Direction) : Except Error (Option Escape) :=
  match depth, n.color with
  | .twentyFour, none => .ok none
  | .twentyFour, some c => .ok (some (Escape.ofColor d c))
  | .eight, none => .ok (some (Escape.ofIndex d n.value))
  | .eight, some c => .ok (some (Escape.ofIndex d c.nearestIndex))
  | .four, none => .ok (some (Escape.ofCode n.value))
  | .four, some c => c.code.map fun n => some (Escape.ofCode (n + backgroundOffset d))

end NumberTag

/-- What a tag's body stands for. -/
inductive Meaning where
  | entry (e : Entry)
  | numeric (n : NumberTag)
  deriving DecidableEq, Repr

namespace Meaning

/-- What a body stands for: a name first, then a number. Mirrors `resolve`. -/
def ofBody? (body : Bytes) : Option Meaning :=
  match Vocabulary.find? body with
  | some e => some (.entry e)
  | none => (NumberTag.parse? body).map .numeric

def ofValue? (v : Value) : Except Error (Option Meaning) := (v.key? "name").map (·.bind ofBody?)

def modeChange? : Meaning → Option Entry
  | entry e => if e.changesMode then some e else none
  | numeric _ => none

/-- Does it stand for an entry with a fixed text? Mirrors `_is_literal`. -/
def isFixed : Meaning → Bool
  | entry e => e.literal.isSome
  | numeric _ => false

/-- The escape, without changing any mode. Mirrors `build_escape`. -/
def build (meaning : Meaning) (depth : Depth) (d : Direction) : Except Error (Option Escape) :=
  match meaning with
  | entry e => if e.changesMode then .ok (some .nothing) else e.escape? depth d
  | numeric n => n.escape? depth d

def applyChange (e : Entry) (m : Mode) : Mode :=
  ⟨e.forcesDepth.getD m.depth, e.forcesDirection.getD m.direction⟩

/-- Applies a mode change, or gives the escape of anything else; a depth or direction given here
takes the place of the mode's. Mirrors `render`. -/
def perform (meaning : Meaning) (m : Mode) (depth : Option Depth) (d : Option Direction) :
    Outcome (Option Escape) :=
  match meaning.modeChange? with
  | some e => ⟨.ok (some .nothing), applyChange e m, []⟩
  | none => .ofResult (meaning.build (depth.getD m.depth) (d.getD m.direction)) m

theorem build_of_changesMode (e : Entry) (h : e.changesMode = true) (depth : Depth)
    (d : Direction) : (Meaning.entry e).build depth d = .ok (some .nothing) := by
  simp [build, h]

end Meaning

theorem NumberTag.escape?_none_iff (n : NumberTag) (depth : Depth) (d : Direction) :
    n.escape? depth d = .ok none ↔ n.color = none ∧ depth = .twentyFour := by
  unfold NumberTag.escape?
  cases depth <;> cases n.color <;> simp
  next c => cases c.code <;> simp [Except.map]

end ColorMarkup
