import ColorMarkup.Text.Basic
/-!
# Output modes

A mode is a color depth and a direction. The depth is the number of bits a
color is written with; the direction says whether a color applies to the
characters or to the cell behind them.

Results:
* `Depth.ofBits?_eq_some_iff`, `Direction.ofCode?_eq_some_iff`: a depth is named
  by its bits alone, a direction by its code alone.
-/
namespace ColorMarkup

/-- How a color is written: 16 codes, a palette of 256, or its channels. -/
inductive Depth where
  | four
  | eight
  | twentyFour
  deriving DecidableEq, Repr, Inhabited

/-- What a color applies to. -/
inductive Direction where
  | foreground
  | background
  deriving DecidableEq, Repr, Inhabited

namespace Depth

def bits : Depth → Nat
  | four => 4
  | eight => 8
  | twentyFour => 24

def all : List Depth := [four, eight, twentyFour]

def ofBits? (n : Int) : Option Depth := all.find? fun d => (d.bits : Int) == n

def label : Depth → String
  | four => "FOUR"
  | eight => "EIGHT"
  | twentyFour => "TWENTY_FOUR"

theorem ofBits?_eq_some_iff (n : Int) (d : Depth) : ofBits? n = some d ↔ n = d.bits := by
  constructor
  · intro h
    have := List.find?_some h
    simp only [beq_iff_eq] at this
    exact this.symm
  · rintro rfl; cases d <;> rfl

end Depth

namespace Direction

def code : Direction → String
  | foreground => "fg"
  | background => "bg"

def all : List Direction := [foreground, background]

/-- The direction with that code; the case of letters matters. -/
def ofCode? (t : Text) : Option Direction := all.find? fun d => Text.ofString d.code == t

def label : Direction → String
  | foreground => "FOREGROUND"
  | background => "BACKGROUND"

theorem ofCode?_eq_some_iff (t : Text) (d : Direction) :
    ofCode? t = some d ↔ t = Text.ofString d.code := by
  constructor
  · intro h
    have := List.find?_some h
    simp only [beq_iff_eq] at this
    exact this.symm
  · rintro rfl; cases d <;> decide

end Direction

/-- The depth and direction that tags are resolved under. Mirrors `ModeState`. -/
structure Mode where
  depth : Depth
  direction : Direction
  deriving DecidableEq, Repr, Inhabited

namespace Mode

/-- The mode every run starts with. -/
def initial : Mode := ⟨.eight, .foreground⟩

def display (m : Mode) : String :=
  s!"ModeState(depth={m.depth.bits}, direction='{m.direction.code}')"

end Mode
end ColorMarkup
