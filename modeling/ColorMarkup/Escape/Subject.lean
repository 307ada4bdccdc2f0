import ColorMarkup.Escape.Definition
/-!
# Subjects

What an escape can be asked for: a name of the vocabulary, a tag's body, the
parts of a numeric color, or the fields of a definition. A subject is found
first, then the depth and direction are settled, then the escape is built or the
mode changed. A name or body that stands for nothing is refused only at the end.
-/
namespace ColorMarkup

/-- What an escape is asked for. -/
inductive Subject where
  | name (v : Value)
  | body (v : Value)
  | number (p : NumberParts)
  | definition (fields : List (Text × Value))
  deriving Repr

/-- A subject that was found. -/
inductive Found where
  | meaning (m : Meaning)
  | number (p : NumberParts)
  | definition (e : Definition)
  deriving Repr

namespace Found

def build (f : Found) (depth : Depth) (d : Direction) : Except Error Value :=
  match f with
  | meaning m => (m.build depth d).map Escape.answer
  | number p => (p.escape? depth d).map Escape.answer
  | definition e => e.build depth d

/-- Changes the mode, or gives what is written under it. -/
def perform (f : Found) (m : Mode) (depth : Option Depth) (d : Option Direction) :
    Outcome Value :=
  match f with
  | meaning n => (n.perform m depth d).map Escape.answer
  | number p =>
    .ofResult ((p.escape? (depth.getD m.depth) (d.getD m.direction)).map Escape.answer) m
  | definition e => e.perform m depth d

end Found

namespace Subject

def find? : Subject → Except Error (Option Found)
  | name v => (Vocabulary.ofValue? v).map (·.map fun e => .meaning (.entry e))
  | body v => (Meaning.ofValue? v).map (·.map .meaning)
  | number p => .ok (some (.number p))
  | definition fields => (Definition.ofFields fields).map fun e => some (.definition e)

def build (s : Subject) (depth direction : Value) : Except Error Value := do
  let found ← s.find?
  let depth ← Depth.matching depth
  let d ← Direction.matching direction
  match found with
  | some f => f.build depth d
  | none => throw .noMeaning

/-- A value that takes the place of the mode's; none takes no place. -/
def override {α : Type} (matching : Value → Except Error α) : Value → Except Error (Option α)
  | .none => .ok none
  | v => (matching v).map some

/-- The subject, and what takes the place of the mode's depth and direction. -/
def request (s : Subject) (depth direction : Value) :
    Except Error (Option Found × Option Depth × Option Direction) := do
  let found ← s.find?
  let depth ← override Depth.matching depth
  let d ← override Direction.matching direction
  return (found, depth, d)

/-- Changes the mode, or gives what is written under it; a depth or direction given
here takes the place of the mode's. -/
def perform (s : Subject) (depth direction : Value) (m : Mode) : Outcome Value :=
  match s.request depth direction with
  | .error e => .ofResult (.error e) m
  | .ok (none, _, _) => .ofResult (.error .noMeaning) m
  | .ok (some f, depth, d) => f.perform m depth d

end Subject
end ColorMarkup
