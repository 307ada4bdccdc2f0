import ColorMarkup.Notice
/-!
# The mode an operation is given

An operation may be given a mode of the caller's. Without one it works under the mode that the
whole program shares. There is no one place where this is decided: every operation that needs
a mode, or a direction of one, looks for it itself. So both modes are within its reach, and it
leaves both.
-/
namespace ColorMarkup

/-- The mode that an operation is given, if it is given one, and the shared one. -/
structure Reach where
  given : Option Mode
  shared : Mode
  deriving DecidableEq, Repr

/-- What an operation leads to that may be given a mode. -/
structure Effect (α : Type) where
  result : Except Error α
  reach : Reach
  notices : List Notice

namespace Outcome

variable {α : Type}

/-- The outcome of working under the mode that was given. -/
def onGiven (o : Outcome α) (shared : Mode) : Effect α :=
  ⟨o.result, ⟨some o.mode, shared⟩, o.notices⟩

/-- The outcome of working under the shared mode, none being given. -/
def onShared (o : Outcome α) : Effect α := ⟨o.result, ⟨none, o.mode⟩, o.notices⟩

end Outcome

/-- What is called on the mode that is given, or else on the shared one. -/
def Reach.call {α : Type} (f : Mode → Outcome α) : Reach → Effect α
  | ⟨none, shared⟩ => (f shared).onShared
  | ⟨some m, shared⟩ => (f m).onGiven shared

namespace Effect

variable {α β : Type}

/-- An operation that only answers. -/
def ofResult (result : Except Error α) (r : Reach) : Effect α := ⟨result, r, []⟩

def map (f : α → β) (e : Effect α) : Effect β := ⟨e.result.map f, e.reach, e.notices⟩

/-- What an operation that is given no mode leads to, seen from the shared one. -/
def outcome (e : Effect α) : Outcome α := ⟨e.result, e.reach.shared, e.notices⟩

end Effect
end ColorMarkup
