import ColorMarkup.Journal.Record
/-!
# Loggers

A logger is made when its name is first asked for. It stands under the nearest logger
there is whose name ends in front of a dot of its own name. Of dots in a row only every
other counts, from the last one on: where two follow each other, what ends in front of the
first is not looked for.

A logger takes a record if its level reaches that of the nearest logger above that has one:
the library's own, or else that of all programs. What it has decided on a level stays,
whatever loggers are made, until some level is set again.

Results:
* `isOurs_ownLogger`: the library's own logger is one of the library's.
-/
namespace ColorMarkup.Journal

def dot : CodePoint := 0x2E

/-- The loggers that the library makes itself. -/
def libraryLoggers : List Text :=
  ownLogger :: ["config", "logging", "modes", "tags"].map partLogger

/-- The names asked for besides the library's, and what has been decided on levels. -/
structure Loggers where
  made : List Text
  decided : List ((Text × Int) × Bool)
  deriving Repr

namespace Loggers

def initial : Loggers := ⟨[], []⟩

def has (ls : Loggers) (name : Text) : Bool :=
  libraryLoggers.contains name || ls.made.contains name

def make (ls : Loggers) (name : Text) : Loggers :=
  if ls.has name then ls else { ls with made := name :: ls.made }

/-- Does the library's own logger stand above the one with this name, given backwards? -/
def isUnderOurs (ls : Loggers) : Text → Bool
  | [] => false
  | [_] => false
  | c :: d :: above =>
    if c = dot then
      if ls.has (d :: above).reverse then
        (d :: above).reverse == ownLogger || ls.isUnderOurs (d :: above)
      else ls.isUnderOurs above
    else ls.isUnderOurs (d :: above)

/-- Is the logger the library's own, or does it stand under it? -/
def isOurs (ls : Loggers) (name : Text) : Bool := name == ownLogger || ls.isUnderOurs name.reverse

/-- Does the level of a logger let a level pass? `own` is the level of the library's. -/
def reaches (ls : Loggers) (own : Int) (name : Text) (level : Int) : Bool :=
  0 < level && (if ls.isOurs name then own else warningLevel) ≤ level

/-- Does a logger take records of a level, as it has decided before or else decides now? -/
def takes (ls : Loggers) (own : Int) (name : Text) (level : Int) : Bool :=
  (ls.decided.lookup (name, level)).getD (ls.reaches own name level)

/-- Keeps what a logger decides on a level. -/
def settle (ls : Loggers) (own : Int) (name : Text) (level : Int) : Loggers :=
  { ls with decided := ((name, level), ls.takes own name level) :: ls.decided }

/-- Forgets all decisions, as a level has been set. -/
def forget (ls : Loggers) : Loggers := { ls with decided := [] }

theorem isOurs_ownLogger (ls : Loggers) : ls.isOurs ownLogger = true := by simp [isOurs]

end Loggers
end ColorMarkup.Journal
