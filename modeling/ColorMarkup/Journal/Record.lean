import ColorMarkup.Value
/-!
# Log records

What the library reports while it works, before anything decides whether a
record is written: the name of the logger, a level, the operation that reports
it, and the message.
-/
namespace ColorMarkup.Journal

/-- The numbers of the usual levels. -/
def debugLevel : Int := 10
@[inherit_doc debugLevel] def infoLevel : Int := 20
@[inherit_doc debugLevel] def warningLevel : Int := 30
@[inherit_doc debugLevel] def errorLevel : Int := 40
@[inherit_doc debugLevel] def criticalLevel : Int := 50

/-- One event. -/
structure Record where
  logger : Text
  level : Whole
  operation : String
  message : Text
  deriving DecidableEq, Repr

/-- The logger every logger of the library descends from. -/
def ownLogger : Text := Text.ofString "term_tags"

def partLogger (part : String) : Text := ownLogger ++ Text.ofString ("." ++ part)

def Record.ofPart (part : String) (level : Int) (operation : String) (message : String) :
    Record :=
  ⟨partLogger part, .number level, operation, Text.ofString message⟩

end ColorMarkup.Journal
