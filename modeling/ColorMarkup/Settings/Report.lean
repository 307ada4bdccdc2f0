import ColorMarkup.Environment
/-!
# Reports on settings files

What is reported while settings are loaded or stored. Every report is logged and
raised as a warning. An option's null is shown as `null`.

Results:
* `report_options`: a report leaves the options alone.
-/
namespace ColorMarkup.Settings

/-- Why a settings file could not be used. -/
inductive Trouble where
  | file (e : FileError)
  | badEncoding
  | badSyntax
  | tooDeep
  | unserializable
  | parentNotDirectory
  | notPath
  deriving DecidableEq, Repr

def Trouble.label : Trouble → String
  | file e => e.label
  | badEncoding => "UnicodeDecodeError"
  | badSyntax => "JSONDecodeError"
  | tooDeep => "RecursionError"
  | unserializable | notPath => "TypeError"
  | parentNotDirectory => "one of the parents is not a directory"

inductive Report where
  | unread (path : Value) (why : Trouble)
  | notObject (path : Text)
  | unknownOption (name path : Text)
  | rejected (key : Key) (given : Value)
  | unwritten (path : Value) (why : Trouble)
  deriving Repr

/-- A value as settings files write null. -/
def shown (v : Value) : String :=
  match v with
  | .none => "null"
  | v => v.display

/-- A value's type as settings files name null. -/
def shownType (v : Value) : String :=
  match v with
  | .none => "null"
  | v => v.typeName

def Report.message : Report → String
  | unread path why => "Failed to load " ++ path.display ++ s!" ({why.label})."
  | notObject path => "Expected a JSON object at the top level of " ++ path.quoted ++ "."
  | unknownOption name path => "Unknown option " ++ name.quoted ++ " (in " ++ path.quoted ++ ")."
  | rejected key given =>
    s!"Invalid type/value for '{key.name}'; " ++ key.requirement ++ " (got: " ++ shown given
      ++ s!" of type '{shownType given}')."
  | unwritten path why =>
    "Failed to write user config to " ++ path.display ++ s!" ({why.label})."

end ColorMarkup.Settings

namespace ColorMarkup.Environment

open Settings (Report)

/-- Logs a report and raises it as a warning. Mirrors `_report`. -/
def report (env : Environment) (r : Report) : Environment :=
  (env.log (.ofPart "config" Journal.warningLevel "_report" r.message)).warn
    (Text.ofString r.message)

theorem warn_options (env : Environment) (m : Text) : (env.warn m).options = env.options := by
  unfold warn captureWarning
  split
  · exact log_options _ _
  · rfl

theorem report_options (env : Environment) (r : Report) : (env.report r).options = env.options := by
  rw [report, warn_options, log_options]

end ColorMarkup.Environment
