import ColorMarkup.Journal.Basic
import ColorMarkup.Files.Open
import ColorMarkup.Settings.Options
import ColorMarkup.Session
/-!
# The environment of a program

Everything that settings and logging act on: the files, the home directories and search
variables, the options, the shared mode, and the journal. Records go to the journal's files as
they are made, and are taken to find room there. Warnings are kept in order, unless the journal
captures them.

Results:
* `log_options`, `log_mode`: writing a record leaves options and mode alone.
-/
namespace ColorMarkup

/-- Where a warning is raised: a file, a line number, and the line's text unless it is
to be looked up in the file. -/
structure Place where
  file : Text
  number : Value
  line : Option Text
  deriving Repr

/-- What there is room for in a program: so many lists and objects within one another in a JSON
text, and so many repetitions of a text. -/
structure Limits where
  nesting : Nat
  count : Int
  nesting_pos : 0 < nesting
  count_pos : 0 < count
  deriving Repr

/-- The environment. A variable that is not set is `none`, and so is the home directory of the
user that runs the program if there is no account of that user; no loggers are made to begin with
but the library's. -/
structure Environment where
  files : Files
  home : Option Text
  ownHome : Option Text
  accounts : List (Text × Text)
  limits : Limits
  configHome : Option Text
  configDirs : Option Text
  options : Settings.Options
  mode : Mode
  journal : Journal.State
  warnings : List Text
  caller : Place
  loggers : Journal.Loggers := .initial
  deriving Repr

namespace Environment

open Settings (Refusal)

/-- Writes a record to the journal. -/
def log (env : Environment) (r : Journal.Record) : Environment :=
  let tree := env.files.tree.appendAll (Journal.outputs env.loggers env.journal r)
  { env with files := { env.files with tree := tree } }

def logNotices (env : Environment) (ns : List Notice) : Environment :=
  ns.foldl (fun env n => env.log n.record) env

def warningCategory : String := "TermTagsUserWarning"

/-- The line of a place; one that cannot be looked up is empty. -/
def lineOf (env : Environment) (p : Place) : Text :=
  match p.line with
  | some t => t
  | none => match (env.files.read p.file).toOption.bind Utf8.decodeStrict? with
    | some t => t.line (p.number.asInt?.getD 0)
    | none => []

/-- The text of a warning raised at a place, the text of its line being `line`. -/
def warningText (message : Text) (p : Place) (line : Text) : Text :=
  p.file ++ Text.ofString ":" ++ p.number.plain ++ Text.ofString s!": {warningCategory}: "
    ++ message ++ [0x0A]
    ++ (if line.isEmpty then [] else Text.ofString "  " ++ line.strip ++ [0x0A])

/-- Makes a record of a warning raised at a place, if warnings are captured. Mirrors
`_log_warning`. -/
def captureWarning (env : Environment) (message : Text) (p : Place) : Environment :=
  if env.journal.capturing then
    env.log ⟨Journal.partLogger "logging", .number Journal.warningLevel, "_log_warning",
      warningText message p (env.lineOf p)⟩
  else env

def warn (env : Environment) (message : Text) : Environment :=
  if env.journal.capturing then env.captureWarning message env.caller
  else { env with warnings := env.warnings ++ [message] }

/-- The logger that a value names: one that is no name must be empty and is none. -/
def loggerOf (v : Value) : Except Refusal Text :=
  match v with
  | .text t => .ok t
  | v => if v.isTrue then .error .loggerNotText else .ok []

/-- Makes a record for a program's own operation. The logger is made first, and keeps what
it decides on the level. -/
def emit (env : Environment) (operation : String) (logger level message : Value) :
    Environment × Except Refusal Unit :=
  match loggerOf logger with
  | .error e => (env, .error e)
  | .ok name =>
    let loggers := env.loggers.make name
    match level.whole? with
    | none => ({ env with loggers := loggers }, .error .levelNotInteger)
    | some level =>
      let own := Journal.effectiveLevel env.journal
      let env := { env with loggers := loggers.settle own name level.toInt }
      (env.log ⟨name, level, operation, message.plain⟩, .ok ())

/-- Runs an operation under the shared mode. -/
def run (env : Environment) (op : Operation) : Environment × Except Error Value :=
  let o := op.run env.mode
  ({ env with mode := o.mode }.logNotices o.notices, o.result)

theorem log_options (env : Environment) (r : Journal.Record) :
    (env.log r).options = env.options := rfl

theorem log_mode (env : Environment) (r : Journal.Record) : (env.log r).mode = env.mode := rfl

theorem logNotices_mode (env : Environment) (ns : List Notice) :
    (env.logNotices ns).mode = env.mode := by
  unfold logNotices
  induction ns generalizing env with
  | nil => rfl
  | cons n ns ih => rw [List.foldl_cons, ih, log_mode]

end Environment
end ColorMarkup
