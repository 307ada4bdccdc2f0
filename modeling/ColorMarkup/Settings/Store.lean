import ColorMarkup.Json.Writer
import ColorMarkup.Settings.Report
/-!
# Storing settings

The options whose values differ from their defaults are written as a JSON
object, indented by four. The directories above the file are made first. The
file is emptied before anything is written, and a value that cannot be written
stops the writing where it stands. What finds no room is not written either.

Results:
* `store_options`: storing leaves the options alone.
-/
namespace ColorMarkup.Environment

open Settings (Trouble)

def storedText (env : Environment) : Json.Written := Json.write 4 0 (.dict env.options.changed)

def storeDir (path : Text) : Text :=
  let d := Path.dirname path
  if d.isEmpty then Path.here else d

/-- Writes the changed options into a file: the files afterwards, and what went
wrong, if anything. -/
def writeSettings (f : Files) (path : Text) (written : Json.Written) : Files × Option Trouble :=
  match f.makeDirectories (storeDir path) with
  | (f, .error e) =>
    (f, some (if e = .alreadyExists ∨ e = .notDirectory then .parentNotDirectory else .file e))
  | (f, .ok ()) => match f.openFile path with
    | .error e => (f, some (.file e))
    | .ok (f, a) =>
      let content := (Utf8.encode written.text).getD []
      ({ f with tree := f.tree.overwrite a content },
        if (f.tree.access a).fit content = content then
          written.refused.map fun _ => .unserializable
        else some (.file .noSpace))

/-- Stores the changed options: was it done? Mirrors `store_config`. -/
def store (env : Environment) (path : Text) : Environment × Bool :=
  let (f, trouble) := writeSettings env.files path env.storedText
  let env := { env with files := f }
  match trouble with
  | none => (env, true)
  | some why => (env.report (.unwritten (.text path) why), false)

/-- Stores the changed options at a path of any type: one that is no text leads
nowhere. -/
def storeValue (env : Environment) (path : Value) : Environment × Bool :=
  match path with
  | .text p => env.store p
  | v => (env.report (.unwritten v .notPath), false)

theorem store_options (env : Environment) (path : Text) :
    (env.store path).1.options = env.options := by
  unfold store
  dsimp only
  split
  · rfl
  · rw [report_options]

end ColorMarkup.Environment
