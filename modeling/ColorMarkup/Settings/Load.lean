import ColorMarkup.Json.Reader
import ColorMarkup.Settings.Report
import ColorMarkup.Settings.Access
/-!
# Loading settings

A settings file is a JSON object. Its entries are taken in order: a valid value
of a known option is put in place, anything else is reported and the option
keeps its value. A file that cannot be read changes nothing.

System-wide files stand in the directories of a search list, the first one
counting most; the user's own file counts more. A directory of the list is used
only if it is written in absolute normal form.

Results:
* `loadEntries_cons`: entries are taken one by one.
-/
namespace ColorMarkup.Environment

open Settings (Key Refusal Report Trouble shown)

/-- Is the value one the option may have? -/
def accepts (env : Environment) (k : Key) (v : Value) : Except Refusal Bool :=
  match k, v with
  | .colorDepth, v => .ok (match v.number? with
    | some n => (Depth.ofBits? n).isSome
    | none => false)
  | .direction, .text t => .ok (Direction.ofCode? t).isSome
  | .logFile, .text t => env.canWrite t
  | .logLevel, .text t => .ok (Key.levelNames.any fun n => Text.ofString n == t)
  | _, _ => .ok false

/-- The value of a JSON text in bytes. -/
def parse (limits : Limits) (b : Bytes) : Except Trouble Value :=
  match Utf8.decodeStrict? b with
  | none => .error .badEncoding
  | some t => if Json.isTooDeep limits.nesting t then .error .tooDeep else match Json.read? t with
    | none => .error .badSyntax
    | some v => .ok v

/-- The content of a settings file. -/
def readSettings (env : Environment) (path : Text) : Except Trouble Value :=
  match env.files.read path with
  | .error e => .error (.file e)
  | .ok b => parse env.limits b

/-- Takes one entry: the environment after it, unless its check is refused. -/
def loadEntry (env : Environment) (path name : Text) (v : Value) : Except Refusal Environment :=
  match Key.ofName? name with
  | none => .ok (env.report (.unknownOption name path))
  | some k => match env.accepts k v with
    | .error e => .error e
    | .ok true => .ok { env with options := env.options.setValue k v }
    | .ok false =>
      .ok ((env.report (.rejected k v)).log
        (.ofPart "config" Journal.infoLevel "load_config"
          ("Using former value: " ++ shown (env.options.value k) ++ ".")))

/-- Takes entries in order, up to the first whose check is refused. -/
def loadEntries (env : Environment) (path : Text) :
    List (Text × Value) → Environment × Except Refusal Unit
  | [] => (env, .ok ())
  | (name, v) :: rest => match env.loadEntry path name v with
    | .error e => (env, .error e)
    | .ok env => env.loadEntries path rest

/-- Loads a settings file: was it read? Mirrors `load_config`. -/
def load (env : Environment) (path : Text) : Environment × Except Refusal Bool :=
  match env.readSettings path with
  | .error why => (env.report (.unread (.text path) why), .ok false)
  | .ok (.dict entries) =>
    let (env, r) := env.loadEntries path entries
    (env, r.map fun _ => true)
  | .ok _ => (env.report (.notObject path), .ok false)

/-- Loads the settings file at a path of any type: one that is no text leads nowhere. -/
def loadValue (env : Environment) (path : Value) : Environment × Except Refusal Bool :=
  match path with
  | .text p => env.load p
  | v => (env.report (.unread v .notPath), .ok false)

/-- The names below a search directory that lead to a settings file. -/
def below (dir : Text) : Text :=
  Path.join (Path.join dir (Text.ofString "term_tags")) (Text.ofString "config.json")

/-- The user's own settings file. Mirrors `xdg_config_file`. -/
def userFile (env : Environment) : Except Refusal Text :=
  match env.configHome with
  | some dir => .ok (below dir)
  | none => (env.withHome [tilde]).map fun home =>
    below (Path.join home (Text.ofString ".config"))

/-- Is the directory in absolute normal form? -/
def isSearched (env : Environment) (dir : Text) : Bool := Path.absolute env.files.workdir dir == dir

/-- The directories of the search list, the one that counts least first. -/
def searchDirs (env : Environment) : List Text :=
  (Text.splitOn 0x3A (env.configDirs.getD (Text.ofString "/etc"))).reverse

def loadDirs (env : Environment) : List Text → Environment × Except Refusal Unit
  | [] => (env, .ok ())
  | dir :: rest =>
    if env.isSearched dir && env.files.isFile (below dir) then
      match env.load (below dir) with
      | (env, .error e) => (env, .error e)
      | (env, .ok _) => env.loadDirs rest
    else env.loadDirs rest

/-- Loads the user's settings file, if there is one. -/
def loadUser (env : Environment) : Environment × Except Refusal Unit :=
  match env.userFile with
  | .error e => (env, .error e)
  | .ok path =>
    if env.files.isFile path then
      let (env, r) := env.load path
      (env, r.map fun _ => ())
    else (env, .ok ())

/-- Loads every settings file, the one that counts most last. Mirrors `load_xdg_config`. -/
def loadSearched (env : Environment) : Environment × Except Refusal Unit :=
  match env.loadDirs env.searchDirs with
  | (env, .error e) => (env, .error e)
  | (env, .ok ()) => env.loadUser

theorem loadEntries_cons {env env' : Environment} {path name : Text} {v : Value}
    (h : env.loadEntry path name v = .ok env') (rest : List (Text × Value)) :
    env.loadEntries path ((name, v) :: rest) = env'.loadEntries path rest := by
  simp [loadEntries, h]

end ColorMarkup.Environment
