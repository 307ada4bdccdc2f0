import ColorMarkup.Value
/-!
# Options

The four options, each with a current and a default value. An option is
addressed by its name, or by an attribute: the name with underscores for its
spaces, with one more underscore in front for the default.

Results:
* `ofName?_name`: an option is found by its name.
* `get_set`, `get_set_of_ne`: setting an option changes that one only.
* `get_reset`: every option is reset to its default.
-/
namespace ColorMarkup.Settings

inductive Key where
  | colorDepth
  | direction
  | logFile
  | logLevel
  deriving DecidableEq, Repr

namespace Key

def all : List Key := [colorDepth, direction, logFile, logLevel]

def name : Key → String
  | colorDepth => "color depth"
  | direction => "direction"
  | logFile => "log file"
  | logLevel => "log level"

def ofName? (t : Text) : Option Key := all.find? fun k => Text.ofString k.name == t

/-- The names of levels the log level may have. -/
def levelNames : List String := ["DEBUG", "INFO", "WARNING", "ERROR", "CRITICAL"]

/-- What a value of the option must be. -/
def requirement : Key → String
  | colorDepth => "must be one of 4, 8, 24"
  | direction => "must be one of 'fg', 'bg'"
  | logFile => "must be a string containing a writable/creatable file path"
  | logLevel =>
    "must be one of " ++ ", ".intercalate (levelNames.map fun n => (Text.ofString n).quoted)

def initial : Key → Value
  | colorDepth => .int 8
  | direction => .text (Text.ofString "fg")
  | logFile => .text (Text.ofString "~/.term_tags/term_tags.log")
  | logLevel => .text (Text.ofString "WARNING")

theorem ofName?_name (k : Key) : ofName? (Text.ofString k.name) = some k := by
  cases k <;> decide

end Key

/-- The current value of an option and its default. `isShared` says that the value is the default
itself, not one like it. Mirrors `Option`. -/
structure Setting where
  value : Value
  default : Value
  isShared : Bool
  shared : isShared = true → value = default
  deriving Repr

namespace Setting

def ofDefault (v : Value) : Setting := ⟨v, v, true, fun _ => rfl⟩

def withValue (s : Setting) (v : Value) : Setting := ⟨v, s.default, false, nofun⟩

def withDefault (s : Setting) (v : Value) : Setting := ⟨s.value, v, false, nofun⟩

/-- Does the value equal the default? A list equals itself, even one that holds
not-a-number. -/
def isAtDefault (s : Setting) : Bool :=
  if s.isShared then s.value.equalsItself else s.value.same s.default

end Setting

/-- The state of every option. Mirrors `ConfigOptions`. -/
structure Options where
  colorDepth : Setting
  direction : Setting
  logFile : Setting
  logLevel : Setting
  deriving Repr

namespace Options

def initial : Options :=
  let start (k : Key) := Setting.ofDefault k.initial
  ⟨start .colorDepth, start .direction, start .logFile, start .logLevel⟩

def get (o : Options) : Key → Setting
  | .colorDepth => o.colorDepth
  | .direction => o.direction
  | .logFile => o.logFile
  | .logLevel => o.logLevel

def set (o : Options) (k : Key) (s : Setting) : Options :=
  match k with
  | .colorDepth => { o with colorDepth := s }
  | .direction => { o with direction := s }
  | .logFile => { o with logFile := s }
  | .logLevel => { o with logLevel := s }

def value (o : Options) (k : Key) : Value := (o.get k).value

def setValue (o : Options) (k : Key) (v : Value) : Options :=
  o.set k ((o.get k).withValue v)

def setDefault (o : Options) (k : Key) (v : Value) : Options :=
  o.set k ((o.get k).withDefault v)

/-- Gives every option its default. Mirrors `ConfigOptions.reset`. -/
def reset (o : Options) : Options :=
  Key.all.foldl (fun o k => o.set k (.ofDefault (o.get k).default)) o

/-- The options whose values differ from their defaults, by name. -/
def changed (o : Options) : List (Text × Value) :=
  (Key.all.filter fun k => !(o.get k).isAtDefault).map fun k =>
    (Text.ofString k.name, o.value k)

theorem get_set (o : Options) (k : Key) (s : Setting) : (o.set k s).get k = s := by
  cases k <;> rfl

theorem get_set_of_ne (o : Options) {k l : Key} (h : l ≠ k) (s : Setting) :
    (o.set k s).get l = o.get l := by
  cases k <;> cases l <;> first | rfl | exact absurd rfl h

theorem get_reset (o : Options) (k : Key) : o.reset.get k = .ofDefault (o.get k).default := by
  cases k <;> rfl

end Options

/-- An option addressed by an attribute, and whether its default is meant. -/
structure Attribute where
  key : Key
  isDefault : Bool
  deriving DecidableEq, Repr

namespace Attribute

/-- The underscore and the space. -/
def underscore : CodePoint := 0x5F
@[inherit_doc underscore] def space : CodePoint := 0x20

/-- The attribute of a text, or the option name it fails with. Mirrors `_attr_to_option`. -/
def ofText (t : Text) : Except Text Attribute :=
  let isDefault := t.head? == some underscore
  let spaced := t.map fun c => if c = underscore then space else c
  let name := if isDefault then spaced.drop 1 else spaced
  match Key.ofName? name with
  | some k => .ok ⟨k, isDefault⟩
  | none => .error name

def get (a : Attribute) (o : Options) : Value :=
  if a.isDefault then (o.get a.key).default else (o.get a.key).value

def set (a : Attribute) (o : Options) (v : Value) : Options :=
  if a.isDefault then o.setDefault a.key v else o.setValue a.key v

end Attribute
end ColorMarkup.Settings
