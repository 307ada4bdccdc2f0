import ColorMarkup.Escape.Template
import ColorMarkup.Markup.Convert
/-!
# Catalogue

Facts about the library that programs can list: its version and limits, the
sequence templates, the search patterns, and the classes of its errors and
warnings, each with the classes it belongs to, the most special first.

Results:
* `classes_sorted`: the classes are listed by name.
-/
namespace ColorMarkup.Catalogue

/-- The version, from the major number on. -/
def versionNumbers : List Nat := [0, 1, 0]

def version : String := ".".intercalate (versionNumbers.map toString)

/-- The pattern that finds sequences. -/
def sequencePattern : String := "\x1b\\[[\\d;]*m"

/-- A listed item: as text or as bytes. -/
def both (name : String) (b : Bytes) : List (String × Value) :=
  [(name, .text b.toText), (name ++ "_b", .bytes .constant b)]

/-- Listings are in the order of names. -/
def sortByName {α : Type} (items : List (String × α)) : List (String × α) :=
  items.mergeSort fun a b => Text.le (Text.ofString a.1) (Text.ofString b.1)

def sequences : List (String × Value) :=
  sortByName
    (both "SGR_re" (Bytes.ofString sequencePattern)
      ++ Template.named.flatMap fun (name, t) => both name t.pattern)

/-- The class every error descends from, and those above it. -/
def errorRoots : List String := ["Exception", "BaseException", "object"]

def classes : List (String × List String) :=
  [("BufferTooSmallError", ["BufferTooSmallError", "TermTagsError"] ++ errorRoots),
   ("InvalidArgumentError", ["InvalidArgumentError", "TermTagsError", "ValueError"] ++ errorRoots),
   ("TermTagsError", ["TermTagsError"] ++ errorRoots),
   ("TermTagsUserWarning",
     ["TermTagsUserWarning", "TermTagsWarning", "UserWarning", "Warning"] ++ errorRoots),
   ("TermTagsWarning", ["TermTagsWarning", "Warning"] ++ errorRoots)]

def constants : List (String × Value) :=
  [("version", .text (Text.ofString version)),
   ("version_info", .list (versionNumbers.map fun (n : Nat) => .int n)),
   ("max_tag_length", .int Markup.longestBody),
   ("max_name_length", .int Vocabulary.longestName),
   ("cube_start", .int Color.cubeFirst),
   ("grayscale_start", .int Color.rampFirst)]

/-- The template of a name, and whether it is asked for as bytes. -/
def template? (name : String) : Option (Bool × Template) :=
  match (Template.named ++ Template.fragments).lookup name with
  | some t => some (false, t)
  | none => (Template.named.find? fun p => p.1 ++ "_b" == name).map fun (_, t) => (true, t)

/-- The types of what is named beside the templates: the search pattern, as text and
as bytes, and the maker of parameters. -/
def otherTypes : List (String × String) :=
  [("SGR_re", "re.Pattern"), ("SGR_re_b", "re.Pattern"), ("Pm", "function")]

def fillTemplate (name : String) (vs : List Value) : Except Error Value :=
  match template? name with
  | some (binary, t) =>
    (t.fill binary vs).map fun b => if binary then .bytes .constant b else .text b.toText
  | none => match otherTypes.lookup name with
    | some typeName => .error (.misuse (.template typeName))
    | none => .error (.noTemplate name)

/-- The pattern of so many open parameters, if there is memory for them. Mirrors `Pm`. -/
def parameters (greatest : Int) (count : Value) : Except Error Value :=
  (repetitions greatest count).map fun n => .text (Template.parameters n).pattern.toText

theorem classes_sorted :
    (classes.map fun c => Text.ofString c.1).Pairwise fun a b => Text.le a b = true := by
  decide +kernel

end ColorMarkup.Catalogue
