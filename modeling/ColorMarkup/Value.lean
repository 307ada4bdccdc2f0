import ColorMarkup.Mode.Basic
import ColorMarkup.Text.Quoted
import ColorMarkup.Decimal.Shortest
/-!
# Values

Arguments and option values of any type: some operations accept several, and
every refusal shows the value it refuses. `typeName` and `display` are the words
that messages use. `same` is equality as numbers, texts, byte contents and
lists, whatever kind holds them.

A whole number may be given as a flag, which counts as 0 or 1 and is shown as
what it is.

Results:
* `same_int`, `same_text`: on integers and on texts `same` is equality.
-/
namespace ColorMarkup

/-- How a byte string is held: read-only or writable, owned or a view. -/
inductive Holder where
  | constant
  | array
  | view
  | constantView
  deriving DecidableEq, Repr, Inhabited

/-- May the bytes be overwritten in place? -/
def Holder.isMutable : Holder → Bool
  | array | view => true
  | constant | constantView => false

/-- A value of any type. -/
inductive Value where
  | none
  | bool (b : Bool)
  | int (n : Int)
  | float (x : Binary64)
  | text (t : Text)
  | bytes (holder : Holder) (b : Bytes)
  | list (items : List Value)
  | dict (entries : List (Text × Value))
  | depth (d : Depth)
  | direction (d : Direction)
  deriving Inhabited, Repr

/-- A whole number as it is given. -/
inductive Whole where
  | number (n : Int)
  | flag (b : Bool)
  deriving DecidableEq, Repr, Inhabited

namespace Whole

def toInt : Whole → Int
  | number n => n
  | flag b => if b then 1 else 0

def value : Whole → Value
  | number n => .int n
  | flag b => .bool b

end Whole

namespace Value

def typeName : Value → String
  | none => "NoneType"
  | bool _ => "bool"
  | int _ => "int"
  | float _ => "float"
  | text _ => "str"
  | bytes .constant _ => "bytes"
  | bytes .array _ => "bytearray"
  | bytes .view _ => "memoryview"
  | bytes .constantView _ => "memoryview"
  | list _ => "list"
  | dict _ => "dict"
  | depth _ => "Depth"
  | direction _ => "Direction"

def displayDepth (d : Depth) : String := s!"<Depth.{d.label}: {d.bits}>"

def displayDirection (d : Direction) : String := s!"<Direction.{d.label}: '{d.code}'>"

mutual

/-- The value as messages show it. -/
def display : Value → String
  | none => "None"
  | bool b => if b then "True" else "False"
  | int n => toString n
  | float x => x.text
  | text t => t.quoted
  | bytes .constant b => b.quoted
  | bytes .array b => b.quotedArray
  | bytes .view _ => "<memory>"
  | bytes .constantView _ => "<memory>"
  | list items => "[" ++ displayItems true items ++ "]"
  | dict entries => "\x7b" ++ displayEntries true entries ++ "\x7d"
  | depth d => displayDepth d
  | direction d => displayDirection d

def displayItems : Bool → List Value → String
  | _, [] => ""
  | first, v :: rest => (if first then "" else ", ") ++ display v ++ displayItems false rest

def displayEntries : Bool → List (Text × Value) → String
  | _, [] => ""
  | first, (k, v) :: rest =>
    (if first then "" else ", ") ++ k.quoted ++ ": " ++ display v ++ displayEntries false rest

end

/-- The value as it stands inside a text: like `display`, but a text is itself
and a mode is its name or number. -/
def plain : Value → Text
  | text t => t
  | depth d => Text.ofString (toString d.bits)
  | direction d => Text.ofString s!"Direction.{d.label}"
  | v => Text.ofString (display v)

/-- The whole number a value gives: a depth is the number of its bits. -/
def whole? : Value → Option Whole
  | bool b => some (.flag b)
  | int n => some (.number n)
  | depth d => some (.number d.bits)
  | _ => Option.none

def asInt? (v : Value) : Option Int := v.whole?.map Whole.toInt

/-- The integer of a value that may stand where a number is asked for: no
boolean. -/
def number? : Value → Option Int
  | bool _ => Option.none
  | v => v.asInt?

def length? : Value → Option Nat
  | text t => some t.length
  | bytes _ b => some b.length
  | list items => some items.length
  | dict entries => some entries.length
  | _ => Option.none

/-- Does the value count as true in a condition? -/
def isTrue : Value → Bool
  | none => false
  | bool b => b
  | int n => n != 0
  | float x => !x.isZero
  | text t => !t.isEmpty
  | bytes _ b => !b.isEmpty
  | list items => !items.isEmpty
  | dict entries => !entries.isEmpty
  | depth _ | direction _ => true

mutual

/-- Equality across kinds: numbers by value, byte strings by content. -/
def same : Value → Value → Bool
  | none, none => true
  | text s, text t => s == t
  | bytes _ a, bytes _ b => a == b
  | list xs, list ys => sameItems xs ys
  | dict xs, dict ys => xs.length == ys.length && sameEntries xs ys
  | direction d, direction e => d == e
  | float x, float y => x.sameNumber y
  | float x, v => match v.asInt? with
    | some n => x.isInt n
    | Option.none => false
  | v, float y => match v.asInt? with
    | some n => y.isInt n
    | Option.none => false
  | v, w => match v.asInt?, w.asInt? with
    | some m, some n => m == n
    | _, _ => false

def sameItems : List Value → List Value → Bool
  | [], [] => true
  | v :: vs, w :: ws => same v w && sameItems vs ws
  | _, _ => false

def sameEntries : List (Text × Value) → List (Text × Value) → Bool
  | [], _ => true
  | (k, v) :: rest, ys => (match ys.find? fun e => e.1 == k with
    | some (_, w) => same v w
    | Option.none => false) && sameEntries rest ys

end

/-- Does the value equal itself? Not-a-number does not, but a list that holds it does. -/
def equalsItself : Value → Bool
  | float x => x.sameNumber x
  | _ => true

theorem same_int (m n : Int) : same (int m) (int n) = (m == n) := by
  simp [same, asInt?, whole?, Whole.toInt]

theorem same_text (s t : Text) : same (text s) (text t) = (s == t) := by simp [same]

end Value

end ColorMarkup
