import ColorMarkup.Json.Reader
import ColorMarkup.Decimal.Integer
/-!
# Writing JSON

Values are written in ASCII, with the layout of an indentation: each item and
member on a line of its own, `null`, `true`, `NaN` and so on as words, floats by
their shortest text. Bytes and directions cannot be written. The text is
produced in order and stops at the first value that cannot be written, so what
came before it is known.

Results:
* `write_int`, `write_text`: how integers and texts are written.
-/
namespace ColorMarkup.Json

/-- A text written so far, and the value at which writing stopped, if it did. -/
structure Written where
  text : Text
  refused : Option Value
  deriving Repr

namespace Written

def all (t : Text) : Written := ⟨t, none⟩

/-- Goes on behind what is written, unless writing stopped. -/
def andThen (w : Written) (next : Written) : Written :=
  match w.refused with
  | some v => ⟨w.text, some v⟩
  | none => ⟨w.text ++ next.text, next.refused⟩

end Written

/-- A code unit as an escape of four hexadecimal digits. -/
def unitEscape (n : Nat) : Text := (('\\' :: 'u' :: Quoted.hex 4 n)).map CodePoint.ofChar

/-- The letter of a short escape that is written: the slash stands for itself. -/
def shortLetter? (c : CodePoint) : Option Char :=
  (shortEscapes.find? fun e => e.1 != '/' && e.2 == c.val).map (·.1)

def escapePoint (c : CodePoint) : Text :=
  match shortLetter? c with
  | some letter => [point '\\', point letter]
  | none =>
    if 0x20 ≤ c.val ∧ c.val ≤ 0x7E then [c]
    else if c.val < 0x10000 then unitEscape c.val
    else
      let n := c.val - 0x10000
      unitEscape (0xD800 + n / 0x400) ++ unitEscape (0xDC00 + n % 0x400)

def quote (t : Text) : Text := point '"' :: (t.flatMap escapePoint ++ [point '"'])

def floatText : Binary64 → String
  | .nan => "NaN"
  | .infinity negative => if negative then "-Infinity" else "Infinity"
  | x => x.text

def writeScalar : Value → Written
  | .none => .all (Text.ofString "null")
  | .bool b => .all (Text.ofString (if b then "true" else "false"))
  | .int n => .all (Bytes.toText (Decimal.ofInt n))
  | .float x => .all (Text.ofString (floatText x))
  | .text t => .all (quote t)
  | .depth d => .all (Bytes.toText (Decimal.ofNat d.bits))
  | v => ⟨[], some v⟩

def newline (indent level : Nat) : Text :=
  point '\n' :: List.replicate (indent * level) (point ' ')

mutual

/-- Writes a value at a level of nesting. -/
def write (indent level : Nat) : Value → Written
  | .list [] => .all (Text.ofString "[]")
  | .list (v :: vs) =>
    (Written.all (point '[' :: newline indent (level + 1))).andThen
      ((writeItems indent (level + 1) true (v :: vs)).andThen
        (.all (newline indent level ++ [point ']'])))
  | .dict [] => .all (Text.ofString "\x7b\x7d")
  | .dict (e :: es) =>
    (Written.all (point '\x7b' :: newline indent (level + 1))).andThen
      ((writeMembers indent (level + 1) true (e :: es)).andThen
        (.all (newline indent level ++ [point '\x7d'])))
  | v => writeScalar v

/-- Writes the items of a list, each after the first behind a comma. -/
def writeItems (indent level : Nat) : Bool → List Value → Written
  | _, [] => .all []
  | first, v :: vs =>
    (Written.all (if first then [] else point ',' :: newline indent level)).andThen
      ((write indent level v).andThen (writeItems indent level false vs))

/-- Writes the members of an object, each after the first behind a comma. -/
def writeMembers (indent level : Nat) : Bool → List (Text × Value) → Written
  | _, [] => .all []
  | first, (key, v) :: es =>
    (Written.all ((if first then [] else point ',' :: newline indent level) ++ quote key ++
        [point ':', point ' '])).andThen
      ((write indent level v).andThen (writeMembers indent level false es))

end

theorem write_int (indent level : Nat) (n : Int) :
    write indent level (.int n) = .all (Bytes.toText (Decimal.ofInt n)) := by
  simp [write, writeScalar]

theorem write_text (indent level : Nat) (t : Text) :
    write indent level (.text t) = .all (quote t) := by
  simp [write, writeScalar]

end ColorMarkup.Json
