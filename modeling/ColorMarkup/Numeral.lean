import ColorMarkup.Color
import ColorMarkup.Source
import ColorMarkup.Decimal.Integer
/-!
# Numeric colors

A numeric tag is one integer, or three joined by any of `. , ; :`. An integer is
written as in C: `0x` starts a hexadecimal literal, another leading `0` an octal
one; blanks and one sign may stand before it. Every integer must be a byte.
One integer is a code or a palette entry, depending on the color depth; three
are the channels of a color.

Results:
* `parse?_value`: a numeric color's value is in `0..0xFFFFFF`, and that of
  three channels is their color's.
-/
namespace ColorMarkup

/-- What a numeric tag says: one number, or a color and its number. Mirrors `NumericColor`. -/
structure NumberTag where
  value : Int
  color : Option Color
  deriving DecidableEq, Repr

namespace NumberTag

/-- Blanks before an integer: space, tab, newline, vertical tab, form feed, return. -/
def isBlank (b : UInt8) : Bool := b == 0x20 || (0x09 ≤ b && b ≤ 0x0D)

/-- A mark between two integers. -/
def isSeparator (b : UInt8) : Bool := b == 0x2E || b == 0x2C || b == 0x3B || b == 0x3A

def isOctalDigit (b : UInt8) : Bool := 0x30 ≤ b && b ≤ 0x37

def isHexDigit (b : UInt8) : Bool :=
  Decimal.isDigit b || (0x41 ≤ b && b ≤ 0x46) || (0x61 ≤ b && b ≤ 0x66)

def hexDigitValue (b : UInt8) : Nat :=
  if Decimal.isDigit b then b.toNat - 0x30 else asciiLower b.toNat - 0x57

/-- The longest head of digits of one kind, read in a base, and the rest. -/
def digits (base : Nat) (isDigit : UInt8 → Bool) (value : UInt8 → Nat) (s : Bytes) : Nat × Bytes :=
  (Decimal.valueOf base value (s.takeWhile isDigit), s.dropWhile isDigit)

/-- The hexadecimal literal at the head, after its `0x`. -/
def hexLiteral? : Bytes → Option (Nat × Bytes)
  | z :: x :: s =>
    if z = 0x30 ∧ (x = 0x78 ∨ x = 0x58) ∧ s.head?.any isHexDigit then
      some (digits 16 isHexDigit hexDigitValue s)
    else none
  | _ => none

/-- The literal at the head, its base known by how it starts, and the rest. Mirrors `_to_int`. -/
def literal? (s : Bytes) : Option (Nat × Bytes) :=
  match hexLiteral? s with
  | some r => some r
  | none => match s with
    | [] => none
    | d :: _ =>
      if d = 0x30 then some (digits 8 isOctalDigit Decimal.digitValue s)
      else if Decimal.isDigit d then some (digits 10 Decimal.isDigit Decimal.digitValue s)
      else none

/-- A sign at the head: is it a minus, and the rest. -/
def sign : Bytes → Bool × Bytes
  | [] => (false, [])
  | c :: s => if c = 0x2D then (true, s) else if c = 0x2B then (false, s) else (false, c :: s)

def integer? (s : Bytes) : Option (Int × Bytes) :=
  let (negative, s) := sign (s.dropWhile isBlank)
  (literal? s).map fun (n, rest) => (if negative then -(n : Int) else n, rest)

def next? : Bytes → Option (Int × Bytes)
  | [] => none
  | c :: s => if isSeparator c then integer? s else none

/-- The one or three integers that make up the whole. -/
def integers? (s : Bytes) : Option (List Int) :=
  match integer? s with
  | none => none
  | some (a, []) => some [a]
  | some (a, s) => match next? s with
    | none => none
    | some (b, s) => match next? s with
      | some (c, []) => some [a, b, c]
      | _ => none

/-- The numeric tag that a byte string spells. Mirrors `parse_numeric`. -/
def parse? (s : Bytes) : Option NumberTag :=
  match integers? s with
  | some [n] => if Color.isByte n then some ⟨n, none⟩ else none
  | some [r, g, b] =>
    if Color.isByte r && Color.isByte g && Color.isByte b then
      some ⟨Color.toNumber ⟨r, g, b⟩, some ⟨r, g, b⟩⟩
    else none
  | _ => none

def ofValue? (v : Value) : Except Error (Option NumberTag) :=
  (v.key? "text").map (·.bind parse?)

theorem parse?_value {s : Bytes} {n : NumberTag} (h : parse? s = some n) :
    0 ≤ n.value ∧ n.value ≤ 0xFFFFFF ∧ ∀ c ∈ n.color, c.Valid ∧ n.value = c.toNumber := by
  unfold parse? at h
  split at h
  · split at h
    · next hb =>
      cases h
      rw [Color.isByte_iff] at hb
      simp; omega
    · cases h
  · split at h
    · next hb =>
      cases h
      simp only [Bool.and_eq_true, Color.isByte_iff] at hb
      obtain ⟨⟨hr, hg⟩, hb⟩ := hb
      refine ⟨by simp only [Color.toNumber]; omega, by simp only [Color.toNumber]; omega, ?_⟩
      intro c hc
      cases hc
      exact ⟨⟨hr, hg, hb⟩, rfl⟩
    · cases h
  · cases h

end NumberTag
end ColorMarkup
