import ColorMarkup.Text.Printable
/-!
# Quoted text and bytes

How a value is shown in a message. The delimiter is a single quote, or a double
quote if the value holds single quotes and no double one. The delimiter and the
backslash are escaped by a backslash; tab, newline and return have short
escapes; other unprintable code points are written in hexadecimal, two, four or
eight digits wide. Bytes above `0x7E` are always written in hexadecimal. In
writable bytes the single quote is escaped whatever the delimiter is.
-/
namespace ColorMarkup.Quoted

/-- The lower-case hexadecimal digit of `n < 16`. -/
def hexDigit (n : Nat) : Char := Char.ofNat (if n < 10 then 0x30 + n else 0x57 + n)

/-- The last `width` hexadecimal digits of `n`. -/
def hex : Nat → Nat → List Char
  | 0, _ => []
  | width + 1, n => hex width (n / 16) ++ [hexDigit (n % 16)]

def single : Nat := 0x27

def double : Nat := 0x22

def delimiter (numbers : List Nat) : Nat :=
  if numbers.contains single && !numbers.contains double then double else single

/-- The escape of one number below `0x80`, or the character itself; `quote` is the
quote that is escaped. -/
def escapeAscii (quote n : Nat) : List Char :=
  if n = quote ∨ n = 0x5C then [Char.ofNat 0x5C, Char.ofNat n]
  else if n = 0x09 then ['\\', 't']
  else if n = 0x0A then ['\\', 'n']
  else if n = 0x0D then ['\\', 'r']
  else if n < 0x20 ∨ n = 0x7F then '\\' :: 'x' :: hex 2 n
  else [Char.ofNat n]

def escapePoint (quote : Nat) (c : CodePoint) : List Char :=
  if c.val < 0x80 then escapeAscii quote c.val
  else if c.isPrintable then [c.toChar]
  else if c.val ≤ 0xFF then '\\' :: 'x' :: hex 2 c.val
  else if c.val ≤ 0xFFFF then '\\' :: 'u' :: hex 4 c.val
  else '\\' :: 'U' :: hex 8 c.val

def escapeByte (quote : Nat) (b : UInt8) : List Char :=
  if b < 0x80 then escapeAscii quote b.toNat else '\\' :: 'x' :: hex 2 b.toNat

end ColorMarkup.Quoted

namespace ColorMarkup

/-- The text between quotes, with escapes. -/
def Text.quoted (t : Text) : String :=
  let q := Quoted.delimiter (t.map (·.val))
  String.ofList (Char.ofNat q :: (t.flatMap (Quoted.escapePoint q) ++ [Char.ofNat q]))

namespace Bytes

def delimiter (b : Bytes) : Nat := Quoted.delimiter (b.map (·.toNat))

/-- The bytes between quotes, with escapes, marked by a leading `b`; `quote` is the
quote that is escaped. -/
def quotedEscaping (quote : Nat) (b : Bytes) : String :=
  let q := Char.ofNat b.delimiter
  String.ofList ('b' :: q :: (b.flatMap (Quoted.escapeByte quote) ++ [q]))

/-- The bytes between quotes, the delimiter escaped. -/
def quoted (b : Bytes) : String := b.quotedEscaping b.delimiter

/-- Writable bytes between quotes, the single quote escaped. -/
def quotedArray (b : Bytes) : String := "bytearray(" ++ b.quotedEscaping Quoted.single ++ ")"

end Bytes

end ColorMarkup
