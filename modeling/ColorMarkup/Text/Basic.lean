/-!
# Bytes and texts

A text is a list of code points. Lone surrogates are allowed, because texts
arrive from file names and from JSON escapes that may hold them; `U+DC80` to
`U+DCFF` then stand for the bytes `0x80` to `0xFF` that no character decodes to.

Results:
* `asciiLower_lt`: lowering a byte keeps ASCII in ASCII.
* `Bytes.untilNul_no_nul`: what stands before the first zero byte has none.
-/
namespace ColorMarkup

abbrev Bytes := List UInt8

/-- A code point, surrogates included. -/
abbrev CodePoint := Fin 0x110000

/-- Numbers can be written as code points. -/
instance instNeZeroCodePointBound : @NeZero Nat Zero.ofOfNat0 0x110000 :=
  ⟨Nat.succ_ne_zero 0x10FFFF⟩

/-- A text, surrogates included. -/
abbrev Text := List CodePoint

namespace CodePoint

def ofNat? (n : Nat) : Option CodePoint :=
  if h : n < 0x110000 then some ⟨n, h⟩ else none

/-- The code point of a byte's number (Latin-1). -/
def ofByte (b : UInt8) : CodePoint := ⟨b.toNat, by have := b.toNat_lt; omega⟩

def ofChar (c : Char) : CodePoint :=
  ⟨c.toNat, by rcases c.valid with h | h <;> simp only [Char.toNat] <;> omega⟩

/-- Neither a character nor assigned to one: `U+D800` to `U+DFFF`. -/
def isSurrogate (c : CodePoint) : Bool := 0xD800 ≤ c.val && c.val ≤ 0xDFFF

/-- A surrogate that stands for one byte: `U+DC80` to `U+DCFF`. -/
def isEscapedByte (c : CodePoint) : Bool := 0xDC80 ≤ c.val && c.val ≤ 0xDCFF

/-- The character of a code point; a surrogate has none and gives `U+FFFD`. -/
def toChar (c : CodePoint) : Char :=
  if c.isSurrogate then Char.ofNat 0xFFFD else Char.ofNat c.val

/-- White space that is trimmed from the ends of a source line. -/
def isBlank (c : CodePoint) : Bool :=
  let n := c.val
  (0x09 ≤ n && n ≤ 0x0D) || (0x1C ≤ n && n ≤ 0x20) || n == 0x85 || n == 0xA0 || n == 0x1680 ||
    (0x2000 ≤ n && n ≤ 0x200A) || n == 0x2028 || n == 0x2029 || n == 0x202F || n == 0x205F ||
    n == 0x3000

end CodePoint

/-- An ASCII capital's small letter; every other number is kept. -/
def asciiLower (n : Nat) : Nat := if 0x41 ≤ n ∧ n ≤ 0x5A then n + 32 else n

theorem asciiLower_lt {n k : Nat} (hk : 0x7B ≤ k) (h : n < k) : asciiLower n < k := by
  unfold asciiLower; split <;> omega

namespace Text

/-- The text of a string. -/
def ofString (s : String) : Text := s.toList.map CodePoint.ofChar

/-- The string of a text without surrogates. -/
def toString (t : Text) : String := String.ofList (t.map CodePoint.toChar)

def isAscii (t : Text) : Bool := t.all (·.val < 0x80)

def hasSurrogate (t : Text) : Bool := t.any CodePoint.isSurrogate

def lower (t : Text) : Text :=
  t.map fun c => ⟨asciiLower c.val, asciiLower_lt (by decide) c.isLt⟩

def strip (t : Text) : Text :=
  ((t.dropWhile CodePoint.isBlank).reverse.dropWhile CodePoint.isBlank).reverse

/-- The pieces between the occurrences of `sep`; there is always one. -/
def splitOn (sep : CodePoint) : Text → List Text
  | [] => [[]]
  | c :: t =>
    if c = sep then [] :: splitOn sep t
    else match splitOn sep t with
      | [] => [[c]]
      | piece :: rest => (c :: piece) :: rest

/-- The text with each return, alone or with the newline after it, made a newline. -/
def unixNewlines : Text → Text
  | [] => []
  | c :: t =>
    if c.val = 0x0D then
      match t with
      | [] => [0x0A]
      | d :: u => if d.val = 0x0A then 0x0A :: unixNewlines u else 0x0A :: unixNewlines (d :: u)
    else c :: unixNewlines t

/-- The line of a number, counted from one; empty if there is none. -/
def line (t : Text) (number : Int) : Text :=
  if number < 1 then [] else ((splitOn 0x0A t.unixNewlines)[number.toNat - 1]?).getD []

/-- Code point order, for sorted listings. -/
def le (a b : Text) : Bool := !(List.lex b a fun x y => decide (x.val < y.val))

end Text

namespace Bytes

/-- The bytes of an ASCII string. -/
def ofString (s : String) : Bytes := s.toList.map fun c => UInt8.ofNat c.toNat

def isAscii (b : Bytes) : Bool := b.all (· < 0x80)

def lower (b : Bytes) : Bytes := b.map fun x => UInt8.ofNat (asciiLower x.toNat)

/-- The bytes before the first zero byte: a C string's content. -/
def untilNul (b : Bytes) : Bytes := b.takeWhile (· != 0)

/-- The text whose code points are the bytes' numbers. -/
def toText (b : Bytes) : Text := b.map CodePoint.ofByte

theorem untilNul_no_nul (b : Bytes) : ∀ x ∈ untilNul b, x ≠ 0 := by
  induction b with
  | nil => simp [untilNul]
  | cons c t ih =>
    intro x hx
    by_cases h : c = 0
    · simp [untilNul, h] at hx
    · simp only [untilNul, List.takeWhile_cons, bne_iff_ne, ne_eq, h, not_false_eq_true, if_true,
        List.mem_cons] at hx
      rcases hx with rfl | hx
      · exact h
      · exact ih x hx

end Bytes

end ColorMarkup
