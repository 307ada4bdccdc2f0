import ColorMarkup.Numeral
import ColorMarkup.Proofs.Text.Character
import Mathlib.Data.Nat.Digits.Defs
/-!
# The grammar of numeric tags

A numeral is one term, or three with a separator between them. A term is blanks, at
most one sign and a literal; a literal is hexadecimal, octal or decimal by how it
starts, as in C, and its value is that of its digits in that base. The parts carry
what they must hold, so every numeral is a well-formed one.

Results:
* `Literal.bytes_injective`, `Sign.bytes_append_injective`: a literal, and a sign in front
  of one, are determined by how they are written.
* `Numeral.bytes_isPart`, `isPart_iff`: the bytes that numerals are written with, all of them
  ASCII and none zero.
-/
namespace ColorMarkup.NumberTag

/-- A literal as it is written. -/
inductive Literal where
  | hex (x : UInt8) (digits : Bytes) (hx : x = 0x78 ∨ x = 0x58) (hne : digits ≠ [])
      (h : ∀ d ∈ digits, isHexDigit d = true)
  /-- The digits behind the first zero, maybe none. -/
  | octal (digits : Bytes) (h : ∀ d ∈ digits, isOctalDigit d = true)
  | decimal (first : UInt8) (digits : Bytes) (hfirst : Decimal.isDigit first = true ∧ first ≠ 0x30)
      (h : ∀ d ∈ digits, Decimal.isDigit d = true)

/-- The number of some digits in a base, the most significant one first. -/
def positional (base : Nat) (digits : List Nat) : Nat := Nat.ofDigits base digits.reverse

namespace Literal

def bytes : Literal → Bytes
  | hex x digits .. => 0x30 :: x :: digits
  | octal digits _ => 0x30 :: digits
  | decimal first digits .. => first :: digits

def value : Literal → Nat
  | hex _ digits .. => positional 16 (digits.map hexDigitValue)
  | octal digits _ => positional 8 (digits.map Decimal.digitValue)
  | decimal first digits .. => positional 10 ((first :: digits).map Decimal.digitValue)

end Literal

inductive Sign where
  | none
  | plus
  | minus
  deriving DecidableEq, Repr

namespace Sign

def bytes : Sign → Bytes
  | none => []
  | plus => [0x2B]
  | minus => [0x2D]

def apply : Sign → Nat → Int
  | none, n => n
  | plus, n => n
  | minus, n => -n

end Sign

/-- An integer as it is written. -/
structure Term where
  blanks : Bytes
  sign : Sign
  literal : Literal
  hblanks : ∀ b ∈ blanks, isBlank b = true

namespace Term

def bytes (t : Term) : Bytes := t.blanks ++ (t.sign.bytes ++ t.literal.bytes)

def value (t : Term) : Int := t.sign.apply t.literal.value

end Term

/-- A numeric tag as it is written. -/
inductive Numeral where
  | single (t : Term)
  | triple (r : Term) (s : UInt8) (g : Term) (s' : UInt8) (b : Term) (hs : isSeparator s = true)
      (hs' : isSeparator s' = true)

namespace Numeral

def bytes : Numeral → Bytes
  | single t => t.bytes
  | triple r s g s' b .. => r.bytes ++ s :: (g.bytes ++ s' :: b.bytes)

def values : Numeral → List Int
  | single t => [t.value]
  | triple r _ g _ b .. => [r.value, g.value, b.value]

/-- Every value is a byte. -/
def InRange (n : Numeral) : Prop := ∀ v ∈ n.values, 0 ≤ v ∧ v ≤ 255

/-- What the numeral says: its number alone, or its channels and their number. -/
def tag : Numeral → NumberTag
  | single t => ⟨t.value, none⟩
  | triple r _ g _ b .. =>
    ⟨r.value * 65536 + g.value * 256 + b.value, some ⟨r.value, g.value, b.value⟩⟩

end Numeral

/-! ## Classes of bytes -/

theorem isBlank_iff (b : UInt8) :
    isBlank b = true ↔ b.toNat = 0x20 ∨ (0x09 ≤ b.toNat ∧ b.toNat ≤ 0x0D) := by
  simp [isBlank, UInt8.le_iff_toNat_le, ← UInt8.toNat_inj]

theorem isSeparator_iff (b : UInt8) :
    isSeparator b = true ↔ b = 0x2E ∨ b = 0x2C ∨ b = 0x3B ∨ b = 0x3A := by
  simp [isSeparator, or_assoc]

theorem isDigit_iff (b : UInt8) : Decimal.isDigit b = true ↔ 0x30 ≤ b.toNat ∧ b.toNat ≤ 0x39 := by
  simp [Decimal.isDigit, UInt8.le_iff_toNat_le]

theorem isOctalDigit_iff (b : UInt8) :
    isOctalDigit b = true ↔ 0x30 ≤ b.toNat ∧ b.toNat ≤ 0x37 := by
  simp [isOctalDigit, UInt8.le_iff_toNat_le]

theorem isHexDigit_iff (b : UInt8) :
    isHexDigit b = true ↔ (0x30 ≤ b.toNat ∧ b.toNat ≤ 0x39) ∨ (0x41 ≤ b.toNat ∧ b.toNat ≤ 0x46) ∨
      (0x61 ≤ b.toNat ∧ b.toNat ≤ 0x66) := by
  simp [isHexDigit, isDigit_iff, UInt8.le_iff_toNat_le, or_assoc]

/-! ## How literals and signs are told apart -/

/-- A literal starts with a digit. -/
theorem Literal.bytes_head (l : Literal) :
    ∃ d rest, l.bytes = d :: rest ∧ 0x30 ≤ d.toNat ∧ d.toNat ≤ 0x39 := by
  cases l with
  | hex x digits hx hne h => exact ⟨_, _, rfl, by decide, by decide⟩
  | octal digits h => exact ⟨_, _, rfl, by decide, by decide⟩
  | decimal first digits hfirst h =>
    obtain ⟨hlow, hhigh⟩ := (isDigit_iff first).1 hfirst.1
    exact ⟨_, _, rfl, hlow, hhigh⟩

theorem not_isOctalDigit_of_hexMark {x : UInt8} (h : x = 0x78 ∨ x = 0x58) : isOctalDigit x = false := by
  rcases h with rfl | rfl <;> decide

theorem Literal.bytes_injective {l l' : Literal} (h : l.bytes = l'.bytes) : l = l' := by
  cases l with
  | hex x digits hx hne hd =>
    cases l' with
    | hex x' digits' hx' hne' hd' =>
      simp only [bytes, List.cons.injEq] at h
      obtain ⟨-, rfl, rfl⟩ := h
      rfl
    | octal digits' hd' =>
      simp only [bytes, List.cons.injEq, true_and] at h
      have := hd' x (h ▸ List.mem_cons_self)
      rw [not_isOctalDigit_of_hexMark hx] at this
      cases this
    | decimal first digits' hfirst hd' => exact absurd (List.cons.inj h).1.symm hfirst.2
  | octal digits hd =>
    cases l' with
    | hex x' digits' hx' hne' hd' =>
      simp only [bytes, List.cons.injEq, true_and] at h
      have := hd x' (h ▸ List.mem_cons_self)
      rw [not_isOctalDigit_of_hexMark hx'] at this
      cases this
    | octal digits' hd' =>
      simp only [bytes, List.cons.injEq, true_and] at h
      subst h
      rfl
    | decimal first digits' hfirst hd' => exact absurd (List.cons.inj h).1.symm hfirst.2
  | decimal first digits hfirst hd =>
    cases l' with
    | hex x' digits' hx' hne' hd' => exact absurd (List.cons.inj h).1 hfirst.2
    | octal digits' hd' => exact absurd (List.cons.inj h).1 hfirst.2
    | decimal first' digits' hfirst' hd' =>
      simp only [bytes, List.cons.injEq] at h
      obtain ⟨rfl, rfl⟩ := h
      rfl

/-- What is written with a sign starts with that sign, or with a digit. -/
theorem Sign.bytes_append_injective {s s' : Sign} {l l' : Literal}
    (h : s.bytes ++ l.bytes = s'.bytes ++ l'.bytes) : s = s' ∧ l = l' := by
  obtain ⟨d, rest, hl, hlow, -⟩ := l.bytes_head
  obtain ⟨d', rest', hl', hlow', -⟩ := l'.bytes_head
  have hd : d ≠ 0x2B ∧ d ≠ 0x2D := by
    constructor <;> (rintro rfl; exact absurd hlow (by decide))
  have hd' : 0x2B ≠ d' ∧ 0x2D ≠ d' := by
    constructor <;> (rintro rfl; exact absurd hlow' (by decide))
  cases s <;> cases s' <;> simp [bytes, hl, hl', hd, hd'] at h
  all_goals exact ⟨rfl, Literal.bytes_injective (by rw [hl, hl']; simp [h])⟩

/-! ## The bytes of numerals -/

/-- The bytes that numerals are written with. -/
def isPart (b : UInt8) : Bool :=
  isBlank b || isSeparator b || isHexDigit b || b == 0x2B || b == 0x2D || b == 0x58 || b == 0x78

theorem isPart_iff (b : UInt8) :
    isPart b = true ↔ (0x09 ≤ b.toNat ∧ b.toNat ≤ 0x0D) ∨ b.toNat = 0x20 ∨
      (0x2B ≤ b.toNat ∧ b.toNat ≤ 0x2E) ∨ (0x30 ≤ b.toNat ∧ b.toNat ≤ 0x3B) ∨
      (0x41 ≤ b.toNat ∧ b.toNat ≤ 0x46) ∨ b.toNat = 0x58 ∨
      (0x61 ≤ b.toNat ∧ b.toNat ≤ 0x66) ∨ b.toNat = 0x78 := by
  simp only [isPart, Bool.or_eq_true, isBlank_iff, isSeparator_iff, isHexDigit_iff, beq_iff_eq,
    ← UInt8.toNat_inj, UInt8.reduceToNat]
  omega

theorem isPart_bounds {b : UInt8} (h : isPart b = true) : 0 < b.toNat ∧ b.toNat < 0x80 := by
  have := (isPart_iff b).1 h
  omega

/-- A capital of a numeral has its small letter in numerals, too. -/
theorem isPart_lower {b : UInt8} (h : isPart b = true) :
    isPart (UInt8.ofNat (asciiLower b.toNat)) = true := by
  have hb := (isPart_iff b).1 h
  have hlow : asciiLower b.toNat < 256 := by
    unfold asciiLower
    split <;> omega
  rw [isPart_iff, Utf8.toNat_ofNat_of_lt hlow]
  unfold asciiLower
  split <;> omega

theorem isPart_of_isHexDigit {d : UInt8} (h : isHexDigit d = true) : isPart d = true := by
  simp [isPart, h]

theorem isPart_of_isOctalDigit {d : UInt8} (h : isOctalDigit d = true) : isPart d = true := by
  rw [isPart_iff]
  have := (isOctalDigit_iff d).1 h
  omega

theorem isPart_of_isDigit {d : UInt8} (h : Decimal.isDigit d = true) : isPart d = true :=
  isPart_of_isHexDigit (by simp [isHexDigit, h])

theorem Literal.bytes_isPart (l : Literal) : ∀ x ∈ l.bytes, isPart x = true := by
  cases l with
  | hex x digits hx hne h =>
    refine List.forall_mem_cons.2 ⟨by decide, List.forall_mem_cons.2 ⟨?_, fun d hd => ?_⟩⟩
    · rcases hx with rfl | rfl <;> decide
    · exact isPart_of_isHexDigit (h d hd)
  | octal digits h =>
    exact List.forall_mem_cons.2 ⟨by decide, fun d hd => isPart_of_isOctalDigit (h d hd)⟩
  | decimal first digits hfirst h =>
    exact List.forall_mem_cons.2
      ⟨isPart_of_isDigit hfirst.1, fun d hd => isPart_of_isDigit (h d hd)⟩

theorem Term.bytes_isPart (t : Term) : ∀ x ∈ t.bytes, isPart x = true := by
  refine List.forall_mem_append.2
    ⟨fun x hx => ?_, List.forall_mem_append.2 ⟨?_, t.literal.bytes_isPart⟩⟩
  · simp [isPart, t.hblanks x hx]
  · cases t.sign <;> simp [Sign.bytes, isPart]

theorem isPart_of_isSeparator {s : UInt8} (h : isSeparator s = true) : isPart s = true := by
  simp [isPart, h]

theorem Numeral.bytes_isPart (n : Numeral) : ∀ x ∈ n.bytes, isPart x = true := by
  cases n with
  | single t => exact t.bytes_isPart
  | triple r s g s' b hs hs' =>
    refine List.forall_mem_append.2
      ⟨r.bytes_isPart, List.forall_mem_cons.2 ⟨isPart_of_isSeparator hs, ?_⟩⟩
    exact List.forall_mem_append.2
      ⟨g.bytes_isPart, List.forall_mem_cons.2 ⟨isPart_of_isSeparator hs', b.bytes_isPart⟩⟩

/-- A numeral is written in ASCII, without zero bytes. -/
theorem Numeral.bytes_bounds (n : Numeral) : ∀ x ∈ n.bytes, 0 < x.toNat ∧ x.toNat < 0x80 :=
  fun x hx => isPart_bounds (n.bytes_isPart x hx)

theorem Numeral.bytes_isAscii (n : Numeral) : n.bytes.isAscii = true :=
  (Bytes.isAscii_iff n.bytes).2 fun x hx => (n.bytes_bounds x hx).2

end ColorMarkup.NumberTag
