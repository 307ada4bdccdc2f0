/-!
# Binary floating point, 64 bits wide

A float is kept as the number it is: not a number, an infinity, or
`± mantissa · 2^exponent` in the one form of its format (`mantissa < 2^53`,
`exponent ≥ -1074`, and `mantissa ≥ 2^52` unless the exponent is the least).
Reading a decimal rounds the exact quotient to the nearest float, ties to the
even mantissa.

Results:
* `roundHalfEven_bounds`: the rounded quotient is within half a unit.
-/
namespace ColorMarkup

/-- A 64-bit binary float. -/
inductive Binary64 where
  | nan
  | infinity (negative : Bool)
  | finite (negative : Bool) (mantissa : Nat) (exponent : Int)
  deriving DecidableEq, Repr, Inhabited

namespace Binary64

/-- `a / b` to the nearest integer, a half to the even one. -/
def roundHalfEven (a b : Nat) : Nat :=
  let q := a / b
  let r := a % b
  if 2 * r < b then q else if b < 2 * r then q + 1 else q + q % 2

theorem roundHalfEven_bounds (a b : Nat) (hb : 0 < b) :
    2 * a ≤ 2 * b * roundHalfEven a b + b ∧ 2 * b * roundHalfEven a b ≤ 2 * a + b := by
  have hd := Nat.div_add_mod a b
  have hr := Nat.mod_lt a hb
  have h2 : 2 * b * (a / b) = 2 * (b * (a / b)) := Nat.mul_assoc ..
  have h3 : 2 * b * (a / b + 1) = 2 * (b * (a / b)) + 2 * b := by rw [Nat.mul_add, h2]; omega
  unfold roundHalfEven
  dsimp only
  split
  · omega
  split
  · omega
  · rcases Nat.mod_two_eq_zero_or_one (a / b) with h | h <;> rw [h]
    · rw [Nat.add_zero]; omega
    · omega

/-- The numerator and denominator of `n · base^e`. -/
def scaled (n : Nat) (base : Nat) (e : Int) : Nat × Nat :=
  if 0 ≤ e then (n * base.pow e.toNat, 1) else (n, base.pow (-e).toNat)

/-- The exponent `e` with `2^e ≤ num / den < 2^(e+1)`, for positive numbers. -/
def binaryExponent (num den : Nat) : Int :=
  let e : Int := (Nat.log2 num : Int) - Nat.log2 den
  let (p, q) := scaled 1 2 e
  if num * q < den * p then e - 1 else e

/-- Mantissas lie below this, which is `2^53`. -/
def mantissaBound : Nat := 0x20000000000000

/-- The float nearest to `± num / den`. -/
def ofRatio (negative : Bool) (num den : Nat) : Binary64 :=
  if num = 0 then finite negative 0 (-1074)
  else
    let q := max (binaryExponent num den - 52) (-1074)
    let (p, r) := scaled 1 2 q
    let m := roundHalfEven (num * r) (den * p)
    let (m, q) := if m = mantissaBound then (mantissaBound / 2, q + 1) else (m, q)
    if 971 < q then infinity negative else finite negative m q

/-- The float nearest to `± digits · 10^exponent`. Exponents far outside the
format's range are decided without computing the power. -/
def ofDecimal (negative : Bool) (digits : Nat) (exponent : Int) : Binary64 :=
  if digits = 0 then finite negative 0 (-1074)
  else
    let size : Int := Nat.log2 digits / 3
    if 400 < exponent then infinity negative
    else if exponent + size < -400 then finite negative 0 (-1074)
    else
      let (num, den) := scaled digits 10 exponent
      ofRatio negative num den

def ratio (mantissa : Nat) (exponent : Int) : Nat × Nat := scaled mantissa 2 exponent

def isInt (x : Binary64) (n : Int) : Bool :=
  match x with
  | finite negative m e =>
    let (num, den) := ratio m e
    (if negative then -(num : Int) else num) == n * den
  | _ => false

/-- Equality of numbers: zeros are equal, and not-a-number equals nothing. -/
def sameNumber : Binary64 → Binary64 → Bool
  | nan, _ => false
  | _, nan => false
  | finite _ 0 _, finite _ 0 _ => true
  | x, y => x == y

def isZero : Binary64 → Bool
  | finite _ 0 _ => true
  | _ => false

/-- The integer of a finite float without its fraction. -/
def truncate? : Binary64 → Option Int
  | finite negative m e =>
    let (num, den) := ratio m e
    some (if negative then -(num / den : Int) else num / den)
  | _ => none

end Binary64
end ColorMarkup
