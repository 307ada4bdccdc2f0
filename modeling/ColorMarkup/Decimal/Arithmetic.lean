import ColorMarkup.Decimal.Binary64
/-!
# Arithmetic of floats

A sum, product or quotient is the exact one, rounded to the nearest float.
Infinities and not-a-number go through: opposite infinities have no sum, an
infinity and a zero no product, an infinity no whole quotient. Comparisons with
integers are exact, and not-a-number is on neither side of any.

Results:
* `add_comm`, `mul_comm`: the order of operands does not matter.
-/
namespace ColorMarkup.Binary64

/-- A finite float as a signed numerator and a denominator. -/
def signed (negative : Bool) (mantissa : Nat) (exponent : Int) : Int × Nat :=
  let (num, den) := ratio mantissa exponent
  (if negative then -(num : Int) else num, den)

/-- The float nearest to `num / den`; a zero has the sign asked for. -/
def ofSigned (negativeZero : Bool) (num : Int) (den : Nat) : Binary64 :=
  if num = 0 then finite negativeZero 0 (-1074) else ofRatio (num < 0) num.natAbs den

/-- The float nearest to an integer, unless the integer is too large for any. -/
def ofInt? (n : Int) : Option Binary64 :=
  match ofSigned false n 1 with
  | infinity _ => none
  | x => some x

/-- The sum of two floats; two negative zeros alone add up to one. -/
def add : Binary64 → Binary64 → Binary64
  | finite s m e, finite t k f =>
    let (p, q) := signed s m e
    let (r, u) := signed t k f
    ofSigned (s && t) (p * u + r * q) (q * u)
  | infinity s, infinity t => if s = t then infinity s else nan
  | infinity s, finite _ _ _ => infinity s
  | finite _ _ _, infinity t => infinity t
  | _, _ => nan

def mul : Binary64 → Binary64 → Binary64
  | finite s m e, finite t k f =>
    let (p, q) := signed s m e
    let (r, u) := signed t k f
    ofSigned (s != t) (p * r) (q * u)
  | infinity s, infinity t => infinity (s != t)
  | infinity s, finite t m _ => if m = 0 then nan else infinity (s != t)
  | finite s m _, infinity t => if m = 0 then nan else infinity (s != t)
  | _, _ => nan

def divNat (x : Binary64) (d : Nat) : Binary64 :=
  match x with
  | finite negative m e =>
    let (num, den) := ratio m e
    ofRatio negative num (den * d)
  | x => x

/-- The nearest whole number, of two the lower one; a zero keeps its sign. -/
def nearestWhole : Binary64 → Binary64
  | finite negative m e =>
    let (num, den) := signed negative m e
    ofSigned negative (-((den - 2 * num) / (2 * den))) 1
  | x => x

/-- How often `d` goes into a float, down to a whole number. The remainder is
exact; taking it off, dividing and going down by one for a negative float are
rounded one by one. -/
def floorDiv (x : Binary64) (d : Nat) : Binary64 :=
  match x with
  | finite negative m e =>
    let (num, den) := ratio m e
    let rest := num % (den * d)
    let q := (ofRatio negative (num - rest) den).divNat d
    nearestWhole (if negative && rest != 0 then q.add (ofRatio true 1 1) else q)
  | _ => nan

def atMost (x : Binary64) (n : Int) : Bool :=
  match x with
  | nan => false
  | infinity negative => negative
  | finite negative m e => let (num, den) := signed negative m e; num ≤ n * den

def isBelow (x : Binary64) (n : Int) : Bool :=
  match x with
  | nan => false
  | infinity negative => negative
  | finite negative m e => let (num, den) := signed negative m e; num < n * den

theorem add_comm (x y : Binary64) : x.add y = y.add x := by
  cases x <;> cases y <;> simp only [add]
  next s t =>
    by_cases h : s = t
    · rw [h]
    · rw [if_neg h, if_neg (Ne.symm h)]
  next s m e t k f =>
    rw [Bool.and_comm, Int.add_comm, Nat.mul_comm]

theorem mul_comm (x y : Binary64) : x.mul y = y.mul x := by
  have hne : ∀ s t : Bool, (s != t) = (t != s) := by decide
  cases x <;> cases y <;> simp only [mul]
  next s t => rw [hne]
  next s t m e => rw [hne]
  next s m e t => rw [hne]
  next s m e t k f => rw [hne, Int.mul_comm, Nat.mul_comm]

end ColorMarkup.Binary64
