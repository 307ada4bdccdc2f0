import ColorMarkup.Text.Basic
/-!
# Integers in decimal

The decimal text of a number, as ASCII bytes: no leading zero, a minus sign
before a negative one.

Results:
* `valueOf_ofNat`: reading the digits of a number gives the number.
* `ofNat_head_ne_zero`: a positive number's text starts with no zero.
-/
namespace ColorMarkup.Decimal

def digit (n : Nat) : UInt8 := UInt8.ofNat (0x30 + n)

def ofNat (n : Nat) : Bytes :=
  if n < 10 then [digit n] else ofNat (n / 10) ++ [digit (n % 10)]

def ofInt (n : Int) : Bytes :=
  if n < 0 then 0x2D :: ofNat n.natAbs else ofNat n.natAbs

/-- The number written by digits in a base. -/
def valueOf (base : Nat) (digitValue : UInt8 → Nat) (ds : Bytes) : Nat :=
  ds.foldl (fun v d => v * base + digitValue d) 0

def digitValue (b : UInt8) : Nat := b.toNat - 0x30

def isDigit (b : UInt8) : Bool := 0x30 ≤ b && b ≤ 0x39

theorem digit_toNat {n : Nat} (h : n < 10) : (digit n).toNat = 0x30 + n := by
  simp [digit]; omega

theorem ofNat_eq (n : Nat) :
    ofNat n = if n < 10 then [digit n] else ofNat (n / 10) ++ [digit (n % 10)] := by
  rw [ofNat]

theorem ofNat_ne_nil (n : Nat) : ofNat n ≠ [] := by
  rw [ofNat_eq]; split <;> simp

theorem valueOf_append_one (base : Nat) (f : UInt8 → Nat) (ds : Bytes) (d : UInt8) :
    valueOf base f (ds ++ [d]) = valueOf base f ds * base + f d := by
  simp [valueOf]

theorem valueOf_ofNat (n : Nat) : valueOf 10 digitValue (ofNat n) = n := by
  induction n using Nat.strongRecOn with
  | ind n ih =>
    rw [ofNat_eq]
    split
    · next h => simp [valueOf, digitValue, digit_toNat h]
    · next h =>
      rw [valueOf_append_one, ih (n / 10) (by omega), digitValue, digit_toNat (by omega)]
      omega

theorem ofNat_isDigit (n : Nat) : ∀ b ∈ ofNat n, isDigit b = true := by
  have one : ∀ k, k < 10 → isDigit (digit k) = true := by decide
  induction n using Nat.strongRecOn with
  | ind n ih =>
    rw [ofNat_eq]
    split
    · next h => simpa using one n h
    · next h =>
      intro b hb
      rcases List.mem_append.1 hb with hb | hb
      · exact ih _ (by omega) b hb
      · rw [List.mem_singleton.1 hb]; exact one _ (by omega)

theorem ofNat_head_ne_zero {n : Nat} (h : 0 < n) : (ofNat n).head? ≠ some 0x30 := by
  have one : ∀ k, k < 10 → 0 < k → digit k ≠ 0x30 := by decide
  induction n using Nat.strongRecOn with
  | ind n ih =>
    rw [ofNat_eq]
    split
    · next h10 => simpa using one n h10 h
    · next h10 =>
      have hi := ih (n / 10) (by omega) (by omega)
      cases hd : ofNat (n / 10) with
      | nil => exact absurd hd (ofNat_ne_nil _)
      | cons d ds => rw [hd] at hi; simpa using hi

end ColorMarkup.Decimal
