import ColorMarkup.Color
import Mathlib.Data.Int.Bitwise
import Mathlib.Tactic.SplitIfs
/-!
# Colors and their numbers, bit by bit

A color's number holds the blue channel in its lowest eight bits, the green one in the eight
above, and the red one above these. The arithmetic that reads and writes these numbers is that
of shifts and masks on integers of any size and sign, where a negative number has infinitely
many bits set: it is in range if no bit above the lowest ones is.

Results:
* `isByte_iff_highBits`, `isColorNumber_iff_highBits`: a range test is a test of the high bits.
* `ofLowBits_eq_bits`, `toNumber_eq_bits`: channels by shifts and masks.
* `ofNumber_eq_ok_iff`, `ofChannels_eq_ok_iff`: a color and its number determine each other, and
  exactly the channels of a valid color make it up.
-/
namespace ColorMarkup

/-- No bit is set from the place `w` on exactly in the numbers below `2 ^ w`; a negative number
has such bits. -/
theorem highBits_eq_zero_iff (n : Int) (w : Nat) :
    Int.land n (Int.lnot ((2 ^ w - 1 : Nat) : Int)) = 0 ↔ 0 ≤ n ∧ n < ((2 ^ w : Nat) : Int) := by
  cases n with
  | ofNat k =>
    have hbit : ∀ i, (k.ldiff (2 ^ w - 1)).testBit i = (k.testBit i && !decide (i < w)) := by
      intro i
      rw [Nat.testBit_ldiff, Nat.testBit_two_pow_sub_one]
    have hzero : Int.land (Int.ofNat k) (Int.lnot ((2 ^ w - 1 : Nat) : Int)) =
        (k.ldiff (2 ^ w - 1) : Nat) := rfl
    rw [hzero, Int.natCast_eq_zero]
    constructor
    · intro h
      have hk : k < 2 ^ w := by
        refine Nat.lt_pow_two_of_testBit k fun i hi => ?_
        have := hbit i
        simpa [h, Nat.not_lt.2 hi] using this
      exact ⟨Int.natCast_nonneg k, Int.ofNat_lt.2 hk⟩
    · rintro ⟨-, hk⟩
      refine Nat.zero_of_testBit_eq_false fun i => ?_
      rw [hbit]
      by_cases hi : i < w
      · simp [hi]
      · have : k < 2 ^ i :=
          Nat.lt_of_lt_of_le (Int.ofNat_lt.1 hk) (Nat.pow_le_pow_right (by decide) (by omega))
        simp [Nat.testBit_lt_two_pow this]
  | negSucc k =>
    have hneg : Int.land (Int.negSucc k) (Int.lnot ((2 ^ w - 1 : Nat) : Int)) =
        Int.negSucc (k ||| (2 ^ w - 1)) := rfl
    rw [hneg]
    constructor
    · intro h
      cases h
    · rintro ⟨h, -⟩
      omega

/-- The lowest bits are the remainder, of a negative number as well. -/
theorem lowBits_eq_mod (n : Int) (w : Nat) :
    Int.land n ((2 ^ w - 1 : Nat) : Int) = n % ((2 ^ w : Nat) : Int) := by
  cases n with
  | ofNat k =>
    have hland : Int.land (Int.ofNat k) ((2 ^ w - 1 : Nat) : Int) = (k &&& (2 ^ w - 1) : Nat) := rfl
    rw [hland, Nat.and_two_pow_sub_one_eq_mod]
    rfl
  | negSucc k =>
    have hland : Int.land (Int.negSucc k) ((2 ^ w - 1 : Nat) : Int) = ((2 ^ w - 1).ldiff k : Nat) := rfl
    have hpos : 0 < 2 ^ w := Nat.two_pow_pos w
    have hmod : k % 2 ^ w < 2 ^ w := Nat.mod_lt k hpos
    -- below the place `w` every bit of the rest is turned over
    have hbits : (2 ^ w - 1).ldiff k = 2 ^ w - (k % 2 ^ w + 1) := by
      refine Nat.eq_of_testBit_eq fun i => ?_
      rw [Nat.testBit_ldiff, Nat.testBit_two_pow_sub_one, Nat.testBit_two_pow_sub_succ hmod,
        Nat.testBit_mod_two_pow]
      by_cases hi : i < w <;> simp [hi]
    have hcast : ((k % 2 ^ w : Nat) : Int) = (k : Int) % ((2 ^ w : Nat) : Int) := Int.natCast_emod k _
    rw [hland, hbits, Int.negSucc_emod _ (by exact_mod_cast hpos), ← hcast]
    omega

namespace Color

theorem isByte_iff_highBits (n : Int) : isByte n = true ↔ Int.land n (Int.lnot 255) = 0 := by
  rw [isByte_iff]
  refine Iff.trans ?_ (highBits_eq_zero_iff n 8).symm
  omega

theorem isColorNumber_iff_highBits (n : Int) :
    isColorNumber n = true ↔ Int.land n (Int.lnot 0xFFFFFF) = 0 := by
  rw [isColorNumber_iff]
  refine Iff.trans ?_ (highBits_eq_zero_iff n 24).symm
  omega

theorem ofLowBits_eq_bits (n : Int) :
    ofLowBits n =
      ⟨Int.land (n >>> (16 : Nat)) 255, Int.land (n >>> (8 : Nat)) 255, Int.land n 255⟩ := by
  have low : ∀ m : Int, Int.land m 255 = m % 256 := fun m => lowBits_eq_mod m 8
  rw [ofLowBits, low, low, low, Int.shiftRight_eq_div_pow, Int.shiftRight_eq_div_pow]
  rfl

/-- The channels do not overlap, so their sum is made of their bits. -/
theorem toNumber_eq_bits {c : Color} (h : c.Valid) :
    c.toNumber = Int.lor (Int.lor (c.red <<< (16 : Nat)) (c.green <<< (8 : Nat))) c.blue := by
  obtain ⟨r, g, b⟩ := c
  obtain ⟨⟨hr, hr'⟩, ⟨hg, hg'⟩, ⟨hb, hb'⟩⟩ := h
  obtain ⟨r, rfl⟩ := Int.eq_ofNat_of_zero_le hr
  obtain ⟨g, rfl⟩ := Int.eq_ofNat_of_zero_le hg
  obtain ⟨b, rfl⟩ := Int.eq_ofNat_of_zero_le hb
  simp only at hr' hg' hb'
  have hupper : r <<< 8 <<< 8 ||| g <<< 8 = (r <<< 8 + g) <<< 8 := by
    rw [Nat.shiftLeft_add_eq_or_of_lt (by omega : g < 2 ^ 8), Nat.shiftLeft_or_distrib]
  have hlower : (r <<< 8 + g) <<< 8 ||| b = (r <<< 8 + g) <<< 8 + b :=
    (Nat.shiftLeft_add_eq_or_of_lt (by omega : b < 2 ^ 8) _).symm
  have hbits : (r <<< 16 ||| g <<< 8) ||| b = r * 65536 + g * 256 + b := by
    rw [(Nat.shiftLeft_add r 8 8 : r <<< 16 = _), hupper, hlower]
    simp only [Nat.shiftLeft_eq]
    omega
  show (r : Int) * 65536 + g * 256 + b = ((r <<< 16 ||| g <<< 8 ||| b : Nat) : Int)
  rw [hbits]
  push_cast
  rfl

/-- A color and its number determine each other: exactly the numbers of valid colors are read,
each as its color. -/
theorem ofNumber_eq_ok_iff (n : Int) (c : Color) :
    ofNumber n = .ok c ↔ c.Valid ∧ c.toNumber = n := by
  constructor
  · intro h
    unfold ofNumber at h
    split at h
    · next hn =>
      obtain rfl := Except.ok.inj h
      obtain ⟨hlow, hhigh⟩ := (isColorNumber_iff n).1 hn
      constructor
      · simp only [Valid, ofLowBits]
        omega
      · simp only [toNumber, ofLowBits]
        omega
    · cases h
  · rintro ⟨hc, rfl⟩
    exact ofNumber_toNumber c hc

/-- Exactly the channels of a valid color make it up. -/
theorem ofChannels_eq_ok_iff (r g b : Int) (c : Color) :
    ofChannels r g b = .ok c ↔ c = ⟨r, g, b⟩ ∧ c.Valid := by
  have hvalid : Valid ⟨r, g, b⟩ ↔ isByte r = true ∧ isByte g = true ∧ isByte b = true := by
    simp only [Valid, isByte_iff]
  unfold ofChannels
  constructor
  · intro h
    split_ifs at h with hr hg hb
    obtain rfl := Except.ok.inj h
    exact ⟨rfl, hvalid.2 ⟨by simpa using hr, by simpa using hg, by simpa using hb⟩⟩
  · rintro ⟨rfl, h⟩
    obtain ⟨hr, hg, hb⟩ := hvalid.1 h
    simp [hr, hg, hb]

/-- Exactly the numbers within range are read. -/
theorem exists_ofNumber_iff (n : Int) : (∃ c, ofNumber n = .ok c) ↔ 0 ≤ n ∧ n ≤ 0xFFFFFF := by
  rw [← isColorNumber_iff]
  unfold ofNumber
  split <;> simp [*]

end Color
end ColorMarkup
