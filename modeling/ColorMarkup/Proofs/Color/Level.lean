import ColorMarkup.Proofs.Escape.WellFormed
import Mathlib.Algebra.Order.Round
import Mathlib.Data.Rat.Floor
import Mathlib.Tactic.Ring
/-!
# Levels of a channel

A channel is scaled by adding 128 to its product with the number of levels before dividing by
255. As 255 is odd no product lies half way between two levels, but one that leaves 127 lies so
close below the half that it is taken up as well. So the level is the nearest one, and for such
products the one above. One shade more never passes over a level if there are at most 255 of
them, and always changes the level if there are at least 255.

Results:
* `scaleChannel_eq`: the level of a channel beside the nearest one.
* `reductions_round`: the same of all levels that colors are reduced to.
* `levels_rise`: levels rise with the shade, from none to all of them, and so do the places of
  grays in the ramp and of other colors in the cube.
-/
namespace ColorMarkup

/-! ## Rounding -/

/-- The level nearest to `shade * n / 255`, the upper one of two. -/
def nearestLevel (shade n : Int) : Int := round (((shade * n : Int) : ℚ) / 255)

theorem nearestLevel_eq_floor (shade n : Int) :
    nearestLevel shade n = ⌊((shade * n : Int) : ℚ) / 255 + 1 / 2⌋ :=
  round_eq _

theorem nearestLevel_eq (shade n : Int) : nearestLevel shade n = (2 * (shade * n) + 255) / 510 := by
  have hsum : ((shade * n : Int) : ℚ) / 255 + 1 / 2 =
      ((2 * (shade * n) + 255 : Int) : ℚ) / (510 : Nat) := by
    push_cast
    ring
  rw [nearestLevel_eq_floor, hsum, Rat.floor_intCast_div_natCast]
  rfl

theorem scaleChannel_eq (shade n : Int) :
    scaleChannel shade n = nearestLevel shade n + if shade * n % 255 = 127 then 1 else 0 := by
  rw [nearestLevel_eq, scaleChannel]
  generalize shade * n = product
  split <;> omega

section

variable {shade : Int} (h : 0 ≤ shade ∧ shade ≤ 255)
include h

/-- Above none there are two levels in the table of codes, which one shade is too high for. -/
theorem scaleChannel_two :
    scaleChannel shade 2 = nearestLevel shade 2 + if shade = 191 then 1 else 0 := by
  rw [scaleChannel_eq]
  congr 1
  split <;> split <;> omega

/-- There are 23 in the ramp, which another shade is too high for. -/
theorem scaleChannel_ramp :
    scaleChannel shade 23 = nearestLevel shade 23 + if shade = 194 then 1 else 0 := by
  rw [scaleChannel_eq]
  congr 1
  split <;> split <;> omega

end

/-- There are five in the cube. No product with 5 leaves 127, as 5 divides 255. -/
theorem scaleChannel_five (shade : Int) : scaleChannel shade 5 = nearestLevel shade 5 := by
  rw [scaleChannel_eq, if_neg (by omega), Int.add_zero]

namespace Color

/-- The level of a channel in the table of codes. -/
def tableLevel (shade : Int) : Int := nearestLevel shade 2 + if shade = 191 then 1 else 0

theorem levelPlace_eq {c : Color} (h : c.Valid) :
    c.levelPlace = 9 * tableLevel c.red + 3 * tableLevel c.green + tableLevel c.blue := by
  rw [levelPlace, scaleChannel_two h.1, scaleChannel_two h.2.1, scaleChannel_two h.2.2]
  rfl

end Color

theorem scaleChannel_eq_nearestLevel_iff (shade n : Int) :
    scaleChannel shade n = nearestLevel shade n ↔ shade * n % 255 ≠ 127 := by
  rw [scaleChannel_eq]
  split <;> omega

open Color in
/-- A channel gets the level nearest to it, a tie going up, exactly if its product with the number
of levels does not leave 127 when divided by 255; else it gets the level above. In the cube every
shade gets the nearest level, in the ramp every one but 194 and in the table of codes every one
but 191. -/
theorem reductions_round (shade n : Int) :
    (scaleChannel shade n = nearestLevel shade n ↔ shade * n % 255 ≠ 127) ∧
    scaleChannel shade n = nearestLevel shade n + (if shade * n % 255 = 127 then 1 else 0) ∧
    nearestLevel shade n = ⌊((shade * n : Int) : ℚ) / 255 + 1 / 2⌋ ∧
    (∀ k : Int, |((shade * n : Int) : ℚ) / 255 - nearestLevel shade n| ≤
      |((shade * n : Int) : ℚ) / 255 - k|) ∧
    ∀ c : Color, c.Valid →
      c.nearestIndex = (if c.red = c.green ∧ c.green = c.blue then
          rampFirst + nearestLevel c.red 23 + (if c.red = 194 then 1 else 0)
        else cubeFirst + 36 * nearestLevel c.red 5 + 6 * nearestLevel c.green 5
          + nearestLevel c.blue 5) ∧
      c.code = if isMidtone c.red && isMidtone c.green && isMidtone c.blue then .ok midtoneCode
        else codeAt (9 * tableLevel c.red + 3 * tableLevel c.green + tableLevel c.blue) := by
  refine ⟨scaleChannel_eq_nearestLevel_iff shade n, scaleChannel_eq shade n,
    nearestLevel_eq_floor shade n, fun k => round_le _ k, fun c h => ⟨?_, ?_⟩⟩
  · simp only [nearestIndex, scaleChannel_ramp h.1, scaleChannel_five, Int.add_assoc]
  · rw [code, levelPlace_eq h]

/-- The level of 194 in the ramp is 18, though 17 is nearer to `194 * 23 / 255`, which is less
than 17.5; and so are those of 127 among one level and of 191 among two. -/
theorem scaleChannel_not_nearest :
    (scaleChannel 194 23 = 18 ∧ nearestLevel 194 23 = 17) ∧
    (scaleChannel 127 1 = 1 ∧ nearestLevel 127 1 = 0) ∧
    (scaleChannel 191 2 = 2 ∧ nearestLevel 191 2 = 1) := by
  simp only [nearestLevel_eq]
  decide

/-! ## Order -/

theorem scaleChannel_mono {n : Int} (hn : 0 ≤ n) {s t : Int} (h : s ≤ t) :
    scaleChannel s n ≤ scaleChannel t n := by
  have hproduct : s * n ≤ t * n := Int.mul_le_mul_of_nonneg_right h hn
  unfold scaleChannel
  omega

/-- With at most 255 levels one shade more is at most one level more. -/
theorem scaleChannel_succ_le {n : Int} (hn : n ≤ 255) (s : Int) :
    scaleChannel (s + 1) n ≤ scaleChannel s n + 1 := by
  unfold scaleChannel
  rw [Int.add_mul, Int.one_mul]
  omega

/-- With at least 255 levels one shade more is at least one level more. -/
theorem scaleChannel_lt_succ {n : Int} (hn : 255 ≤ n) (s : Int) :
    scaleChannel s n < scaleChannel (s + 1) n := by
  unfold scaleChannel
  rw [Int.add_mul, Int.one_mul]
  omega

theorem scaleChannel_injective {n : Int} (hn : 255 ≤ n) {s t : Int}
    (h : scaleChannel s n = scaleChannel t n) : s = t :=
  (strictMono_int_of_lt_succ (scaleChannel_lt_succ hn)).injective h

/-- The shades up to one reach every level up to its own, as no step passes over one. -/
theorem exists_shade {n : Int} (hn : n ≤ 255) (last : Nat) {k : Int} (hk : 0 ≤ k)
    (hlast : k ≤ scaleChannel last n) :
    ∃ s : Int, (0 ≤ s ∧ s ≤ last) ∧ scaleChannel s n = k := by
  induction last with
  | zero =>
    rw [Nat.cast_zero, Color.scaleChannel_zero] at hlast
    exact ⟨0, by simp, by rw [Color.scaleChannel_zero]; omega⟩
  | succ last ih =>
    by_cases hbelow : k ≤ scaleChannel last n
    · obtain ⟨s, hs, hlevel⟩ := ih hbelow
      exact ⟨s, by push_cast; omega, hlevel⟩
    · have hstep := scaleChannel_succ_le hn last
      push_cast at hlast ⊢
      exact ⟨last + 1, by omega, by omega⟩

theorem scaleChannel_onto {n : Int} (hn : n ≤ 255) {k : Int} (hk : 0 ≤ k ∧ k ≤ n) :
    ∃ s, (0 ≤ s ∧ s ≤ 255) ∧ scaleChannel s n = k :=
  exists_shade hn 255 hk.1 (by simpa [Color.scaleChannel_full] using hk.2)

namespace Color

def gray (shade : Int) : Color := ⟨shade, shade, shade⟩

theorem nearestIndex_gray (shade : Int) :
    (gray shade).nearestIndex = rampFirst + scaleChannel shade 23 :=
  if_pos ⟨rfl, rfl⟩

theorem nearestIndex_mono {c d : Color} (hc : ¬ (c.red = c.green ∧ c.green = c.blue))
    (hd : ¬ (d.red = d.green ∧ d.green = d.blue)) (hred : c.red ≤ d.red)
    (hgreen : c.green ≤ d.green) (hblue : c.blue ≤ d.blue) : c.nearestIndex ≤ d.nearestIndex := by
  have r := scaleChannel_mono (n := 5) (by decide) hred
  have g := scaleChannel_mono (n := 5) (by decide) hgreen
  have b := scaleChannel_mono (n := 5) (by decide) hblue
  rw [nearestIndex, if_neg hc, nearestIndex, if_neg hd]
  omega

end Color

open Color in
/-- Whatever the number of levels, they rise with the shade, from none for 0 to all for 255; up to
255 of them are all reached, and 255 or more tell all shades apart. So the places of grays in the
ramp rise with the shade and are all reached, and the place of another color in the cube does
not fall when channels rise. -/
theorem levels_rise :
    (∀ n : Int, 0 ≤ n →
      (∀ s t, s ≤ t → scaleChannel s n ≤ scaleChannel t n) ∧
      (∀ s, 0 ≤ s ∧ s ≤ 255 → 0 ≤ scaleChannel s n ∧ scaleChannel s n ≤ n) ∧
      scaleChannel 0 n = 0 ∧ scaleChannel 255 n = n ∧
      (n ≤ 255 → ∀ k, 0 ≤ k ∧ k ≤ n → ∃ s, (0 ≤ s ∧ s ≤ 255) ∧ scaleChannel s n = k) ∧
      (255 ≤ n → ∀ s t, scaleChannel s n = scaleChannel t n → s = t)) ∧
    (∀ s t, s ≤ t → (gray s).nearestIndex ≤ (gray t).nearestIndex) ∧
    (∀ i, 232 ≤ i ∧ i ≤ 255 → ∃ s, (0 ≤ s ∧ s ≤ 255) ∧ (gray s).nearestIndex = i) ∧
    ∀ c d : Color, ¬ (c.red = c.green ∧ c.green = c.blue) →
      ¬ (d.red = d.green ∧ d.green = d.blue) →
      c.red ≤ d.red → c.green ≤ d.green → c.blue ≤ d.blue → c.nearestIndex ≤ d.nearestIndex := by
  refine ⟨fun n hn => ⟨fun s t => scaleChannel_mono hn, fun s hs => scaleChannel_bounds hs hn,
    scaleChannel_zero n, scaleChannel_full n, fun h k => scaleChannel_onto h,
    fun h s t => scaleChannel_injective h⟩, ?_, ?_, fun c d => nearestIndex_mono⟩
  · intro s t h
    rw [nearestIndex_gray, nearestIndex_gray]
    exact Int.add_le_add_left (scaleChannel_mono (by decide) h) rampFirst
  · intro i hi
    have hlevel : 0 ≤ i - rampFirst ∧ i - rampFirst ≤ 23 := by
      unfold rampFirst
      omega
    obtain ⟨s, hs, hscale⟩ := scaleChannel_onto (by decide) hlevel
    exact ⟨s, hs, by rw [nearestIndex_gray, hscale]; omega⟩

end ColorMarkup
