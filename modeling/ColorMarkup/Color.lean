import ColorMarkup.Error
/-!
# Colors and their reductions

A color is three channels. Each channel is scaled to a few levels, which places
the color in the 256-entry palette (a 6×6×6 cube, or a 24-step ramp for grays) or
among the 16 codes.

Results:
* `scaleChannel_zero`, `scaleChannel_full`: the ends of the scale are kept.
* `ofNumber_toNumber`: a valid color is read back from its number.
-/
namespace ColorMarkup

/-- The level of a channel from `0..255` on a scale of `0..n`. Mirrors `shade_to_levels`. -/
def scaleChannel (shade n : Int) : Int := (shade * n + 128) / 255

/-- Three channels, red, green and blue. -/
structure Color where
  red : Int
  green : Int
  blue : Int
  deriving DecidableEq, Repr

namespace Color

def Valid (c : Color) : Prop :=
  (0 ≤ c.red ∧ c.red ≤ 255) ∧ (0 ≤ c.green ∧ c.green ≤ 255) ∧ (0 ≤ c.blue ∧ c.blue ≤ 255)

instance (c : Color) : Decidable c.Valid := by unfold Valid; infer_instance

/-- First entry of the palette's cube. -/
def cubeFirst : Int := 16

/-- First entry of the palette's gray ramp. -/
def rampFirst : Int := 232

/-- The entry of the 256-entry palette that a color is reduced to. Mirrors `rgb_to_indexed`. -/
def nearestIndex (c : Color) : Int :=
  if c.red = c.green ∧ c.green = c.blue then rampFirst + scaleChannel c.red 23
  else cubeFirst + 36 * scaleChannel c.red 5 + 6 * scaleChannel c.green 5
    + scaleChannel c.blue 5

/-- The codes of the three-level colors, the blue level varying fastest. -/
def levelCodes : List Int :=
  [30, 34, 94, 32, 36, 96, 92, 96, 96,
   31, 35, 95, 33, 90, 90, 93, 90, 97,
   91, 95, 95, 93, 90, 97, 93, 97, 97]

/-- The channel range of the middle grays, which no three-level color stands for. -/
def isMidtone (channel : Int) : Bool := 0xAA ≤ channel && channel ≤ 0xD3

/-- An entry counted from the front, or from the back for a negative index. -/
def entry? (table : List Int) (i : Int) : Option Int :=
  if 0 ≤ i then table[i.toNat]?
  else if 0 ≤ i + table.length then table[(i + table.length).toNat]?
  else none

def levelPlace (c : Color) : Int :=
  9 * scaleChannel c.red 2 + 3 * scaleChannel c.green 2 + scaleChannel c.blue 2

def midtoneCode : Int := 37

/-- The code of a three-level color by its place, or the refusal of a place outside
the table. -/
def codeAt (place : Int) : Except Error Int :=
  match entry? levelCodes place with
  | some n => .ok n
  | none => .error (.noCode place)

/-- The one of the 16 codes that a color is reduced to; channels far out of range have none. Mirrors
`rgb_to_sgr`. -/
def code (c : Color) : Except Error Int :=
  if isMidtone c.red && isMidtone c.green && isMidtone c.blue then .ok midtoneCode
  else codeAt c.levelPlace

/-- The color as one number `0xRRGGBB`. Mirrors `Color.packed`. -/
def toNumber (c : Color) : Int := c.red * 65536 + c.green * 256 + c.blue

/-- The channels in the low 24 bits of a number. Mirrors `unpack`. -/
def ofLowBits (n : Int) : Color := ⟨n / 65536 % 256, n / 256 % 256, n % 256⟩

def isByte (n : Int) : Bool := 0 ≤ n && n ≤ 255

/-- A color from its channels; the first one out of range is refused. -/
def ofChannels (r g b : Int) : Except Error Color :=
  if !isByte r then .error (.outOfRange (Text.ofString "r") r)
  else if !isByte g then .error (.outOfRange (Text.ofString "g") g)
  else if !isByte b then .error (.outOfRange (Text.ofString "b") b)
  else .ok ⟨r, g, b⟩

def isColorNumber (n : Int) : Bool := 0 ≤ n && n ≤ 0xFFFFFF

/-- The color of a number, unless that is out of range. Mirrors `Color.from_packed`. -/
def ofNumber (n : Int) : Except Error Color :=
  if isColorNumber n then .ok (ofLowBits n) else .error (.outOfRange (Text.ofString "value") n)

theorem scaleChannel_zero (n : Int) : scaleChannel 0 n = 0 := by
  simp only [scaleChannel]; omega

theorem scaleChannel_full (n : Int) : scaleChannel 255 n = n := by
  simp only [scaleChannel]; omega

theorem ofLowBits_toNumber (c : Color) (h : c.Valid) : ofLowBits c.toNumber = c := by
  obtain ⟨r, g, b⟩ := c
  obtain ⟨⟨hr, hr'⟩, ⟨hg, hg'⟩, ⟨hb, hb'⟩⟩ := h
  simp only at hr hr' hg hg' hb hb'
  simp only [ofLowBits, toNumber, Color.mk.injEq]
  omega

theorem isByte_iff (n : Int) : isByte n = true ↔ 0 ≤ n ∧ n ≤ 255 := by simp [isByte]

theorem isColorNumber_iff (n : Int) : isColorNumber n = true ↔ 0 ≤ n ∧ n ≤ 0xFFFFFF := by
  simp [isColorNumber]

theorem ofNumber_toNumber (c : Color) (h : c.Valid) : ofNumber c.toNumber = .ok c := by
  have hp : isColorNumber c.toNumber = true := by
    rw [isColorNumber_iff]
    obtain ⟨r, g, b⟩ := c
    obtain ⟨⟨hr, hr'⟩, ⟨hg, hg'⟩, ⟨hb, hb'⟩⟩ := h
    simp only at hr hr' hg hg' hb hb'
    simp only [toNumber]
    omega
  rw [ofNumber, if_pos hp, ofLowBits_toNumber c h]

end Color
end ColorMarkup
