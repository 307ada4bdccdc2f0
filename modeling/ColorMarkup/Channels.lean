import ColorMarkup.Color
/-!
# Channels of any type

A color can be asked about by channels whose type nobody checked. Numbers of any
kind are reduced by the rules for colors; a float that equals an integer is as
good as it, but no place in a table. Anything else is refused where it is first
used, as a factor beside a number of levels, or as bits.

Results:
* `nearestIndex_given`, `code_given`: channels that are integers are reduced as those of the
  color they make up.
-/
namespace ColorMarkup

namespace Value

/-- The integer a value is written as; a float loses its fraction. -/
def written : Value → Except Error Int
  | .float x => match x.truncate? with
    | some n => .ok n
    | Option.none => .error (.misuse (.integer (x == .nan)))
  | v => match v.asInt? with
    | some n => .ok n
    | Option.none => .error (.misuse (.number v))

/-- The integer a value stands for on the left of an operator, beside another. -/
def operand (sign : String) (v : Value) : Except Error Int :=
  match v.asInt? with
  | some n => .ok n
  | Option.none => .error (.misuse (.operator sign v (.int 0)))

def isRepeatable : Value → Bool
  | text _ | list _ => true
  | bytes .constant _ | bytes .array _ => true
  | _ => false

/-- Why a value repeated some times, and a number added to that, is nothing. -/
def repeatRefusal (v times : Value) : Error :=
  match times.asInt? with
  | Option.none => .misuse (.times times)
  | some n => if isWord n then .misuse (.sum v) else .countTooLarge

/-- Why two values that are not both numbers have no product to add a number to. -/
def productRefusal (v w : Value) : Error :=
  if v.isRepeatable then v.repeatRefusal w
  else if w.isRepeatable then w.repeatRefusal v
  else .misuse (.operator "*" v w)

/-- A value of the type that two whole numbers have together. -/
def jointType : Whole → Whole → Value
  | .flag _, .flag _ => .bool false
  | _, _ => .int 0

end Value

/-- The color that a number stands for, if it is within range. -/
def Color.ofValue (v : Value) : Except Error Color := (v.operand "&").bind Color.ofNumber

/-- The color in the low 24 bits of a number. -/
def Color.ofLowBitsOf (v : Value) : Except Error Color := (v.operand ">>").map Color.ofLowBits

/-- The channels of a color, as they are given. -/
structure Channels where
  red : Value
  green : Value
  blue : Value
  deriving Repr

def Color.given (c : Color) : Channels := ⟨.int c.red, .int c.green, .int c.blue⟩

namespace Channels

/-- The channels in a list, which an operation refuses unless there are three. -/
def ofList (operation : String) : List Value → Except Error Channels
  | [r, g, b] => .ok ⟨r, g, b⟩
  | vs => .error (.channelCount operation vs.length)

/-- A result of arithmetic, or the refusal of a number that is too large for it. -/
def result : Option Amount → Except Error Amount
  | some a => .ok a
  | none => .error .noFloat

/-- The level of a channel on a scale. Mirrors `shade_to_levels`. -/
def scale (shade levels : Value) : Except Error Amount :=
  match shade.amount?, levels.amount? with
  | some s, some n =>
    result (((s.mul n).bind fun p => p.add (.ofInt 128)).map fun p => p.floorDiv 255)
  | _, _ => .error (shade.productRefusal levels)

/-- Adds a scaled channel to a sum, as often as its weight says. -/
def addScaled (sum : Amount) (weight levels : Int) (shade : Value) : Except Error Amount :=
  (scale shade (.int levels)).bind fun s => result ((s.mul (.ofInt weight)).bind sum.add)

/-- Adds the three scaled channels to a sum, each with its weight. -/
def addAll (c : Channels) (sum : Amount) (levels redWeight greenWeight : Int) :
    Except Error Amount :=
  (addScaled sum redWeight levels c.red).bind fun sum =>
    (addScaled sum greenWeight levels c.green).bind fun sum => addScaled sum 1 levels c.blue

/-- Mirrors `rgb_to_indexed`. -/
def nearestIndex (c : Channels) : Except Error Amount :=
  if c.red.same c.green && c.green.same c.blue then addScaled (.ofInt Color.rampFirst) 1 23 c.red
  else c.addAll (.ofInt Color.cubeFirst) 5 36 6

/-- Does the channel equal one of the middle grays? -/
def isMidtone (shade : Value) : Bool :=
  match shade.amount? with
  | some (.whole w) => Color.isMidtone w.toInt
  | some (.float x) => Color.isMidtone (x.truncate?.getD 0) && x.isInt (x.truncate?.getD 0)
  | none => false

/-- Mirrors `rgb_to_sgr`. -/
def code (c : Channels) : Except Error Int :=
  if isMidtone c.red && isMidtone c.green && isMidtone c.blue then .ok Color.midtoneCode
  else (c.addAll (.ofInt 0) 2 9 3).bind fun place => match place with
    | .whole w => Color.codeAt w.toInt
    | .float _ => .error (.misuse .place)

/-- The color of the channels: whole numbers, the first one out of range refused. -/
def color (c : Channels) : Except Error Color :=
  match c.red.whole?, c.green.whole?, c.blue.whole? with
  | some r, some g, some b => Color.ofChannels r.toInt g.toInt b.toInt
  | some r, some g, none => .error (.misuse (.operator "|" (Value.jointType r g) c.blue))
  | _, _, _ => .error (.misuse (.operator "|" c.red c.green))

def display (c : Channels) : String :=
  s!"Color(r={c.red.display}, g={c.green.display}, b={c.blue.display})"

theorem addScaled_int (sum weight levels shade : Int) :
    addScaled (.ofInt sum) weight levels (.int shade) =
      .ok (.ofInt (sum + scaleChannel shade levels * weight)) := rfl

theorem nearestIndex_given (c : Color) :
    c.given.nearestIndex = .ok (.ofInt c.nearestIndex) := by
  obtain ⟨r, g, b⟩ := c
  unfold nearestIndex Color.nearestIndex Color.given
  simp only [Value.same_int, Bool.and_eq_true, beq_iff_eq]
  split
  · rw [addScaled_int, Int.mul_one]
  · show Except.ok _ = _
    congr 2
    show Color.cubeFirst + scaleChannel r 5 * 36 + scaleChannel g 5 * 6 + scaleChannel b 5 * 1 = _
    omega

theorem code_given (c : Color) : c.given.code = c.code := by
  obtain ⟨r, g, b⟩ := c
  show (if Color.isMidtone r && Color.isMidtone g && Color.isMidtone b then _
    else Color.codeAt (0 + scaleChannel r 2 * 9 + scaleChannel g 2 * 3 + scaleChannel b 2 * 1)) = _
  have hplace : 0 + scaleChannel r 2 * 9 + scaleChannel g 2 * 3 + scaleChannel b 2 * 1 =
      Color.levelPlace ⟨r, g, b⟩ := by
    simp only [Color.levelPlace]; omega
  rw [hplace]
  rfl

end Channels
end ColorMarkup
