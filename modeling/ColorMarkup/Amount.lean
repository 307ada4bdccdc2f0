import ColorMarkup.Value
import ColorMarkup.Decimal.Arithmetic
/-!
# Amounts

A number of any kind: a whole number as it is given, or a float. Sums and
products of whole numbers are whole and exact; with a float they are floats, and
fail for a whole number that is too large for one.
-/
namespace ColorMarkup

/-- A number of any kind. -/
inductive Amount where
  | whole (w : Whole)
  | float (x : Binary64)
  deriving DecidableEq, Repr

/-- The number a value is. -/
def Value.amount? : Value → Option Amount
  | .float x => some (.float x)
  | v => v.whole?.map .whole

namespace Amount

def ofInt (n : Int) : Amount := .whole (.number n)

def value : Amount → Value
  | whole w => w.value
  | float x => .float x

def display (a : Amount) : String := a.value.display

def atMost (a : Amount) (n : Int) : Bool :=
  match a with
  | whole w => w.toInt ≤ n
  | float x => x.atMost n

def isBelow (a : Amount) (n : Int) : Bool :=
  match a with
  | whole w => w.toInt < n
  | float x => x.isBelow n

/-- The amount as a float, unless it is too large for one. -/
def toFloat? : Amount → Option Binary64
  | whole w => Binary64.ofInt? w.toInt
  | float x => some x

/-- Joins two amounts: whole ones exactly, others as floats. -/
def join (onInts : Int → Int → Int) (onFloats : Binary64 → Binary64 → Binary64) :
    Amount → Amount → Option Amount
  | whole v, whole w => some (ofInt (onInts v.toInt w.toInt))
  | a, b => match a.toFloat?, b.toFloat? with
    | some x, some y => some (.float (onFloats x y))
    | _, _ => none

/-- The sum, unless a whole number is too large for a float. -/
def add : Amount → Amount → Option Amount := join (· + ·) Binary64.add

/-- The product, unless a whole number is too large for a float. -/
def mul : Amount → Amount → Option Amount := join (· * ·) Binary64.mul

/-- The greatest whole number of times that `d` goes into the amount. -/
def floorDiv (a : Amount) (d : Nat) : Amount :=
  match a with
  | whole w => ofInt (w.toInt / d)
  | float x => .float (x.floorDiv d)

/-- The amount less a length. -/
def minus (a : Amount) (n : Nat) : Amount :=
  match a with
  | whole w => ofInt (w.toInt - n)
  | float x => .float (x.add (Binary64.ofSigned false (-(n : Int)) 1))

end Amount
end ColorMarkup
