import ColorMarkup.Amount
/-!
# Refusals

Why an operation on texts, colors or modes is refused, and the wording of each
refusal. A text that cannot be written as bytes has no wording of its own.

Most operations check what they are given. Some do not, and a value of a wrong
type fails where it is first used: that is a misuse, worded by the use.
-/
namespace ColorMarkup

/-- Why a capacity is refused. -/
inductive CapacityError where
  /-- A capacity must leave room for the terminator. -/
  | notPositive (capacity : Amount)
  /-- Data of some length does not fit the room left. -/
  | append (length : Nat) (room : Amount)
  /-- The room left does not exceed the length of the source. -/
  | source (length : Nat) (room : Amount)
  deriving DecidableEq, Repr

namespace CapacityError

/-- Is something too long, rather than the capacity unusable? -/
def isTooSmall : CapacityError → Bool
  | notPositive _ => false
  | append _ _ | source _ _ => true

def message : CapacityError → String
  | notPositive c => s!"Capacity must be positive (got: {c.display})"
  | append length room =>
    s!"Cannot append {length} byte(s) with {room.display} byte(s) of capacity remaining"
  | source length room =>
    s!"Capacity ({room.display}) must exceed the length of the source ({length})"

end CapacityError

/-- Why a value cannot be used in a place that does not check its type. -/
inductive Misuse where
  /-- It stands beside an operator, on one side or on both. -/
  | operator (sign : String) (left right : Value)
  | times (given : Value)
  /-- It is repeated, and a number is added to that. -/
  | sum (given : Value)
  /-- It is compared with an integer. -/
  | order (given : Value)
  /-- It is written as a number. -/
  | number (given : Value)
  /-- It is a float to be written as an integer: not-a-number, or an infinity. -/
  | integer (isNaN : Bool)
  /-- Its length is asked for, and it has none. -/
  | length (typeName : String)
  /-- It is to be written behind bytes, and has no memory of its own. -/
  | bytes (typeName : String)
  /-- It is a view with no dimension, whose length is asked for, or one that has been released. -/
  | noDimension
  | released
  /-- Part of it is to be written over: a view of such a format, of no dimension or of several,
  or of other items than bytes. -/
  | viewFormat (format : String)
  | viewNoDimension
  | viewDimensions
  | viewItems
  /-- A part of it is viewed as bytes. -/
  | view (given : Value)
  /-- It is an end of such a part. -/
  | position
  /-- It is a float to be used as a place in a table. -/
  | place
  | search (given : Value)
  | template (typeName : String)
  deriving Repr

def Misuse.message : Misuse → String
  | operator sign left right =>
    s!"unsupported operand type(s) for {sign}: '{left.typeName}' and '{right.typeName}'"
  | times given => s!"can't multiply sequence by non-int of type '{given.typeName}'"
  | sum (.bytes holder b) => s!"can't concat int to {(Value.bytes holder b).typeName}"
  | sum given => s!"can only concatenate {given.typeName} (not \"int\") to {given.typeName}"
  | order given => s!"'<' not supported between instances of '{given.typeName}' and 'int'"
  | number given => s!"%d format: a real number is required, not {given.typeName}"
  | integer true => "cannot convert float NaN to integer"
  | integer false => "cannot convert float infinity to integer"
  | length typeName => s!"object of type '{typeName}' has no len()"
  | bytes typeName => s!"can't concat {typeName} to bytearray"
  | noDimension => "0-dim memory has no length"
  | released => "operation forbidden on released memoryview object"
  | viewFormat format => s!"memoryview: unsupported format {format}"
  | viewNoDimension => "invalid indexing of 0-dim memory"
  | viewDimensions => "memoryview slice assignments are currently restricted to ndim = 1"
  | viewItems => "memoryview assignment: lvalue and rvalue have different structures"
  | position => "slice indices must be integers or None or have an __index__ method"
  | place => "tuple indices must be integers or slices, not float"
  | view given => s!"memoryview: a bytes-like object is required, not '{given.typeName}'"
  | search given => s!"expected string or bytes-like object, got '{given.typeName}'"
  | template typeName => s!"unsupported operand type(s) for %: '{typeName}' and 'tuple'"

/-- Why an operation is refused. -/
inductive Error where
  | wrongType (argument : Text) (typeName : String)
  | badValue (argument : Text) (given : Value)
  | outOfRange (argument : Text) (given : Int)
  | packedOutOfRange (argument : Text) (given : Int)
  | badDepth (given : Value)
  | badDirection (given : Value)
  /-- A value that must be a depth's bits, or a direction's code. -/
  | noDepth (given : Value)
  | noDirection (given : Value)
  | nothingDefined (name : Value)
  | noName
  | unknownField (name : Text)
  /-- A color so far out of range that no code is nearest: its place in the table. -/
  | noCode (place : Int)
  | noMeaning
  | noMode (name : Text)
  | noTemplate (name : String)
  | unencodable
  | capacity (cause : CapacityError)
  | tooFewArguments
  | tooManyArguments (binary : Bool)
  | countTooLarge
  | outOfMemory
  /-- A whole number too large for a float. -/
  | noFloat
  /-- A color of so many channels, given to an operation. -/
  | channelCount (operation : String) (count : Nat)
  | misuse (cause : Misuse)
  deriving Repr

/-- Does the number fit 64 bits, sign included? -/
def isWord (n : Int) : Bool := -9223372036854775808 ≤ n && n < 9223372036854775808

namespace Error

def wordRange : String := "cannot fit 'int' into an index-sized integer"

def channelCountWording : Nat → String
  | 0 => "missing 3 required positional arguments: 'r', 'g', and 'b'"
  | 1 => "missing 2 required positional arguments: 'g' and 'b'"
  | 2 => "missing 1 required positional argument: 'b'"
  | n => s!"takes 3 positional arguments but {n} were given"

def message : Error → String
  | wrongType argument typeName =>
    "Invalid type for " ++ argument.quoted ++ " (got: " ++ typeName ++ ")"
  | badValue argument given =>
    "Invalid value for " ++ argument.quoted ++ " (got: " ++ given.display ++ ")"
  | outOfRange argument given => argument.quoted ++ s!" out of range (got: {given})"
  | packedOutOfRange argument given =>
    argument.quoted ++ s!" out of range (got: {given}, packed RGB)"
  | badDepth given => "Invalid color depth (got: " ++ given.display ++ ")"
  | badDirection given => "Invalid color direction (got: " ++ given.display ++ ")"
  | noDepth given => given.display ++ " is not a valid Depth"
  | noDirection given => given.display ++ " is not a valid Direction"
  | nothingDefined name => "Color definition " ++ name.display ++ " defines nothing"
  | noName => "ColorDefinition.__init__() missing 1 required positional argument: 'name'"
  | unknownField name =>
    s!"ColorDefinition.__init__() got an unexpected keyword argument '{name.toString}'"
  | noCode place => if isWord place then "tuple index out of range" else wordRange
  | noMeaning => "'NoneType' object has no attribute 'color'"
  | noMode name => name.quoted
  | noTemplate name => s!"module 'term_tags.ctlseqs' has no attribute '{name}'"
  | unencodable => "surrogates not allowed"
  | capacity cause => cause.message
  | tooFewArguments => "not enough arguments for format string"
  | tooManyArguments false => "not all arguments converted during string formatting"
  | tooManyArguments true => "not all arguments converted during bytes formatting"
  | countTooLarge => wordRange
  | outOfMemory => ""
  | noFloat => "int too large to convert to float"
  | channelCount operation count => operation ++ "() " ++ channelCountWording count
  | misuse cause => cause.message

/-- Does the error mean that an argument cannot be read as a text: that it is of a wrong type,
or that no bytes stand for it? -/
def isUnreadable : Error → Bool
  | wrongType _ _ | unencodable => true
  | _ => false

def isCapacity : Error → Bool
  | capacity _ => true
  | _ => false

end Error

/-- A count of repetitions, which is zero for a negative number; there is memory for `greatest`
of them. -/
def repetitions (greatest : Int) (v : Value) : Except Error Nat :=
  match v.asInt? with
  | none => .error (.misuse (.times v))
  | some n =>
    if !isWord n then .error .countTooLarge
    else if greatest < n then .error .outOfMemory
    else .ok n.toNat

end ColorMarkup
