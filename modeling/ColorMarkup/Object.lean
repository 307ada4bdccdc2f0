import ColorMarkup.Source
/-!
# Objects with memory

Where bytes are read, collected or written over, any object may be given: besides values, a
view whose items are wider than a byte or lie along several dimensions, a view that has been
released, and whatever else has a length or memory of its own.

The length of a view counts items, those along its first dimension, and its content is the
bytes of all of them. So the two agree only for items of one byte along one dimension. A view
without dimensions has one item; that its length is one is not said by every version.

Results:
* `View.length_of_isFlat`: they do for a flat view.
* `source_value`: a value is read as it is without all this.
-/
namespace ColorMarkup

/-- The letter of a format of one letter, which an `@` may stand in front of. -/
def View.letter? (format : String) : Option Char :=
  match format.toList with
  | ['@'] => none
  | ['@', c] => some c
  | [c] => some c
  | _ => none

/-- A view of memory: the format and size of an item, how many items there are along each
dimension, the length that is answered for it, whether the items may be written and stand behind
each other, and the bytes of all. -/
structure View where
  format : String
  itemSize : Nat
  shape : List Nat
  length? : Option Nat
  isWritable : Bool
  isContiguous : Bool
  content : Bytes
  length?_of_shape : ∀ n ∈ shape.head?, length? = some n
  length_content : content.length = shape.foldr (· * ·) itemSize
  itemSize_of_byte : View.letter? format = some 'B' → itemSize = 1
  deriving Repr

namespace View

/-- Are the items bytes, along one dimension? -/
def isFlat (v : View) : Bool := letter? v.format == some 'B' && v.shape.length == 1

/-- The view with other bytes, as many as before. -/
def withContent (v : View) (content : Bytes) (h : content.length = v.content.length) : View :=
  { v with content := content, length_content := h.trans v.length_content }

/-- Eight words of four bytes. -/
def eightWords : View where
  format := "I"
  itemSize := 4
  shape := [8]
  length? := some 8
  isWritable := true
  isContiguous := true
  content := List.replicate 32 0xFF
  length?_of_shape := by simp
  length_content := rfl
  itemSize_of_byte := by decide

theorem length_of_isFlat {v : View} (h : v.isFlat = true) : v.length? = some v.content.length := by
  simp only [isFlat, Bool.and_eq_true, beq_iff_eq] at h
  obtain ⟨n, hn⟩ := List.length_eq_one_iff.1 h.2
  rw [v.length?_of_shape n (by simp [hn]), v.length_content, v.itemSize_of_byte h.1, hn]
  simp

end View

/-- An object that is given where bytes are read, collected or written over. Of any other than
a value or a view it matters only what its type is called, and what its length and its memory
are, if it has these. -/
inductive Object where
  | value (v : Value)
  | view (v : View)
  | releasedView
  | other (typeName : String) (length : Option Nat) (memory : Option Bytes)
  deriving Repr

namespace Object

def typeName : Object → String
  | value v => v.typeName
  | view _ | releasedView => "memoryview"
  | other typeName _ _ => typeName

/-- The length of an object. -/
def length : Object → Except Error Nat
  | value v => match v.length? with
    | some n => .ok n
    | none => .error (.misuse (.length v.typeName))
  | view v => match v.length? with
    | some n => .ok n
    | none => .error (.misuse .noDimension)
  | releasedView => .error (.misuse .released)
  | other typeName length _ => match length with
    | some n => .ok n
    | none => .error (.misuse (.length typeName))

/-- The bytes of an object that has memory in one piece. -/
def memory? : Object → Option Bytes
  | value (.bytes _ b) => some b
  | value _ | releasedView => none
  | view v => if v.isContiguous then some v.content else none
  | other _ _ memory => memory

def isNone : Object → Bool
  | value .none => true
  | _ => false

/-- The bytes of an object that may be written over, if each of them is one item of it. -/
def cells? : Object → Option Bytes
  | value (.bytes holder b) => if holder.isMutable then some b else none
  | view v => if v.isWritable && v.isFlat then some v.content else none
  | _ => none

/-- What an operation on text reads of the object: of a view its bytes, whatever their layout.
One that cannot be read stands for none. -/
def text : Object → Value
  | value v => v
  | view v => .bytes .constantView v.content
  | releasedView | other _ _ _ => .none

/-- The bytes an operation works on; `argument` is what a refusal calls the object. Mirrors
`to_bytes`. -/
def source (argument : String) : Object → Except Error Bytes
  | value v => v.source argument
  | view v => .ok v.content.untilNul
  | releasedView => .error (.misuse .released)
  | other typeName _ _ => .error (.wrongType (Text.ofString argument) typeName)

theorem source_value (argument : String) (v : Value) :
    (value v).source argument = v.source argument := rfl

/-- An object that can be read is read as the text that stands for it. -/
theorem source_text {argument : String} {o : Object} {b : Bytes} (h : o.source argument = .ok b) :
    o.text.source argument = .ok b := by
  cases o with
  | value v => exact h
  | view v => exact h
  | releasedView => cases h
  | other => cases h

end Object
end ColorMarkup
