import ColorMarkup.Error
import ColorMarkup.Text.Utf8
/-!
# Text arguments

An operation on text takes a text or bytes and answers in kind. A text is worked
on as its UTF-8 bytes, and bytes as a C string: up to the first zero byte, so a
buffer filled before can be passed back in. Names and numbers are looked up in
the whole argument instead, and only ASCII texts can hold one.

Results:
* `source_text_isOk_iff`: a text is refused exactly for a surrogate that stands
  for no byte.
* `source_bytes`: bytes are never refused.
-/
namespace ColorMarkup.Value

/-- The bytes an operation works on; `argument` is what a refusal calls the value. Mirrors
`to_bytes`. -/
def sourceNamed (argument : Text) : Value → Except Error Bytes
  | text t => match Utf8.encode t with
    | some b => .ok b
    | Option.none => .error .unencodable
  | bytes _ b => .ok b.untilNul
  | v => .error (.wrongType argument v.typeName)

@[inherit_doc sourceNamed]
def source (argument : String) (v : Value) : Except Error Bytes :=
  v.sourceNamed (Text.ofString argument)

/-- The bytes a name or number is looked up by; a text that is not ASCII has none. -/
def key? (argument : String) : Value → Except Error (Option Bytes)
  | text t => .ok (if t.isAscii then Utf8.encode t else Option.none)
  | bytes _ b => .ok (some b)
  | v => .error (.wrongType (Text.ofString argument) v.typeName)

/-- The answer in the kind of the argument: a text for a text, otherwise bytes. -/
def answer (argument : Value) (result : Bytes) : Value :=
  match argument with
  | text _ => text (Utf8.decode result)
  | _ => bytes .constant result

/-- A text in the kind of another value: a text beside a text, otherwise bytes. -/
def inKind (v : Value) (t : Text) : Value :=
  match v with
  | text _ => text t
  | _ => bytes .constant ((Utf8.encode t).getD [])

/-- A position in a byte string of some length: counted from the end if it is
negative, and moved into the string if it lies outside. -/
def position (length : Nat) (i : Int) : Nat :=
  if i < 0 then (i + length).toNat else min i.toNat length

/-- The position that a value asks for; none asks for the one that is usual. -/
def positionOr (usual length : Nat) : Value → Except Error Nat
  | none => .ok usual
  | v => match v.asInt? with
    | some i => .ok (position length i)
    | Option.none => .error (.misuse .position)

/-- The part of a byte string from one position to another, as a view; a position
not given is that of an end. -/
def slice (v first last : Value) : Except Error Value :=
  match v with
  | bytes _ b => do
    let first ← positionOr 0 b.length first
    let last ← positionOr b.length b.length last
    return bytes .view ((b.take last).drop first)
  | v => .error (.misuse (.view v))

def withContent (v : Value) (content : Bytes) : Value :=
  match v with
  | bytes holder _ => bytes holder content
  | v => v

theorem source_text_isOk_iff (argument : String) (t : Text) :
    (∃ b, source argument (text t) = .ok b) ↔ ∀ c ∈ t, c.isSurrogate → c.isEscapedByte := by
  rw [← Utf8.encode_isSome_iff]
  cases h : Utf8.encode t <;> simp [source, sourceNamed, h]

theorem source_bytes (argument : String) (h : Holder) (b : Bytes) :
    source argument (bytes h b) = .ok b.untilNul := rfl

end ColorMarkup.Value
