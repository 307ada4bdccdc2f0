import ColorMarkup.Channels
import ColorMarkup.Escape.Basic
/-!
# Sequence templates

A template is a sequence with numbers left open. Its pattern shows each open
number as `%d`; filling it takes exactly one value for each that can be written as
an integer.

Results:
* `fill_isOk_iff`: exactly the right count of values that can be written fills a
  template.
-/
namespace ColorMarkup

inductive Slot where
  | fixed (b : Bytes)
  | number
  deriving DecidableEq, Repr

abbrev Template := List Slot

namespace Template

def pattern : Template → Bytes
  | [] => []
  | .fixed b :: t => b ++ pattern t
  | .number :: t => 0x25 :: 0x64 :: pattern t

def arity (t : Template) : Nat := t.countP (· = Slot.number)

/-- The template with values put in, in order, each written as an integer. -/
def fill (binary : Bool) : Template → List Value → Except Error Bytes
  | [], [] => .ok []
  | [], _ :: _ => .error (.tooManyArguments binary)
  | .fixed b :: t, vs => (fill binary t vs).map (b ++ ·)
  | .number :: _, [] => .error .tooFewArguments
  | .number :: t, v :: vs =>
    v.written.bind fun n => (fill binary t vs).map (Decimal.ofInt n ++ ·)

theorem fill_isOk_iff (binary : Bool) (t : Template) (vs : List Value) :
    (∃ b, fill binary t vs = .ok b) ↔
      vs.length = t.arity ∧ ∀ v ∈ vs, ∃ n, v.written = .ok n := by
  have hmap : ∀ (r : Except Error Bytes) (f : Bytes → Bytes),
      (∃ b, r.map f = .ok b) ↔ ∃ b, r = .ok b := by
    intro r f; cases r <;> simp [Except.map]
  induction t generalizing vs with
  | nil => cases vs <;> simp [fill, arity]
  | cons s t ih =>
    cases s with
    | fixed b => simpa [fill, hmap, arity] using ih vs
    | number =>
      cases vs with
      | nil => simp [fill, arity]
      | cons v vs =>
        cases h : v.written with
        | error e => simp [fill, h, Except.bind]
        | ok n => simpa [fill, h, hmap, arity, Except.bind] using ih vs

/-- `n` open numbers joined by semicolons. -/
def parameters (n : Nat) : Template :=
  (List.replicate n Slot.number).intersperse (.fixed [0x3B])

/-- A complete sequence around the pieces. -/
def sequence (inner : Template) : Template :=
  .fixed Escape.introducer :: (inner ++ [.fixed [0x6D]])

/-- A color selection: fixed parameters, then open ones. -/
def selection (d : Direction) (kind : Int) (count : Nat) : Template :=
  sequence (.fixed (Escape.joinParams [Escape.selector d, kind] ++ [0x3B]) :: parameters count)

/-- The library's templates by name; each can be asked for as text or as bytes. -/
def named : List (String × Template) :=
  [("ESC", [.fixed [0x1B]]),
   ("CSI", [.fixed Escape.introducer]),
   ("SGR", sequence [.number]),
   ("SGR_NORMAL", [.fixed (Escape.sequenceBytes [0])]),
   ("SGR_FG_RGB", selection .foreground 2 3),
   ("SGR_BG_RGB", selection .background 2 3),
   ("SGR_FG_INDEXED", selection .foreground 5 1),
   ("SGR_BG_INDEXED", selection .background 5 1)]

/-- Templates of less than a sequence, by name: text only. -/
def fragments : List (String × Template) := [("Ps", [.number])]

end Template
end ColorMarkup
