import ColorMarkup.Notice
import ColorMarkup.Source
import ColorMarkup.Sink
/-!
# Finding and removing sequences

A sequence in text is `ESC [`, then any digits and semicolons, then `m`. Nothing
else that starts with `ESC [` is one. The search runs on any list whose items
have numbers, so that bytes and code points are searched by one definition.

Results:
* `match?_le_length`: a match lies within the list.
* `remove_append_of_plain`: items without `ESC` in front are kept.
-/
namespace ColorMarkup.Sgr

variable {α : Type} (number : α → Nat)

def isParameter (n : Nat) : Bool := (0x30 ≤ n && n ≤ 0x39) || n == 0x3B

/-- The length of parameters up to and with the closing `m`. -/
def closing? : List α → Option Nat
  | [] => none
  | x :: xs =>
    if number x = 0x6D then some 1
    else if isParameter (number x) then (closing? xs).map (· + 1)
    else none

/-- The length of the sequence at the head, if there is one. -/
def match? : List α → Option Nat
  | esc :: bracket :: rest =>
    if number esc = 0x1B ∧ number bracket = 0x5B then (closing? number rest).map (· + 2) else none
  | _ => none

/-- The spans of the sequences from position `pos` on, after `skip` items that
belong to a sequence already found. -/
def spansFrom (pos : Nat) : Nat → List α → List (Nat × Nat)
  | _, [] => []
  | skip + 1, _ :: xs => spansFrom (pos + 1) skip xs
  | 0, x :: xs =>
    match match? number (x :: xs) with
    | some n => (pos, pos + n) :: spansFrom (pos + 1) (n - 1) xs
    | none => spansFrom (pos + 1) 0 xs

/-- The spans of the sequences, first and past-the-end position of each. -/
def spans (xs : List α) : List (Nat × Nat) := spansFrom number 0 0 xs

/-- The items outside sequences, after `skip` items of one already found. -/
def removeFrom : Nat → List α → List α
  | _, [] => []
  | skip + 1, _ :: xs => removeFrom skip xs
  | 0, x :: xs =>
    match match? number (x :: xs) with
    | some n => removeFrom (n - 1) xs
    | none => x :: removeFrom 0 xs

def remove (xs : List α) : List α := removeFrom number 0 xs

theorem closing?_le_length {xs : List α} {n : Nat} (h : closing? number xs = some n) :
    1 ≤ n ∧ n ≤ xs.length := by
  induction xs generalizing n with
  | nil => cases h
  | cons x xs ih =>
    simp only [closing?] at h
    split at h
    · cases h; simp
    · split at h
      · obtain ⟨k, hk, rfl⟩ := Option.map_eq_some_iff.1 h
        have := ih hk
        simp; omega
      · cases h

theorem match?_le_length {xs : List α} {n : Nat} (h : match? number xs = some n) :
    3 ≤ n ∧ n ≤ xs.length := by
  unfold match? at h
  split at h
  · split at h
    · obtain ⟨k, hk, rfl⟩ := Option.map_eq_some_iff.1 h
      have := closing?_le_length number hk
      simp; omega
    · cases h
  · cases h

theorem match?_none_of_head_ne {x : α} (h : number x ≠ 0x1B) (xs : List α) :
    match? number (x :: xs) = none := by
  cases xs <;> simp [match?, h]

theorem remove_append_of_plain (p xs : List α) (h : ∀ x ∈ p, number x ≠ 0x1B) :
    remove number (p ++ xs) = p ++ remove number xs := by
  induction p with
  | nil => rfl
  | cons x p ih =>
    have hx := match?_none_of_head_ne number (h x (by simp)) (p ++ xs)
    simp only [remove, List.cons_append, removeFrom, hx]
    exact congrArg _ (ih fun y hy => h y (by simp [hy]))

/-- Removes the sequences of a byte string, within a capacity. Mirrors `_strip_sequences`. -/
def strip (src : Bytes) (capacity : Value) : Except Error Bytes := do
  let out ← Sink.ofCapacity capacity
  out.ensureFits src.length
  let out ← out.append (remove UInt8.toNat src)
  return out.toBytes

/-- Removes the sequences of a text argument. Mirrors `strip_sequences`. -/
def stripValue (text capacity : Value) : Except Error Value := do
  let src ← text.source "text"
  let result ← strip src capacity
  return text.answer result

/-- The spans of the sequences in an argument: in code points of a text, in bytes
otherwise. -/
def spansOf : Value → Except Error (List (Nat × Nat))
  | .text t => .ok (spans Fin.val t)
  | .bytes _ b => .ok (spans UInt8.toNat b)
  | v => .error (.misuse (.search v))

end ColorMarkup.Sgr
