import ColorMarkup.Text.Basic
/-!
# Bracketed bodies

One pass over a text finds its bracketed bodies. Every opening bracket opens a
body anew, so of several the nearest one counts; the next closing bracket ends
the body; a closing bracket with none open is text, and so is a body that is
never closed. An occurrence is a body with the text between it and the
occurrence before; the tail is the text after the last one.

Results:
* `join_scan`: occurrences and tail, put together again, are the text.
* `body_no_brackets`: a body holds no bracket.
-/
namespace ColorMarkup.Markup

def opening : UInt8 := 0x5B

def closing : UInt8 := 0x5D

/-- A bracketed body and the text before it. -/
structure Occurrence where
  before : Bytes
  body : Bytes
  deriving DecidableEq, Repr

/-- The occurrences in a text, and the text after the last. -/
structure Scan where
  occurrences : List Occurrence
  tail : Bytes
  deriving DecidableEq, Repr

namespace Occurrence

def bracketed (o : Occurrence) : Bytes := opening :: (o.body ++ [closing])

/-- The occurrence as it stands in the text. -/
def source (o : Occurrence) : Bytes := o.before ++ o.bracketed

end Occurrence

namespace Scan

/-- The text that was scanned. -/
def join (s : Scan) : Bytes := s.occurrences.flatMap Occurrence.source ++ s.tail

def cons (o : Occurrence) (s : Scan) : Scan := { s with occurrences := o :: s.occurrences }

end Scan

/-- The text and the open body, if any, as text read backwards. -/
def pending (before : Bytes) : Option Bytes → Bytes
  | none => before
  | some body => body ++ opening :: before

/-- Scans on after the text `before` and the open body, both held backwards. -/
def scanFrom (before : Bytes) : Option Bytes → Bytes → Scan
  | opened, [] => ⟨[], (pending before opened).reverse⟩
  | opened, c :: rest =>
    if c = opening then scanFrom (pending before opened) (some []) rest
    else match opened with
      | none => scanFrom (c :: before) none rest
      | some body =>
        if c = closing then (scanFrom [] none rest).cons ⟨before.reverse, body.reverse⟩
        else scanFrom before (some (c :: body)) rest

def scan (src : Bytes) : Scan := scanFrom [] none src

theorem Scan.join_cons (o : Occurrence) (s : Scan) : (s.cons o).join = o.source ++ s.join := by
  simp [cons, join]

theorem join_scanFrom (before : Bytes) (opened : Option Bytes) (src : Bytes) :
    (scanFrom before opened src).join = (pending before opened).reverse ++ src := by
  induction src generalizing before opened with
  | nil => simp [scanFrom, Scan.join]
  | cons c rest ih =>
    unfold scanFrom
    split
    · next hc => rw [ih]; simp [pending, hc]
    · split
      · rw [ih]; simp [pending]
      · split
        · next hc =>
          rw [Scan.join_cons, ih]
          simp [Occurrence.source, Occurrence.bracketed, pending, hc]
        · rw [ih]; simp [pending]

/-- Nothing of the text is lost or doubled. -/
theorem join_scan (src : Bytes) : (scan src).join = src := by
  rw [scan, join_scanFrom]; simp [pending]

def NoBrackets (b : Bytes) : Prop := ∀ c ∈ b, c ≠ opening ∧ c ≠ closing

theorem scanFrom_no_brackets (before : Bytes) (opened : Option Bytes) (src : Bytes)
    (h : ∀ body ∈ opened, NoBrackets body) :
    ∀ o ∈ (scanFrom before opened src).occurrences, NoBrackets o.body := by
  induction src generalizing before opened with
  | nil => simp [scanFrom]
  | cons c rest ih =>
    unfold scanFrom
    split
    · exact ih _ _ (by simp [NoBrackets])
    · next ho =>
      split
      · exact ih _ _ (by simp)
      · next body =>
        have hb : NoBrackets body := h body rfl
        split
        · intro o hmem
          simp only [Scan.cons, List.mem_cons] at hmem
          rcases hmem with rfl | hmem
          · intro x hx; exact hb x (by simpa using hx)
          · exact ih _ _ (by simp) o hmem
        · next hc =>
          apply ih
          intro b hbm
          cases hbm
          intro x hx
          rcases List.mem_cons.1 hx with rfl | hx
          · exact ⟨ho, hc⟩
          · exact hb x hx

theorem body_no_brackets (src : Bytes) : ∀ o ∈ (scan src).occurrences, NoBrackets o.body :=
  scanFrom_no_brackets _ _ _ (by simp)

end ColorMarkup.Markup
