import ColorMarkup.Markup.Scan
import ColorMarkup.Escape.Basic
import ColorMarkup.Mode.Reach
import ColorMarkup.Sink
/-!
# Converting tags

Occurrences are taken from left to right. One whose body is short enough and
means something that can be written under the mode then is a tag: it is
replaced by its escape, or removed, or it changes the mode for all that follow.
Any other is kept as it is, with a notice. Removal still expands the tags that
stand for a fixed text.

All output goes into a sink with a capacity. A tag's mode change and a kept
occurrence's notice come before its output, so they stay when the output does
not fit.

Results:
* `convertValue_eq`: a text argument is read, converted under a mode, and answered in kind.
-/
namespace ColorMarkup.Markup

inductive Action where
  | replace
  | remove
  deriving DecidableEq, Repr

/-- The length of the longest body that can be a tag. -/
def longestBody : Nat := "0xFF.0xFF.0xFF".length

namespace Occurrence

/-- What the body means, if it is short enough. -/
def meaning? (o : Occurrence) : Option Meaning :=
  if o.body.length ≤ longestBody then Meaning.ofBody? o.body else none

/-- The output for an occurrence that is no tag. -/
def keep (o : Occurrence) (offset : Nat) (out : Sink) (m : Mode) : Outcome Sink :=
  ⟨out.append o.source, m, [.unresolvedTag o.body offset]⟩

def isWritten (action : Action) (meaning : Meaning) (escape : Escape) : Bool :=
  !escape.bytes.isEmpty && (action == .replace || meaning.isFixed)

def expand (o : Occurrence) (action : Action) (meaning : Meaning) (escape : Escape)
    (out : Sink) : Except Error Sink :=
  match out.append o.before with
  | .error e => .error e
  | .ok out => if isWritten action meaning escape then out.append escape.bytes else .ok out

def process (o : Occurrence) (action : Action) (offset : Nat) (out : Sink) (m : Mode) :
    Outcome Sink :=
  match o.meaning? with
  | none => o.keep offset out m
  | some meaning =>
    let r := meaning.perform m none none
    match r.result with
    | .error e => ⟨.error e, r.mode, r.notices⟩
    | .ok none => o.keep offset out r.mode
    | .ok (some escape) => ⟨o.expand action meaning escape out, r.mode, r.notices⟩

end Occurrence

/-- The output for occurrences that start at an offset, and a tail. -/
def convertFrom (action : Action) (tail : Bytes) :
    List Occurrence → Nat → Sink → Mode → Outcome Bytes
  | [], _, out, m => .ofResult ((out.append tail).map Sink.toBytes) m
  | o :: rest, start, out, m =>
    (o.process action (start + o.before.length) out m).andThen fun out m =>
      convertFrom action tail rest (start + o.source.length) out m

/-- Replaces or removes the tags of a byte string, within a capacity. -/
def convert (action : Action) (src : Bytes) (capacity : Value) (m : Mode) : Outcome Bytes :=
  match Sink.ofCapacity capacity with
  | .error e => .ofResult (.error e) m
  | .ok out =>
    match out.ensureFits src.length with
    | .error e => .ofResult (.error e) m
    | .ok () =>
      let s := scan src
      convertFrom action s.tail s.occurrences 0 out m

/-- Replaces or removes the tags of a byte string under the mode that is given, or else under the
shared one. Mirrors `_process_tags`. -/
def process (action : Action) (src : Bytes) (capacity : Value) : Reach → Effect Bytes
  | ⟨none, shared⟩ => (convert action src capacity shared).onShared
  | ⟨some m, shared⟩ => (convert action src capacity m).onGiven shared

/-- Replaces or removes the tags of a text argument. Mirrors `replace_tags` and `strip_tags`. -/
def processValue (action : Action) (text capacity : Value) (r : Reach) : Effect Value :=
  match text.source "text" with
  | .error e => .ofResult (.error e) r
  | .ok src => (process action src capacity r).map text.answer

/-- Replaces or removes the tags of a text argument under a mode. -/
def convertValue (action : Action) (text capacity : Value) (m : Mode) : Outcome Value :=
  (processValue action text capacity ⟨none, m⟩).outcome

theorem processValue_shared (action : Action) (text capacity : Value) (m : Mode) :
    processValue action text capacity ⟨none, m⟩ = (convertValue action text capacity m).onShared := by
  unfold convertValue processValue
  cases text.source "text" <;> rfl

theorem processValue_given (action : Action) (text capacity : Value) (m shared : Mode) :
    processValue action text capacity ⟨some m, shared⟩ =
      (convertValue action text capacity m).onGiven shared := by
  unfold convertValue processValue
  cases text.source "text" <;> rfl

theorem convertValue_eq (action : Action) (text capacity : Value) (m : Mode) :
    convertValue action text capacity m = match text.source "text" with
      | .error e => .ofResult (.error e) m
      | .ok src => (convert action src capacity m).map text.answer := by
  unfold convertValue processValue
  cases text.source "text" <;> rfl

end ColorMarkup.Markup
