import ColorMarkup.Error
import ColorMarkup.Journal.Record
/-!
# Notices and outcomes

Operations under a mode report two kinds of event, both for debugging: a tag
that resolves to nothing, and a value rejected as a depth or a direction. The
outcome of such an operation is its result or refusal, the mode it leaves
(whether or not it was refused) and its notices in order.

Results:
* `Outcome.andThen_mode`: the mode that a sequence of two operations leaves.
-/
namespace ColorMarkup

/-- An event reported by an operation. -/
inductive Notice where
  /-- Bracketed text that is no tag, and the offset of its bracket. -/
  | unresolvedTag (body : Bytes) (offset : Nat)
  | rejectedDepth (given : Value) (kept : Depth)
  | rejectedDirection (given : Value) (kept : Direction)
  deriving Repr

def Notice.record : Notice → Journal.Record
  | unresolvedTag body offset =>
    .ofPart "tags" Journal.debugLevel "_process_tags"
      ("Unresolved tag " ++ body.quoted ++ s!" at {offset}")
  | rejectedDepth given kept =>
    .ofPart "modes" Journal.debugLevel "set_depth"
      ("Rejected color depth " ++ given.display ++ "; keeping " ++ Value.displayDepth kept)
  | rejectedDirection given kept =>
    .ofPart "modes" Journal.debugLevel "set_direction"
      ("Rejected color direction " ++ given.display ++ "; keeping "
        ++ Value.displayDirection kept)

/-- What an operation under a mode leads to. -/
structure Outcome (α : Type) where
  result : Except Error α
  mode : Mode
  notices : List Notice

namespace Outcome

variable {α β : Type}

/-- An operation that only answers. -/
def ofResult (r : Except Error α) (m : Mode) : Outcome α := ⟨r, m, []⟩

def map (f : α → β) (o : Outcome α) : Outcome β := ⟨o.result.map f, o.mode, o.notices⟩

/-- Goes on from a success, in the mode it leaves. -/
def andThen (o : Outcome α) (f : α → Mode → Outcome β) : Outcome β :=
  match o.result with
  | .error e => ⟨.error e, o.mode, o.notices⟩
  | .ok a =>
    let next := f a o.mode
    { next with notices := o.notices ++ next.notices }

theorem andThen_mode {o : Outcome α} {a : α} (h : o.result = .ok a)
    (f : α → Mode → Outcome β) : (o.andThen f).mode = (f a o.mode).mode := by
  simp [andThen, h]

end Outcome
end ColorMarkup
