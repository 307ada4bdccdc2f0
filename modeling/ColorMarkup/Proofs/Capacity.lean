import ColorMarkup.Proofs.Markup.Replacement
import ColorMarkup.Proofs.Source
import ColorMarkup.Target
/-!
# A capacity is only a guard

Within a capacity an operation checks its source and every piece it writes. All these
checks together are two comparisons: the source and the result must be shorter than
the capacity. An operation that passes them does what it does without a capacity, and
nothing else.

Results:
* `TargetOperation.onBytes_unlimited`: the product of an operation.
* `TargetOperation.onBytes_limited`: within a whole capacity it is that product, or refused.
* `TargetOperation.capacity_guards`: the same of an operation on a text argument.
-/
namespace ColorMarkup

namespace CapacityError

/-- Is this the refusal of a whole capacity: unusable below one, too small from one on? -/
def Refuses (cause : CapacityError) (c : Int) : Prop :=
  (c < 1 → ∃ given, cause = notPositive given) ∧ (1 ≤ c → cause.isTooSmall = true)

theorem refuses_notPositive {c : Int} (h : c < 1) (given : Amount) : (notPositive given).Refuses c :=
  ⟨fun _ => ⟨given, rfl⟩, fun h' => by omega⟩

theorem refuses_of_isTooSmall {cause : CapacityError} {c : Int} (hc : 1 ≤ c)
    (h : cause.isTooSmall = true) : cause.Refuses c :=
  ⟨fun h' => by omega, fun _ => h⟩

end CapacityError

/-- Within a whole capacity an operation succeeds exactly if the lengths of its source and
of its result are below the capacity, and does then what it does without one; otherwise the
capacity is refused. -/
structure GuardedBy {α : Type} (c : Int) (source result : Nat) (free bounded : Outcome α) : Prop where
  succeeds_iff : (∃ a, bounded.result = .ok a) ↔ (source : Int) < c ∧ (result : Int) < c
  agrees : ∀ a, bounded.result = .ok a → bounded = free
  refused : ∀ e, bounded.result = .error e → ∃ cause, e = .capacity cause ∧ cause.Refuses c

theorem GuardedBy.of_cases {α : Type} {c : Int} {source result : Nat} {free bounded : Outcome α}
    (hfree : ∃ a, free.result = .ok a)
    (h : ((source : Int) < c ∧ (result : Int) < c ∧ bounded = free) ∨
      (¬ ((source : Int) < c ∧ (result : Int) < c) ∧ ∃ cause,
        bounded.result = .error (.capacity cause) ∧ cause.Refuses c)) :
    GuardedBy c source result free bounded := by
  obtain ⟨a, ha⟩ := hfree
  obtain ⟨hs, hr, rfl⟩ | ⟨hnot, cause, he, hcause⟩ := h
  · refine ⟨⟨fun _ => ⟨hs, hr⟩, fun _ => ⟨a, ha⟩⟩, fun _ _ => rfl, fun e he => ?_⟩
    rw [ha] at he
    cases he
  · refine ⟨⟨?_, fun h => absurd h hnot⟩, ?_, ?_⟩
    · rintro ⟨a, ha⟩
      rw [ha] at he
      cases he
    · intro a ha
      rw [ha] at he
      cases he
    · intro e he'
      rw [he, Except.error.injEq] at he'
      exact ⟨cause, he'.symm, hcause⟩

namespace Markup

theorem convert_limited (action : Action) (src : Bytes) {capacity : Value} {c : Int}
    (h : capacity.asInt? = some c) (m : Mode) :
    let p := conversion action src m
    ((src.length : Int) < c ∧ (p.bytes.length : Int) < c ∧
      convert action src capacity m = p.outcome) ∨
    (¬ ((src.length : Int) < c ∧ (p.bytes.length : Int) < c) ∧ ∃ cause,
      (convert action src capacity m).result = .error (.capacity cause) ∧
      cause.Refuses c) := by
  unfold convert
  obtain ⟨hc, given, h1⟩ | ⟨hc, hlen, b, cause, h1, h2, hsmall⟩ | ⟨hc, hlen, b, h1, h2, hhas⟩ :=
    Sink.open_cases h src.length
  · rw [h1]
    exact .inr ⟨by omega, _, rfl, CapacityError.refuses_notPositive hc given⟩
  · simp only [h1, h2]
    exact .inr ⟨fun h => hlen h.1, cause, rfl, CapacityError.refuses_of_isTooSmall hc hsmall⟩
  · simp only [h1, h2]
    obtain ⟨h3, hw⟩ | ⟨cause, h3, hsmall, hnot⟩ := convertFrom_has action
      (scan src).tail (scan src).occurrences 0 hhas m
    · exact .inl ⟨hlen, (within_some _ _).1 hw, h3⟩
    · refine .inr ⟨fun h => hnot ((within_some _ _).2 h.2), cause, h3, ?_⟩
      exact CapacityError.refuses_of_isTooSmall hc hsmall

end Markup

namespace Sgr

theorem stripValue_eq {text : Value} {src : Bytes} (h : text.source "text" = .ok src)
    (capacity : Value) :
    stripValue text capacity = (strip src capacity).map text.answer := by
  unfold stripValue
  rw [h]
  cases hs : strip src capacity <;> simp [hs, bind, Except.bind, pure, Except.pure, Except.map]

theorem strip_unlimited (src : Bytes) : strip src .none = .ok (remove UInt8.toNat src) := by
  obtain ⟨b, hb, -, hhas⟩ | ⟨_, -, -, hnot⟩ := Sink.has_unlimited.append (remove UInt8.toNat src)
  · rw [List.nil_append] at hhas
    simp [strip, Sink.ofCapacity, Sink.ensureFits, hb, hhas.1, bind, Except.bind, pure, Except.pure]
  · exact absurd (within_none _) hnot

theorem strip_limited (src : Bytes) {capacity : Value} {c : Int} (h : capacity.asInt? = some c) :
    let out := remove UInt8.toNat src
    ((src.length : Int) < c ∧ (out.length : Int) < c ∧ strip src capacity = .ok out) ∨
    (¬ ((src.length : Int) < c ∧ (out.length : Int) < c) ∧ ∃ cause,
      strip src capacity = .error (.capacity cause) ∧ cause.Refuses c) := by
  unfold strip
  obtain ⟨hc, given, h1⟩ | ⟨hc, hlen, b, cause, h1, h2, hsmall⟩ | ⟨hc, hlen, b, h1, h2, hhas⟩ :=
    Sink.open_cases h src.length
  · rw [h1]
    exact .inr ⟨by omega, _, rfl, CapacityError.refuses_notPositive hc given⟩
  · refine .inr ⟨fun h => hlen h.1, cause, ?_, CapacityError.refuses_of_isTooSmall hc hsmall⟩
    simp [h1, h2, bind, Except.bind]
  · obtain ⟨b', h3, hw, hhas'⟩ | ⟨cause, h3, hsmall, hnot⟩ :=
      hhas.append (remove UInt8.toNat src)
    · refine .inl ⟨hlen, (within_some _ _).1 hw, ?_⟩
      simp [h1, h2, h3, hhas'.1, bind, Except.bind, pure, Except.pure]
    · refine .inr ⟨fun h => hnot ((within_some _ _).2 h.2), cause, ?_, ?_⟩
      · simp [h1, h2, h3, bind, Except.bind]
      · exact CapacityError.refuses_of_isTooSmall hc hsmall

end Sgr

namespace TargetOperation

/-- The operation on bytes, within a capacity. -/
def onBytes (op : TargetOperation) (src : Bytes) (capacity : Value) (m : Mode) : Outcome Bytes :=
  match op with
  | .convert action => Markup.convert action src capacity m
  | .stripSequences => .ofResult (Sgr.strip src capacity) m

/-- The operation on a text argument, within a capacity. -/
def onText (op : TargetOperation) (text capacity : Value) (m : Mode) : Outcome Value :=
  match op with
  | .convert action => Markup.convertValue action text capacity m
  | .stripSequences => .ofResult (Sgr.stripValue text capacity) m

/-- What the operation makes of bytes, with nothing in its way. -/
def product (op : TargetOperation) (src : Bytes) (m : Mode) : Markup.Conversion :=
  match op with
  | .convert action => Markup.conversion action src m
  | .stripSequences => ⟨Sgr.remove UInt8.toNat src, m, []⟩

theorem onText_eq (op : TargetOperation) {text : Value} {src : Bytes}
    (h : text.source "text" = .ok src) (capacity : Value) (m : Mode) :
    op.onText text capacity m = (op.onBytes src capacity m).map text.answer := by
  cases op with
  | convert action => simp [onText, onBytes, Markup.convertValue_eq, h]
  | stripSequences => simp [onText, onBytes, Sgr.stripValue_eq h, Outcome.ofResult, Outcome.map]

theorem onBytes_unlimited (op : TargetOperation) (src : Bytes) (m : Mode) :
    op.onBytes src .none m = (op.product src m).outcome := by
  cases op with
  | convert action => exact Markup.convert_unlimited action src m
  | stripSequences =>
    simp only [onBytes, Sgr.strip_unlimited]
    rfl

/-- Without a capacity a text argument that can be read is answered. -/
theorem onText_unlimited (op : TargetOperation) {text : Value} {src : Bytes}
    (h : text.source "text" = .ok src) (m : Mode) :
    op.onText text .none m = (op.product src m).outcome.map text.answer := by
  rw [onText_eq op h, onBytes_unlimited]

/-- Within a whole capacity an operation has its product, if source and product are
shorter than the capacity, and is refused for the capacity otherwise. -/
theorem onBytes_limited (op : TargetOperation) (src : Bytes) {capacity : Value} {c : Int}
    (h : capacity.asInt? = some c) (m : Mode) :
    ((src.length : Int) < c ∧ ((op.product src m).bytes.length : Int) < c ∧
      op.onBytes src capacity m = (op.product src m).outcome) ∨
    (¬ ((src.length : Int) < c ∧ ((op.product src m).bytes.length : Int) < c) ∧ ∃ cause,
      (op.onBytes src capacity m).result = .error (.capacity cause) ∧ cause.Refuses c) := by
  cases op with
  | convert action => exact Markup.convert_limited action src h m
  | stripSequences =>
    obtain ⟨hlen, hout, h1⟩ | ⟨hnot, cause, h1, hcause⟩ := Sgr.strip_limited src h
    · exact .inl ⟨hlen, hout, by rw [onBytes, h1]; rfl⟩
    · exact .inr ⟨hnot, cause, h1, hcause⟩

/-- Only replacing tags can make a text longer. -/
theorem product_length {op : TargetOperation} (hop : op ≠ .convert .replace) (src : Bytes) (m : Mode) :
    (op.product src m).bytes.length ≤ src.length := by
  cases op with
  | convert action =>
    cases action with
    | replace => exact absurd rfl hop
    | remove => exact Markup.conversion_remove_length src m
  | stripSequences => exact (Sgr.remove_sublist UInt8.toNat src).length_le

/-- A whole capacity only guards an operation on a text argument. It does without a
capacity what it does within one that is greater than the lengths of the source and of
the result; unless tags are replaced, one greater than the length of the source is. -/
theorem capacity_guards (op : TargetOperation) {text capacity : Value} {src : Bytes} {c : Int}
    (hsrc : text.source "text" = .ok src) (hc : capacity.asInt? = some c) (m : Mode) :
    ∃ v out, (op.onText text .none m).result = .ok v ∧ v.written? = some out ∧
      GuardedBy c src.length out.length (op.onText text .none m) (op.onText text capacity m) ∧
      (op ≠ .convert .replace → ((∃ w, (op.onText text capacity m).result = .ok w) ↔
        (src.length : Int) < c)) := by
  have hfree := op.onText_unlimited hsrc m
  have hguard : GuardedBy c src.length (op.product src m).bytes.length (op.onText text .none m)
      (op.onText text capacity m) := by
    refine .of_cases ⟨text.answer (op.product src m).bytes, by rw [hfree]; rfl⟩ ?_
    obtain ⟨hlen, hout, h⟩ | ⟨hnot, cause, h, hcause⟩ := op.onBytes_limited src hc m
    · exact .inl ⟨hlen, hout, by rw [hfree, onText_eq op hsrc, h]⟩
    · refine .inr ⟨hnot, cause, ?_, hcause⟩
      rw [onText_eq op hsrc]
      simp [Outcome.map, h, Except.map]
  refine ⟨text.answer (op.product src m).bytes, (op.product src m).bytes, by rw [hfree]; rfl,
    Value.written?_answer hsrc _, hguard, fun hop => ?_⟩
  have hlen := product_length hop src m
  rw [hguard.succeeds_iff]
  omega

/-- The text `[a]`, with a capacity of four. -/
theorem capacity_guards_brackets :
    let text : Value := .bytes .constant [0x5B, 0x61, 0x5D]
    text.source "text" = .ok [0x5B, 0x61, 0x5D] ∧ (Value.int 4).asInt? = some 4 ∧
    ∃ v out, (onText (.convert .replace) text .none .initial).result = .ok v ∧
      v.written? = some out ∧
      GuardedBy 4 ([0x5B, 0x61, 0x5D] : Bytes).length out.length
        (onText (.convert .replace) text .none .initial)
        (onText (.convert .replace) text (.int 4) .initial) := by
  intro text
  have hsrc : text.source "text" = .ok [0x5B, 0x61, 0x5D] := rfl
  have hc : (Value.int 4).asInt? = some 4 := rfl
  obtain ⟨v, out, hv, hout, hguard, -⟩ := capacity_guards (.convert .replace) hsrc hc .initial
  exact ⟨hsrc, hc, v, out, hv, hout, hguard⟩

end TargetOperation
end ColorMarkup
