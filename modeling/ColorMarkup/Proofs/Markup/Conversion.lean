import ColorMarkup.Proofs.Escape.WellFormed
import ColorMarkup.Proofs.Markup.Place
import ColorMarkup.Proofs.Sink
import ColorMarkup.Markup.Convert
/-!
# What a conversion produces

The conversion of a text is determined by its bracketed bodies, one after the other:
a body is replaced, or it changes the mode, or it is kept. What it produces with
unlimited room is written down here without any sink; a limited sink takes that
product as a whole or refuses it.

Results:
* `Occurrence.process_eq`: what one occurrence does to a sink and to the mode.
* `convertFrom_has`: a conversion into a sink gives the product if it stays below the
  limit, and is refused as too small otherwise.
-/
namespace ColorMarkup.Markup

/-- What stands in the result for a bracketed body under a mode, and the mode after it.
A body that is kept has neither. -/
def replacement? (action : Action) (body : Bytes) (m : Mode) : Option (Bytes × Mode) :=
  if body.length ≤ 14 then
    match Meaning.ofBody? body with
    | none => none
    | some meaning =>
      match meaning.modeChange? with
      | some e => some ([], Meaning.applyChange e m)
      | none =>
        match meaning.build m.depth m.direction with
        | .ok (some e) => some (if action = .replace ∨ meaning.isFixed then e.bytes else [], m)
        | _ => none
  else none

/-- The product of a conversion: its bytes, the mode it leaves, and the places of the
bodies it keeps. -/
structure Conversion where
  bytes : Bytes
  mode : Mode
  kept : List Place
  deriving DecidableEq, Repr

namespace Conversion

/-- One product after another. -/
def append (c d : Conversion) : Conversion := ⟨c.bytes ++ d.bytes, d.mode, c.kept ++ d.kept⟩

/-- One notice for each kept body. -/
def notices (c : Conversion) : List Notice := c.kept.map fun p => .unresolvedTag p.body p.offset

/-- The outcome of a conversion with nothing in its way. -/
def outcome (c : Conversion) : Outcome Bytes := ⟨.ok c.bytes, c.mode, c.notices⟩

end Conversion

/-- The product of one occurrence that starts at an offset. -/
def Occurrence.product (o : Occurrence) (action : Action) (start : Nat) (m : Mode) : Conversion :=
  match replacement? action o.body m with
  | some (data, m') => ⟨o.before ++ data, m', []⟩
  | none => ⟨o.source, m, [⟨start + o.before.length, o.body⟩]⟩

/-- The product of occurrences that start at an offset, and a tail. -/
def conversionFrom (action : Action) (tail : Bytes) : List Occurrence → Nat → Mode → Conversion
  | [], _, m => ⟨tail, m, []⟩
  | o :: rest, start, m =>
    let c := o.product action start m
    c.append (conversionFrom action tail rest (start + o.source.length) c.mode)

/-- The product of a text. -/
def conversion (action : Action) (src : Bytes) (m : Mode) : Conversion :=
  conversionFrom action (scan src).tail (scan src).occurrences 0 m

namespace Occurrence

/-- What a tag appends: the text before it, and its data if there is any. -/
def appendTag (o : Occurrence) (data : Bytes) (out : Sink) : Except Error Sink :=
  match out.append o.before with
  | .error e => .error e
  | .ok out => if data.isEmpty then .ok out else out.append data

theorem expand_eq (o : Occurrence) (action : Action) (meaning : Meaning) (e : Escape) (out : Sink) :
    o.expand action meaning e out =
      o.appendTag (if action = .replace ∨ meaning.isFixed then e.bytes else []) out := by
  unfold expand appendTag isWritten
  cases out.append o.before with
  | error _ => rfl
  | ok out =>
    by_cases ha : action = .replace ∨ meaning.isFixed = true
    · have hb : (action == .replace || meaning.isFixed) = true := by simpa using ha
      rw [if_pos ha]
      cases he : e.bytes <;> simp [hb]
    · have hb : (action == .replace || meaning.isFixed) = false := by simpa using ha
      simp [if_neg ha, hb]

/-- One occurrence: a tag is appended in the mode it leaves, any other body is kept. -/
theorem process_eq (o : Occurrence) (action : Action) (offset : Nat) (out : Sink) (m : Mode) :
    o.process action offset out m =
      match replacement? action o.body m with
      | some (data, m') => ⟨o.appendTag data out, m', []⟩
      | none => o.keep offset out m := by
  by_cases hlen : o.body.length ≤ 14
  · have hmeaning : o.meaning? = Meaning.ofBody? o.body := if_pos hlen
    simp only [process, hmeaning, replacement?, if_pos hlen]
    cases hb : Meaning.ofBody? o.body with
    | none => rfl
    | some meaning =>
      cases hc : meaning.modeChange? with
      | some e => simp [Meaning.perform, hc, expand_eq, Escape.bytes]
      | none =>
        obtain ⟨hbuild, -⟩ | ⟨-, hbuild | ⟨e, hbuild, -⟩⟩ :=
          Meaning.build_cases (Meaning.ofBody?_valid hb) hc m.depth m.direction <;>
          simp [Meaning.perform, hc, hbuild, Outcome.ofResult, expand_eq]
  · have hmeaning : o.meaning? = none := if_neg hlen
    simp [process, hmeaning, replacement?, hlen]

/-- What a tag appends goes in as a whole, or one of its parts is refused. -/
theorem appendTag_has {out : Sink} {content : Bytes} {limit : Option Int}
    (h : out.Has content limit) (o : Occurrence) (data : Bytes) :
    (∃ out', o.appendTag data out = .ok out' ∧ Within limit (o.before ++ data).length ∧
      out'.Has (content ++ (o.before ++ data)) (limit.map (· - ((o.before ++ data).length : Int)))) ∨
    (∃ cause, o.appendTag data out = .error (.capacity cause) ∧ cause.isTooSmall = true ∧
      ¬ Within limit (o.before ++ data).length) := by
  unfold appendTag
  obtain ⟨out1, h1, hw, hhas⟩ | ⟨cause, h1, hsmall, hnot⟩ := h.append o.before
  · rw [h1]
    cases data with
    | nil => exact .inl ⟨out1, rfl, by simpa using hw, by simpa using hhas⟩
    | cons c data =>
      obtain ⟨out2, h2, hw2, hhas2⟩ | ⟨cause, h2, hsmall, hnot⟩ := hhas.append (c :: data)
      · refine .inl ⟨out2, h2, ?_, ?_⟩
        · rwa [within_add, ← List.length_append] at hw2
        · rw [lower_lower, ← List.length_append] at hhas2
          rwa [← List.append_assoc]
      · refine .inr ⟨cause, h2, hsmall, fun hw => hnot ?_⟩
        rwa [within_add, ← List.length_append]
  · refine .inr ⟨cause, by rw [h1], hsmall, fun hw => hnot (hw.mono ?_)⟩
    simp

/-- One occurrence into a sink: whether or not its product goes in, its mode is left and
its notices are given. -/
theorem process_has {out : Sink} {content : Bytes} {limit : Option Int}
    (h : out.Has content limit) (o : Occurrence) (action : Action) (start : Nat) (m : Mode) :
    let c := o.product action start m
    (∃ out', o.process action (start + o.before.length) out m = ⟨.ok out', c.mode, c.notices⟩ ∧
      Within limit c.bytes.length ∧
      out'.Has (content ++ c.bytes) (limit.map (· - (c.bytes.length : Int)))) ∨
    (∃ cause, o.process action (start + o.before.length) out m =
        ⟨.error (.capacity cause), c.mode, c.notices⟩ ∧
      cause.isTooSmall = true ∧ ¬ Within limit c.bytes.length) := by
  simp only [process_eq, product]
  cases replacement? action o.body m with
  | some r =>
    obtain ⟨out', h1, hw, hhas⟩ | ⟨cause, h1, hsmall, hnot⟩ := o.appendTag_has h r.1
    · exact .inl ⟨out', by simp [h1, Conversion.notices], hw, hhas⟩
    · exact .inr ⟨cause, by simp [h1, Conversion.notices], hsmall, hnot⟩
  | none =>
    obtain ⟨out', h1, hw, hhas⟩ | ⟨cause, h1, hsmall, hnot⟩ := h.append o.source
    · exact .inl ⟨out', by simp [keep, h1, Conversion.notices], hw, hhas⟩
    · exact .inr ⟨cause, by simp [keep, h1, Conversion.notices], hsmall, hnot⟩

end Occurrence

/-- A conversion into a sink adds its product and leaves the mode of the product, or is
refused because the product reaches the limit. -/
theorem convertFrom_has (action : Action) (tail : Bytes) (os : List Occurrence) (start : Nat)
    {out : Sink} {content : Bytes} {limit : Option Int} (h : out.Has content limit) (m : Mode) :
    let c := conversionFrom action tail os start m
    (convertFrom action tail os start out m = ⟨.ok (content ++ c.bytes), c.mode, c.notices⟩ ∧
      Within limit c.bytes.length) ∨
    (∃ cause, (convertFrom action tail os start out m).result = .error (.capacity cause) ∧
      cause.isTooSmall = true ∧ ¬ Within limit c.bytes.length) := by
  -- the limit of the sink left by one occurrence is the limit for the rest
  induction os generalizing start out content limit m with
  | nil =>
    simp only [convertFrom, conversionFrom]
    obtain ⟨out', h1, hw, hhas⟩ | ⟨cause, h1, hsmall, hnot⟩ := h.append tail
    · exact .inl ⟨by simp [h1, Outcome.ofResult, Except.map, Conversion.notices, hhas.1], hw⟩
    · exact .inr ⟨cause, by simp [h1, Outcome.ofResult, Except.map], hsmall, hnot⟩
  | cons o os ih =>
    simp only [convertFrom, conversionFrom, Conversion.append, List.length_append]
    obtain ⟨out', h1, -, hhas⟩ | ⟨cause, h1, hsmall, hnot⟩ := o.process_has h action start m
    · rw [h1]
      obtain ⟨h2, hw⟩ | ⟨cause, h2, hsmall, hnot⟩ :=
        ih (start + o.source.length) hhas (o.product action start m).mode
      · rw [within_add] at hw
        exact .inl ⟨by simp [Outcome.andThen, h2, Conversion.notices], hw⟩
      · rw [within_add] at hnot
        exact .inr ⟨cause, by simp [Outcome.andThen, h2], hsmall, hnot⟩
    · refine .inr ⟨cause, by simp [Outcome.andThen, h1], hsmall, fun hw => hnot (hw.mono ?_)⟩
      exact Nat.le_add_right _ _

/-- If every body is kept, the product is the text, and the mode stays. -/
theorem conversionFrom_of_kept {action : Action} {os : List Occurrence} {m : Mode}
    (h : ∀ o ∈ os, replacement? action o.body m = none) (tail : Bytes) (start : Nat) :
    (conversionFrom action tail os start m).bytes = os.flatMap Occurrence.source ++ tail ∧
      (conversionFrom action tail os start m).mode = m := by
  induction os generalizing start with
  | nil => exact ⟨rfl, rfl⟩
  | cons o os ih =>
    obtain ⟨ho, hos⟩ := List.forall_mem_cons.1 h
    obtain ⟨hbytes, hmode⟩ := ih hos (start + o.source.length)
    simp only [conversionFrom, Conversion.append, Occurrence.product, ho]
    exact ⟨by rw [hbytes, List.flatMap_cons, List.append_assoc], hmode⟩

theorem conversion_of_kept {action : Action} {src : Bytes} {m : Mode}
    (h : ∀ o ∈ (scan src).occurrences, replacement? action o.body m = none) :
    (conversion action src m).bytes = src ∧ (conversion action src m).mode = m := by
  obtain ⟨hbytes, hmode⟩ := conversionFrom_of_kept h (scan src).tail 0
  exact ⟨hbytes.trans (join_scan src), hmode⟩

/-- Without a capacity a conversion gives its product. -/
theorem convert_unlimited (action : Action) (src : Bytes) (m : Mode) :
    convert action src .none m = (conversion action src m).outcome := by
  obtain ⟨h, -⟩ | ⟨_, -, -, hnot⟩ := convertFrom_has action (scan src).tail (scan src).occurrences 0
    Sink.has_unlimited m
  · exact h
  · exact absurd (within_none _) hnot

end ColorMarkup.Markup
