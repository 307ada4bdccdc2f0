import ColorMarkup.Proofs.Capacity
import ColorMarkup.Proofs.Text.Character
/-!
# Texts and their bytes are worked on alike

A text is worked on as the bytes that encode it. Every byte string is read back from its
text, and every text without surrogates from its bytes; so an operation on a text is the
operation on its bytes, with the answer read as a text, and it is refused alike.

Results:
* `Value.source_text_error_iff`: what a text is refused for.
* `TargetOperation.onText_reads`: an operation on a text and on its bytes.
* `TargetOperation.text_codec`: both, and the two directions of the codec.
-/
namespace ColorMarkup

/-- One outcome is the other with its answer, a text, read as bytes; both are refused for the
same reason, leave the same mode and report the same. -/
structure Outcome.ReadsAs (onText onBytes : Outcome Value) : Prop where
  ok : ∀ v, onText.result = .ok v → ∃ b, v.source "text" = .ok b ∧
    onBytes.result = .ok (.bytes .constant b)
  error : ∀ e, onText.result = .error e ↔ onBytes.result = .error e
  mode : onText.mode = onBytes.mode
  notices : onText.notices = onBytes.notices

namespace Value

theorem source_text_eq_ok_iff (argument : String) (t : Text) (b : Bytes) :
    (text t).source argument = .ok b ↔ Utf8.encode t = some b := by
  cases h : Utf8.encode t <;> simp [source, sourceNamed, h]

/-- A text is refused exactly for a surrogate that stands for no byte, whatever a refusal
calls it. -/
theorem source_text_error_iff (argument : String) (t : Text) :
    (text t).source argument = .error .unencodable ↔
      ∃ c ∈ t, c.isSurrogate = true ∧ c.isEscapedByte = false := by
  have hsome := Utf8.encode_isSome_iff t
  cases h : Utf8.encode t with
  | none =>
    rw [h] at hsome
    simp only [source, sourceNamed, h, true_iff]
    simpa using hsome
  | some b =>
    rw [h] at hsome
    simp only [source, sourceNamed, h, reduceCtorEq, false_iff]
    rintro ⟨c, hc, hs, he⟩
    have := hsome.1 rfl c hc hs
    rw [he] at this
    cases this

end Value

namespace Utf8

/-- A text without zero characters is encoded without zero bytes. -/
theorem encode_ne_zero {t : Text} {b : Bytes} (h : encode t = some b) (hz : ∀ c ∈ t, c.val ≠ 0) :
    ∀ x ∈ b, x ≠ 0 := by
  rintro x hx rfl
  obtain ⟨c, hc, hv⟩ := mem_of_mem_encode h hx (by decide)
  exact hz c hc hv

end Utf8

namespace TargetOperation

/-- An operation on a text is the operation on its bytes. -/
theorem onText_reads (op : TargetOperation) {t : Text} {b : Bytes} (h : Utf8.encode t = some b)
    (hz : ∀ c ∈ t, c.val ≠ 0) (holder : Holder) (capacity : Value) (m : Mode) :
    (op.onText (.text t) capacity m).ReadsAs (op.onText (.bytes holder b) capacity m) := by
  have htext := (Value.source_text_eq_ok_iff "text" t b).2 h
  have hbytes : (Value.bytes holder b).source "text" = .ok b := by
    rw [Value.source_bytes, Bytes.untilNul_eq_self (Utf8.encode_ne_zero h hz)]
  rw [onText_eq op htext, onText_eq op hbytes]
  -- both answer what the operation makes of the bytes
  cases hr : (op.onBytes b capacity m).result with
  | ok r =>
    refine ⟨fun v hv => ⟨r, ?_, ?_⟩, fun e => ?_, rfl, rfl⟩
    · simp only [Outcome.map, hr, Except.map, Except.ok.injEq] at hv
      rw [← hv, Value.answer, Value.source_text_eq_ok_iff, Utf8.encode_decode]
    · simp [Outcome.map, hr, Except.map, Value.answer]
    · simp [Outcome.map, hr, Except.map]
  | error e => exact ⟨by simp [Outcome.map, hr, Except.map], by simp [Outcome.map, hr, Except.map], rfl, rfl⟩

/-- Every byte string is read back from its text, and every text without surrogates from its
bytes; a text cannot be read exactly if it holds a surrogate that stands for no byte. So an
operation on a text without zero characters is the operation on its bytes, with the answer
read as a text, under every mode and capacity, and is refused alike. -/
theorem text_codec :
    (∀ (b : Bytes) argument, (Value.text (Utf8.decode b)).source argument = .ok b) ∧
    (∀ (t : Text) argument, t.hasSurrogate = false →
      ∃ b, (Value.text t).source argument = .ok b ∧ Utf8.decode b = t) ∧
    (∀ (t : Text) argument, (Value.text t).source argument = .error .unencodable ↔
      ∃ c ∈ t, c.isSurrogate = true ∧ c.isEscapedByte = false) ∧
    (∀ (op : TargetOperation) (t : Text) (b : Bytes) (holder : Holder) (capacity : Value) (m : Mode),
      (Value.text t).source "text" = .ok b → (∀ c ∈ t, c.val ≠ 0) →
      (op.onText (.text t) capacity m).ReadsAs (op.onText (.bytes holder b) capacity m)) := by
  refine ⟨fun b argument => ?_, fun t argument hs => ?_, fun t argument => ?_, ?_⟩
  · rw [Value.source_text_eq_ok_iff, Utf8.encode_decode]
  · obtain ⟨b, hb⟩ := Utf8.exists_encode hs
    exact ⟨b, (Value.source_text_eq_ok_iff argument t b).2 hb, Utf8.decode_encode hs hb⟩
  · exact Value.source_text_error_iff argument t
  · intro op t b holder capacity m hsrc hz
    exact onText_reads op ((Value.source_text_eq_ok_iff "text" t b).1 hsrc) hz holder capacity m

/-- The text `é[bg]` and a surrogate that stands for the byte `0xFF`, with a capacity that
it fits. -/
theorem text_codec_escaped :
    let t : Text := [0xE9, 0x5B, 0x62, 0x67, 0x5D, 0xDCFF]
    let b : Bytes := [0xC3, 0xA9, 0x5B, 0x62, 0x67, 0x5D, 0xFF]
    ((Value.text t).source "text" = .ok b ∧ ∀ c ∈ t, c.val ≠ 0) ∧
    (onText (.convert .replace) (.text t) (.int 8) .initial).ReadsAs
      (onText (.convert .replace) (.bytes .constant b) (.int 8) .initial) := by
  intro t b
  have hsrc : (Value.text t).source "text" = .ok b :=
    (Value.source_text_eq_ok_iff "text" t b).2 (by decide +kernel)
  have hz : ∀ c ∈ t, c.val ≠ 0 := by simp [t]
  exact ⟨⟨hsrc, hz⟩, text_codec.2.2.2 _ _ _ _ _ _ hsrc hz⟩

end TargetOperation
end ColorMarkup
