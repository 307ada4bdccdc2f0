import ColorMarkup.Proofs.Text.Utf8
import ColorMarkup.Source
import Mathlib.Data.List.TakeWhile
/-!
# Reading an answer back

An operation answers with a text or with bytes, in the kind of its argument. The bytes
of the answer are the ones that were computed, and reading the answer as a source
gives them again, unless a zero byte in them ends it early.

Results:
* `written?_answer`: the bytes of an answer are the result it was made of.
* `source_answer`: an answer without new zero bytes is read back whole.
* `mem_codes_of_written?`, `forall_ne_of_codes_answer`: an ASCII number that is not in an
  answer is not in the result either.
-/
namespace ColorMarkup

theorem Bytes.untilNul_eq_self {b : Bytes} (h : ∀ x ∈ b, x ≠ 0) : b.untilNul = b :=
  List.takeWhile_eq_self_iff.2 (by simpa using h)

namespace Value

/-- All bytes of a text or of bytes. -/
def written? : Value → Option Bytes
  | text t => Utf8.encode t
  | bytes _ b => some b
  | _ => Option.none

/-- The numbers of a text's code points or of bytes. -/
def codes : Value → List Nat
  | text t => t.map Fin.val
  | bytes _ b => b.map UInt8.toNat
  | _ => []

/-- A value that can be read is a text or bytes. -/
theorem source_eq_ok {argument : String} {v : Value} {src : Bytes} (h : v.source argument = .ok src) :
    (∃ t, v = text t ∧ Utf8.encode t = some src) ∨
    (∃ holder b, v = bytes holder b ∧ b.untilNul = src) := by
  unfold source sourceNamed at h
  split at h
  · next t =>
    cases he : Utf8.encode t with
    | none => simp [he] at h
    | some b =>
      simp only [he, Except.ok.injEq] at h
      exact .inl ⟨t, rfl, h ▸ he⟩
  · next holder b => exact .inr ⟨holder, b, rfl, by simpa using h⟩
  · cases h

/-- What a refusal calls the value matters for nothing else. -/
theorem source_argument {argument : String} {v : Value} {src : Bytes}
    (h : v.source argument = .ok src) (argument' : String) : v.source argument' = .ok src := by
  obtain ⟨t, rfl, ht⟩ | ⟨holder, b, rfl, rfl⟩ := source_eq_ok h
  · simp [source, sourceNamed, ht]
  · rfl

/-- A value is refused as a source for its type, or as a text that no bytes stand for. -/
theorem source_error {argument : String} {v : Value} {e : Error} (h : v.source argument = .error e) :
    e = .wrongType (Text.ofString argument) v.typeName ∨ e = .unencodable := by
  unfold source sourceNamed at h
  split at h
  · split at h
    · cases h
    · cases h; exact .inr rfl
  · cases h
  · cases h; exact .inl rfl

theorem written?_answer {argument : String} {v : Value} {src : Bytes}
    (h : v.source argument = .ok src) (result : Bytes) :
    (v.answer result).written? = some result := by
  obtain ⟨t, rfl, -⟩ | ⟨holder, b, rfl, -⟩ := source_eq_ok h
  · exact Utf8.encode_decode result
  · rfl

theorem answer_answer (v : Value) (r r' : Bytes) : (v.answer r).answer r' = v.answer r' := by
  cases v <;> rfl

/-- An answer is read back whole, if it has a zero byte only where the source has one. -/
theorem source_answer {argument : String} {v : Value} {src : Bytes}
    (h : v.source argument = .ok src) {result : Bytes}
    (hzero : (∀ b ∈ src, b ≠ 0) → ∀ b ∈ result, b ≠ 0) (argument' : String) :
    (v.answer result).source argument' = .ok result := by
  obtain ⟨t, rfl, -⟩ | ⟨holder, b, rfl, rfl⟩ := source_eq_ok h
  · simp [answer, source, sourceNamed, Utf8.encode_decode]
  · have hresult := hzero (Bytes.untilNul_no_nul b)
    simp [answer, source, sourceNamed, Bytes.untilNul_eq_self hresult]

/-- An ASCII byte of a text or of bytes is one of its numbers. -/
theorem mem_codes_of_written? {v : Value} {b : Bytes} (h : v.written? = some b) {x : UInt8} (hx : x ∈ b)
    (hlow : x.toNat < 0x80) : x.toNat ∈ v.codes := by
  cases v with
  | text t =>
    obtain ⟨c, hc, hv⟩ := Utf8.mem_of_mem_encode h hx hlow
    exact List.mem_map.2 ⟨c, hc, hv⟩
  | bytes holder b' =>
    obtain rfl : b' = b := Option.some.inj h
    exact List.mem_map_of_mem hx
  | _ => cases h

/-- An ASCII number that is not in an answer is not in the result it was made of. -/
theorem forall_ne_of_codes_answer {argument : String} {v : Value} {src : Bytes}
    (h : v.source argument = .ok src) {result : Bytes} {n : Nat} (hlow : n < 0x80)
    (hcodes : n ∉ (v.answer result).codes) : ∀ b ∈ result, b.toNat ≠ n := by
  rintro b hb rfl
  exact hcodes (mem_codes_of_written? (written?_answer h result) hb hlow)

end Value
end ColorMarkup
