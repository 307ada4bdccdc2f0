import ColorMarkup.Proofs.Escape.Characters
import ColorMarkup.Proofs.Escape.WellFormed
/-!
# What is written for a body

Every body that means something is written without a refusal, at every depth and in both
directions: as no text if it changes the mode, as a single `ESC` if it is the literal, and
otherwise as one whole sequence of bytes, or not at all. Three channels are written as they are,
or as the one entry of the palette or the one code that they are reduced to; a single number is
written as it is, but at 24 bits not at all.

Results:
* `Escape.isWhole_of_isSequence`: a sequence of bytes is matched from its first to its last
  character.
* `NumberTag.escape?_of_color`: what three channels are written as.
* `Meaning.ofValue?_written`: what any body is written as.
-/
namespace ColorMarkup

namespace Escape

/-- The text is one sequence from its first to its last character, with parameters that are
bytes. -/
def IsWhole (t : Text) : Prop :=
  Sgr.match? Fin.val t = some t.length ∧
    ∃ params, t = (sequenceBytes params).toText ∧ params ≠ [] ∧ ∀ p ∈ params, 0 ≤ p ∧ p ≤ 255

theorem match?_sequence {params : List Int} (h : ∀ p ∈ params, 0 ≤ p) :
    Sgr.match? Fin.val (sequence params).text = some (sequence params).text.length := by
  have hbytes := match?_sequenceBytes h []
  rw [List.append_nil] at hbytes
  rw [← Sgr.match?_encode (encode_sequence h).1, bytes, hbytes, text, Bytes.toText, List.length_map]

theorem isWhole_of_isSequence {e : Escape} (h : e.IsSequence) : IsWhole e.text := by
  obtain ⟨params, rfl, hne, hp⟩ := h
  exact ⟨match?_sequence fun p hmem => (hp p hmem).1, params, rfl, hne, hp⟩

theorem IsWhole.ne {t : Text} (h : IsWhole t) : t ≠ [] ∧ t ≠ [0x1B] := by
  have hlen := (Sgr.match?_le_length Fin.val h.1).1
  constructor <;> (rintro rfl; simp at hlen)

end Escape

namespace NumberTag

/-- Three channels as parameters: as they are, or as the entry or the code they are
reduced to. A code is greater by ten for the background. -/
theorem escape?_of_color {c : Color} (h : c.Valid) (n : Int) :
    let tag : NumberTag := ⟨n, some c⟩
    (∀ d, tag.escape? .twentyFour d =
      .ok (some (.sequence [Escape.selector d, 2, c.red, c.green, c.blue]))) ∧
    (∃ i, (if c.red = c.green ∧ c.green = c.blue then 232 ≤ i ∧ i ≤ 255 else 16 ≤ i ∧ i ≤ 231) ∧
      ∀ d, tag.escape? .eight d = .ok (some (.sequence [Escape.selector d, 5, i]))) ∧
    (∃ k, Color.IsCode k ∧ tag.escape? .four .foreground = .ok (some (.sequence [k])) ∧
      tag.escape? .four .background = .ok (some (.sequence [k + 10]))) := by
  refine ⟨fun d => rfl, ⟨c.nearestIndex, ?_, fun d => rfl⟩, ?_⟩
  · split
    · next hgray => exact Color.nearestIndex_ramp h hgray
    · next hgray => exact Color.nearestIndex_cube h hgray
  · obtain ⟨k, hk, hcode⟩ := Color.code_isCode h
    refine ⟨k, hcode, ?_, ?_⟩ <;>
      simp [escape?, hk, Except.map, Escape.ofCode, backgroundOffset]

end NumberTag

namespace Vocabulary

/-- An entry that changes the mode is no literal. -/
theorem literal_of_changesMode : ∀ e ∈ entries, e.changesMode = true → e.literal = none := by
  decide +kernel

end Vocabulary

namespace Meaning

theorem eq_entry_of_modeChange? {meaning : Meaning} {e : Entry} (h : meaning.modeChange? = some e) :
    meaning = .entry e ∧ e.changesMode = true := by
  cases meaning with
  | entry e' =>
    rw [modeChange?, Option.ite_none_right_eq_some] at h
    obtain ⟨hc, he⟩ := h
    obtain rfl := Option.some.inj he
    exact ⟨rfl, hc⟩
  | numeric n => cases h

/-- What any body means is written as no text, as an `ESC`, as one whole sequence, or not at
all. The first two are what a change of the mode and a literal are written as, and nothing else. -/
theorem build_text {meaning : Meaning} (h : meaning.Valid) (depth : Depth) (d : Direction) :
    ∃ r, meaning.build depth d = .ok r ∧
      (∀ e ∈ r, e.text = [] ∨ e.text = [0x1B] ∨ Escape.IsWhole e.text) ∧
      (r.map Escape.text = some [] ↔ meaning.modeChange?.isSome = true) ∧
      (r.map Escape.text = some [0x1B] ↔ meaning.isFixed = true) := by
  cases hc : meaning.modeChange? with
  | some e =>
    obtain ⟨rfl, he⟩ := eq_entry_of_modeChange? hc
    have hliteral := Vocabulary.literal_of_changesMode e h he
    exact ⟨_, build_of_changesMode e he depth d, by simp [Escape.text], by simp [Escape.text],
      by simp [Escape.text, isFixed, hliteral]⟩
  | none =>
    obtain ⟨hbuild, hfixed⟩ | ⟨hfixed, hbuild | ⟨e, hbuild, hsequence⟩⟩ := build_cases h hc depth d
    · exact ⟨_, hbuild, by simp [Escape.text], by simp [Escape.text], by simp [Escape.text, hfixed]⟩
    · exact ⟨_, hbuild, by simp, by simp, by simp [hfixed]⟩
    · have hwhole := Escape.isWhole_of_isSequence hsequence
      obtain ⟨hne, hesc⟩ := hwhole.ne
      exact ⟨_, hbuild, by simp [hwhole], by simp [hne], by simp [hesc, hfixed]⟩

/-- Every body that can be read as a name or a number is written, at every depth and in both
directions, as no text exactly if it changes the mode, as an `ESC` exactly if it is the literal,
and otherwise as one whole sequence of bytes or not at all. A single number is not written
exactly at 24 bits. Three channels are written as themselves at 24 bits, as an entry of the gray
ramp or of the color cube at 8, and at 4 as one of the 16 codes, which is greater by ten for
the background. -/
theorem ofValue?_written {v : Value} {meaning : Meaning} (h : ofValue? v = .ok (some meaning)) :
    (∀ depth d, ∃ r, meaning.build depth d = .ok r ∧
      (∀ e ∈ r, e.text = [] ∨ e.text = [0x1B] ∨ Escape.IsWhole e.text) ∧
      (r.map Escape.text = some [] ↔ meaning.modeChange?.isSome = true) ∧
      (r.map Escape.text = some [0x1B] ↔ meaning.isFixed = true)) ∧
    (∀ n, meaning = .numeric ⟨n, none⟩ → ∀ depth d, meaning.build depth d = .ok none ↔
      depth = .twentyFour) ∧
    (∀ n c, meaning = .numeric ⟨n, some c⟩ →
      (∀ d, meaning.build .twentyFour d =
        .ok (some (.sequence [Escape.selector d, 2, c.red, c.green, c.blue]))) ∧
      (∃ i, (if c.red = c.green ∧ c.green = c.blue then 232 ≤ i ∧ i ≤ 255 else 16 ≤ i ∧ i ≤ 231) ∧
        ∀ d, meaning.build .eight d = .ok (some (.sequence [Escape.selector d, 5, i]))) ∧
      (∃ k, Color.IsCode k ∧ meaning.build .four .foreground = .ok (some (.sequence [k])) ∧
        meaning.build .four .background = .ok (some (.sequence [k + 10])))) := by
  have hvalid := ofValue?_valid h
  refine ⟨build_text hvalid, ?_, ?_⟩
  · rintro n rfl depth d
    exact (NumberTag.escape?_none_iff _ depth d).trans (and_iff_right rfl)
  · rintro n c rfl
    exact NumberTag.escape?_of_color hvalid n

/-- The bytes of `0xFF.010:-0` are three channels. -/
theorem ofValue?_written_channels :
    let v : Value := .bytes .constant [0x30, 0x78, 0x46, 0x46, 0x2E, 0x30, 0x31, 0x30, 0x3A, 0x2D, 0x30]
    let meaning : Meaning := .numeric ⟨0xFF0800, some ⟨255, 8, 0⟩⟩
    ofValue? v = .ok (some meaning) ∧
    (∃ i, 16 ≤ i ∧ i ≤ 231 ∧
      ∀ d, meaning.build .eight d = .ok (some (.sequence [Escape.selector d, 5, i]))) ∧
    ∃ k, Color.IsCode k ∧ meaning.build .four .foreground = .ok (some (.sequence [k])) ∧
      meaning.build .four .background = .ok (some (.sequence [k + 10])) := by
  intro v meaning
  have h : ofValue? v = .ok (some meaning) := by
    rw [ofValue?_bytes, Except.ok.injEq]
    decide +kernel
  obtain ⟨-, ⟨i, hi, height⟩, hfour⟩ := (ofValue?_written h).2.2 _ _ rfl
  exact ⟨h, ⟨i, hi.1, hi.2, height⟩, hfour⟩

end Meaning
end ColorMarkup
