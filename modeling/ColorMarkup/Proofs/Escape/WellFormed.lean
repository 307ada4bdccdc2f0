import ColorMarkup.Escape.Basic
import ColorMarkup.Proofs.Color.Number
import Mathlib.Data.Option.Basic
/-!
# Escapes are well formed

What a tag's body means is always written without a refusal: an entry's color
number is in range, and a color's place in the table of codes exists. What comes
out is nothing, the one fixed text of the vocabulary, or a sequence whose parameters
are bytes.

Results:
* `Color.code_isCode`, `Color.nearestIndex_ramp`, `Color.nearestIndex_cube`: the reductions of a
  valid color.
* `Meaning.build_cases`: what any tag's body means is written, at every depth and in
  both directions, in one of these ways.
-/
namespace ColorMarkup

namespace Escape

/-- A sequence with parameters, all of them bytes. -/
def IsSequence (e : Escape) : Prop :=
  ∃ params, e = sequence params ∧ params ≠ [] ∧ ∀ p ∈ params, 0 ≤ p ∧ p ≤ 255

theorem selector_bounds (d : Direction) : 0 ≤ selector d ∧ selector d ≤ 255 := by
  cases d <;> decide

theorem isSequence_ofCode {n : Int} (h : 0 ≤ n ∧ n ≤ 255) : (ofCode n).IsSequence :=
  ⟨_, rfl, by simp, by simpa using h⟩

theorem isSequence_ofIndex (d : Direction) {n : Int} (h : 0 ≤ n ∧ n ≤ 255) :
    (ofIndex d n).IsSequence := by
  refine ⟨_, rfl, by simp, ?_⟩
  simp only [List.forall_mem_cons]
  exact ⟨selector_bounds d, by decide, h, by simp⟩

theorem isSequence_ofColor (d : Direction) {c : Color} (h : c.Valid) : (ofColor d c).IsSequence := by
  refine ⟨_, rfl, by simp, ?_⟩
  simp only [List.forall_mem_cons]
  exact ⟨selector_bounds d, by decide, h.1, h.2.1, h.2.2, by simp⟩

end Escape

/-! ## Reductions of a valid color -/

theorem scaleChannel_bounds {shade n : Int} (h : 0 ≤ shade ∧ shade ≤ 255) (hn : 0 ≤ n) :
    0 ≤ scaleChannel shade n ∧ scaleChannel shade n ≤ n := by
  have hlow : 0 ≤ shade * n := Int.mul_nonneg h.1 hn
  have hhigh : shade * n ≤ 255 * n := Int.mul_le_mul_of_nonneg_right h.2 hn
  unfold scaleChannel
  omega

namespace Color

/-- A gray lies in the ramp. -/
theorem nearestIndex_ramp {c : Color} (h : c.Valid) (hgray : c.red = c.green ∧ c.green = c.blue) :
    232 ≤ c.nearestIndex ∧ c.nearestIndex ≤ 255 := by
  have gray := scaleChannel_bounds h.1 (n := 23) (by decide)
  unfold nearestIndex rampFirst
  rw [if_pos hgray]
  omega

/-- Any other color lies in the cube. -/
theorem nearestIndex_cube {c : Color} (h : c.Valid) (hgray : ¬ (c.red = c.green ∧ c.green = c.blue)) :
    16 ≤ c.nearestIndex ∧ c.nearestIndex ≤ 231 := by
  obtain ⟨hr, hg, hb⟩ := h
  have r := scaleChannel_bounds hr (n := 5) (by decide)
  have g := scaleChannel_bounds hg (n := 5) (by decide)
  have b := scaleChannel_bounds hb (n := 5) (by decide)
  unfold nearestIndex cubeFirst
  rw [if_neg hgray]
  omega

theorem nearestIndex_bounds {c : Color} (h : c.Valid) : 16 ≤ c.nearestIndex ∧ c.nearestIndex ≤ 255 := by
  by_cases hgray : c.red = c.green ∧ c.green = c.blue
  · have := nearestIndex_ramp h hgray
    omega
  · have := nearestIndex_cube h hgray
    omega

theorem levelPlace_bounds {c : Color} (h : c.Valid) : 0 ≤ c.levelPlace ∧ c.levelPlace < 27 := by
  obtain ⟨hr, hg, hb⟩ := h
  have r := scaleChannel_bounds hr (n := 2) (by decide)
  have g := scaleChannel_bounds hg (n := 2) (by decide)
  have b := scaleChannel_bounds hb (n := 2) (by decide)
  unfold levelPlace
  omega

/-- One of the 16 codes for the characters: eight colors, and eight bright ones. -/
def IsCode (n : Int) : Prop := (30 ≤ n ∧ n ≤ 37) ∨ (90 ≤ n ∧ n ≤ 97)

instance (n : Int) : Decidable (IsCode n) := inferInstanceAs (Decidable (_ ∨ _))

theorem levelCodes_isCode : ∀ n ∈ levelCodes, IsCode n := by decide

theorem codeAt_isCode {place : Int} (hlow : 0 ≤ place) (hhigh : place < 27) :
    ∃ n, codeAt place = .ok n ∧ IsCode n := by
  have hlen : place.toNat < levelCodes.length := by
    have : levelCodes.length = 27 := rfl
    omega
  have hentry : entry? levelCodes place = some levelCodes[place.toNat] := by
    rw [ entry?, if_pos hlow, List.getElem?_eq_getElem hlen]
  exact ⟨_, by rw [codeAt, hentry], levelCodes_isCode _ (List.getElem_mem hlen)⟩

/-- The nearest code of a valid color exists. -/
theorem code_isCode {c : Color} (h : c.Valid) : ∃ n, c.code = .ok n ∧ IsCode n := by
  unfold code
  split
  · exact ⟨midtoneCode, rfl, by decide⟩
  · obtain ⟨hlow, hhigh⟩ := levelPlace_bounds h
    exact codeAt_isCode hlow hhigh

theorem ofNumber_valid {n : Int} (h : 0 ≤ n ∧ n ≤ 0xFFFFFF) :
    ∃ c, ofNumber n = .ok c ∧ c.Valid := by
  obtain ⟨c, hc⟩ := (exists_ofNumber_iff n).2 h
  exact ⟨c, hc, ((ofNumber_eq_ok_iff n c).1 hc).1⟩

end Color

/-! ## Numbers -/

namespace NumberTag

/-- A single number is a byte, and a color is valid. -/
def Valid (n : NumberTag) : Prop :=
  match n.color with
  | none => 0 ≤ n.value ∧ n.value ≤ 255
  | some c => c.Valid

theorem parse?_valid {s : Bytes} {n : NumberTag} (h : parse? s = some n) : n.Valid := by
  unfold parse? at h
  split at h
  · split at h
    · next hb => cases h; exact (Color.isByte_iff _).1 hb
    · cases h
  · split at h
    · next hb =>
      cases h
      simp only [Bool.and_eq_true, Color.isByte_iff] at hb
      exact ⟨hb.1.1, hb.1.2, hb.2⟩
    · cases h
  · cases h

theorem escape?_cases {n : NumberTag} (h : n.Valid) (depth : Depth) (d : Direction) :
    n.escape? depth d = .ok none ∨ ∃ e, n.escape? depth d = .ok (some e) ∧ e.IsSequence := by
  unfold Valid at h
  unfold escape?
  cases hc : n.color with
  | none =>
    rw [hc] at h
    cases depth with
    | four => exact .inr ⟨_, rfl, Escape.isSequence_ofCode h⟩
    | eight => exact .inr ⟨_, rfl, Escape.isSequence_ofIndex d h⟩
    | twentyFour => exact .inl rfl
  | some c =>
    rw [hc] at h
    cases depth with
    | four =>
      obtain ⟨code, hcode, hrange⟩ := Color.code_isCode h
      refine .inr ⟨.ofCode (code + backgroundOffset d), by simp [hcode, Except.map], ?_⟩
      unfold Color.IsCode at hrange
      apply Escape.isSequence_ofCode
      cases d <;> simp only [backgroundOffset] <;> omega
    | eight =>
      have hi := Color.nearestIndex_bounds h
      exact .inr ⟨_, rfl, Escape.isSequence_ofIndex d ⟨by omega, hi.2⟩⟩
    | twentyFour => exact .inr ⟨_, rfl, Escape.isSequence_ofColor d h⟩

end NumberTag

/-! ## Entries -/

namespace Entry

/-- Codes and palette indices are bytes and a color number is in range; or there is
nothing but the fixed text. -/
def Valid (e : Entry) : Prop :=
  ((∀ n ∈ e.code, 0 ≤ n ∧ n ≤ 255) ∧ (∀ n ∈ e.backgroundCode, 0 ≤ n ∧ n ≤ 255) ∧
    (∀ n ∈ e.paletteIndex, 0 ≤ n ∧ n ≤ 255) ∧ (∀ n ∈ e.rgb, 0 ≤ n ∧ n ≤ 0xFFFFFF) ∧
    e.literal = none) ∨
  (e.code = none ∧ e.backgroundCode = none ∧ e.paletteIndex = none ∧ e.rgb = none ∧
    e.literal = some [0x1B])

instance (e : Entry) : Decidable e.Valid := by unfold Valid; infer_instance

/-- At a depth an entry of valid numbers is not defined, or it is written. -/
theorem escapeAt?_isSequence {e : Entry} (hcode : ∀ n ∈ e.code, 0 ≤ n ∧ n ≤ 255)
    (hback : ∀ n ∈ e.backgroundCode, 0 ≤ n ∧ n ≤ 255)
    (hpalette : ∀ n ∈ e.paletteIndex, 0 ≤ n ∧ n ≤ 255)
    (hrgb : ∀ n ∈ e.rgb, 0 ≤ n ∧ n ≤ 0xFFFFFF) (d : Direction) (depth : Depth) :
    ∀ r ∈ e.escapeAt? d depth, ∃ escape, r = .ok escape ∧ escape.IsSequence := by
  intro r hr
  cases depth with
  | four =>
    obtain ⟨n, hn, rfl⟩ := Option.map_eq_some_iff.1 hr
    refine ⟨_, rfl, Escape.isSequence_ofCode ?_⟩
    cases d with
    | foreground => exact hcode n hn
    | background =>
      rcases (Option.orElse_eq_some _ _ _).1 hn with hn | ⟨-, hn⟩
      · exact hback n hn
      · exact hcode n hn
  | eight =>
    obtain ⟨n, hn, rfl⟩ := Option.map_eq_some_iff.1 hr
    exact ⟨_, rfl, Escape.isSequence_ofIndex d (hpalette n hn)⟩
  | twentyFour =>
    obtain ⟨n, hn, rfl⟩ := Option.map_eq_some_iff.1 hr
    obtain ⟨c, hc, hvalid⟩ := Color.ofNumber_valid (hrgb n hn)
    exact ⟨.ofColor d c, by rw [hc]; rfl, Escape.isSequence_ofColor d hvalid⟩

theorem escape?_cases {e : Entry} (h : e.Valid) (depth : Depth) (d : Direction) :
    (e.escape? depth d = .ok (some (.fixed [0x1B])) ∧ e.literal.isSome = true) ∨
    (e.literal.isSome = false ∧ (e.escape? depth d = .ok none ∨
      ∃ escape, e.escape? depth d = .ok (some escape) ∧ escape.IsSequence)) := by
  rcases h with ⟨hcode, hback, hpalette, hrgb, hlit⟩ | ⟨hcode, hback, hpalette, hrgb, hlit⟩
  · refine .inr ⟨by simp [hlit], ?_⟩
    unfold escape?
    split
    · next r hr =>
      obtain ⟨depth', -, hr⟩ := List.exists_of_findSome?_eq_some hr
      obtain ⟨escape, rfl, hs⟩ := escapeAt?_isSequence hcode hback hpalette hrgb d depth' r hr
      exact .inr ⟨escape, rfl, hs⟩
    · exact .inl (by rw [hlit]; rfl)
  · refine .inl ⟨?_, by simp [hlit]⟩
    have hnone : (depthsFrom depth).findSome? (e.escapeAt? d) = none := by
      refine List.findSome?_eq_none_iff.2 fun depth' _ => ?_
      cases depth' <;> cases d <;> simp [escapeAt?, codeFor, hcode, hback, hpalette, hrgb]
    simp [escape?, hnone, hlit]

end Entry

namespace Vocabulary

theorem entries_valid : ∀ e ∈ entries, e.Valid := by decide +kernel

/-- The bytes of names are those of ASCII from the hyphen to the small letters. -/
theorem table_bounds : ∀ p ∈ table, ∀ x ∈ p.1, 0x2D ≤ x.toNat ∧ x.toNat ≤ 0x7A := by
  have hall : (table.all fun p => p.1.all fun x => 0x2D ≤ x.toNat && x.toNat ≤ 0x7A) = true := by
    decide +kernel
  simpa only [List.all_eq_true, Bool.and_eq_true, decide_eq_true_eq] using hall

/-- What is found stands in the table under the name in lower case. -/
theorem mem_table_of_find? {name : Bytes} {e : Entry} (h : find? name = some e) :
    (name.lower, e) ∈ table := by
  unfold find? at h
  split at h
  · cases h
  · obtain ⟨p, hp, rfl⟩ := Option.map_eq_some_iff.1 h
    have hname : p.1 = name.lower := by simpa using List.find?_some hp
    exact hname ▸ List.mem_of_find?_eq_some hp

theorem mem_entries_of_find? {name : Bytes} {e : Entry} (h : find? name = some e) :
    e ∈ entries := by
  obtain ⟨e', he, hn⟩ := List.mem_flatMap.1 (mem_table_of_find? h)
  obtain ⟨_, -, hp⟩ := List.mem_map.1 hn
  exact (Prod.mk.inj hp).2 ▸ he

end Vocabulary

/-! ## What a body means -/

namespace Meaning

/-- The meaning of some body: an entry of the vocabulary, or a valid number. -/
def Valid : Meaning → Prop
  | entry e => e ∈ Vocabulary.entries
  | numeric n => n.Valid

theorem ofBody?_valid {body : Bytes} {meaning : Meaning} (h : ofBody? body = some meaning) :
    meaning.Valid := by
  unfold ofBody? at h
  split at h
  · next e he => cases h; exact Vocabulary.mem_entries_of_find? he
  · obtain ⟨n, hn, rfl⟩ := Option.map_eq_some_iff.1 h
    exact NumberTag.parse?_valid hn

/-- Bytes of any kind are a body as they are. -/
theorem ofValue?_bytes (holder : Holder) (b : Bytes) :
    ofValue? (.bytes holder b) = .ok (ofBody? b) := by
  simp [ofValue?, Value.key?, Except.map]

theorem ofValue?_valid {v : Value} {meaning : Meaning} (h : ofValue? v = .ok (some meaning)) :
    meaning.Valid := by
  unfold ofValue? at h
  cases hkey : v.key? "name" with
  | error e => simp [hkey, Except.map] at h
  | ok key =>
    simp only [hkey, Except.map, Except.ok.injEq] at h
    obtain ⟨body, -, hbody⟩ := Option.bind_eq_some_iff.1 h
    exact ofBody?_valid hbody

/-- What any body means, unless it changes the mode, is the fixed text, or nothing that
can be written, or a sequence. -/
theorem build_cases {meaning : Meaning} (h : meaning.Valid) (hc : meaning.modeChange? = none)
    (depth : Depth) (d : Direction) :
    (meaning.build depth d = .ok (some (.fixed [0x1B])) ∧ meaning.isFixed = true) ∨
    (meaning.isFixed = false ∧ (meaning.build depth d = .ok none ∨
      ∃ e, meaning.build depth d = .ok (some e) ∧ e.IsSequence)) := by
  cases meaning with
  | entry e =>
    have hn : e.changesMode = false := by
      cases he : e.changesMode with
      | false => rfl
      | true => simp [modeChange?, he] at hc
    have hb : (entry e).build depth d = e.escape? depth d := by simp [build, hn]
    rw [hb]
    exact Entry.escape?_cases (Vocabulary.entries_valid e h) depth d
  | numeric n => exact .inr ⟨rfl, NumberTag.escape?_cases h depth d⟩

/-- Nothing that any body means is refused. -/
theorem exists_build {meaning : Meaning} (h : meaning.Valid) (hc : meaning.modeChange? = none)
    (depth : Depth) (d : Direction) : ∃ r, meaning.build depth d = .ok r := by
  obtain ⟨hbuild, -⟩ | ⟨-, hbuild | ⟨e, hbuild, -⟩⟩ := build_cases h hc depth d <;> exact ⟨_, hbuild⟩

end Meaning
end ColorMarkup
