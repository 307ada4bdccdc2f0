import ColorMarkup.Proofs.Escape.WellFormed
/-!
# Escapes in both directions

The direction says how a color is written, but not whether it is. At every depth, what a body
means is written in one direction exactly if it is in the other: an entry that has a code for the
background has one for the characters, and the depth alone says which of its other numbers is
used. The two escapes are sequences that differ in their first parameter at most.

Results:
* `Vocabulary.code_of_backgroundCode`: what makes the codes there alike in both directions.
* `Meaning.build_directions`: what a body means, written in two directions.
-/
namespace ColorMarkup

namespace Escape

/-- Two sequences with the same parameters behind the first one. -/
def Beside (e e' : Escape) : Prop :=
  ∃ first first' rest, e = sequence (first :: rest) ∧ e' = sequence (first' :: rest)

theorem beside_ofCode (n n' : Int) : Beside (ofCode n) (ofCode n') := ⟨n, n', [], rfl, rfl⟩

theorem beside_ofIndex (d d' : Direction) (i : Int) : Beside (ofIndex d i) (ofIndex d' i) :=
  ⟨selector d, selector d', [5, i], rfl, rfl⟩

theorem beside_ofColor (d d' : Direction) (c : Color) : Beside (ofColor d c) (ofColor d' c) :=
  ⟨selector d, selector d', [2, c.red, c.green, c.blue], rfl, rfl⟩

end Escape

/-- What is written in two directions: nothing in either, or a sequence in each. -/
def WrittenBeside (r r' : Except Error (Option Escape)) : Prop :=
  (r = .ok none ∧ r' = .ok none) ∨
  ∃ e e', r = .ok (some e) ∧ r' = .ok (some e') ∧ e.Beside e'

/-! ## Numbers -/

theorem NumberTag.escape?_directions {n : NumberTag} (h : n.Valid) (depth : Depth)
    (d d' : Direction) : WrittenBeside (n.escape? depth d) (n.escape? depth d') := by
  unfold NumberTag.Valid at h
  unfold NumberTag.escape?
  cases hc : n.color with
  | none =>
    cases depth with
    | four => exact .inr ⟨_, _, rfl, rfl, Escape.beside_ofCode _ _⟩
    | eight => exact .inr ⟨_, _, rfl, rfl, Escape.beside_ofIndex d d' _⟩
    | twentyFour => exact .inl ⟨rfl, rfl⟩
  | some c =>
    rw [hc] at h
    cases depth with
    | four =>
      obtain ⟨code, hcode, -⟩ := Color.code_isCode h
      simp only [hcode, Except.map]
      exact .inr ⟨_, _, rfl, rfl, Escape.beside_ofCode _ _⟩
    | eight => exact .inr ⟨_, _, rfl, rfl, Escape.beside_ofIndex d d' _⟩
    | twentyFour => exact .inr ⟨_, _, rfl, rfl, Escape.beside_ofColor d d' c⟩

/-! ## Entries -/

namespace Vocabulary

/-- No entry has a code for the background alone. -/
theorem code_of_backgroundCode :
    ∀ e ∈ entries, e.backgroundCode.isSome = true → e.code.isSome = true := by
  decide +kernel

theorem codeFor_isSome {e : Entry} (h : e ∈ entries) (d : Direction) :
    (e.codeFor d).isSome = e.code.isSome := by
  cases d with
  | foreground => rfl
  | background =>
    cases hb : e.backgroundCode with
    | none => simp [Entry.codeFor, hb]
    | some b => simp [Entry.codeFor, hb, code_of_backgroundCode e h]

theorem ofNumber_of_rgb {e : Entry} (h : e ∈ entries) {n : Int} (hn : e.rgb = some n) :
    ∃ c, Color.ofNumber n = .ok c := by
  obtain ⟨-, -, -, hrgb, -⟩ | ⟨-, -, -, hrgb, -⟩ := entries_valid e h
  · exact (Color.exists_ofNumber_iff n).2 (hrgb n hn)
  · rw [hn] at hrgb
    cases hrgb

end Vocabulary

namespace Entry

variable {e : Entry} (h : e ∈ Vocabulary.entries) (d d' : Direction)

include h

/-- An entry is defined at a depth in both directions, or in neither. -/
theorem escapeAt?_directions (depth : Depth) :
    (e.escapeAt? d depth = none ∧ e.escapeAt? d' depth = none) ∨
    ∃ x x', e.escapeAt? d depth = some (.ok x) ∧ e.escapeAt? d' depth = some (.ok x') ∧
      x.Beside x' := by
  cases depth with
  | four =>
    have hd := Vocabulary.codeFor_isSome h d
    have hd' := Vocabulary.codeFor_isSome h d'
    cases hcode : e.code with
    | none =>
      simp only [hcode, Option.isSome_none, Option.isSome_eq_false_iff,
        Option.isNone_iff_eq_none] at hd hd'
      exact .inl ⟨by rw [escapeAt?, hd, Option.map_none], by rw [escapeAt?, hd', Option.map_none]⟩
    | some _ =>
      rw [hcode] at hd hd'
      obtain ⟨n, hn⟩ := Option.isSome_iff_exists.1 hd
      obtain ⟨n', hn'⟩ := Option.isSome_iff_exists.1 hd'
      exact .inr ⟨_, _, by rw [escapeAt?, hn, Option.map_some],
        by rw [escapeAt?, hn', Option.map_some], Escape.beside_ofCode n n'⟩
  | eight =>
    cases hi : e.paletteIndex with
    | none => exact .inl ⟨by rw [escapeAt?, hi]; rfl, by rw [escapeAt?, hi]; rfl⟩
    | some i =>
      exact .inr ⟨_, _, by rw [escapeAt?, hi]; rfl, by rw [escapeAt?, hi]; rfl,
        Escape.beside_ofIndex d d' i⟩
  | twentyFour =>
    cases hn : e.rgb with
    | none => exact .inl ⟨by rw [escapeAt?, hn]; rfl, by rw [escapeAt?, hn]; rfl⟩
    | some n =>
      obtain ⟨c, hc⟩ := Vocabulary.ofNumber_of_rgb h hn
      exact .inr ⟨_, _, by rw [escapeAt?, hn, Option.map_some, hc]; rfl,
        by rw [escapeAt?, hn, Option.map_some, hc]; rfl, Escape.beside_ofColor d d' c⟩

/-- Of several depths, the first that an entry is defined at is the same in both directions. -/
theorem findSome?_directions (depths : List Depth) :
    (depths.findSome? (e.escapeAt? d) = none ∧ depths.findSome? (e.escapeAt? d') = none) ∨
    ∃ x x', depths.findSome? (e.escapeAt? d) = some (.ok x) ∧
      depths.findSome? (e.escapeAt? d') = some (.ok x') ∧ x.Beside x' := by
  induction depths with
  | nil => exact .inl ⟨rfl, rfl⟩
  | cons depth depths ih =>
    rw [List.findSome?_cons, List.findSome?_cons]
    obtain ⟨hnone, hnone'⟩ | ⟨x, x', hx, hx', hbeside⟩ := escapeAt?_directions h d d' depth
    · rw [hnone, hnone']
      exact ih
    · rw [hx, hx']
      exact .inr ⟨x, x', rfl, rfl, hbeside⟩

theorem escape?_directions (hliteral : e.literal = none) (depth : Depth) :
    WrittenBeside (e.escape? depth d) (e.escape? depth d') := by
  unfold escape?
  obtain ⟨hnone, hnone'⟩ | ⟨x, x', hx, hx', hbeside⟩ :=
    findSome?_directions h d d' (depthsFrom depth)
  · rw [hnone, hnone', hliteral]
    exact .inl ⟨rfl, rfl⟩
  · rw [hx, hx']
    exact .inr ⟨x, x', rfl, rfl, hbeside⟩

end Entry

/-! ## What a body means -/

/-- What any body means, unless it changes the mode, is the fixed text in both directions, or it
is written in both or in neither. -/
theorem Meaning.build_directions {meaning : Meaning} (h : meaning.Valid)
    (hc : meaning.modeChange? = none) (depth : Depth) (d d' : Direction) :
    (meaning.isFixed = true ∧ meaning.build depth d = .ok (some (.fixed [0x1B])) ∧
      meaning.build depth d' = .ok (some (.fixed [0x1B]))) ∨
    (meaning.isFixed = false ∧ WrittenBeside (meaning.build depth d) (meaning.build depth d')) := by
  cases hfixed : meaning.isFixed with
  | true =>
    have hbuild : ∀ d, meaning.build depth d = .ok (some (.fixed [0x1B])) := by
      intro d
      obtain ⟨hbuild, -⟩ | ⟨hnot, -⟩ := build_cases h hc depth d
      · exact hbuild
      · rw [hfixed] at hnot
        cases hnot
    exact .inl ⟨rfl, hbuild d, hbuild d'⟩
  | false =>
    refine .inr ⟨rfl, ?_⟩
    cases meaning with
    | numeric n => exact NumberTag.escape?_directions h depth d d'
    | entry e =>
      have hliteral : e.literal = none := by simpa [isFixed] using hfixed
      have hchange : e.changesMode = false := by simpa [modeChange?] using hc
      simp only [build, hchange]
      exact Entry.escape?_directions h d d' hliteral depth

end ColorMarkup
