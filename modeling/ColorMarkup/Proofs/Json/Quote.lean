import ColorMarkup.Json.Writer
import Mathlib.Data.List.Chain
/-!
# A quoted text is read back

A text is quoted in ASCII: a code point is written as itself, as a short escape, or by its
code units, of which it has one or two. The reader takes code units and joins a high
surrogate with the low one behind it. So a text is read back unless it holds such a pair
itself; then the pair is read as one character.

Results:
* `escapePoint_cases`: the ways in which a code point is written.
* `joinSurrogates_flatMap_codeUnits`: code units are joined to the code points they are of.
* `text?_quote`: a quoted text is read back with anything behind it.
* `isDeeper_quote`: no bracket within quotes opens anything.
-/
namespace ColorMarkup

namespace CodePoint

/-- The first of two surrogates that stand for one character: `U+D800` to `U+DBFF`. -/
def isHigh (c : CodePoint) : Bool := 0xD800 ≤ c.val && c.val ≤ 0xDBFF

/-- The second of two surrogates that stand for one character: `U+DC00` to `U+DFFF`. -/
def isLow (c : CodePoint) : Bool := 0xDC00 ≤ c.val && c.val ≤ 0xDFFF

end CodePoint

/-- No high surrogate stands right before a low one. -/
def Text.Unpaired (t : Text) : Prop := t.IsChain fun a b => ¬ (a.isHigh = true ∧ b.isLow = true)

/-- A text without surrogates has no pairs. -/
theorem Text.unpaired_of_plain {t : Text} (h : t.hasSurrogate = false) : t.Unpaired := by
  apply List.Pairwise.isChain
  apply List.pairwise_of_forall_mem_list
  rintro a ha b - ⟨hhigh, -⟩
  have hplain := List.any_eq_false.1 h a ha
  apply hplain
  simp only [CodePoint.isHigh, CodePoint.isSurrogate, Bool.and_eq_true, decide_eq_true_eq] at hhigh ⊢
  omega

namespace Json

/-! ## Code units -/

def high (c : CodePoint) : CodePoint := ⟨0xD800 + (c.val - 0x10000) / 0x400, by omega⟩

def low (c : CodePoint) : CodePoint := ⟨0xDC00 + (c.val - 0x10000) % 0x400, by omega⟩

/-- The code units of a code point: itself, or two surrogates. -/
def codeUnits (c : CodePoint) : Text := if c.val < 0x10000 then [c] else [high c, low c]

theorem codeUnits_lt {c u : CodePoint} (h : u ∈ codeUnits c) : u.val < 0x10000 := by
  have hc := c.isLt
  unfold codeUnits at h
  split at h
  · next hlt =>
    rw [List.mem_singleton.1 h]
    exact hlt
  · simp only [List.mem_cons, List.not_mem_nil, or_false] at h
    rcases h with rfl | rfl
    · show 0xD800 + (c.val - 0x10000) / 0x400 < 0x10000
      omega
    · show 0xDC00 + (c.val - 0x10000) % 0x400 < 0x10000
      omega

/-- One code point in front of joined ones: it is joined with the next only if the two are a
high and a low surrogate. -/
theorem joinSurrogates_cons {a : CodePoint} {t u : Text} (h : joinSurrogates t = u)
    (hpair : ∀ b v, u = b :: v → ¬ (a.isHigh = true ∧ b.isLow = true)) :
    joinSurrogates (a :: t) = a :: u := by
  rw [joinSurrogates, h]
  cases u with
  | nil => rfl
  | cons b v =>
    have hab := hpair b v rfl
    simp only [CodePoint.isHigh, CodePoint.isLow, Bool.and_eq_true, decide_eq_true_eq] at hab
    exact if_neg (by omega)

/-- The two code units of a character beyond `U+FFFF` are joined. -/
theorem joinSurrogates_pair {c : CodePoint} (hc : 0x10000 ≤ c.val) {t u : Text}
    (h : joinSurrogates t = low c :: u) : joinSurrogates (high c :: t) = c :: u := by
  have hlt := c.isLt
  have hhigh : (high c).val = 0xD800 + (c.val - 0x10000) / 0x400 := rfl
  have hlow : (low c).val = 0xDC00 + (c.val - 0x10000) % 0x400 := rfl
  have hsum : 0x10000 + ((high c).val - 0xD800) * 0x400 + ((low c).val - 0xDC00) = c.val := by
    omega
  have hof : CodePoint.ofNat? c.val = some c := dif_pos hlt
  rw [joinSurrogates, h]
  dsimp only
  rw [if_pos (by omega), hsum, hof]

/-- The code units of a text without pairs are joined to its code points. -/
theorem joinSurrogates_flatMap_codeUnits {t : Text} (h : t.Unpaired) :
    joinSurrogates (t.flatMap codeUnits) = t := by
  induction t with
  | nil => rfl
  | cons c t ih =>
    have ht : joinSurrogates (t.flatMap codeUnits) = t := ih h.tail
    rw [List.flatMap_cons, codeUnits]
    split
    · apply joinSurrogates_cons ht
      rintro b v rfl
      exact (List.isChain_cons_cons.1 h).1
    · next hbig =>
      -- the second code unit is no high surrogate, so nothing behind it is joined with it
      apply joinSurrogates_pair (by omega)
      apply joinSurrogates_cons ht
      intro b v _ hpair
      have hhigh := hpair.1
      have hlow : (low c).val = 0xDC00 + (c.val - 0x10000) % 0x400 := rfl
      simp only [CodePoint.isHigh, Bool.and_eq_true, decide_eq_true_eq] at hhigh
      omega

/-! ## Escapes -/

theorem hexDigit_facts : ∀ d < 16, hexValue? (point (Quoted.hexDigit d)) = some d ∧
    (point (Quoted.hexDigit d)).val < 0x80 ∧ point (Quoted.hexDigit d) ≠ point '"' ∧
    point (Quoted.hexDigit d) ≠ point '\\' := by
  decide

theorem unitEscape_eq (n : Nat) : unitEscape n = [point '\\', point 'u',
    point (Quoted.hexDigit (n / 16 / 16 / 16 % 16)), point (Quoted.hexDigit (n / 16 / 16 % 16)),
    point (Quoted.hexDigit (n / 16 % 16)), point (Quoted.hexDigit (n % 16))] := rfl

theorem units?_closing (rest : Text) : units? (point '"' :: rest) = some ([], rest) := by
  rw [units?.eq_def]
  exact if_pos rfl

theorem units?_plain {c : CodePoint} (hquote : c ≠ point '"') (hback : c ≠ point '\\')
    (hlow : 0x20 ≤ c.val) (rest : Text) :
    units? (c :: rest) = (units? rest).map fun (us, r) => (c :: us, r) := by
  rw [units?.eq_def]
  dsimp only
  rw [if_neg hquote, if_neg hback, if_neg (Nat.not_lt.2 hlow)]

theorem units?_short {e c : CodePoint} (hne : e ≠ point 'u') (hread : shortEscape? e = some c)
    (rest : Text) :
    units? (point '\\' :: e :: rest) = (units? rest).map fun (us, r) => (c :: us, r) := by
  rw [units?.eq_def]
  dsimp only
  rw [if_neg (by decide), if_pos rfl, if_neg hne, hread]
  cases units? rest <;> rfl

/-- A code unit is read from its escape. -/
theorem units?_unitEscape {u : CodePoint} (h : u.val < 0x10000) (rest : Text) :
    units? (unitEscape u.val ++ rest) = (units? rest).map fun (us, r) => (u :: us, r) := by
  have hdigit : ∀ n, hexValue? (point (Quoted.hexDigit (n % 16))) = some (n % 16) := fun n =>
    (hexDigit_facts (n % 16) (Nat.mod_lt _ (by decide))).1
  have hsum : ((u.val / 16 / 16 / 16 % 16 * 16 + u.val / 16 / 16 % 16) * 16 + u.val / 16 % 16) * 16 +
      u.val % 16 = u.val := by
    omega
  have hof : CodePoint.ofNat? u.val = some u := dif_pos u.isLt
  rw [unitEscape_eq]
  simp only [List.cons_append, List.nil_append]
  rw [units?, if_neg (by decide), if_pos rfl, if_pos rfl]
  simp only [unit?, hdigit, bind, Option.bind, hsum, hof]
  cases units? rest <;> rfl

theorem shortLetter?_facts {c : CodePoint} {letter : Char} (h : shortLetter? c = some letter) :
    shortEscape? (point letter) = some c ∧ point letter ≠ point 'u' ∧
      (point letter).val < 0x80 := by
  have hall : ∀ e ∈ shortEscapes, shortEscape? (point e.1) = CodePoint.ofNat? e.2 ∧
      point e.1 ≠ point 'u' ∧ (point e.1).val < 0x80 := by
    decide
  rcases Option.map_eq_some_iff.1 h with ⟨e, he, rfl⟩
  have hval := List.find?_some he
  simp only [Bool.and_eq_true, beq_iff_eq] at hval
  have hof : CodePoint.ofNat? e.2 = some c := by
    rw [hval.2]
    exact dif_pos c.isLt
  rcases hall e (List.mem_of_find?_eq_some he) with ⟨hread, hne, hlt⟩
  exact ⟨hread.trans hof, hne, hlt⟩

/-- A code point is written as a short escape, as itself, or by its code units. -/
theorem escapePoint_cases (c : CodePoint) :
    (∃ letter, escapePoint c = [point '\\', point letter] ∧ codeUnits c = [c] ∧
      shortEscape? (point letter) = some c ∧ point letter ≠ point 'u' ∧ (point letter).val < 0x80) ∨
    (escapePoint c = [c] ∧ codeUnits c = [c] ∧ 0x20 ≤ c.val ∧ c.val < 0x80 ∧ c ≠ point '"' ∧
      c ≠ point '\\') ∨
    escapePoint c = (codeUnits c).flatMap fun u => unitEscape u.val := by
  unfold escapePoint
  split
  · next letter hletter =>
    have hc : codeUnits c = [c] := by
      rcases Option.map_eq_some_iff.1 hletter with ⟨e, he, -⟩
      have hsmall : ∀ e ∈ shortEscapes, e.2 < 0x10000 := by decide
      have hval := List.find?_some he
      simp only [Bool.and_eq_true, beq_iff_eq] at hval
      exact if_pos (hval.2 ▸ hsmall e (List.mem_of_find?_eq_some he))
    exact .inl ⟨letter, rfl, hc, shortLetter?_facts hletter⟩
  · next hnone =>
    split
    · next hplain =>
      refine .inr (.inl ⟨rfl, if_pos (by omega), by omega, by omega, ?_, ?_⟩)
      · rintro rfl
        exact absurd hnone (by decide)
      · rintro rfl
        exact absurd hnone (by decide)
    · refine .inr (.inr ?_)
      unfold codeUnits
      split <;> simp [high, low]

/-- The code units of a code point are read from what is written for it. -/
theorem units?_escapePoint (c : CodePoint) (rest : Text) :
    units? (escapePoint c ++ rest) =
      (units? rest).map fun (us, r) => (codeUnits c ++ us, r) := by
  rcases escapePoint_cases c with ⟨letter, hwritten, hunits, hread, hne, -⟩ |
    ⟨hwritten, hunits, hlow, -, hquote, hback⟩ | hwritten
  · rw [hwritten, hunits]
    exact units?_short hne hread rest
  · rw [hwritten, hunits]
    exact units?_plain hquote hback hlow rest
  · rw [hwritten]
    have hall : ∀ u ∈ codeUnits c, u.val < 0x10000 := fun u hu => codeUnits_lt hu
    generalize codeUnits c = us at hall
    induction us with
    | nil =>
      show units? rest = _
      cases units? rest <;> rfl
    | cons u us ih =>
      rcases List.forall_mem_cons.1 hall with ⟨hu, hus⟩
      rw [List.flatMap_cons, List.append_assoc, units?_unitEscape hu, ih hus, Option.map_map]
      rfl

theorem units?_quote (t : Text) (rest : Text) :
    units? (t.flatMap escapePoint ++ point '"' :: rest) = some (t.flatMap codeUnits, rest) := by
  induction t with
  | nil =>
    exact units?_closing rest
  | cons c t ih =>
    rw [List.flatMap_cons, List.append_assoc, units?_escapePoint, ih, List.flatMap_cons]
    rfl

/-- A text without pairs is read back from its quotes. -/
theorem text?_quote {t : Text} (h : t.Unpaired) (rest : Text) :
    text? (t.flatMap escapePoint ++ point '"' :: rest) = some (t, rest) := by
  rw [text?, units?_quote, Option.map_some]
  exact congrArg (fun u => some (u, rest)) (joinSurrogates_flatMap_codeUnits h)

/-! ## What is written -/

theorem isAscii_flatMap {f : CodePoint → Text} (h : ∀ c, (f c).isAscii = true) (t : Text) :
    Text.isAscii (t.flatMap f) = true := by
  rw [Text.isAscii, List.all_flatMap, List.all_eq_true]
  exact fun c _ => h c

theorem unitEscape_isAscii (n : Nat) : (unitEscape n).isAscii = true := by
  have hdigit : ∀ n, (point (Quoted.hexDigit (n % 16))).val < 0x80 := fun n =>
    (hexDigit_facts (n % 16) (Nat.mod_lt _ (by decide))).2.1
  have hback : (point '\\').val < 0x80 := by decide
  have hu : (point 'u').val < 0x80 := by decide
  simp [unitEscape_eq, Text.isAscii, hdigit, hback, hu]

theorem escapePoint_isAscii (c : CodePoint) : (escapePoint c).isAscii = true := by
  rcases escapePoint_cases c with ⟨letter, hwritten, -, -, -, hlt⟩ | ⟨hwritten, -, -, hlt, -⟩ |
    hwritten
  · have hback : (point '\\').val < 0x80 := by decide
    simp [hwritten, Text.isAscii, hback, hlt]
  · simp [hwritten, Text.isAscii, hlt]
  · rw [hwritten]
    exact isAscii_flatMap (fun u => unitEscape_isAscii u.val) _

theorem quote_isAscii (t : Text) : (quote t).isAscii = true := by
  have hquote : (point '"').val < 0x80 := by decide
  have hall := isAscii_flatMap escapePoint_isAscii t
  rw [Text.isAscii] at hall ⊢
  rw [quote, List.all_cons, List.all_append, hall]
  simp [hquote]

/-- Within quotes a code point other than the quote and the backslash opens and closes nothing. -/
theorem isDeeper_plain (limit depth : Nat) {c : CodePoint} (hquote : c ≠ point '"')
    (hback : c ≠ point '\\') (rest : Text) :
    isDeeper limit depth true (c :: rest) = isDeeper limit depth true rest := by
  rw [isDeeper.eq_def]
  dsimp only
  rw [if_neg hback, bne_iff_ne.2 hquote]

theorem isDeeper_escaped (limit depth : Nat) (c : CodePoint) (rest : Text) :
    isDeeper limit depth true (point '\\' :: c :: rest) = isDeeper limit depth true rest := by
  rw [isDeeper.eq_def]
  exact if_pos rfl

theorem isDeeper_unitEscape (limit depth n : Nat) (rest : Text) :
    isDeeper limit depth true (unitEscape n ++ rest) = isDeeper limit depth true rest := by
  have hdigit : ∀ n (t : Text), isDeeper limit depth true (point (Quoted.hexDigit (n % 16)) :: t) =
      isDeeper limit depth true t := by
    intro n t
    rcases hexDigit_facts (n % 16) (Nat.mod_lt _ (by decide)) with ⟨-, -, hquote, hback⟩
    exact isDeeper_plain limit depth hquote hback t
  rw [unitEscape_eq]
  simp only [List.cons_append, List.nil_append, isDeeper_escaped, hdigit]

theorem isDeeper_escapePoint (limit depth : Nat) (c : CodePoint) (rest : Text) :
    isDeeper limit depth true (escapePoint c ++ rest) = isDeeper limit depth true rest := by
  rcases escapePoint_cases c with ⟨letter, hwritten, -⟩ | ⟨hwritten, -, -, -, hquote, hback⟩ |
    hwritten
  · rw [hwritten]
    exact isDeeper_escaped limit depth _ rest
  · rw [hwritten]
    exact isDeeper_plain limit depth hquote hback rest
  · rw [hwritten]
    clear hwritten
    induction codeUnits c with
    | nil => rfl
    | cons u us ih => rw [List.flatMap_cons, List.append_assoc, isDeeper_unitEscape, ih]

/-- A quoted text opens and closes nothing. -/
theorem isDeeper_quote (limit depth : Nat) (t rest : Text) :
    isDeeper limit depth false (quote t ++ rest) = isDeeper limit depth false rest := by
  have hinner : isDeeper limit depth true (t.flatMap escapePoint ++ point '"' :: rest) =
      isDeeper limit depth false rest := by
    induction t with
    | nil =>
      rw [List.flatMap_nil, List.nil_append, isDeeper.eq_def]
      exact if_neg (by decide)
    | cons c t ih => rw [List.flatMap_cons, List.append_assoc, isDeeper_escapePoint, ih]
  rw [quote, List.cons_append, List.append_assoc, isDeeper.eq_def]
  dsimp only
  rw [if_neg (by decide), if_neg (by decide)]
  exact hinner

end Json
end ColorMarkup
