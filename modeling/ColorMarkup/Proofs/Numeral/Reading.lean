import ColorMarkup.Proofs.Numeral.Grammar
import Mathlib.Data.List.Induction
import Mathlib.Data.List.TakeWhile
import Mathlib.Tactic.Ring
/-!
# Reading one term

The reader takes the longest literal it can and looks back at nothing. In front of a
separator, or of the end, that is the one literal the grammar has there.

Results:
* `literal?_append`, `integer?_append`: a literal, and a term, in front of a separator or
  the end is read as what it is.
* `literal?_eq_some`, `integer?_eq_some`: what is read is a literal, and a term.
-/
namespace ColorMarkup.NumberTag

/-- The number of some digits is that of their positions. -/
theorem valueOf_eq_positional (base : Nat) (f : UInt8 → Nat) (ds : Bytes) :
    Decimal.valueOf base f ds = positional base (ds.map f) := by
  induction ds using List.reverseRecOn with
  | nil => rfl
  | append_singleton ds d ih =>
    rw [Decimal.valueOf_append_one, ih]
    simp [positional, Nat.ofDigits_cons]
    ring

/-! ## What may stand behind a term -/

/-- Nothing follows, or a separator. -/
def Ends (rest : Bytes) : Prop := ∀ c ∈ rest.head?, isSeparator c = true

theorem ends_nil : Ends [] := by simp [Ends]

theorem ends_cons {s : UInt8} (hs : isSeparator s = true) (rest : Bytes) : Ends (s :: rest) := by
  simp [Ends, hs]

/-- Digits of a kind that has no separator end where the text behind them starts. -/
theorem digits_append {base : Nat} {isDigit : UInt8 → Bool} {value : UInt8 → Nat} {ds rest : Bytes}
    (hd : ∀ d ∈ ds, isDigit d = true) (hs : ∀ s, isSeparator s = true → isDigit s = false)
    (hr : Ends rest) :
    digits base isDigit value (ds ++ rest) = (positional base (ds.map value), rest) := by
  have htake : rest.takeWhile isDigit = [] := by
    cases rest with
    | nil => rfl
    | cons c rest => simp [hs c (hr c rfl)]
  have hdrop : rest.dropWhile isDigit = rest := by
    cases rest with
    | nil => rfl
    | cons c rest => simp [hs c (hr c rfl)]
  rw [digits, List.takeWhile_append_of_pos hd, List.dropWhile_append_of_pos hd, htake, hdrop,
    List.append_nil, valueOf_eq_positional]

theorem not_isHexDigit_of_isSeparator : ∀ s, isSeparator s = true → isHexDigit s = false := by
  intro s hs
  rcases (isSeparator_iff s).1 hs with rfl | rfl | rfl | rfl <;> decide

theorem not_isOctalDigit_of_isSeparator : ∀ s, isSeparator s = true → isOctalDigit s = false := by
  intro s hs
  rcases (isSeparator_iff s).1 hs with rfl | rfl | rfl | rfl <;> decide

theorem not_isDigit_of_isSeparator : ∀ s, isSeparator s = true → Decimal.isDigit s = false := by
  intro s hs
  rcases (isSeparator_iff s).1 hs with rfl | rfl | rfl | rfl <;> decide

/-! ## Every term is read -/

theorem hexLiteral?_of_first_ne {first : UInt8} (h : first ≠ 0x30) (s : Bytes) :
    hexLiteral? (first :: s) = none := by
  cases s <;> simp [hexLiteral?, h]

/-- Behind a zero that starts an octal literal there is no hexadecimal mark. -/
theorem hexLiteral?_octal {ds rest : Bytes} (hd : ∀ d ∈ ds, isOctalDigit d = true) (hr : Ends rest) :
    hexLiteral? (0x30 :: (ds ++ rest)) = none := by
  have hnext : ∀ x, (ds ++ rest).head? = some x → ¬ (x = 0x78 ∨ x = 0x58) := by
    intro x hx hmark
    cases ds with
    | nil =>
      have hs := hr x hx
      rcases hmark with rfl | rfl <;> exact absurd hs (by decide)
    | cons d ds =>
      obtain rfl : d = x := by simpa using hx
      have := hd d (by simp)
      rw [not_isOctalDigit_of_hexMark hmark] at this
      cases this
  cases hrest : ds ++ rest with
  | nil => rfl
  | cons x s =>
    have := hnext x (by rw [hrest]; rfl)
    simp [hexLiteral?, this]

theorem literal?_append (l : Literal) {rest : Bytes} (hr : Ends rest) :
    literal? (l.bytes ++ rest) = some (l.value, rest) := by
  cases l with
  | hex x ds hx hne hd =>
    have hhead : (ds ++ rest).head?.any isHexDigit = true := by
      cases ds with
      | nil => exact absurd rfl hne
      | cons d ds => simp [hd d (by simp)]
    have hread : hexLiteral? (0x30 :: x :: (ds ++ rest)) =
        some (digits 16 isHexDigit hexDigitValue (ds ++ rest)) := by
      rw [hexLiteral?, if_pos ⟨rfl, hx, hhead⟩]
    rw [Literal.bytes, List.cons_append, List.cons_append, literal?, hread,
      digits_append hd not_isHexDigit_of_isSeparator hr]
    rfl
  | octal ds hd =>
    have hall : ∀ d ∈ 0x30 :: ds, isOctalDigit d = true := List.forall_mem_cons.2 ⟨by decide, hd⟩
    have hread : digits 8 isOctalDigit Decimal.digitValue (0x30 :: ds ++ rest) = _ :=
      digits_append hall not_isOctalDigit_of_isSeparator hr
    rw [List.cons_append] at hread
    simp only [Literal.bytes, List.cons_append, literal?, hexLiteral?_octal hd hr, hread, if_true]
    -- the zero in front counts nothing
    simp [Literal.value, positional, Nat.ofDigits_append, Decimal.digitValue]
  | decimal first ds hfirst hd =>
    have hall : ∀ d ∈ first :: ds, Decimal.isDigit d = true := List.forall_mem_cons.2 ⟨hfirst.1, hd⟩
    have hread : digits 10 Decimal.isDigit Decimal.digitValue (first :: ds ++ rest) = _ :=
      digits_append hall not_isDigit_of_isSeparator hr
    rw [List.cons_append] at hread
    simp only [Literal.bytes, List.cons_append, literal?, hexLiteral?_of_first_ne hfirst.2, hread,
      if_neg hfirst.2, hfirst.1, if_true]
    rfl

theorem sign_append (s : Sign) (l : Literal) (rest : Bytes) :
    sign (s.bytes ++ (l.bytes ++ rest)) = (decide (s = .minus), l.bytes ++ rest) := by
  cases s with
  | none =>
    obtain ⟨d, tail, hl, hlow, -⟩ := l.bytes_head
    have hminus : d ≠ 0x2D := by rintro rfl; exact absurd hlow (by decide)
    have hplus : d ≠ 0x2B := by rintro rfl; exact absurd hlow (by decide)
    simp [Sign.bytes, hl, sign, hminus, hplus]
  | plus => simp [Sign.bytes, sign]
  | minus => simp [Sign.bytes, sign]

/-- A sign or a digit is no blank. -/
theorem dropWhile_isBlank (s : Sign) (l : Literal) (rest : Bytes) :
    (s.bytes ++ (l.bytes ++ rest)).dropWhile isBlank = s.bytes ++ (l.bytes ++ rest) := by
  cases s with
  | none =>
    obtain ⟨d, tail, hl, hlow, hhigh⟩ := l.bytes_head
    have hd : isBlank d = false := by
      rw [← Bool.not_eq_true, isBlank_iff]
      omega
    simp [Sign.bytes, hl, hd]
  | plus => rfl
  | minus => rfl

theorem Term.dropWhile_bytes (t : Term) (rest : Bytes) :
    (t.bytes ++ rest).dropWhile isBlank = t.sign.bytes ++ (t.literal.bytes ++ rest) := by
  have hsplit : t.bytes ++ rest = t.blanks ++ (t.sign.bytes ++ (t.literal.bytes ++ rest)) := by
    simp [Term.bytes]
  rw [hsplit, List.dropWhile_append_of_pos t.hblanks, dropWhile_isBlank]

theorem integer?_eq (s : Bytes) :
    integer? s = (literal? (sign (s.dropWhile isBlank)).2).map fun r =>
      (if (sign (s.dropWhile isBlank)).1 then -(r.1 : Int) else r.1, r.2) := rfl

theorem integer?_append (t : Term) {rest : Bytes} (hr : Ends rest) :
    integer? (t.bytes ++ rest) = some (t.value, rest) := by
  rw [integer?_eq, t.dropWhile_bytes]
  simp only [sign_append, literal?_append t.literal hr, Option.map_some, Option.some.injEq,
    Prod.mk.injEq, and_true, decide_eq_true_eq]
  cases hs : t.sign <;> simp [Term.value, Sign.apply, hs]

/-! ## Only terms are read -/

/-- What digits of a kind leave is the rest of the text. -/
theorem digits_eq {base : Nat} {isDigit : UInt8 → Bool} {value : UInt8 → Nat} {s rest : Bytes} {n : Nat}
    (h : digits base isDigit value s = (n, rest)) :
    s = s.takeWhile isDigit ++ rest ∧ (∀ d ∈ s.takeWhile isDigit, isDigit d = true) ∧
      positional base ((s.takeWhile isDigit).map value) = n := by
  rw [digits, Prod.mk.injEq] at h
  obtain ⟨rfl, rfl⟩ := h
  exact ⟨List.takeWhile_append_dropWhile.symm, fun _ hd => List.mem_takeWhile_imp hd,
    (valueOf_eq_positional _ _ _).symm⟩

theorem hexLiteral?_eq_some {s rest : Bytes} {n : Nat} (h : hexLiteral? s = some (n, rest)) :
    ∃ l : Literal, s = l.bytes ++ rest ∧ l.value = n := by
  unfold hexLiteral? at h
  split at h
  · next z x s =>
    split at h
    · next hc =>
      obtain ⟨rfl, hx, hhead⟩ := hc
      obtain ⟨hs, hd, hv⟩ := digits_eq (Option.some.inj h)
      have hne : s.takeWhile isHexDigit ≠ [] := by
        cases s with
        | nil => cases hhead
        | cons d s =>
          have hfirst : isHexDigit d = true := hhead
          simp [hfirst]
      exact ⟨.hex x _ hx hne hd, congrArg (fun s => 0x30 :: x :: s) hs, hv⟩
    · cases h
  · cases h

theorem literal?_eq_some {s rest : Bytes} {n : Nat} (h : literal? s = some (n, rest)) :
    ∃ l : Literal, s = l.bytes ++ rest ∧ l.value = n := by
  unfold literal? at h
  split at h
  · next r hhex => exact hexLiteral?_eq_some (hhex.trans h)
  · split at h
    · cases h
    · next d s _ =>
      split at h
      · next hzero =>
        subst hzero
        obtain ⟨hs, hd, hv⟩ := digits_eq (Option.some.inj h)
        have htake : (0x30 :: s).takeWhile isOctalDigit = 0x30 :: s.takeWhile isOctalDigit :=
          List.takeWhile_cons_of_pos (by decide)
        rw [htake] at hs hd hv
        refine ⟨.octal _ (List.forall_mem_cons.1 hd).2, hs, ?_⟩
        rw [← hv]
        -- the zero in front counts nothing
        simp [Literal.value, positional, Nat.ofDigits_append, Decimal.digitValue]
      · next hzero =>
        split at h
        · next hdigit =>
          obtain ⟨hs, hd, hv⟩ := digits_eq (Option.some.inj h)
          rw [List.takeWhile_cons_of_pos hdigit] at hs hd hv
          exact ⟨.decimal d _ ⟨hdigit, hzero⟩ (List.forall_mem_cons.1 hd).2, hs, hv⟩
        · cases h

theorem sign_eq (s : Bytes) :
    ∃ sg : Sign, s = sg.bytes ++ (sign s).2 ∧ (sign s).1 = decide (sg = .minus) := by
  cases s with
  | nil => exact ⟨.none, rfl, rfl⟩
  | cons c s =>
    by_cases hminus : c = 0x2D
    · exact ⟨.minus, by simp [sign, Sign.bytes, hminus], by simp [sign, hminus]⟩
    · by_cases hplus : c = 0x2B
      · exact ⟨.plus, by simp [sign, Sign.bytes, hplus], by simp [sign, hplus]⟩
      · exact ⟨.none, by simp [sign, Sign.bytes, hminus, hplus], by simp [sign, hminus, hplus]⟩

theorem integer?_eq_some {s rest : Bytes} {n : Int} (h : integer? s = some (n, rest)) :
    ∃ t : Term, s = t.bytes ++ rest ∧ t.value = n := by
  rw [integer?_eq] at h
  obtain ⟨sg, hsign, hminus⟩ := sign_eq (s.dropWhile isBlank)
  obtain ⟨⟨k, rest'⟩, hlit, hn⟩ := Option.map_eq_some_iff.1 h
  obtain ⟨rfl, rfl⟩ := Prod.mk.inj hn
  obtain ⟨l, hl, rfl⟩ := literal?_eq_some hlit
  refine ⟨⟨s.takeWhile isBlank, sg, l, fun _ hb => List.mem_takeWhile_imp hb⟩, ?_, ?_⟩
  · calc s = s.takeWhile isBlank ++ s.dropWhile isBlank := List.takeWhile_append_dropWhile.symm
      _ = s.takeWhile isBlank ++ (sg.bytes ++ (l.bytes ++ rest')) := by rw [hsign, hl]
      _ = _ := by simp [Term.bytes]
  · rw [hminus]
    cases sg <;> simp [Term.value, Sign.apply]

end ColorMarkup.NumberTag
