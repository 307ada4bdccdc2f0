import ColorMarkup.Proofs.Escape.WellFormed
import ColorMarkup.Proofs.Numeral.Acceptance
/-!
# Numbers as they are printed

An integer in decimal is a numeral: a zero alone is an octal literal of no digits, any other
number starts with no zero and is a decimal literal, so it is never read in another base. No
numeral is a name, since every name has a byte that numerals are not written with. The body of
a tag that is printed from numbers thus means these numbers.

Results:
* `exists_term_ofInt`, `exists_numeral_ofInt`, `exists_numeral_printed`: printed numbers are
  numerals of these values.
* `Meaning.ofBody?_of_parse?`: no numeral is a name, so a body that is a numeral means it.
-/
namespace ColorMarkup

/-- The channels in decimal, with marks between them. -/
def Color.printed (c : Color) (s s' : UInt8) : Bytes :=
  Decimal.ofInt c.red ++ s :: (Decimal.ofInt c.green ++ s' :: Decimal.ofInt c.blue)

namespace NumberTag

theorem exists_literal_ofNat (n : Nat) : ∃ l : Literal, l.bytes = Decimal.ofNat n ∧ l.value = n := by
  obtain rfl | hn := Nat.eq_zero_or_pos n
  · exact ⟨.octal [] (by simp), by simp [Literal.bytes, Decimal.ofNat_eq, Decimal.digit], rfl⟩
  · have hhead := Decimal.ofNat_head_ne_zero hn
    have hdigits := Decimal.ofNat_isDigit n
    have hvalue := Decimal.valueOf_ofNat n
    cases hd : Decimal.ofNat n with
    | nil => exact absurd hd (Decimal.ofNat_ne_nil n)
    | cons first digits =>
      rw [hd] at hhead hdigits hvalue
      obtain ⟨hfirst, hrest⟩ := List.forall_mem_cons.1 hdigits
      refine ⟨.decimal first digits ⟨hfirst, by simpa using hhead⟩ hrest, rfl, ?_⟩
      rw [Literal.value, ← valueOf_eq_positional, hvalue]

/-- A number in decimal is a term of its value. -/
theorem exists_term_ofInt (n : Int) : ∃ t : Term, t.bytes = Decimal.ofInt n ∧ t.value = n := by
  obtain ⟨l, hbytes, hvalue⟩ := exists_literal_ofNat n.natAbs
  by_cases hn : n < 0
  · refine ⟨⟨[], .minus, l, by simp⟩, ?_, ?_⟩
    · simp [Term.bytes, Sign.bytes, Decimal.ofInt, hn, hbytes]
    · simp only [Term.value, Sign.apply, hvalue]
      omega
  · refine ⟨⟨[], .none, l, by simp⟩, ?_, ?_⟩
    · simp [Term.bytes, Sign.bytes, Decimal.ofInt, hn, hbytes]
    · simp only [Term.value, Sign.apply, hvalue]
      omega

theorem exists_numeral_ofInt (n : Int) :
    ∃ num : Numeral, num.bytes = Decimal.ofInt n ∧ num.values = [n] ∧ num.tag = ⟨n, none⟩ := by
  obtain ⟨t, hbytes, hvalue⟩ := exists_term_ofInt n
  exact ⟨.single t, hbytes, by simp [Numeral.values, hvalue], by simp [Numeral.tag, hvalue]⟩

theorem exists_numeral_printed (c : Color) {s s' : UInt8} (hs : isSeparator s = true)
    (hs' : isSeparator s' = true) :
    ∃ num : Numeral, num.bytes = c.printed s s' ∧ num.values = [c.red, c.green, c.blue] ∧
      num.tag = ⟨c.toNumber, some c⟩ := by
  obtain ⟨r, hr, hrv⟩ := exists_term_ofInt c.red
  obtain ⟨g, hg, hgv⟩ := exists_term_ofInt c.green
  obtain ⟨b, hb, hbv⟩ := exists_term_ofInt c.blue
  exact ⟨.triple r s g s' b hs hs', by simp [Numeral.bytes, Color.printed, hr, hg, hb],
    by simp [Numeral.values, hrv, hgv, hbv],
    by simp [Numeral.tag, Color.toNumber, hrv, hgv, hbv]⟩

/-- A byte in decimal is read as itself. -/
theorem parse?_ofInt {n : Int} (h : 0 ≤ n ∧ n ≤ 255) : parse? (Decimal.ofInt n) = some ⟨n, none⟩ := by
  obtain ⟨num, hbytes, hvalues, htag⟩ := exists_numeral_ofInt n
  rw [← hbytes, parse?_bytes_iff]
  refine ⟨?_, htag⟩
  rw [Numeral.InRange, hvalues]
  simpa using h

/-- The channels of a valid color in decimal are read as that color. -/
theorem parse?_printed {c : Color} (h : c.Valid) {s s' : UInt8} (hs : isSeparator s = true)
    (hs' : isSeparator s' = true) : parse? (c.printed s s') = some ⟨c.toNumber, some c⟩ := by
  obtain ⟨num, hbytes, hvalues, htag⟩ := exists_numeral_printed c hs hs'
  rw [← hbytes, parse?_bytes_iff]
  refine ⟨?_, htag⟩
  rw [Numeral.InRange, hvalues]
  simpa using ⟨h.1, h.2.1, h.2.2⟩

end NumberTag

/-! ## No numeral is a name -/

open NumberTag in
/-- Every name has a byte that no numeral is written with. -/
theorem Vocabulary.table_notPart : ∀ p ∈ table, ∃ x ∈ p.1, isPart x = false := by decide +kernel

open NumberTag in
theorem Vocabulary.find?_of_isPart {name : Bytes} (h : ∀ x ∈ name, isPart x = true) :
    find? name = none := by
  cases hf : find? name with
  | none => rfl
  | some e =>
    obtain ⟨y, hy, hnot⟩ := table_notPart _ (mem_table_of_find? hf)
    obtain ⟨x, hx, rfl⟩ := List.mem_map.1 hy
    rw [isPart_lower (h x hx)] at hnot
    cases hnot

namespace Meaning

open NumberTag

/-- A numeral is no name, so it means what it is read as. -/
theorem ofBody?_of_parse? {s : Bytes} {tag : NumberTag} (h : parse? s = some tag) :
    ofBody? s = some (.numeric tag) := by
  obtain ⟨n, hn, -, -⟩ := (parse?_eq_some_iff s tag).1 h
  have hname : Vocabulary.find? s = none := Vocabulary.find?_of_isPart (hn ▸ n.bytes_isPart)
  unfold ofBody?
  rw [hname, h]
  rfl

end Meaning
end ColorMarkup
