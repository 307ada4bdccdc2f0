import ColorMarkup.Proofs.Escape.WellFormed
import ColorMarkup.Proofs.Numeral.Acceptance
/-!
# How long escapes are

An escape is at most 17 bytes long for every five bytes of its tag, brackets included. A numeral
has at least one byte for each number and for each mark between two, and a byte alone is a digit:
that is enough, whatever signs, blanks and bases there are. The names are checked one by one. One
of them, of three letters for a color of two long channels, is written with exactly 17 bytes.

Results:
* `Decimal.length_ofNat_le`: the digits of a number below a power of ten.
* `NumberTag.length_escape?`, `Vocabulary.length_escape?`: the escapes of numbers and of names.
* `Meaning.length_build`: the escape of any body.
-/
namespace ColorMarkup

namespace Decimal

theorem length_ofNat_le {k n : Nat} (h : n < 10 ^ (k + 1)) : (ofNat n).length ≤ k + 1 := by
  induction k generalizing n with
  | zero =>
    rw [ofNat_eq, if_pos (by simpa using h)]
    rfl
  | succ k ih =>
    rw [ofNat_eq]
    split
    · simp
    · have hrest : n / 10 < 10 ^ (k + 1) := by
        rw [Nat.div_lt_iff_lt_mul (by decide), ← Nat.pow_succ]
        exact h
      have hlen := ih hrest
      simp only [List.length_append, List.length_singleton]
      omega

theorem length_ofInt_le {k : Nat} {n : Int} (hlow : 0 ≤ n) (hhigh : n < 10 ^ (k + 1)) :
    (ofInt n).length ≤ k + 1 := by
  rw [ofInt, if_neg (by omega)]
  apply length_ofNat_le
  zify
  rw [abs_of_nonneg hlow]
  exact_mod_cast hhigh

/-- A byte has three digits at most. -/
theorem length_ofInt_byte {n : Int} (hlow : 0 ≤ n) (hhigh : n ≤ 255) : (ofInt n).length ≤ 3 :=
  length_ofInt_le hlow (by omega)

end Decimal

namespace Escape

theorem length_ofCode (n : Int) : (ofCode n).bytes.length = 3 + (Decimal.ofInt n).length := by
  simp [ofCode, bytes, sequenceBytes, joinParams, introducer]
  omega

theorem length_ofIndex (d : Direction) (i : Int) :
    (ofIndex d i).bytes.length = 8 + (Decimal.ofInt i).length := by
  have hselector : (Decimal.ofInt (selector d)).length = 2 := by cases d <;> decide +kernel
  have hfive : (Decimal.ofInt 5).length = 1 := by decide +kernel
  simp [ofIndex, bytes, sequenceBytes, joinParams, introducer, hselector, hfive]
  omega

theorem length_ofColor (d : Direction) (c : Color) :
    (ofColor d c).bytes.length = 10 + (Decimal.ofInt c.red).length +
      (Decimal.ofInt c.green).length + (Decimal.ofInt c.blue).length := by
  have hselector : (Decimal.ofInt (selector d)).length = 2 := by cases d <;> decide +kernel
  have htwo : (Decimal.ofInt 2).length = 1 := by decide +kernel
  simp [ofColor, bytes, sequenceBytes, joinParams, introducer, hselector, htwo]
  omega

/-- Is the escape short enough for a tag with this body? -/
def Fits (e : Escape) (body : Bytes) : Prop := 5 * e.bytes.length ≤ 17 * (body.length + 2)

instance (e : Escape) (body : Bytes) : Decidable (e.Fits body) := inferInstanceAs (Decidable (_ ≤ _))

end Escape

/-! ## Numbers -/

namespace NumberTag

theorem Literal.length_pos (l : Literal) : 0 < l.bytes.length := by
  obtain ⟨d, rest, h, -⟩ := l.bytes_head
  simp [h]

/-- A literal of one byte is a digit. -/
theorem Literal.value_le_nine {l : Literal} (h : l.bytes.length = 1) : l.value ≤ 9 := by
  cases l with
  | hex x digits hx hne hd => simp [bytes] at h
  | octal digits hd =>
    obtain rfl : digits = [] := by simpa [bytes] using h
    simp [value, positional]
  | decimal first digits hfirst hd =>
    obtain rfl : digits = [] := by simpa [bytes] using h
    have hdigit := (isDigit_iff first).1 hfirst.1
    simp only [value, positional, List.map_cons, List.map_nil, List.reverse_singleton,
      Nat.ofDigits_singleton, Decimal.digitValue]
    omega

theorem Term.length_pos (t : Term) : 0 < t.bytes.length := by
  have := t.literal.length_pos
  simp only [Term.bytes, List.length_append]
  omega

theorem Term.value_le_nine {t : Term} (h : t.bytes.length = 1) : t.value ≤ 9 := by
  have hpos := t.literal.length_pos
  simp only [Term.bytes, List.length_append] at h
  have hvalue := Literal.value_le_nine (l := t.literal) (by omega)
  unfold Term.value
  cases t.sign <;> simp only [Sign.apply] <;> omega

/-- A single number takes at least one byte, and one that is greater than nine takes two. -/
theorem length_of_single {body : Bytes} {n : Int} (h : parse? body = some ⟨n, none⟩) :
    (0 ≤ n ∧ n ≤ 255) ∧ 1 ≤ body.length ∧ (9 < n → 2 ≤ body.length) := by
  obtain ⟨num, rfl, hrange, htag⟩ := (parse?_eq_some_iff body _).1 h
  cases num with
  | single t =>
    obtain rfl : t.value = n := congrArg NumberTag.value htag
    have hlen := t.length_pos
    refine ⟨hrange _ (List.mem_singleton_self _), hlen, fun hn => ?_⟩
    simp only [Numeral.bytes]
    by_contra hshort
    have := Term.value_le_nine (t := t) (by omega)
    omega
  | triple r s g s' b hs hs' => cases htag

/-- Three channels take at least five bytes. -/
theorem length_of_triple {body : Bytes} {n : Int} {c : Color} (h : parse? body = some ⟨n, some c⟩) :
    5 ≤ body.length := by
  obtain ⟨num, rfl, -, htag⟩ := (parse?_eq_some_iff body _).1 h
  cases num with
  | single t => cases htag
  | triple r s g s' b hs hs' =>
    have hr := r.length_pos
    have hg := g.length_pos
    have hb := b.length_pos
    simp only [Numeral.bytes, List.length_append, List.length_cons]
    omega

theorem length_escape?_of_single {body : Bytes} {n : Int} (h : parse? body = some ⟨n, none⟩)
    {depth : Depth} {d : Direction} {e : Escape} (he : escape? ⟨n, none⟩ depth d = .ok (some e)) :
    e.Fits body := by
  obtain ⟨⟨hlow, hhigh⟩, hlen, hgreater⟩ := length_of_single h
  have hdigits : (Decimal.ofInt n).length ≤ 1 ∨ (Decimal.ofInt n).length ≤ 3 ∧ 2 ≤ body.length := by
    by_cases hn : 9 < n
    · exact .inr ⟨Decimal.length_ofInt_byte hlow hhigh, hgreater hn⟩
    · exact .inl (Decimal.length_ofInt_le hlow (by omega))
  unfold Escape.Fits
  cases depth with
  | four =>
    obtain rfl : Escape.ofCode n = e := by simpa [escape?] using he
    rw [Escape.length_ofCode]
    omega
  | eight =>
    obtain rfl : Escape.ofIndex d n = e := by simpa [escape?] using he
    rw [Escape.length_ofIndex]
    omega
  | twentyFour => cases he

/-- The escape of three channels has 19 bytes at most. -/
theorem length_escape?_of_color {n : Int} {c : Color} (hvalid : c.Valid) {depth : Depth}
    {d : Direction} {e : Escape} (he : escape? ⟨n, some c⟩ depth d = .ok (some e)) :
    e.bytes.length ≤ 19 := by
  cases depth with
  | four =>
    obtain ⟨code, hcode, hrange⟩ := Color.code_isCode hvalid
    simp only [escape?, hcode, Except.map, Except.ok.injEq, Option.some.injEq] at he
    subst he
    have hoffset : 0 ≤ backgroundOffset d ∧ backgroundOffset d ≤ 10 := by cases d <;> decide
    unfold Color.IsCode at hrange
    have hlen := Decimal.length_ofInt_byte (n := code + backgroundOffset d) (by omega) (by omega)
    rw [Escape.length_ofCode]
    omega
  | eight =>
    cases he
    have hrange := Color.nearestIndex_bounds hvalid
    have hlen := Decimal.length_ofInt_byte (n := c.nearestIndex) (by omega) (by omega)
    rw [Escape.length_ofIndex]
    omega
  | twentyFour =>
    cases he
    obtain ⟨hr, hg, hb⟩ := hvalid
    have hred := Decimal.length_ofInt_byte hr.1 hr.2
    have hgreen := Decimal.length_ofInt_byte hg.1 hg.2
    have hblue := Decimal.length_ofInt_byte hb.1 hb.2
    rw [Escape.length_ofColor]
    omega

theorem length_escape? {body : Bytes} {tag : NumberTag} (h : parse? body = some tag) {depth : Depth}
    {d : Direction} {e : Escape} (he : tag.escape? depth d = .ok (some e)) : e.Fits body := by
  obtain ⟨n, color⟩ := tag
  cases color with
  | none => exact length_escape?_of_single h he
  | some c =>
    have hbody := length_of_triple h
    have hescape := length_escape?_of_color (parse?_valid h) he
    unfold Escape.Fits
    omega

end NumberTag

/-! ## Names -/

theorem Vocabulary.length_escape? : ∀ p ∈ table, ∀ depth ∈ Depth.all, ∀ d ∈ Direction.all,
    ∀ e ∈ (p.2.escape? depth d).toOption.join, e.Fits p.1 := by
  decide +kernel

/-! ## Bodies -/

/-- What is written for a body is at most 17 bytes long for every five bytes of the tag. -/
theorem Meaning.length_build {body : Bytes} {meaning : Meaning} (h : ofBody? body = some meaning)
    {depth : Depth} {d : Direction} {e : Escape} (he : meaning.build depth d = .ok (some e)) :
    e.Fits body := by
  unfold ofBody? at h
  split at h
  · next entry' hentry =>
    obtain rfl : entry entry' = meaning := Option.some.inj h
    cases hchange : entry'.changesMode with
    | true =>
      obtain rfl : Escape.nothing = e := by simpa [build, hchange] using he
      simp [Escape.Fits, Escape.bytes]
    | false =>
      have hescape : entry'.escape? depth d = .ok (some e) := by simpa [build, hchange] using he
      have hmem := Vocabulary.mem_table_of_find? hentry
      have hfits := Vocabulary.length_escape? _ hmem depth (by cases depth <;> decide) d
        (by cases d <;> decide) e (by simp [hescape, Except.toOption])
      simpa [Escape.Fits, Bytes.lower] using hfits
  · obtain ⟨tag, htag, rfl⟩ := Option.map_eq_some_iff.1 h
    exact NumberTag.length_escape? htag he

end ColorMarkup
