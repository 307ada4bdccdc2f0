import ColorMarkup.Proofs.Numeral.Reading
/-!
# Numeric tags are exactly the numerals

A byte string is accepted if it is a numeral whose values are bytes, and is then read as
what the numeral says; a text is accepted if it is the text of such a byte string, so one
that is not ASCII never is. No two numerals are written alike.

Results:
* `parse?_eq_some_iff`: what is accepted, and as what.
* `Numeral.bytes_injective`: nothing can be read in two ways.
* `ofValue?_numeral`: both, of an argument.
-/
namespace ColorMarkup.NumberTag

/-! ## Whole numerals -/

theorem next?_append {s : UInt8} (hs : isSeparator s = true) (t : Term) {rest : Bytes}
    (hr : Ends rest) : next? (s :: (t.bytes ++ rest)) = some (t.value, rest) := by
  rw [next?, if_pos hs, integer?_append t hr]

theorem next?_eq_some {s rest : Bytes} {n : Int} (h : next? s = some (n, rest)) :
    ∃ c, ∃ t : Term, isSeparator c = true ∧ s = c :: (t.bytes ++ rest) ∧ t.value = n := by
  cases s with
  | nil => cases h
  | cons c s =>
    rw [next?] at h
    split at h
    · next hc =>
      obtain ⟨t, rfl, hv⟩ := integer?_eq_some h
      exact ⟨c, t, hc, rfl, hv⟩
    · cases h

theorem integers?_bytes (n : Numeral) : integers? n.bytes = some n.values := by
  cases n with
  | single t =>
    have h := integer?_append t ends_nil
    rw [List.append_nil] at h
    simp only [integers?, Numeral.bytes, h]
    rfl
  | triple r s g s' b hs hs' =>
    have hr := integer?_append r (ends_cons hs (g.bytes ++ s' :: b.bytes))
    have hg := next?_append hs g (ends_cons hs' b.bytes)
    have hb := next?_append hs' b ends_nil
    rw [List.append_nil] at hb
    simp only [integers?, Numeral.bytes, hr, hg, hb]
    rfl

theorem integers?_eq_some {s : Bytes} {vs : List Int} (h : integers? s = some vs) :
    ∃ n : Numeral, n.bytes = s ∧ n.values = vs := by
  unfold integers? at h
  split at h
  · cases h
  · next a ha =>
    cases h
    obtain ⟨t, rfl, rfl⟩ := integer?_eq_some ha
    exact ⟨.single t, (List.append_nil _).symm, rfl⟩
  · next a s1 _ ha =>
    obtain ⟨r, rfl, rfl⟩ := integer?_eq_some ha
    split at h
    · cases h
    · next b s2 hb =>
      obtain ⟨c, g, hc, rfl, rfl⟩ := next?_eq_some hb
      split at h
      · next d hd =>
        cases h
        obtain ⟨c', b, hc', rfl, rfl⟩ := next?_eq_some hd
        exact ⟨.triple r c g c' b hc hc', by simp [Numeral.bytes], rfl⟩
      · cases h

/-- A numeral is accepted if its values are bytes. -/
theorem parse?_bytes_iff (n : Numeral) (tag : NumberTag) :
    parse? n.bytes = some tag ↔ n.InRange ∧ n.tag = tag := by
  rw [parse?, integers?_bytes]
  cases n with
  | single t =>
    simp only [Numeral.values, Numeral.InRange, Numeral.tag, List.mem_singleton, forall_eq,
      Color.isByte_iff]
    by_cases h : 0 ≤ t.value ∧ t.value ≤ 255 <;> simp [h]
  | triple r s g s' b hs hs' =>
    simp only [Numeral.values, Numeral.InRange, Numeral.tag, List.forall_mem_cons, Bool.and_eq_true,
      Color.isByte_iff, Color.toNumber]
    by_cases h : ((0 ≤ r.value ∧ r.value ≤ 255) ∧ 0 ≤ g.value ∧ g.value ≤ 255) ∧
        0 ≤ b.value ∧ b.value ≤ 255
    · simp [h]
    · have h' : ¬ ((0 ≤ r.value ∧ r.value ≤ 255) ∧ (0 ≤ g.value ∧ g.value ≤ 255) ∧
          0 ≤ b.value ∧ b.value ≤ 255) := fun hand => h ⟨⟨hand.1, hand.2.1⟩, hand.2.2⟩
      simp [h, h']

/-- Exactly the numerals whose values are bytes are accepted. -/
theorem parse?_eq_some_iff (s : Bytes) (tag : NumberTag) :
    parse? s = some tag ↔ ∃ n : Numeral, n.bytes = s ∧ n.InRange ∧ n.tag = tag := by
  constructor
  · intro h
    obtain ⟨vs, hvs⟩ : ∃ vs, integers? s = some vs := by
      cases hi : integers? s with
      | none => simp [parse?, hi] at h
      | some vs => exact ⟨vs, rfl⟩
    obtain ⟨n, rfl, -⟩ := integers?_eq_some hvs
    exact ⟨n, rfl, (parse?_bytes_iff n tag).1 h⟩
  · rintro ⟨n, rfl, h⟩
    exact (parse?_bytes_iff n tag).2 h

/-! ## Unambiguity -/

theorem Term.bytes_injective {t t' : Term} (h : t.bytes = t'.bytes) : t = t' := by
  have hdrop := congrArg (List.dropWhile isBlank) h
  rw [← List.append_nil t.bytes, ← List.append_nil t'.bytes, t.dropWhile_bytes, t'.dropWhile_bytes,
    List.append_nil, List.append_nil] at hdrop
  obtain ⟨hsign, hliteral⟩ := Sign.bytes_append_injective hdrop
  have hblanks : t.blanks = t'.blanks := by
    rw [Term.bytes, Term.bytes, hdrop] at h
    exact List.append_cancel_right h
  cases t
  cases t'
  simp_all

/-- A term in front of a separator or the end is determined by how it is written. -/
theorem Term.bytes_append_injective {t t' : Term} {rest rest' : Bytes} (hr : Ends rest)
    (hr' : Ends rest') (h : t.bytes ++ rest = t'.bytes ++ rest') : t = t' ∧ rest = rest' := by
  have hread := integer?_append t hr
  rw [h, integer?_append t' hr', Option.some.injEq, Prod.mk.injEq] at hread
  obtain rfl : rest' = rest := hread.2
  exact ⟨Term.bytes_injective (List.append_cancel_right h), rfl⟩

theorem Numeral.bytes_injective {n n' : Numeral} (h : n.bytes = n'.bytes) : n = n' := by
  cases n with
  | single t =>
    cases n' with
    | single t' => rw [Term.bytes_injective h]
    | triple r s g s' b hs hs' =>
      -- one of them ends where the other has a separator
      rw [Numeral.bytes, ← List.append_nil t.bytes] at h
      exact absurd (Term.bytes_append_injective ends_nil (ends_cons hs _) h).2 (List.cons_ne_nil _ _).symm
  | triple r s g s' b hs hs' =>
    cases n' with
    | single t' =>
      rw [Numeral.bytes, Numeral.bytes, ← List.append_nil t'.bytes] at h
      exact absurd (Term.bytes_append_injective (ends_cons hs _) ends_nil h).2 (List.cons_ne_nil _ _)
    | triple r' c g' c' b' hc hc' =>
      obtain ⟨rfl, hrest⟩ := Term.bytes_append_injective (ends_cons hs _) (ends_cons hc _) h
      obtain ⟨rfl, hgreen⟩ := List.cons.inj hrest
      obtain ⟨rfl, hrest'⟩ := Term.bytes_append_injective (ends_cons hs' _) (ends_cons hc' _) hgreen
      obtain ⟨rfl, hblue⟩ := List.cons.inj hrest'
      rw [Term.bytes_injective hblue]

/-! ## Arguments -/

theorem bytes_isAscii_of_parse? {s : Bytes} {tag : NumberTag} (h : parse? s = some tag) :
    s.isAscii = true := by
  obtain ⟨n, rfl, -, -⟩ := (parse?_eq_some_iff s tag).1 h
  exact n.bytes_isAscii

theorem ofValue?_bytes (holder : Holder) (b : Bytes) :
    ofValue? (.bytes holder b) = .ok (parse? b) := rfl

/-- A text that is not ASCII is no numeral. -/
theorem ofValue?_of_not_isAscii {t : Text} (h : t.isAscii = false) :
    ofValue? (.text t) = .ok none := by
  rw [ofValue?, Value.key?_of_not_isAscii h]
  rfl

/-- An ASCII text is read as its bytes. -/
theorem ofValue?_toText {b : Bytes} (h : b.isAscii = true) :
    ofValue? (.text b.toText) = .ok (parse? b) := by
  have hb := Utf8.encode_toText h
  rw [ofValue?, Value.key?_of_isAscii ((Utf8.isAscii_iff_of_encode hb).2 h) hb]
  rfl

/-- A text is accepted if it is the text of a numeral. -/
theorem ofValue?_text_eq_some_iff (t : Text) (tag : NumberTag) :
    ofValue? (.text t) = .ok (some tag) ↔
      ∃ n : Numeral, n.bytes.toText = t ∧ n.InRange ∧ n.tag = tag := by
  constructor
  · intro h
    cases hascii : t.isAscii with
    | false => simp [ofValue?_of_not_isAscii hascii] at h
    | true =>
      obtain ⟨b, -, rfl, hb⟩ := Utf8.exists_encode_of_isAscii hascii
      rw [ofValue?_toText hb, Except.ok.injEq] at h
      obtain ⟨n, rfl, hn⟩ := (parse?_eq_some_iff b tag).1 h
      exact ⟨n, rfl, hn⟩
  · rintro ⟨n, rfl, hn⟩
    rw [ofValue?_toText n.bytes_isAscii, (parse?_bytes_iff n tag).2 hn]

theorem Numeral.toText_injective {n n' : Numeral} (h : n.bytes.toText = n'.bytes.toText) : n = n' := by
  have hb := Utf8.encode_toText n.bytes_isAscii
  rw [h, Utf8.encode_toText n'.bytes_isAscii] at hb
  exact Numeral.bytes_injective (Option.some.inj hb).symm

/-- What is not accepted with any tag is answered with none. -/
theorem ofValue?_eq_none_iff {v : Value} {r : Option NumberTag} {written : Numeral → Prop}
    (hok : ofValue? v = .ok r)
    (h : ∀ tag, ofValue? v = .ok (some tag) ↔ ∃ n, written n ∧ n.InRange ∧ n.tag = tag) :
    ofValue? v = .ok none ↔ ¬ ∃ n, written n ∧ n.InRange := by
  constructor
  · rintro hnone ⟨n, hn, hrange⟩
    rw [(h n.tag).2 ⟨n, hn, hrange, rfl⟩] at hnone
    cases hnone
  · intro hnot
    cases r with
    | none => exact hok
    | some tag =>
      obtain ⟨n, hn, hrange, -⟩ := (h tag).1 hok
      exact absurd ⟨n, hn, hrange⟩ hnot

/-- Bytes and texts are accepted exactly as numerals whose values are bytes, with the tag of
the numeral, and answered with none otherwise, never refused; so is a text that is not
ASCII. No two numerals are written alike. -/
theorem ofValue?_numeral :
    (∀ holder b tag, ofValue? (.bytes holder b) = .ok (some tag) ↔
      ∃ n : Numeral, n.bytes = b ∧ n.InRange ∧ n.tag = tag) ∧
    (∀ holder b, ofValue? (.bytes holder b) = .ok none ↔
      ¬ ∃ n : Numeral, n.bytes = b ∧ n.InRange) ∧
    (∀ t tag, ofValue? (.text t) = .ok (some tag) ↔
      ∃ n : Numeral, n.bytes.toText = t ∧ n.InRange ∧ n.tag = tag) ∧
    (∀ t, ofValue? (.text t) = .ok none ↔ ¬ ∃ n : Numeral, n.bytes.toText = t ∧ n.InRange) ∧
    (∀ t : Text, t.isAscii = false → ofValue? (.text t) = .ok none) ∧
    (∀ n n' : Numeral, n.bytes = n'.bytes → n = n') ∧
    (∀ n n' : Numeral, n.bytes.toText = n'.bytes.toText → n = n') := by
  have hbytes : ∀ holder b tag, ofValue? (.bytes holder b) = .ok (some tag) ↔
      ∃ n : Numeral, n.bytes = b ∧ n.InRange ∧ n.tag = tag := by
    intro holder b tag
    rw [ofValue?_bytes, Except.ok.injEq]
    exact parse?_eq_some_iff b tag
  exact ⟨hbytes, fun holder b => ofValue?_eq_none_iff rfl (hbytes holder b),
    ofValue?_text_eq_some_iff, fun t => ofValue?_eq_none_iff rfl (ofValue?_text_eq_some_iff t),
    fun t h => ofValue?_of_not_isAscii h, fun n n' h => Numeral.bytes_injective h,
    fun n n' h => Numeral.toText_injective h⟩

/-- The bytes of `0x1F. 010;-0` are hexadecimal, octal behind a blank, and zero. -/
theorem ofValue?_numeral_bases :
    ofValue? (.bytes .constant
        [0x30, 0x78, 0x31, 0x46, 0x2E, 0x20, 0x30, 0x31, 0x30, 0x3B, 0x2D, 0x30]) =
      .ok (some ⟨0x1F0800, some ⟨31, 8, 0⟩⟩) := by
  let r : Term := ⟨[], .none, .hex 0x78 [0x31, 0x46] (.inl rfl) (by decide) (by decide +kernel), by simp⟩
  let g : Term := ⟨[0x20], .none, .octal [0x31, 0x30] (by decide +kernel), by decide +kernel⟩
  let b : Term := ⟨[], .minus, .octal [] (by simp), by simp⟩
  refine (ofValue?_numeral.1 .constant _ _).2
    ⟨.triple r 0x2E g 0x3B b (by decide) (by decide), rfl, ?_, by decide +kernel⟩
  show ∀ v ∈ ([31, 8, 0] : List Int), 0 ≤ v ∧ v ≤ 255
  decide

end ColorMarkup.NumberTag
