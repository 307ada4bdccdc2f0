import ColorMarkup.Proofs.Text.Utf8
import ColorMarkup.Source
/-!
# Characters and their bytes

A character is written as bytes that are read back as that character, whatever follows,
so a text without surrogates is read back from its encoding. An ASCII character is
written as one byte, and no other character with an ASCII byte.

Results:
* `decode_encode`: a text without surrogates is read back from its encoding.
* `encode_cons_cases`: the bytes of a text start with an ASCII byte and the bytes of the rest,
  or with bytes of which none is ASCII.
* `isAscii_iff_of_encode`, `encode_toText`: ASCII texts and ASCII bytes.
* `Value.key?_of_isAscii`, `Value.key?_of_not_isAscii`: what texts are looked up by.
-/
namespace ColorMarkup

theorem Text.hasSurrogate_eq_false_iff (t : Text) :
    t.hasSurrogate = false ↔ ∀ c ∈ t, c.isSurrogate = false := by
  simp [Text.hasSurrogate]

theorem Text.hasSurrogate_append (s t : Text) :
    Text.hasSurrogate (s ++ t) = false ↔ s.hasSurrogate = false ∧ t.hasSurrogate = false := by
  simp [Text.hasSurrogate]

/-- No character of a string is a surrogate. -/
theorem Text.hasSurrogate_ofString (s : String) : (Text.ofString s).hasSurrogate = false := by
  rw [Text.hasSurrogate_eq_false_iff]
  intro c hc
  obtain ⟨d, -, rfl⟩ := List.mem_map.1 hc
  have hd : d.toNat < 0xD800 ∨ 0xDFFF < d.toNat := d.valid.imp_right And.left
  rw [← Bool.not_eq_true, CodePoint.isSurrogate, Bool.and_eq_true, decide_eq_true_iff,
    decide_eq_true_iff]
  show ¬ (0xD800 ≤ d.toNat ∧ d.toNat ≤ 0xDFFF)
  omega

theorem Bytes.isAscii_iff (b : Bytes) : b.isAscii = true ↔ ∀ x ∈ b, x.toNat < 0x80 := by
  simp [Bytes.isAscii, UInt8.lt_iff_toNat_lt]

namespace Utf8

/-! ## One character -/

theorem encodePoint_of_ascii {c : CodePoint} (h : c.val < 0x80) :
    encodePoint c = some [UInt8.ofNat c.val] := by
  rw [encodePoint]
  exact if_pos h

theorem encodePoint_ne_nil {c : CodePoint} {b : Bytes} (h : encodePoint c = some b) : b ≠ [] := by
  unfold encodePoint at h
  dsimp only at h
  rintro rfl
  split at h
  · cases h
  split at h
  · cases h
  split at h
  · split at h <;> cases h
  split at h <;> cases h

/-- Beyond ASCII, no byte is ASCII. -/
theorem encodePoint_high {c : CodePoint} {b : Bytes} (h : encodePoint c = some b) (hc : 0x80 ≤ c.val) :
    ∀ x ∈ b, 0x80 ≤ x.toNat := by
  intro x hx
  refine Nat.le_of_not_lt fun hlow => ?_
  have := val_of_mem_encodePoint h hx hlow
  omega

theorem character?_val {c : CodePoint} {least : Nat} (hl : least ≤ c.val) (hs : c.isSurrogate = false) :
    character? least c.val = some c := by
  have hof : CodePoint.ofNat? c.val = some c := by simp [CodePoint.ofNat?, c.isLt]
  simp [character?, hof, hl, hs]

theorem toNat_ofNat_of_lt {n : Nat} (h : n < 256) : (UInt8.ofNat n).toNat = n := by
  rw [UInt8.toNat_ofNat']
  omega

/-- A byte that carries six bits of a character. -/
theorem isTail_ofNat (n : Nat) : isTail (UInt8.ofNat (0x80 + n % 64)) = true := by
  rw [isTail_iff, toNat_ofNat_of_lt (by omega)]
  omega

theorem payload_ofNat (n : Nat) : payload (UInt8.ofNat (0x80 + n % 64)) = n % 64 := by
  have h := toNat_ofNat_of_lt (show 0x80 + n % 64 < 256 by omega)
  unfold payload
  omega

/-- A character is read from the bytes it is written as, whatever follows. -/
theorem sequence?_append {c : CodePoint} (hs : c.isSurrogate = false) {b : Bytes}
    (h : encodePoint c = some b) (rest : Bytes) :
    ∃ a t, b = a :: t ∧ sequence? (b ++ rest) = some (c, t.length) := by
  have hc := c.isLt
  unfold encodePoint at h
  simp only [hs, Bool.false_eq_true, if_false] at h
  split at h
  · next h1 =>
    cases h
    refine ⟨_, _, rfl, ?_⟩
    have hv := toNat_ofNat_of_lt (show c.val < 256 by omega)
    have hof : CodePoint.ofByte (UInt8.ofNat c.val) = c := Fin.ext hv
    simp [sequence?, hv, h1, hof]
  split at h
  · next h1 h2 =>
    cases h
    refine ⟨_, _, rfl, ?_⟩
    have hv := toNat_ofNat_of_lt (show 0xC0 + c.val / 64 < 256 by omega)
    have hsum : (0xC0 + c.val / 64 - 0xC0) * 64 + c.val % 64 = c.val := by omega
    simp only [List.cons_append, List.nil_append, sequence?, hv, isTail_ofNat, payload_ofNat, hsum,
      if_true, character?_val (show 0x80 ≤ c.val by omega) hs]
    rw [if_neg (by omega), if_neg (by omega), if_pos (by omega)]
    rfl
  split at h
  · next h2 h3 =>
    cases h
    refine ⟨_, _, rfl, ?_⟩
    have hv := toNat_ofNat_of_lt (show 0xE0 + c.val / 4096 < 256 by omega)
    have hsum : (0xE0 + c.val / 4096 - 0xE0) * 4096 + c.val / 64 % 64 * 64 + c.val % 64 = c.val := by
      omega
    simp only [List.cons_append, List.nil_append, sequence?, hv, isTail_ofNat, payload_ofNat, hsum,
      if_true, Bool.and_self, character?_val (show 0x800 ≤ c.val by omega) hs]
    rw [if_neg (by omega), if_neg (by omega), if_neg (by omega), if_pos (by omega)]
    rfl
  · next h3 =>
    cases h
    refine ⟨_, _, rfl, ?_⟩
    have hv := toNat_ofNat_of_lt (show 0xF0 + c.val / 262144 < 256 by omega)
    have hsum : (0xF0 + c.val / 262144 - 0xF0) * 262144 + c.val / 4096 % 64 * 4096 +
        c.val / 64 % 64 * 64 + c.val % 64 = c.val := by
      omega
    simp only [List.cons_append, List.nil_append, sequence?, hv, isTail_ofNat, payload_ofNat, hsum,
      if_true, Bool.and_self, character?_val (show 0x10000 ≤ c.val by omega) hs]
    rw [if_neg (by omega), if_neg (by omega), if_neg (by omega), if_neg (by omega)]
    rfl

/-! ## Texts -/

theorem encode_cons_eq_some {c : CodePoint} {t : Text} {src : Bytes} (h : encode (c :: t) = some src) :
    ∃ b rest, encodePoint c = some b ∧ encode t = some rest ∧ src = b ++ rest := by
  obtain ⟨b, hb, h⟩ := Option.bind_eq_some_iff.1 h
  obtain ⟨rest, hrest, rfl⟩ := Option.map_eq_some_iff.1 h
  exact ⟨b, rest, hb, hrest, rfl⟩

theorem encode_append_eq_some {s t : Text} {src : Bytes} (h : encode (s ++ t) = some src) :
    ∃ b rest, encode s = some b ∧ encode t = some rest ∧ src = b ++ rest := by
  rw [encode_append] at h
  obtain ⟨b, hb, h⟩ := Option.bind_eq_some_iff.1 h
  obtain ⟨rest, hrest, rfl⟩ := Option.map_eq_some_iff.1 h
  exact ⟨b, rest, hb, hrest, rfl⟩

/-- A text without surrogates can be written. -/
theorem exists_encode {t : Text} (h : t.hasSurrogate = false) : ∃ b, encode t = some b := by
  rw [Text.hasSurrogate_eq_false_iff] at h
  rw [← Option.isSome_iff_exists, encode_isSome_iff]
  intro c hc hs
  rw [h c hc] at hs
  cases hs

/-- A text without surrogates is read back from its encoding. -/
theorem decode_encode {t : Text} (hs : t.hasSurrogate = false) {b : Bytes} (h : encode t = some b) :
    decode b = t := by
  rw [Text.hasSurrogate_eq_false_iff] at hs
  induction t generalizing b with
  | nil => cases h; rfl
  | cons c t ih =>
    obtain ⟨bc, rest, hc, ht, rfl⟩ := encode_cons_eq_some h
    obtain ⟨hsc, hst⟩ := List.forall_mem_cons.1 hs
    obtain ⟨a, tail, rfl, hread⟩ := sequence?_append hsc hc rest
    rw [List.cons_append] at hread ⊢
    simp only [decode_cons, hread, List.drop_left, ih hst ht]

/-- The bytes of a text start with the byte of an ASCII character, or with bytes of which
none is ASCII. -/
theorem encode_cons_cases {c : CodePoint} {t : Text} {src : Bytes} (h : encode (c :: t) = some src) :
    (∃ x rest, src = x :: rest ∧ encodePoint c = some [x] ∧ x.toNat = c.val ∧ c.val < 0x80 ∧
      encode t = some rest) ∨
    (∃ b rest, src = b ++ rest ∧ encodePoint c = some b ∧ b ≠ [] ∧ (∀ x ∈ b, 0x80 ≤ x.toNat) ∧
      0x80 ≤ c.val ∧ encode t = some rest) := by
  obtain ⟨b, rest, hc, ht, rfl⟩ := encode_cons_eq_some h
  rcases Nat.lt_or_ge c.val 0x80 with hlow | hhigh
  · have hx := encodePoint_of_ascii hlow
    obtain rfl := Option.some.inj (hc.symm.trans hx)
    exact .inl ⟨_, rest, rfl, hc, toNat_ofNat_of_lt (by omega), hlow, ht⟩
  · exact .inr ⟨b, rest, rfl, hc, encodePoint_ne_nil hc, encodePoint_high hc hhigh, hhigh, ht⟩

/-! ## ASCII -/

theorem isAscii_cons (x : UInt8) (b : Bytes) :
    Bytes.isAscii (x :: b) = true ↔ x.toNat < 0x80 ∧ b.isAscii = true := by
  rw [Bytes.isAscii_iff, Bytes.isAscii_iff, List.forall_mem_cons]

/-- A text is ASCII if its encoding is. -/
theorem isAscii_iff_of_encode {t : Text} {b : Bytes} (h : encode t = some b) :
    t.isAscii = true ↔ b.isAscii = true := by
  induction t generalizing b with
  | nil => cases h; simp [Text.isAscii, Bytes.isAscii]
  | cons c t ih =>
    obtain ⟨x, rest, rfl, -, hx, hlow, ht⟩ | ⟨bc, rest, rfl, -, hne, hhigh, hc, ht⟩ := encode_cons_cases h
    · rw [isAscii_cons, ← ih ht, hx]
      simp [Text.isAscii]
    · have hnot : ¬ c.val < 0x80 := by omega
      cases bc with
      | nil => exact absurd rfl hne
      | cons x bc =>
        have hx : ¬ x.toNat < 0x80 := by have := hhigh x (by simp); omega
        rw [List.cons_append, isAscii_cons]
        simp [Text.isAscii, hnot, hx]

/-- ASCII bytes are the encoding of the text of their numbers. -/
theorem encode_toText {b : Bytes} (h : b.isAscii = true) : encode b.toText = some b := by
  induction b with
  | nil => rfl
  | cons x b ih =>
    obtain ⟨hx, hb⟩ := (isAscii_cons x b).1 h
    have hc : encodePoint (CodePoint.ofByte x) = some [x] := by
      rw [encodePoint_of_ascii hx]
      exact congrArg (fun y => some [y]) (UInt8.ofNat_toNat)
    have ht : encode (Bytes.toText b) = some b := ih hb
    simp only [Bytes.toText, List.map_cons, encode] at ht ⊢
    simp [hc, ht]

theorem hasSurrogate_of_isAscii {t : Text} (h : t.isAscii = true) : t.hasSurrogate = false := by
  rw [Text.hasSurrogate_eq_false_iff]
  intro c hc
  have hlow : c.val < 0x80 := by simpa using List.all_eq_true.1 h c hc
  simp only [CodePoint.isSurrogate, Bool.and_eq_false_iff, decide_eq_false_iff_not]
  omega

/-- An ASCII text is the text of the numbers of its bytes. -/
theorem exists_encode_of_isAscii {t : Text} (h : t.isAscii = true) :
    ∃ b, encode t = some b ∧ b.toText = t ∧ b.isAscii = true := by
  have hs := hasSurrogate_of_isAscii h
  obtain ⟨b, hb⟩ := exists_encode hs
  have hascii := (isAscii_iff_of_encode hb).1 h
  have hb' := encode_toText hascii
  have hs' := hasSurrogate_of_isAscii ((isAscii_iff_of_encode hb').2 hascii)
  -- both texts are read from the same bytes
  exact ⟨b, hb, (decode_encode hs' hb').symm.trans (decode_encode hs hb), hascii⟩

theorem zero_mem_encode {t : Text} {b : Bytes} (h : encode t = some b) : 0 ∈ b ↔ 0 ∈ t := by
  constructor
  · intro hb
    obtain ⟨c, hc, hv⟩ := mem_of_mem_encode h hb (by decide)
    obtain rfl : c = 0 := Fin.ext hv
    exact hc
  · intro ht
    induction t generalizing b with
    | nil => cases ht
    | cons c t ih =>
      obtain ⟨first, rest, hfirst, hrest, rfl⟩ := encode_cons_eq_some h
      obtain rfl | ht := List.mem_cons.1 ht
      · cases hfirst
        exact List.mem_cons_self
      · exact List.mem_append_right _ (ih hrest ht)

end Utf8

namespace Value

/-- Nothing is looked up by a text that is not ASCII. -/
theorem key?_of_not_isAscii {t : Text} (h : t.isAscii = false) (argument : String) :
    (text t).key? argument = .ok Option.none := by
  simp [key?, h]

/-- An ASCII text is looked up by its bytes. -/
theorem key?_of_isAscii {t : Text} (h : t.isAscii = true) {b : Bytes} (hb : Utf8.encode t = some b)
    (argument : String) : (text t).key? argument = .ok (some b) := by
  simp [key?, h, hb]

end Value
end ColorMarkup
