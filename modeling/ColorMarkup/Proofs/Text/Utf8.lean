import ColorMarkup.Text.Utf8
/-!
# Every byte string is the encoding of its text

Decoding reads a well-formed sequence as its character and any other byte as the
surrogate that stands for it. Both are written as the bytes that were read, so the
encoding of what is decoded is the byte string itself.

Results:
* `sequence?_encodePoint`: a character read from the head is written as the bytes read.
* `encode_decode`: a byte string is read back from the text it decodes to.
* `mem_of_mem_encode`: an ASCII byte is in an encoding only for its own code point.
-/
namespace ColorMarkup.Utf8

theorem character?_eq_some {least n : Nat} {c : CodePoint} (h : character? least n = some c) :
    c.val = n ∧ least ≤ n ∧ c.isSurrogate = false := by
  obtain ⟨hc, hp⟩ := Option.filter_eq_some_iff.1 h
  unfold CodePoint.ofNat? at hc
  split at hc
  · cases hc
    simpa using hp
  · cases hc

theorem isTail_iff (b : UInt8) : isTail b = true ↔ 0x80 ≤ b.toNat ∧ b.toNat ≤ 0xBF := by
  simp [isTail, UInt8.le_iff_toNat_le]

theorem ofNat_eq {n : Nat} {b : UInt8} (h : n = b.toNat) : UInt8.ofNat n = b := by
  rw [h, UInt8.ofNat_toNat]

/-- The surrogate of a byte that is no ASCII is written as that byte. -/
theorem encodePoint_escapeByte {b : UInt8} (h : 0x80 ≤ b.toNat) :
    encodePoint (escapeByte b) = some [b] := by
  have hb := b.toNat_lt
  have hv : (escapeByte b).val = 0xDC00 + b.toNat := rfl
  have hs : (escapeByte b).isSurrogate = true := by simp [CodePoint.isSurrogate, hv]; omega
  have he : (escapeByte b).isEscapedByte = true := by simp [CodePoint.isEscapedByte, hv]; omega
  simp only [encodePoint, hs, he, hv, if_true]
  rw [if_neg (by omega), if_neg (by omega), ofNat_eq (b := b) (by omega)]

/-! ## Sequences of two to four bytes -/

section Sequence

variable {a b d e : UInt8} {c : CodePoint}

theorem encodePoint_two (ha : 0xC0 ≤ a.toNat ∧ a.toNat < 0xE0) (hb : isTail b = true)
    (h : character? 0x80 ((a.toNat - 0xC0) * 64 + payload b) = some c) :
    encodePoint c = some [a, b] := by
  obtain ⟨hv, hl, -⟩ := character?_eq_some h
  rw [isTail_iff] at hb
  unfold payload at hv hl
  simp only [encodePoint]
  rw [if_neg (by omega), if_pos (by omega), ofNat_eq (b := a) (by omega),
    ofNat_eq (b := b) (by omega)]

theorem encodePoint_three (ha : 0xE0 ≤ a.toNat ∧ a.toNat < 0xF0) (hb : isTail b = true)
    (hd : isTail d = true)
    (h : character? 0x800 ((a.toNat - 0xE0) * 4096 + payload b * 64 + payload d) = some c) :
    encodePoint c = some [a, b, d] := by
  obtain ⟨hv, hl, hs⟩ := character?_eq_some h
  rw [isTail_iff] at hb hd
  unfold payload at hv hl
  simp only [encodePoint, hs]
  rw [if_neg (by omega), if_neg (by omega), if_neg (by decide), if_pos (by omega),
    ofNat_eq (b := a) (by omega), ofNat_eq (b := b) (by omega), ofNat_eq (b := d) (by omega)]

theorem encodePoint_four (ha : 0xF0 ≤ a.toNat) (hb : isTail b = true) (hd : isTail d = true)
    (he : isTail e = true)
    (h : character? 0x10000 ((a.toNat - 0xF0) * 262144 + payload b * 4096 + payload d * 64 +
      payload e) = some c) :
    encodePoint c = some [a, b, d, e] := by
  obtain ⟨hv, hl, hs⟩ := character?_eq_some h
  rw [isTail_iff] at hb hd he
  have hc := c.isLt
  unfold payload at hv hl
  simp only [encodePoint, hs]
  rw [if_neg (by omega), if_neg (by omega), if_neg (by decide), if_neg (by omega),
    ofNat_eq (b := a) (by omega), ofNat_eq (b := b) (by omega), ofNat_eq (b := d) (by omega),
    ofNat_eq (b := e) (by omega)]

end Sequence

/-- A character read from the head of a byte string is written as the bytes it was read
from. -/
theorem sequence?_encodePoint {a : UInt8} {t : Bytes} {c : CodePoint} {more : Nat}
    (h : sequence? (a :: t) = some (c, more)) :
    more ≤ t.length ∧ encodePoint c = some (a :: t.take more) := by
  simp only [sequence?] at h
  split at h
  · next h1 =>
    cases h
    refine ⟨Nat.zero_le _, ?_⟩
    simp only [encodePoint, CodePoint.ofByte, if_pos h1, List.take_zero, UInt8.ofNat_toNat]
  split at h
  · cases h
  split at h
  · next h2 h3 =>
    split at h
    · next b t =>
      split at h
      · next hb =>
        obtain ⟨c, hc, hr⟩ := Option.map_eq_some_iff.1 h
        cases hr
        exact ⟨by simp, encodePoint_two ⟨by omega, h3⟩ hb hc⟩
      · cases h
    · cases h
  split at h
  · next h3 h4 =>
    split at h
    · next b d t =>
      split at h
      · next hbd =>
        obtain ⟨c, hc, hr⟩ := Option.map_eq_some_iff.1 h
        cases hr
        obtain ⟨hb, hd⟩ := Bool.and_eq_true_iff.1 hbd
        exact ⟨by simp, encodePoint_three ⟨by omega, h4⟩ hb hd hc⟩
      · cases h
    · cases h
  · next h4 =>
    split at h
    · next b d e t =>
      split at h
      · next hbde =>
        obtain ⟨c, hc, hr⟩ := Option.map_eq_some_iff.1 h
        cases hr
        obtain ⟨hbd, he⟩ := Bool.and_eq_true_iff.1 hbde
        obtain ⟨hb, hd⟩ := Bool.and_eq_true_iff.1 hbd
        exact ⟨by simp, encodePoint_four (by omega) hb hd he hc⟩
      · cases h
    · cases h

/-! ## Decoding from the head -/

theorem decodeFrom_drop (skip : Nat) (b : Bytes) : decodeFrom skip b = decode (b.drop skip) := by
  induction b generalizing skip with
  | nil => simp [decode, decodeFrom]
  | cons a t ih =>
    cases skip with
    | zero => rfl
    | succ skip => exact ih skip

/-- One step: a character and the bytes behind it, or the first byte by itself. -/
theorem decode_cons (a : UInt8) (t : Bytes) :
    decode (a :: t) =
      match sequence? (a :: t) with
      | some (c, more) => c :: decode (t.drop more)
      | none => escapeByte a :: decode t := by
  cases h : sequence? (a :: t) with
  | none => simp only [decode, decodeFrom, h]
  | some r => simp only [decode, decodeFrom, h, decodeFrom_drop r.2 t]

theorem sequence?_none {a : UInt8} {t : Bytes} (h : sequence? (a :: t) = none) : 0x80 ≤ a.toNat := by
  rcases Nat.lt_or_ge a.toNat 0x80 with hlt | hge
  · simp [sequence?, hlt] at h
  · exact hge

/-- Every byte string is the encoding of the text it decodes to. -/
theorem encode_decode (b : Bytes) : encode (decode b) = some b := by
  -- a step drops a whole sequence, so the induction is on the length
  induction hn : b.length using Nat.strongRecOn generalizing b with
  | ind n ih =>
    cases b with
    | nil => rfl
    | cons a t =>
      rw [decode_cons]
      cases hs : sequence? (a :: t) with
      | none =>
        have ht := ih t.length (by simp [← hn]) t rfl
        simp [encode, encodePoint_escapeByte (sequence?_none hs), ht]
      | some r =>
        obtain ⟨c, more⟩ := r
        obtain ⟨hmore, hc⟩ := sequence?_encodePoint hs
        have hlt : (t.drop more).length < n := by
          rw [← hn, List.length_drop, List.length_cons]
          omega
        have ht := ih (t.drop more).length hlt (t.drop more) rfl
        simp [encode, hc, ht]

/-! ## ASCII bytes -/

/-- Only its own code point is written with an ASCII byte. -/
theorem val_of_mem_encodePoint {c : CodePoint} {b : Bytes} {x : UInt8} (h : encodePoint c = some b)
    (hx : x ∈ b) (hlow : x.toNat < 0x80) : c.val = x.toNat := by
  have hc := c.isLt
  unfold encodePoint at h
  dsimp only at h
  split at h
  · cases h
    simp only [List.mem_singleton] at hx
    rw [hx, UInt8.toNat_ofNat']
    omega
  split at h
  · cases h
    simp only [List.mem_cons, List.not_mem_nil, or_false] at hx
    rcases hx with rfl | rfl <;> rw [UInt8.toNat_ofNat'] at hlow <;> omega
  split at h
  · next hs =>
    split at h
    · next he =>
      cases h
      simp only [CodePoint.isEscapedByte, Bool.and_eq_true, decide_eq_true_eq] at he
      rw [List.mem_singleton.1 hx, UInt8.toNat_ofNat'] at hlow
      omega
    · cases h
  split at h
  · cases h
    simp only [List.mem_cons, List.not_mem_nil, or_false] at hx
    rcases hx with rfl | rfl | rfl <;> rw [UInt8.toNat_ofNat'] at hlow <;> omega
  · cases h
    simp only [List.mem_cons, List.not_mem_nil, or_false] at hx
    rcases hx with rfl | rfl | rfl | rfl <;> rw [UInt8.toNat_ofNat'] at hlow <;> omega

/-- An ASCII byte stands in an encoding only for its own code point. -/
theorem mem_of_mem_encode {t : Text} {b : Bytes} {x : UInt8} (h : encode t = some b) (hx : x ∈ b)
    (hlow : x.toNat < 0x80) : ∃ c ∈ t, c.val = x.toNat := by
  induction t generalizing b with
  | nil => cases h; cases hx
  | cons c t ih =>
    obtain ⟨b1, h1, h⟩ := Option.bind_eq_some_iff.1 h
    obtain ⟨b2, h2, rfl⟩ := Option.map_eq_some_iff.1 h
    rcases List.mem_append.1 hx with hx | hx
    · exact ⟨c, by simp, val_of_mem_encodePoint h1 hx hlow⟩
    · obtain ⟨d, hd, hv⟩ := ih h2 hx
      exact ⟨d, by simp [hd], hv⟩

end ColorMarkup.Utf8
