import ColorMarkup.Proofs.Capacity
import ColorMarkup.Proofs.Text.Character
/-!
# Sequences in a text and in its bytes

A sequence is ASCII, so each of its characters is one byte, and no byte of any other
character is one of a sequence. So the sequences of a text are those of its encoding, each
at the offset its characters have there, and removing them from the one is removing them
from the other.

Results:
* `match?_encode`: a text and its bytes start with the same sequence.
* `remove_encode`: what is left of the bytes encodes what is left of the text.
* `spans_encode`: the spans in bytes are those in characters by their offsets.
-/
namespace ColorMarkup

namespace Utf8

/-- The offset in bytes of a character of a text. -/
def byteOffset (t : Text) (n : Nat) : Nat := ((encode (t.take n)).getD []).length

theorem byteOffset_zero (t : Text) : byteOffset t 0 = 0 := rfl

theorem exists_encode_take {t : Text} {b : Bytes} (h : encode t = some b) (n : Nat) :
    ∃ b', encode (t.take n) = some b' := by
  rw [← Option.isSome_iff_exists, encode_isSome_iff]
  intro c hc
  exact (encode_isSome_iff t).1 (Option.isSome_of_eq_some h) c (List.mem_of_mem_take hc)

theorem byteOffset_cons {c : CodePoint} {t : Text} {b rest : Bytes} (hc : encodePoint c = some b)
    (ht : encode t = some rest) (n : Nat) : byteOffset (c :: t) (n + 1) = b.length + byteOffset t n := by
  obtain ⟨b', hb'⟩ := exists_encode_take ht n
  simp [byteOffset, encode, hc, hb']

/-- As long as all is ASCII, a character's offset is its number. -/
theorem byteOffset_of_ascii {t : Text} {b : Bytes} (h : encode t = some b) {n : Nat}
    (hn : n ≤ t.length) (hlow : ∀ c ∈ t.take n, c.val < 0x80) : byteOffset t n = n := by
  induction n generalizing t b with
  | zero => rfl
  | succ n ih =>
    cases t with
    | nil => cases hn
    | cons c t =>
      rw [List.take_succ_cons] at hlow
      obtain ⟨hc, ht⟩ := List.forall_mem_cons.1 hlow
      obtain ⟨b', rest, hb', hrest, -⟩ := encode_cons_eq_some h
      rw [byteOffset_cons (encodePoint_of_ascii hc) hrest, ih hrest (Nat.le_of_succ_le_succ hn) ht]
      simp [Nat.add_comm]

end Utf8

namespace Sgr

open Utf8

section Items

variable {α : Type} (number : α → Nat)

/-- What starts beyond ASCII closes no sequence. -/
theorem closing?_of_high {x : α} (h : 0x80 ≤ number x) (xs : List α) :
    closing? number (x :: xs) = none := by
  have hm : number x ≠ 0x6D := by omega
  have hp : isParameter (number x) = false := by
    simp only [isParameter, Bool.or_eq_false_iff, Bool.and_eq_false_iff, decide_eq_false_iff_not,
      beq_eq_false_iff_ne]
    omega
  simp [closing?, hm, hp]

theorem closing?_low {xs : List α} {n : Nat} (h : closing? number xs = some n) :
    ∀ x ∈ xs.take n, number x < 0x80 := by
  induction xs generalizing n with
  | nil => cases h
  | cons x xs ih =>
    have hx : number x < 0x80 := by
      refine Nat.lt_of_not_le fun hhigh => ?_
      rw [closing?_of_high number hhigh] at h
      cases h
    rw [closing?] at h
    split at h
    · cases h
      simpa using hx
    · split at h
      · obtain ⟨k, hk, rfl⟩ := Option.map_eq_some_iff.1 h
        exact List.forall_mem_cons.2 ⟨hx, ih hk⟩
      · cases h

theorem match?_cons_cons (x y : α) (xs : List α) :
    match? number (x :: y :: xs) =
      if number x = 0x1B ∧ number y = 0x5B then (closing? number xs).map (· + 2) else none := rfl

/-- A sequence is ASCII. -/
theorem match?_low {xs : List α} {n : Nat} (h : match? number xs = some n) :
    ∀ x ∈ xs.take n, number x < 0x80 := by
  cases xs with
  | nil => cases h
  | cons x xs =>
    cases xs with
    | nil => cases h
    | cons y xs =>
      rw [match?_cons_cons] at h
      split at h
      · next hxy =>
        obtain ⟨k, hk, rfl⟩ := Option.map_eq_some_iff.1 h
        refine List.forall_mem_cons.2 ⟨by omega, List.forall_mem_cons.2 ⟨by omega, ?_⟩⟩
        exact closing?_low number hk
      · cases h

theorem spansFrom_append_of_plain (pos : Nat) (p xs : List α) (h : ∀ x ∈ p, number x ≠ 0x1B) :
    spansFrom number pos 0 (p ++ xs) = spansFrom number (pos + p.length) 0 xs := by
  induction p generalizing pos with
  | nil => rfl
  | cons x p ih =>
    obtain ⟨hx, hp⟩ := List.forall_mem_cons.1 h
    rw [List.cons_append, spansFrom, match?_none_of_head_ne number hx]
    simp only [ih _ hp, List.length_cons]
    rw [Nat.add_assoc, Nat.add_comm 1]

end Items

theorem closing?_encode {t : Text} {src : Bytes} (h : encode t = some src) :
    closing? UInt8.toNat src = closing? Fin.val t := by
  induction t generalizing src with
  | nil => cases h; rfl
  | cons c t ih =>
    obtain ⟨x, rest, rfl, -, hx, -, ht⟩ | ⟨b, rest, rfl, -, hne, hhigh, hc, -⟩ := encode_cons_cases h
    · rw [closing?, closing?, hx, ih ht]
    · cases b with
      | nil => exact absurd rfl hne
      | cons x b =>
        rw [List.cons_append, closing?_of_high _ (hhigh x (by simp)), closing?_of_high _ hc]

/-- A text and its bytes start with the same sequence, or with none. -/
theorem match?_encode {t : Text} {src : Bytes} (h : encode t = some src) :
    match? UInt8.toNat src = match? Fin.val t := by
  cases t with
  | nil => cases h; rfl
  | cons c t =>
    obtain ⟨x, rest, rfl, -, hx, -, ht⟩ | ⟨b, rest, rfl, -, hne, hhigh, hc, -⟩ := encode_cons_cases h
    · cases t with
      | nil => cases ht; rfl
      | cons d t =>
        obtain ⟨y, rest, rfl, -, hy, -, ht⟩ | ⟨b, rest, rfl, -, hne, hhigh, hd, -⟩ :=
          encode_cons_cases ht
        · rw [match?_cons_cons, match?_cons_cons, hx, hy, closing?_encode ht]
        · cases b with
          | nil => exact absurd rfl hne
          | cons y b =>
            have hy := hhigh y (by simp)
            rw [List.cons_append, match?_cons_cons, match?_cons_cons, if_neg (by omega), if_neg (by omega)]
    · cases b with
      | nil => exact absurd rfl hne
      | cons x b =>
        have hx := hhigh x (by simp)
        rw [List.cons_append, match?_none_of_head_ne _ (by omega), match?_none_of_head_ne _ (by omega)]

theorem removeFrom_encode {t : Text} {src : Bytes} (h : encode t = some src) {skip : Nat}
    (hskip : ∀ c ∈ t.take skip, c.val < 0x80) :
    encode (removeFrom Fin.val skip t) = some (removeFrom UInt8.toNat skip src) := by
  induction t generalizing src skip with
  | nil => cases h; simp [removeFrom, encode]
  | cons c t ih =>
    have hmatch := match?_encode h
    obtain ⟨x, rest, rfl, hcx, hx, -, ht⟩ | ⟨b, rest, rfl, hcb, -, hhigh, hc, ht⟩ := encode_cons_cases h
    · cases skip with
      | succ skip => exact ih ht (List.forall_mem_cons.1 hskip).2
      | zero =>
        rw [removeFrom, removeFrom, hmatch]
        cases hm : match? Fin.val (c :: t) with
        | none =>
          have hrest : encode (removeFrom Fin.val 0 t) = some (removeFrom UInt8.toNat 0 rest) :=
            ih ht (by simp)
          simp [encode, hcx, hrest]
        | some n =>
          have hlow := match?_low _ hm
          cases n with
          | zero => exact ih ht (by simp)
          | succ n => exact ih ht (List.forall_mem_cons.1 hlow).2
    · cases skip with
      | succ skip =>
        have := (List.forall_mem_cons.1 hskip).1
        omega
      | zero =>
        have hplain : ∀ x ∈ b, x.toNat ≠ 0x1B := fun x hx => by have := hhigh x hx; omega
        have hkept := remove_append_of_plain UInt8.toNat b rest hplain
        rw [remove, remove] at hkept
        have hrest : encode (removeFrom Fin.val 0 t) = some (removeFrom UInt8.toNat 0 rest) :=
          ih ht (by simp)
        rw [removeFrom, match?_none_of_head_ne _ (by omega), hkept]
        simp [encode, hcb, hrest]

/-- What is left of the bytes of a text without its sequences encodes what is left of the
text. -/
theorem remove_encode {t : Text} {src : Bytes} (h : encode t = some src) :
    encode (remove Fin.val t) = some (remove UInt8.toNat src) :=
  removeFrom_encode h (by simp)

/-- Spans from some position on, where `f` takes the number of a character to its offset. -/
theorem spansFrom_encode {t : Text} {src : Bytes} (h : encode t = some src) {skip : Nat}
    (hskip : ∀ c ∈ t.take skip, c.val < 0x80) {pos offset : Nat} {f : Nat → Nat}
    (hf : ∀ n, f (pos + n) = offset + byteOffset t n) :
    spansFrom UInt8.toNat offset skip src =
      (spansFrom Fin.val pos skip t).map fun s => (f s.1, f s.2) := by
  induction t generalizing src skip pos offset with
  | nil => cases h; simp [spansFrom]
  | cons c t ih =>
    have hmatch := match?_encode h
    obtain ⟨b', rest', hb', hrest', -⟩ := encode_cons_eq_some h
    have hf' : ∀ n, f (pos + 1 + n) = offset + b'.length + byteOffset t n := by
      intro n
      rw [Nat.add_assoc, Nat.add_comm 1, hf, byteOffset_cons hb' hrest', Nat.add_assoc]
    obtain ⟨x, rest, rfl, hcx, hx, -, ht⟩ | ⟨b, rest, rfl, hcb, -, hhigh, hc, ht⟩ := encode_cons_cases h
    · obtain rfl := Option.some.inj (hb'.symm.trans hcx)
      cases skip with
      | succ skip => exact ih ht (List.forall_mem_cons.1 hskip).2 hf'
      | zero =>
        rw [spansFrom, spansFrom, hmatch]
        cases hm : match? Fin.val (c :: t) with
        | none => exact ih ht (by simp) hf'
        | some n =>
          have hlow := match?_low _ hm
          have hlen := (match?_le_length _ hm).2
          have hstart : f pos = offset := by simpa [byteOffset_zero] using hf 0
          have hstop : f (pos + n) = offset + n := by rw [hf, byteOffset_of_ascii h hlen hlow]
          have hrest : ∀ c ∈ t.take (n - 1), c.val < 0x80 := by
            cases n with
            | zero => simp
            | succ n => exact (List.forall_mem_cons.1 hlow).2
          simp only [List.map_cons, hstart, hstop]
          exact congrArg ((offset, offset + n) :: ·) (ih ht hrest hf')
    · obtain rfl := Option.some.inj (hb'.symm.trans hcb)
      cases skip with
      | succ skip =>
        have := (List.forall_mem_cons.1 hskip).1
        omega
      | zero =>
        have hplain : ∀ x ∈ b', x.toNat ≠ 0x1B := fun x hx => by have := hhigh x hx; omega
        rw [spansFrom_append_of_plain _ _ _ _ hplain, spansFrom, match?_none_of_head_ne _ (by omega)]
        exact ih ht (by simp) hf'

/-- The spans of the sequences in the bytes of a text are those in the text, by the offsets
of their characters. -/
theorem spans_encode {t : Text} {src : Bytes} (h : encode t = some src) :
    spans UInt8.toNat src =
      (spans Fin.val t).map fun s => (byteOffset t s.1, byteOffset t s.2) :=
  spansFrom_encode h (by simp) (by simp)

end Sgr

/-! ## Written sequences -/

namespace Escape

/-- A written sequence is ASCII. -/
theorem sequenceBytes_isAscii {params : List Int} (h : ∀ p ∈ params, 0 ≤ p) :
    (sequenceBytes params).isAscii = true := by
  rw [Bytes.isAscii_iff]
  intro x hx
  simp only [sequenceBytes, introducer, List.mem_append, List.mem_cons,
    List.not_mem_nil, or_false] at hx
  rcases hx with ((rfl | rfl) | hx) | rfl
  · decide
  · decide
  · have := joinParams_isParameter h x hx
    simp only [Sgr.isParameter, Bool.or_eq_true, Bool.and_eq_true, decide_eq_true_eq, beq_iff_eq] at this
    omega
  · decide

/-- The text of a sequence is encoded as its bytes. -/
theorem encode_sequence {params : List Int} (h : ∀ p ∈ params, 0 ≤ p) :
    Utf8.encode (sequence params).text = some (sequence params).bytes ∧
      (sequence params).text.hasSurrogate = false := by
  have hascii := sequenceBytes_isAscii h
  have hencode := Utf8.encode_toText hascii
  exact ⟨hencode, Utf8.hasSurrogate_of_isAscii ((Utf8.isAscii_iff_of_encode hencode).2 hascii)⟩

end Escape
end ColorMarkup
