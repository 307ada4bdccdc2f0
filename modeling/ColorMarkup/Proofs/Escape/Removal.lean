import ColorMarkup.Escape.Basic
import ColorMarkup.Escape.Strip
/-!
# Written sequences are removed whole

A written sequence is an introducer, its parameters in decimal with semicolons
between them, and the final letter. Whatever stands behind it, it is matched from its
first byte to its last one, so removing sequences takes out all of it and nothing else.

Results:
* `remove_sequenceBytes_append`: a sequence of natural parameters in front is removed.
* `remove_sublist`: what is left are bytes of the source in their order.
* `mem_remove`: an item that can stand in no sequence is left.
* `outside_spans`: what is left is what stands outside the spans of the sequences.
* `Escape.sequenceBytes_ne_zero`: a written sequence holds no zero byte.
-/
namespace ColorMarkup

namespace Sgr

variable {α : Type} (number : α → Nat)

theorem removeFrom_sublist (skip : Nat) (xs : List α) : (removeFrom number skip xs).Sublist xs := by
  induction xs generalizing skip with
  | nil => simp [removeFrom]
  | cons x xs ih =>
    cases skip with
    | succ skip => exact (ih skip).cons x
    | zero =>
      rw [removeFrom]
      split
      · exact (ih _).cons x
      · exact (ih 0).cons_cons x

/-- What is left by removing sequences are items of the source, in their order. -/
theorem remove_sublist (xs : List α) : (remove number xs).Sublist xs := removeFrom_sublist number 0 xs

theorem removeFrom_skip (p xs : List α) : removeFrom number p.length (p ++ xs) = remove number xs := by
  induction p with
  | nil => rfl
  | cons x p ih => simpa [removeFrom] using ih

/-- A match in front is removed. -/
theorem remove_append_of_match {s xs : List α} (h : match? number (s ++ xs) = some s.length) :
    remove number (s ++ xs) = remove number xs := by
  cases s with
  | nil => rfl
  | cons x s =>
    rw [List.cons_append] at h ⊢
    simp only [remove, removeFrom, h, List.length_cons, Nat.add_sub_cancel]
    exact removeFrom_skip number s xs

/-! ## Only parts of sequences are removed -/

/-- Can this number stand in a sequence? -/
def isPart (n : Nat) : Bool := n == 0x1B || n == 0x5B || isParameter n || n == 0x6D

theorem isPart_of_isParameter {n : Nat} (h : isParameter n = true) : isPart n = true := by
  simp [isPart, h]

theorem closing?_isPart {xs : List α} {n : Nat} (h : closing? number xs = some n) :
    ∀ x ∈ xs.take n, isPart (number x) = true := by
  induction xs generalizing n with
  | nil => cases h
  | cons x xs ih =>
    rw [closing?] at h
    split at h
    · next hx =>
      cases h
      simp [isPart, hx]
    · split at h
      · next hx =>
        obtain ⟨k, hk, rfl⟩ := Option.map_eq_some_iff.1 h
        exact List.forall_mem_cons.2 ⟨isPart_of_isParameter hx, ih hk⟩
      · cases h

theorem match?_isPart {xs : List α} {n : Nat} (h : match? number xs = some n) :
    ∀ x ∈ xs.take n, isPart (number x) = true := by
  unfold match? at h
  split at h
  · next esc bracket rest =>
    split at h
    · next hx =>
      obtain ⟨k, hk, rfl⟩ := Option.map_eq_some_iff.1 h
      exact List.forall_mem_cons.2 ⟨by simp [isPart, hx.1],
        List.forall_mem_cons.2 ⟨by simp [isPart, hx.2], closing?_isPart number hk⟩⟩
    · cases h
  · cases h

theorem mem_removeFrom {x : α} (hx : isPart (number x) = false) {skip : Nat} {xs : List α}
    (h : x ∈ xs.drop skip) : x ∈ removeFrom number skip xs := by
  induction xs generalizing skip with
  | nil => simp at h
  | cons y xs ih =>
    cases skip with
    | succ skip => exact ih h
    | zero =>
      rw [removeFrom]
      cases hm : match? number (y :: xs) with
      | none => exact (List.mem_cons.1 h).elim (· ▸ List.mem_cons_self) fun h => .tail _ (ih h)
      | some n =>
        -- what is not part of the match stands behind it
        obtain ⟨k, rfl⟩ : ∃ k, n = k + 1 := ⟨n - 1, by have := match?_le_length number hm; omega⟩
        rw [List.drop_zero, ← List.take_append_drop (k + 1) (y :: xs), List.mem_append] at h
        obtain h | h := h
        · rw [match?_isPart number hm x h] at hx
          cases hx
        · exact ih h

/-- An item that can stand in no sequence is kept. -/
theorem mem_remove {x : α} (hx : isPart (number x) = false) {xs : List α} (h : x ∈ xs) :
    x ∈ remove number xs := mem_removeFrom number hx h

/-! ## What is left is outside the spans -/

/-- What stands outside spans from position `pos` on, each span behind the one before. -/
def outsideFrom (xs : List α) : Nat → List (Nat × Nat) → List α
  | pos, [] => xs.drop pos
  | pos, s :: rest => (xs.drop pos).take (s.1 - pos) ++ outsideFrom xs s.2 rest

/-- What stands outside spans. -/
def outside (spans : List (Nat × Nat)) (xs : List α) : List α := outsideFrom xs 0 spans

theorem spansFrom_le {pos skip : Nat} {xs : List α} {s : Nat × Nat}
    (h : s ∈ spansFrom number pos skip xs) : pos ≤ s.1 := by
  induction xs generalizing pos skip with
  | nil => simp [spansFrom] at h
  | cons x xs ih =>
    cases skip with
    | succ skip => exact Nat.le_of_succ_le (ih h)
    | zero =>
      rw [spansFrom] at h
      split at h
      · obtain rfl | h := List.mem_cons.1 h
        · exact Nat.le_refl _
        · exact Nat.le_of_succ_le (ih h)
      · exact Nat.le_of_succ_le (ih h)

/-- What no span starts at stands outside. -/
theorem outsideFrom_cons {full xs : List α} {pos : Nat} {x : α} (h : full.drop pos = x :: xs)
    {spans : List (Nat × Nat)} (hs : ∀ s ∈ spans, pos + 1 ≤ s.1) :
    outsideFrom full pos spans = x :: outsideFrom full (pos + 1) spans := by
  have hdrop : full.drop (pos + 1) = xs := by rw [← List.drop_drop, h]; rfl
  cases spans with
  | nil => simp [outsideFrom, h, hdrop]
  | cons s rest =>
    have hlen : s.1 - pos = s.1 - (pos + 1) + 1 := by
      have := hs s (by simp)
      omega
    simp [outsideFrom, h, hdrop, hlen]

theorem outsideFrom_spansFrom (full : List α) (skip : Nat) {pos : Nat} {xs : List α} (h : full.drop pos = xs) :
    outsideFrom full (pos + skip) (spansFrom number pos skip xs) = removeFrom number skip xs := by
  induction xs generalizing pos skip with
  | nil =>
    rw [spansFrom, outsideFrom, removeFrom, ← List.drop_drop, h, List.drop_nil]
  | cons x xs ih =>
    have hdrop : full.drop (pos + 1) = xs := by rw [← List.drop_drop, h]; rfl
    cases skip with
    | succ skip =>
      rw [spansFrom, removeFrom, ← ih skip hdrop, Nat.add_assoc, Nat.add_comm 1]
    | zero =>
      rw [spansFrom, removeFrom]
      cases hm : match? number (x :: xs) with
      | none =>
        rw [Nat.add_zero, outsideFrom_cons h fun s hs => spansFrom_le number hs]
        exact congrArg (x :: ·) (ih 0 hdrop)
      | some n =>
        have hn : pos + n = pos + 1 + (n - 1) := by
          have := match?_le_length number hm
          omega
        simp only [outsideFrom, Nat.add_zero, Nat.sub_self, List.take_zero, List.nil_append, hn]
        exact ih (n - 1) hdrop

/-- What is left is what stands outside the spans. -/
theorem outside_spans (xs : List α) : outside (spans number xs) xs = remove number xs :=
  outsideFrom_spansFrom number xs 0 rfl

/-! ## A written sequence -/

theorem closing?_append {ps : List α} (hps : ∀ x ∈ ps, isParameter (number x) = true) {c : α}
    (hc : number c = 0x6D) (rest : List α) :
    closing? number (ps ++ c :: rest) = some (ps.length + 1) := by
  induction ps with
  | nil => simp [closing?, hc]
  | cons x ps ih =>
    have hx := hps x (by simp)
    have hne : number x ≠ 0x6D := by intro he; rw [he] at hx; cases hx
    simp [closing?, hx, hne, ih fun y hy => hps y (by simp [hy])]

end Sgr

namespace Escape

theorem isParameter_of_isDigit {b : UInt8} (h : Decimal.isDigit b = true) :
    Sgr.isParameter b.toNat = true := by
  simp only [Decimal.isDigit, Bool.and_eq_true, decide_eq_true_eq, UInt8.le_iff_toNat_le] at h
  have h' : 0x30 ≤ b.toNat ∧ b.toNat ≤ 0x39 := h
  simp [Sgr.isParameter, h']

theorem ofInt_isParameter {n : Int} (h : 0 ≤ n) :
    ∀ b ∈ Decimal.ofInt n, Sgr.isParameter b.toNat = true := by
  intro b hb
  rw [Decimal.ofInt, if_neg (by omega)] at hb
  exact isParameter_of_isDigit (Decimal.ofNat_isDigit _ b hb)

theorem joinParams_isParameter {params : List Int} (h : ∀ p ∈ params, 0 ≤ p) :
    ∀ b ∈ joinParams params, Sgr.isParameter b.toNat = true := by
  induction params with
  | nil => simp [joinParams]
  | cons p params ih =>
    have hp := ofInt_isParameter (h p (by simp))
    cases params with
    | nil => exact hp
    | cons q params =>
      intro b hb
      rw [joinParams, List.mem_append, List.mem_cons] at hb
      · rcases hb with hb | rfl | hb
        · exact hp b hb
        · decide
        · exact ih (fun x hx => h x (by simp [hx])) b hb
      · simp

theorem match?_sequenceBytes {params : List Int} (h : ∀ p ∈ params, 0 ≤ p) (rest : Bytes) :
    Sgr.match? UInt8.toNat (sequenceBytes params ++ rest) = some (sequenceBytes params).length := by
  have hclose := Sgr.closing?_append UInt8.toNat (joinParams_isParameter h) (c := 0x6D) rfl rest
  simp [sequenceBytes, introducer, Sgr.match?, hclose]

/-- A written sequence in front of any bytes is removed, and nothing else with it. -/
theorem remove_sequenceBytes_append {params : List Int} (h : ∀ p ∈ params, 0 ≤ p) (rest : Bytes) :
    Sgr.remove UInt8.toNat (sequenceBytes params ++ rest) = Sgr.remove UInt8.toNat rest :=
  Sgr.remove_append_of_match UInt8.toNat (match?_sequenceBytes h rest)

/-- A written sequence holds no zero byte. -/
theorem sequenceBytes_ne_zero {params : List Int} (h : ∀ p ∈ params, 0 ≤ p) :
    ∀ b ∈ sequenceBytes params, b ≠ 0 := by
  rintro b hb rfl
  simp only [sequenceBytes, introducer, List.mem_append, List.mem_cons, List.not_mem_nil,
    or_false] at hb
  rcases hb with ((hb | hb) | hb) | hb
  · cases hb
  · cases hb
  · exact absurd (joinParams_isParameter h 0 hb) (by decide)
  · cases hb

end Escape
end ColorMarkup
