import ColorMarkup.Sink
/-!
# A sink as content and limit

Seen from outside, a sink is what it holds and the limit that further data must stay
below, if there is one. The limit shrinks by what is appended, so that the checks
of single pieces add up to one check of their sum.

Results:
* `Has.append`: an append adds its data and lowers the limit, or is refused as too
  small because the data reaches the limit.
* `ofCapacity_of_asInt?`: the sink made from a capacity.
* `open_cases`: the sink for a source, or why there is none.
-/
namespace ColorMarkup

/-- So many bytes stay below the limit, if there is one. -/
def Within (limit : Option Int) (n : Nat) : Prop := ∀ c ∈ limit, (n : Int) < c

theorem within_none (n : Nat) : Within none n := by simp [Within]

theorem within_some (c : Int) (n : Nat) : Within (some c) n ↔ (n : Int) < c := by simp [Within]

theorem Within.mono {limit : Option Int} {m n : Nat} (h : Within limit n) (hmn : m ≤ n) :
    Within limit m := by
  intro c hc
  have := h c hc
  omega

/-- A sum stays below the limit if its last part stays below what the first one leaves. -/
theorem within_add {limit : Option Int} (m n : Nat) :
    Within (limit.map (· - (m : Int))) n ↔ Within limit (m + n) := by
  cases limit with
  | none => simp [within_none]
  | some c => simp only [Option.map_some, within_some]; omega

/-- Lowering a limit twice lowers it by the sum. -/
theorem lower_lower (limit : Option Int) (m n : Nat) :
    (limit.map (· - (m : Int))).map (· - (n : Int)) = limit.map (· - ((m + n : Nat) : Int)) := by
  cases limit with
  | none => rfl
  | some c => simp only [Option.map_some, Option.some.injEq]; omega

namespace Sink

/-- The sink holds this content, and what is appended must stay below the limit. -/
def Has (b : Sink) (content : Bytes) (limit : Option Int) : Prop :=
  b.toBytes = content ∧
    ∃ room : Option Whole, b.room = room.map Amount.whole ∧ room.map Whole.toInt = limit

theorem Has.fits_iff {b : Sink} {content : Bytes} {limit : Option Int} (h : b.Has content limit)
    (n : Nat) : b.Fits n ↔ Within limit n := by
  obtain ⟨-, room, hr, rfl⟩ := h
  cases room <;> simp [Fits, Within, hr, Amount.atMost]

theorem take_error {b : Sink} {n : Nat} {e : Error} (h : b.take n = .error e) :
    ∃ cause, e = .capacity cause ∧ cause.isTooSmall = true := by
  unfold take at h
  split at h
  · cases h
  · split at h
    · cases h; exact ⟨_, rfl, rfl⟩
    · cases h

theorem ensureFits_error {b : Sink} {n : Nat} {e : Error} (h : b.ensureFits n = .error e) :
    ∃ cause, e = .capacity cause ∧ cause.isTooSmall = true := by
  unfold ensureFits at h
  split at h
  · cases h
  · split at h
    · cases h; exact ⟨_, rfl, rfl⟩
    · cases h

/-- An append adds its data if it stays below the limit, and is refused otherwise. -/
theorem Has.append {b : Sink} {content : Bytes} {limit : Option Int} (h : b.Has content limit)
    (data : Bytes) :
    (∃ b', b.append data = .ok b' ∧ Within limit data.length ∧
      b'.Has (content ++ data) (limit.map (· - (data.length : Int)))) ∨
    (∃ cause, b.append data = .error (.capacity cause) ∧ cause.isTooSmall = true ∧
      ¬ Within limit data.length) := by
  cases hb : b.append data with
  | ok b' =>
    have hfits := (append_isOk_iff b data).1 ⟨b', hb⟩
    refine .inl ⟨b', rfl, (h.fits_iff _).1 hfits, ?_⟩
    obtain ⟨rfl, room, hr, rfl⟩ := h
    refine ⟨toBytes_append hb, room.map fun w => .number (w.toInt - data.length), ?_, ?_⟩
    · rw [room_append hb, hr]
      cases room <;> rfl
    · cases room <;> rfl
  | error e =>
    obtain ⟨cause, rfl, hsmall⟩ : ∃ cause, e = .capacity cause ∧ cause.isTooSmall = true := by
      cases ht : b.take data.length with
      | ok t => simp [Sink.append, ht, Except.map] at hb
      | error e' =>
        simp only [Sink.append, ht, Except.map, Except.error.injEq] at hb
        exact hb ▸ take_error ht
    refine .inr ⟨cause, rfl, hsmall, fun hw => ?_⟩
    obtain ⟨b', hok⟩ := (append_isOk_iff b data).2 ((h.fits_iff _).2 hw)
    rw [hb] at hok
    cases hok

theorem has_unlimited : (⟨[], none⟩ : Sink).Has [] none := ⟨rfl, none, rfl, rfl⟩

/-- A whole capacity is refused if it is not positive, and is the limit otherwise. -/
theorem ofCapacity_of_asInt? {capacity : Value} {c : Int} (h : capacity.asInt? = some c) :
    (c < 1 ∧ ∃ given, ofCapacity capacity = .error (.capacity (.notPositive given))) ∨
    (1 ≤ c ∧ ∃ b, ofCapacity capacity = .ok b ∧ b.Has [] (some c)) := by
  obtain ⟨w, hw, rfl⟩ := Option.map_eq_some_iff.1 h
  have hof : ofCapacity capacity = if w.toInt < 1 then .error (.capacity (.notPositive (.whole w)))
      else .ok ⟨[], some (.whole w)⟩ := by
    cases capacity <;> simp [Value.whole?] at hw <;> subst hw <;>
      simp [ofCapacity, Value.amount?, Value.whole?, Amount.isBelow]
  by_cases hc : w.toInt < 1
  · exact .inl ⟨hc, .whole w, by rw [hof, if_pos hc]⟩
  · exact .inr ⟨by omega, _, by rw [hof, if_neg hc], rfl, some w, rfl, rfl⟩

/-- An operation starts with the sink of a whole capacity and a check of its source:
the capacity is refused, or the source is, or there is an empty sink. -/
theorem open_cases {capacity : Value} {c : Int} (h : capacity.asInt? = some c) (n : Nat) :
    (c < 1 ∧ ∃ given, ofCapacity capacity = .error (.capacity (.notPositive given))) ∨
    (1 ≤ c ∧ ¬ (n : Int) < c ∧ ∃ b cause, ofCapacity capacity = .ok b ∧
      b.ensureFits n = .error (.capacity cause) ∧ cause.isTooSmall = true) ∨
    (1 ≤ c ∧ (n : Int) < c ∧ ∃ b, ofCapacity capacity = .ok b ∧ b.ensureFits n = .ok () ∧
      b.Has [] (some c)) := by
  obtain hbad | ⟨hc, b, hb, hhas⟩ := ofCapacity_of_asInt? h
  · exact .inl hbad
  · have hfits := hhas.fits_iff n
    rw [within_some] at hfits
    cases he : b.ensureFits n with
    | ok u => exact .inr (.inr ⟨hc, hfits.1 ((ensureFits_isOk_iff b n).1 he), b, hb, he, hhas⟩)
    | error e =>
      obtain ⟨cause, rfl, hsmall⟩ := ensureFits_error he
      refine .inr (.inl ⟨hc, fun hn => ?_, b, cause, hb, he, hsmall⟩)
      rw [(ensureFits_isOk_iff b n).2 (hfits.2 hn)] at he
      cases he

end Sink
end ColorMarkup
