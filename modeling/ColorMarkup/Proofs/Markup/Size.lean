import ColorMarkup.Proofs.Escape.Length
import ColorMarkup.Proofs.Markup.Cut
import ColorMarkup.Proofs.Target
/-!
# How long results are

Removing tags or sequences makes no text longer. Replacing tags makes it longer by the ratio of
17 to 5 at most, because each escape is at most so much longer than its tag and all other text is
kept. So the length of a source says how large a buffer for the result must be. The ratio is met
by texts that name one color all along, and such texts have every length that five divides.

Results:
* `product_replace_length`: one occurrence and what is written for it.
* `conversion_replace_length`: a text and what replacing its tags gives.
* `conversion_steepest`: texts that meet the ratio.
* `output_size`: the lengths of results, and the room that is enough for them.
-/
namespace ColorMarkup.Markup

theorem replacement?_length {body data : Bytes} {m m' : Mode}
    (h : replacement? .replace body m = some (data, m')) :
    5 * data.length ≤ 17 * (body.length + 2) := by
  unfold replacement? at h
  split at h
  · cases hbody : Meaning.ofBody? body with
    | none => simp [hbody] at h
    | some meaning =>
      cases hc : meaning.modeChange? with
      | some e =>
        obtain ⟨rfl, -⟩ : data = [] ∧ Meaning.applyChange e m = m' := by simpa [hbody, hc, eq_comm] using h
        simp
      | none =>
        simp only [hbody, hc] at h
        split at h
        · next e hbuild =>
          obtain ⟨rfl, -⟩ : e.bytes = data ∧ m = m' := by simpa using h
          exact Meaning.length_build hbody hbuild
        · cases h
  · cases h

theorem product_replace_length (o : Occurrence) (start : Nat) (m : Mode) :
    5 * (o.product .replace start m).bytes.length ≤ 17 * o.source.length := by
  have hsource : o.source.length = o.before.length + (o.body.length + 2) := by
    simp [Occurrence.source, Occurrence.bracketed]
  unfold Occurrence.product
  split
  · next data m' h =>
    have hdata := replacement?_length h
    simp only [List.length_append, hsource]
    omega
  · dsimp only
    omega

/-- Replacing tags makes a text longer by 17 to 5 at most. -/
theorem conversion_replace_length (src : Bytes) (m : Mode) :
    5 * (conversion .replace src m).bytes.length ≤ 17 * src.length := by
  have h := conversionFrom_length_le (by decide : 5 ≤ 17) product_replace_length
    (scan src).tail (scan src).occurrences 0 m
  rwa [show Scan.mk (scan src).occurrences (scan src).tail = scan src from rfl, join_scan] at h

/-! ## The ratio is met -/

/-- The tag of three letters whose color has two channels of three digits. -/
def steepest : Occurrence := ⟨[], Bytes.ofString "tan"⟩

theorem steepest_product (d : Direction) :
    (steepest.product .replace 0 ⟨.twentyFour, d⟩).mode = ⟨.twentyFour, d⟩ ∧
      (steepest.product .replace 0 ⟨.twentyFour, d⟩).bytes.length = 17 := by
  cases d <;> decide +kernel

/-- That tag a number of times. -/
def steepestText (k : Nat) : Bytes := (List.replicate k steepest).flatMap Occurrence.source

theorem steepestText_succ (k : Nat) : steepestText (k + 1) = steepest.source ++ steepestText k := rfl

theorem steepestText_ne_zero (k : Nat) : ∀ x ∈ steepestText k, x ≠ 0 := by
  induction k with
  | zero => simp [steepestText]
  | succ k ih =>
    have hsource : ∀ x ∈ steepest.source, x ≠ 0 := by decide +kernel
    rw [steepestText_succ]
    exact List.forall_mem_append.2 ⟨hsource, ih⟩

theorem conversion_steepest (d : Direction) (k : Nat) :
    (steepestText k).length = 5 * k ∧
      (conversion .replace (steepestText k) ⟨.twentyFour, d⟩).bytes.length = 17 * k := by
  obtain ⟨hmode, hlen⟩ := steepest_product d
  induction k with
  | zero => exact ⟨rfl, rfl⟩
  | succ k ih =>
    have hunpaired : Unpaired steepest.before := List.Pairwise.nil
    have hbody : NoBrackets steepest.body := by
      unfold NoBrackets
      decide +kernel
    have hsource : steepest.source.length = 5 := by decide +kernel
    obtain ⟨hsources, hconversion⟩ := ih
    rw [steepestText_succ, conversion_source_append .replace hunpaired hbody, hmode]
    simp only [Conversion.append, Conversion.shift, List.length_append]
    omega

/-! ## Results and buffers -/

section Bytes

variable (holder : Holder) (b : Bytes) (m : Mode)

theorem source_length_le : b.untilNul.length ≤ b.length := (List.takeWhile_sublist _).length_le

theorem convertValue_bytes_result (action : Action) :
    (convertValue action (.bytes holder b) .none m).result =
      .ok (.bytes .constant (conversion action b.untilNul m).bytes) :=
  congrArg Outcome.result
    (TargetOperation.onText_unlimited (.convert action) (Value.source_bytes "text" holder b) m)

variable {size : Nat} (hsize : 17 * b.length / 5 + 1 ≤ size)

include hsize

/-- Source and result are shorter than a capacity above 17 to 5. -/
theorem lengths_lt : b.untilNul.length < size ∧ (conversion .replace b.untilNul m).bytes.length < size := by
  have hsource := source_length_le b
  have hresult := conversion_replace_length b.untilNul m
  omega

/-- Such a capacity does not matter. -/
theorem convertValue_within : convertValue .replace (.bytes holder b) (.int size) m =
    convertValue .replace (.bytes holder b) .none m := by
  obtain ⟨hsource, hresult⟩ := lengths_lt b m hsize
  have hread := Value.source_bytes "text" holder b
  have hfree := TargetOperation.onText_unlimited (.convert .replace) hread m
  have hbounded := TargetOperation.onText_eq (.convert .replace) hread (.int size) m
  obtain ⟨-, -, h⟩ | ⟨hnot, -⟩ := TargetOperation.onBytes_limited (.convert .replace) b.untilNul
    (Value.asInt?_int size) m
  · rw [h] at hbounded
    exact hbounded.trans hfree.symm
  · exact absurd ⟨Int.ofNat_lt.2 hsource, Int.ofNat_lt.2 hresult⟩ hnot

/-- A buffer that takes such a capacity is written. -/
theorem write_within {dst : Holder} {content : Bytes} (hdst : dst.isMutable = true)
    (hcontent : size ≤ content.length) :
    Target.write (.convert .replace) (.value (.bytes dst content)) (.int size)
        (.value (.bytes holder b)) m =
      ⟨.ok true, .value (.bytes dst (Target.store content (conversion .replace b.untilNul m).bytes)),
        (convertValue .replace (.bytes holder b) .none m).mode,
        (convertValue .replace (.bytes holder b) .none m).notices⟩ := by
  obtain ⟨hsource, hresult⟩ := lengths_lt b m hsize
  have haccepts : Target.Accepts (.convert .replace) (.value (.bytes dst content)) (.int size)
      (.value (.bytes holder b)) m content size b.untilNul _ _ := {
    cells := by simp [Object.cells?, hdst]
    isWhole := Value.asInt?_int size
    takesCapacity := Int.ofNat_le.2 hcontent
    fits := {
      reads := Value.source_bytes "src" holder b
      answers := convertValue_bytes_result holder b m .replace
      writes := rfl
      source_lt := Int.ofNat_lt.2 hsource
      result_lt := Int.ofNat_lt.2 hresult } }
  obtain ⟨dst', hover, -, hwrite⟩ := Target.write_of_accepts haccepts
  obtain rfl : Object.value (.bytes dst (Target.store content _)) = dst' := Except.ok.inj hover
  exact hwrite

end Bytes

/-- Whatever bytes an operation gets and under every mode, its result is no longer than they are,
or no longer than by 17 to 5 if it replaces tags. Room for so many bytes and one more is therefore
enough for replacing tags, as a capacity and in a buffer; and for every length that five divides a
text of that length has a result that long. -/
theorem output_size :
    (∀ holder (b : Bytes) m, ∃ stripped plain replaced : Bytes,
      (convertValue .remove (.bytes holder b) .none m).result = .ok (.bytes .constant stripped) ∧
      Sgr.stripValue (.bytes holder b) .none = .ok (.bytes .constant plain) ∧
      (convertValue .replace (.bytes holder b) .none m).result = .ok (.bytes .constant replaced) ∧
      stripped.length ≤ b.length ∧ plain.length ≤ b.length ∧
      5 * replaced.length ≤ 17 * b.length ∧
      ∀ size : Nat, 17 * b.length / 5 + 1 ≤ size →
        convertValue .replace (.bytes holder b) (.int size) m =
          convertValue .replace (.bytes holder b) .none m ∧
        ∀ (dst : Holder) (content : Bytes), dst.isMutable = true → size ≤ content.length →
          Target.write (.convert .replace) (.value (.bytes dst content)) (.int size)
              (.value (.bytes holder b)) m =
            ⟨.ok true, .value (.bytes dst (Target.store content replaced)),
              (convertValue .replace (.bytes holder b) .none m).mode,
              (convertValue .replace (.bytes holder b) .none m).notices⟩) ∧
    ∀ (d : Direction) (k : Nat), ∃ b replaced : Bytes, b.length = 5 * k ∧
      (convertValue .replace (.bytes .constant b) .none ⟨.twentyFour, d⟩).result =
        .ok (.bytes .constant replaced) ∧
      5 * replaced.length = 17 * b.length := by
  constructor
  · intro holder b m
    have hsource := source_length_le b
    have hstripped := conversion_remove_length b.untilNul m
    have hplain := (Sgr.remove_sublist UInt8.toNat b.untilNul).length_le
    have hreplaced := conversion_replace_length b.untilNul m
    refine ⟨(conversion .remove b.untilNul m).bytes, Sgr.remove UInt8.toNat b.untilNul,
      (conversion .replace b.untilNul m).bytes, convertValue_bytes_result holder b m .remove, ?_,
      convertValue_bytes_result holder b m .replace, by omega, by omega, by omega, ?_⟩
    · rw [Sgr.stripValue_eq (Value.source_bytes "text" holder b), Sgr.strip_unlimited]
      rfl
    · intro size hsize
      exact ⟨convertValue_within holder b m hsize,
        fun dst content hdst hcontent => write_within holder b m hsize hdst hcontent⟩
  · intro d k
    obtain ⟨hlen, hconversion⟩ := conversion_steepest d k
    refine ⟨steepestText k, (conversion .replace (steepestText k) ⟨.twentyFour, d⟩).bytes, hlen, ?_, by omega⟩
    have hresult := convertValue_bytes_result .constant (steepestText k) ⟨.twentyFour, d⟩ .replace
    rwa [Bytes.untilNul_eq_self (steepestText_ne_zero k)] at hresult

end ColorMarkup.Markup
