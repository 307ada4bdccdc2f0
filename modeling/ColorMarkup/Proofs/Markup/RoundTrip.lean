import ColorMarkup.Proofs.Capacity
/-!
# Stripping undoes replacing

Take a text whose tags are replaced, and remove the sequences from the result. If no
`ESC` is left when the tags are removed instead, this gives the same text: the only
sequences in the result are those that were written for tags, and each is matched as a
whole and alone, whatever stands behind it.

Results:
* `remove_conversion_replace`: removing the sequences of the replaced text gives the
  text without its tags.
* `strip_replace`: the same of the operations on a text argument, and the mode left.
-/
namespace ColorMarkup.Markup

/-- No byte is an `ESC`. -/
def Plain (b : Bytes) : Prop := ∀ x ∈ b, x.toNat ≠ 0x1B

theorem plain_append {a b : Bytes} : Plain (a ++ b) ↔ Plain a ∧ Plain b := List.forall_mem_append

/-- One occurrence, with anything behind it. -/
theorem remove_product_replace {o : Occurrence} {start : Nat} {m : Mode}
    (h : Plain (o.product .remove start m).bytes) (rest : Bytes) :
    Sgr.remove UInt8.toNat ((o.product .replace start m).bytes ++ rest) =
      (o.product .remove start m).bytes ++ Sgr.remove UInt8.toNat rest := by
  unfold Occurrence.product at h ⊢
  cases body_kind o.body m with
  | kept hk =>
    rw [hk] at h ⊢
    rw [hk]
    exact Sgr.remove_append_of_plain _ _ _ h
  | modeChange m' hk =>
    rw [hk] at h ⊢
    rw [hk]
    exact Sgr.remove_append_of_plain _ _ _ h
  | fixed hk =>
    -- the fixed text is an `ESC`
    rw [hk] at h
    exact absurd rfl ((plain_append.1 h).2 0x1B (by simp))
  | sequence params _ hp hk =>
    rw [hk] at h ⊢
    rw [hk]
    simp only [if_pos, reduceCtorEq, if_false, List.append_nil] at h ⊢
    rw [List.append_assoc, Sgr.remove_append_of_plain _ _ _ h,
      Escape.remove_sequenceBytes_append hp]

theorem remove_conversionFrom_replace {tail : Bytes} {os : List Occurrence} {start : Nat} {m : Mode}
    (h : Plain (conversionFrom .remove tail os start m).bytes) :
    Sgr.remove UInt8.toNat (conversionFrom .replace tail os start m).bytes =
      (conversionFrom .remove tail os start m).bytes := by
  induction os generalizing start m with
  | nil =>
    have htail := Sgr.remove_append_of_plain UInt8.toNat tail [] h
    rw [List.append_nil] at htail
    simpa [conversionFrom, Sgr.remove, Sgr.removeFrom] using htail
  | cons o os ih =>
    obtain ⟨ho, hos⟩ := plain_append.1 h
    have hmode := product_mode o start m .replace .remove
    simp only [conversionFrom, Conversion.append]
    rw [remove_product_replace ho, hmode, ih hos]

/-- Removing the sequences of the replaced text gives the text without its tags. -/
theorem remove_conversion_replace {src : Bytes} {m : Mode}
    (h : Plain (conversion .remove src m).bytes) :
    Sgr.remove UInt8.toNat (conversion .replace src m).bytes = (conversion .remove src m).bytes :=
  remove_conversionFrom_replace h

/-- If the text without its tags has no `ESC`, it is what is left of the text with its
tags replaced when the sequences are removed, and both leave the same mode. -/
theorem strip_replace {text v : Value} {m : Mode}
    (h : (convertValue .remove text .none m).result = .ok v) (hesc : 0x1B ∉ v.codes) :
    ∃ r, (convertValue .replace text .none m).result = .ok r ∧
      Sgr.stripValue r .none = .ok v ∧
      (convertValue .replace text .none m).mode = (convertValue .remove text .none m).mode := by
  cases hsrc : text.source "text" with
  | error e => simp [convertValue_eq, hsrc, Outcome.ofResult] at h
  | ok src =>
    have hreplace := TargetOperation.onText_unlimited (.convert .replace) hsrc m
    have hremove := TargetOperation.onText_unlimited (.convert .remove) hsrc m
    simp only [TargetOperation.onText, TargetOperation.product] at hreplace hremove
    rw [hremove] at h
    have hv : text.answer (conversion .remove src m).bytes = v := Except.ok.inj h
    have hplain : Plain (conversion .remove src m).bytes :=
      Value.forall_ne_of_codes_answer hsrc (n := 0x1B) (by decide) (hv ▸ hesc)
    refine ⟨text.answer (conversion .replace src m).bytes, by rw [hreplace]; rfl, ?_, ?_⟩
    · -- the answer has no zero byte that ends it early, so stripping reads all of it
      have hread : (text.answer (conversion .replace src m).bytes).source "text" =
          .ok (conversion .replace src m).bytes :=
        Value.source_answer hsrc (fun hz => conversion_ne_zero hz .replace m) "text"
      rw [Sgr.stripValue_eq hread, Sgr.strip_unlimited, remove_conversion_replace hplain]
      simp only [Except.map, Value.answer_answer, hv]
    · rw [hreplace, hremove]
      exact conversion_mode src m .replace .remove

set_option maxRecDepth 20000 in
/-- A text with a tag: `[red]x`. -/
theorem strip_replace_red :
    ∃ r, (convertValue .replace (.bytes .constant [0x5B, 0x72, 0x65, 0x64, 0x5D, 0x78]) .none
        .initial).result = .ok r ∧
      Sgr.stripValue r .none = .ok (.bytes .constant [0x78]) ∧
      (convertValue .replace (.bytes .constant [0x5B, 0x72, 0x65, 0x64, 0x5D, 0x78]) .none
          .initial).mode =
        (convertValue .remove (.bytes .constant [0x5B, 0x72, 0x65, 0x64, 0x5D, 0x78]) .none
          .initial).mode :=
  strip_replace rfl (by decide)

end ColorMarkup.Markup
