import ColorMarkup.Proofs.Escape.Removal
import ColorMarkup.Proofs.Markup.Conversion
/-!
# Replacing and removing agree

Replacing and removing treat every body alike under the same mode: both keep it, or
both take it as a mode change, or both write the fixed text, or one writes a sequence
where the other writes nothing. So they leave the same mode and keep the same places.

Results:
* `body_kind`: every body is of one of the four kinds, whatever is done with tags.
* `conversion_mode`: both leave the same mode.
* `conversionFrom_length_le`: a bound on what each occurrence is written with holds of the text.
* `conversion_remove_length`: removing never makes a text longer.
* `conversion_ne_zero`: no zero byte is written that was not in the text.
-/
namespace ColorMarkup.Markup

/-- What a body is under a mode, for both actions at once. -/
inductive BodyKind (body : Bytes) (m : Mode) : Prop where
  | kept (h : ∀ action, replacement? action body m = none)
  | modeChange (m' : Mode) (h : ∀ action, replacement? action body m = some ([], m'))
  | fixed (h : ∀ action, replacement? action body m = some ([0x1B], m))
  | sequence (params : List Int) (hne : params ≠ []) (hp : ∀ p ∈ params, 0 ≤ p)
      (h : ∀ action, replacement? action body m =
        some (if action = .replace then Escape.sequenceBytes params else [], m))

section Meaning

variable {body : Bytes} {meaning : Meaning} {m : Mode}

theorem replacement?_of_unwritten (hlen : body.length ≤ 14)
    (hb : Meaning.ofBody? body = some meaning) (hc : meaning.modeChange? = none)
    (hbuild : meaning.build m.depth m.direction = .ok none) (action : Action) :
    replacement? action body m = none := by
  simp only [replacement?, if_pos hlen, hb, hc, hbuild]

theorem replacement?_of_written (hlen : body.length ≤ 14)
    (hb : Meaning.ofBody? body = some meaning) (hc : meaning.modeChange? = none) {e : Escape}
    (hbuild : meaning.build m.depth m.direction = .ok (some e)) (action : Action) :
    replacement? action body m =
      some (if action = .replace ∨ meaning.isFixed then e.bytes else [], m) := by
  simp only [replacement?, if_pos hlen, hb, hc, hbuild]

end Meaning

/-- Every body is of one of the four kinds under every mode. -/
theorem body_kind (body : Bytes) (m : Mode) : BodyKind body m := by
  by_cases hlen : body.length ≤ 14
  · cases hb : Meaning.ofBody? body with
    | none => exact .kept fun action => by simp [replacement?, hb]
    | some meaning =>
      cases hc : meaning.modeChange? with
      | some e =>
        refine .modeChange (Meaning.applyChange e m) fun action => ?_
        simp [replacement?, hlen, hb, hc]
      | none =>
        obtain ⟨hbuild, hfixed⟩ | ⟨hfixed, hbuild | ⟨e, hbuild, params, rfl, hne, hp⟩⟩ :=
          Meaning.build_cases (Meaning.ofBody?_valid hb) hc m.depth m.direction
        · refine .fixed fun action => ?_
          rw [replacement?_of_written hlen hb hc hbuild, if_pos (.inr hfixed)]
          rfl
        · exact .kept (replacement?_of_unwritten hlen hb hc hbuild)
        · refine .sequence params hne (fun p h => (hp p h).1) fun action => ?_
          rw [replacement?_of_written hlen hb hc hbuild]
          simp [hfixed, Escape.bytes]
  · exact .kept fun action => by simp [replacement?, hlen]

theorem product_mode (o : Occurrence) (start : Nat) (m : Mode) (action action' : Action) :
    (o.product action start m).mode = (o.product action' start m).mode := by
  unfold Occurrence.product
  cases body_kind o.body m with
  | kept h => rw [h, h]
  | modeChange m' h => rw [h, h]
  | fixed h => rw [h, h]
  | sequence params _ _ h => rw [h, h]

theorem conversionFrom_mode (tail : Bytes) (os : List Occurrence) (start : Nat) (m : Mode)
    (action action' : Action) :
    (conversionFrom action tail os start m).mode = (conversionFrom action' tail os start m).mode := by
  induction os generalizing start m with
  | nil => rfl
  | cons o os ih =>
    simp only [conversionFrom, Conversion.append]
    rw [product_mode o start m action action']
    exact ih _ _

/-- The mode left does not depend on what is done with tags. -/
theorem conversion_mode (src : Bytes) (m : Mode) (action action' : Action) :
    (conversion action src m).mode = (conversion action' src m).mode :=
  conversionFrom_mode _ _ _ _ _ _

theorem product_remove_length (o : Occurrence) (start : Nat) (m : Mode) :
    (o.product .remove start m).bytes.length ≤ o.source.length := by
  have hsource : o.source.length = o.before.length + (o.body.length + 2) := by
    simp [Occurrence.source, Occurrence.bracketed]
  unfold Occurrence.product
  cases body_kind o.body m with
  | kept h => rw [h]
  | modeChange m' h => rw [h, hsource]; simp
  | fixed h => rw [h, hsource]; simp
  | sequence params _ _ h => rw [h, hsource]; simp

/-- If every occurrence is written within a ratio to its length, so is the text. -/
theorem conversionFrom_length_le {action : Action} {a c : Nat} (hac : a ≤ c)
    (h : ∀ (o : Occurrence) start m, a * (o.product action start m).bytes.length ≤ c * o.source.length)
    (tail : Bytes) (os : List Occurrence) (start : Nat) (m : Mode) :
    a * (conversionFrom action tail os start m).bytes.length ≤ c * (Scan.join ⟨os, tail⟩).length := by
  induction os generalizing start m with
  | nil => simpa [conversionFrom, Scan.join] using Nat.mul_le_mul_right tail.length hac
  | cons o os ih =>
    have ho := h o start m
    have hos := ih (start + o.source.length) (o.product action start m).mode
    have hjoin : Scan.join ⟨o :: os, tail⟩ = o.source ++ Scan.join ⟨os, tail⟩ :=
      Scan.join_cons o ⟨os, tail⟩
    simp only [conversionFrom, Conversion.append, hjoin, List.length_append, Nat.mul_add]
    omega

theorem conversionFrom_remove_length (tail : Bytes) (os : List Occurrence) (start : Nat) (m : Mode) :
    (conversionFrom .remove tail os start m).bytes.length ≤
      (Scan.join ⟨os, tail⟩).length := by
  have h := conversionFrom_length_le (Nat.le_refl 1)
    (fun o start m => Nat.mul_le_mul_left 1 (product_remove_length o start m)) tail os start m
  rwa [Nat.one_mul, Nat.one_mul] at h

/-- Removing tags never makes a text longer. -/
theorem conversion_remove_length (src : Bytes) (m : Mode) :
    (conversion .remove src m).bytes.length ≤ src.length := by
  have h := conversionFrom_remove_length (scan src).tail (scan src).occurrences 0 m
  rwa [show Scan.mk (scan src).occurrences (scan src).tail = scan src from rfl, join_scan] at h

theorem product_ne_zero {o : Occurrence} (ho : ∀ b ∈ o.source, b ≠ 0) (action : Action) (start : Nat)
    (m : Mode) : ∀ b ∈ (o.product action start m).bytes, b ≠ 0 := by
  have hbefore : ∀ b ∈ o.before, b ≠ 0 := fun b hb => ho b (List.mem_append_left _ hb)
  unfold Occurrence.product
  cases body_kind o.body m with
  | kept h => rw [h]; exact ho
  | modeChange m' h => rw [h]; simpa using hbefore
  | fixed h =>
    rw [h]
    exact List.forall_mem_append.2 ⟨hbefore, by simp⟩
  | sequence params _ hp h =>
    rw [h]
    refine List.forall_mem_append.2 ⟨hbefore, ?_⟩
    cases action with
    | replace => exact Escape.sequenceBytes_ne_zero hp
    | remove => simp

theorem conversionFrom_ne_zero {tail : Bytes} {os : List Occurrence}
    (h : ∀ b ∈ Scan.join ⟨os, tail⟩, b ≠ 0) (action : Action) (start : Nat) (m : Mode) :
    ∀ b ∈ (conversionFrom action tail os start m).bytes, b ≠ 0 := by
  induction os generalizing start m with
  | nil => simpa [conversionFrom, Scan.join] using h
  | cons o os ih =>
    have hjoin : Scan.join ⟨o :: os, tail⟩ = o.source ++ Scan.join ⟨os, tail⟩ :=
      Scan.join_cons o ⟨os, tail⟩
    rw [hjoin] at h
    obtain ⟨ho, hos⟩ := List.forall_mem_append.1 h
    exact List.forall_mem_append.2 ⟨product_ne_zero ho action start m, ih hos _ _⟩

/-- A text without zero bytes is converted to one without zero bytes. -/
theorem conversion_ne_zero {src : Bytes} (h : ∀ b ∈ src, b ≠ 0) (action : Action) (m : Mode) :
    ∀ b ∈ (conversion action src m).bytes, b ≠ 0 := by
  rw [← join_scan src] at h
  exact conversionFrom_ne_zero h action 0 m

end ColorMarkup.Markup
