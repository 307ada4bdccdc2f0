import ColorMarkup.Proofs.Numeral.Acceptance
import ColorMarkup.Proofs.Target
/-!
# A written buffer as a source

What stands in a buffer is read up to its first zero byte. The terminator ends what was
written, so a buffer is read back as the result that was written to it unless that has a
zero byte of its own. No operation adds a zero byte to its source or takes one from it:
a sequence holds none, and a body that holds one is no tag. Bytes are cut at their first
zero byte when they are read, and texts are not; so it is a zero in a text, and nothing
else, that keeps a buffer from being read back as the result.

Results:
* `TargetOperation.zero_mem_product`: a result holds a zero byte exactly if its source does.
* `Target.source_write`: what a written buffer is read as.
* `Target.write_read_back`: it is the result, unless the source is a text that holds a zero;
  and then every operation makes of the buffer what it makes of the result.
-/
namespace ColorMarkup

/-! ## A tag holds no zero byte -/

theorem Bytes.zero_mem_lower {b : Bytes} (h : 0 ∈ b) : 0 ∈ b.lower := List.mem_map.2 ⟨0, h, rfl⟩

namespace Vocabulary

theorem table_zero_notMem : ∀ p ∈ table, (0 : UInt8) ∉ p.1 :=
  fun p hp hzero => absurd (table_bounds p hp 0 hzero).1 (by decide)

theorem zero_notMem_of_find? {name : Bytes} {e : Entry} (h : find? name = some e) : 0 ∉ name :=
  fun hzero => table_zero_notMem _ (mem_table_of_find? h) (Bytes.zero_mem_lower hzero)

end Vocabulary

theorem NumberTag.zero_notMem_of_parse? {s : Bytes} {tag : NumberTag} (h : parse? s = some tag) :
    0 ∉ s := by
  obtain ⟨n, rfl, -, -⟩ := (parse?_eq_some_iff s tag).1 h
  exact fun hzero => absurd (n.bytes_bounds 0 hzero).1 (by decide)

theorem Meaning.zero_notMem_of_ofBody? {body : Bytes} {meaning : Meaning}
    (h : ofBody? body = some meaning) : 0 ∉ body := by
  unfold ofBody? at h
  split at h
  · next e he => exact Vocabulary.zero_notMem_of_find? he
  · obtain ⟨n, hn, -⟩ := Option.map_eq_some_iff.1 h
    exact NumberTag.zero_notMem_of_parse? hn

namespace Markup

theorem zero_notMem_of_replacement? {action : Action} {body : Bytes} {m : Mode} {r : Bytes × Mode}
    (h : replacement? action body m = some r) : 0 ∉ body := by
  unfold replacement? at h
  split at h
  · split at h
    · cases h
    · next meaning hb => exact Meaning.zero_notMem_of_ofBody? hb
  · cases h

/-! ## Zero bytes stay -/

theorem zero_mem_bracketed {o : Occurrence} (h : 0 ∈ o.bracketed) : 0 ∈ o.body := by
  simpa [Occurrence.bracketed, opening, closing] using h

theorem zero_mem_product {o : Occurrence} (h : 0 ∈ o.source) (action : Action) (start : Nat)
    (m : Mode) : 0 ∈ (o.product action start m).bytes := by
  unfold Occurrence.product
  cases hr : replacement? action o.body m with
  | none => exact h
  | some r =>
    -- the body is a tag, so the zero stands in front of it
    obtain h | h := List.mem_append.1 h
    · exact List.mem_append_left _ h
    · exact absurd (zero_mem_bracketed h) (zero_notMem_of_replacement? hr)

theorem zero_mem_conversionFrom {tail : Bytes} {os : List Occurrence}
    (h : 0 ∈ Scan.join ⟨os, tail⟩) (action : Action) (start : Nat) (m : Mode) :
    0 ∈ (conversionFrom action tail os start m).bytes := by
  induction os generalizing start m with
  | nil => simpa [conversionFrom, Scan.join] using h
  | cons o os ih =>
    have hjoin : Scan.join ⟨o :: os, tail⟩ = o.source ++ Scan.join ⟨os, tail⟩ :=
      Scan.join_cons o ⟨os, tail⟩
    rw [hjoin] at h
    obtain h | h := List.mem_append.1 h
    · exact List.mem_append_left _ (zero_mem_product h action start m)
    · exact List.mem_append_right _ (ih h _ _)

theorem zero_mem_conversion (action : Action) (src : Bytes) (m : Mode) :
    0 ∈ (conversion action src m).bytes ↔ 0 ∈ src := by
  constructor
  · intro h
    by_contra hsrc
    exact conversion_ne_zero (List.forall_mem_ne'.2 hsrc) action m 0 h rfl
  · intro h
    rw [← join_scan src] at h
    exact zero_mem_conversionFrom h action 0 m

end Markup

/-- A result holds a zero byte exactly if its source does. -/
theorem TargetOperation.zero_mem_product (op : TargetOperation) (src : Bytes) (m : Mode) :
    0 ∈ (op.product src m).bytes ↔ 0 ∈ src := by
  cases op with
  | convert action => exact Markup.zero_mem_conversion action src m
  | stripSequences =>
    exact ⟨fun h => (Sgr.remove_sublist UInt8.toNat src).subset h,
      fun h => Sgr.mem_remove UInt8.toNat rfl h⟩

/-! ## Sources -/

namespace Value

/-- A text that holds a zero. Of bytes only those in front of the first zero are read. -/
def HoldsZero (v : Value) : Prop := ∃ t, v = text t ∧ 0 ∈ t

theorem zero_mem_source {argument : String} {v : Value} {src : Bytes}
    (h : v.source argument = .ok src) : 0 ∈ src ↔ v.HoldsZero := by
  obtain ⟨t, rfl, ht⟩ | ⟨holder, b, rfl, rfl⟩ := source_eq_ok h
  · rw [Utf8.zero_mem_encode ht]
    exact ⟨fun h => ⟨t, rfl, h⟩, fun ⟨_, heq, h⟩ => by cases heq; exact h⟩
  · exact ⟨fun hzero => absurd rfl (Bytes.untilNul_no_nul b 0 hzero), fun ⟨_, heq, _⟩ => by cases heq⟩

end Value

theorem Bytes.untilNul_eq_self_iff (b : Bytes) : b.untilNul = b ↔ 0 ∉ b :=
  ⟨fun h hzero => Bytes.untilNul_no_nul b 0 (by rwa [h]) rfl,
    fun h => Bytes.untilNul_eq_self (List.forall_mem_ne'.2 h)⟩

/-- Values that are read alike are worked on alike, but for the kind of the answer. -/
theorem TargetOperation.onText_source (op : TargetOperation) {v : Value} {src : Bytes}
    (h : v.source "src" = .ok src) (capacity : Value) (m : Mode) :
    op.onText v capacity m = (op.onBytes src capacity m).map v.answer :=
  op.onText_eq (Value.source_argument h "text") capacity m

namespace Target

/-- A flat buffer is read as its bytes. -/
theorem source_of_cells? {o : Object} {content : Bytes} (h : o.cells? = some content)
    (argument : String) :
    o.source argument = .ok content.untilNul ∧ o.text.source argument = .ok content.untilNul ∧
      o.text.answer = .bytes .constant := by
  cases o with
  | value v =>
    cases v with
    | bytes holder b =>
      simp only [Object.cells?, Option.ite_none_right_eq_some, Option.some.injEq] at h
      obtain ⟨-, rfl⟩ := h
      exact ⟨rfl, rfl, rfl⟩
    | _ => cases h
  | view v =>
    simp only [Object.cells?, Option.ite_none_right_eq_some, Option.some.injEq] at h
    obtain ⟨-, rfl⟩ := h
    exact ⟨rfl, rfl, rfl⟩
  | releasedView | other => cases h

/-- A written buffer is read as the result, up to a zero byte in it. -/
theorem source_write {op : TargetOperation} {dst src : Object} {capacity : Value} {m : Mode}
    (h : (write op dst capacity src m).done = true) :
    ∃ data content, src.source "src" = .ok data ∧
      (write op dst capacity src m).dst.cells? = some (store content (op.product data m).bytes) ∧
      (write op dst capacity src m).dst.source "src" = .ok (op.product data m).bytes.untilNul := by
  obtain ⟨content, c, data, v, result, ha⟩ := accepts_of_done h
  obtain ⟨dst', -, hcells, hdone⟩ := write_of_accepts ha
  obtain rfl := ha.fits.result_eq
  refine ⟨data, content, ha.fits.reads, by rw [hdone]; exact hcells, ?_⟩
  rw [hdone, (source_of_cells? hcells "src").1, untilNul_store_eq]

theorem write_source {src src' : Object} {data : Bytes} (h : src.source "src" = .ok data)
    (h' : src'.source "src" = .ok data) (op : TargetOperation) (dst : Object) (capacity : Value)
    (m : Mode) : write op dst capacity src m = write op dst capacity src' m := by
  have hgiven {o : Object} (ho : o.source "src" = .ok data) : o.isNone = false := by
    unfold Object.isNone
    split
    · cases ho
    · rfl
  simp only [write, writeIn, prepare, h, h', hgiven h, hgiven h']

/-- A buffer that was written is read as the bytes of the answer of the same operation on
text, up to the first zero byte in them. These are all of them, unless the source is a text
that holds a zero. Then every operation makes of the buffer what it makes of the result,
within any capacity, under any mode and into any buffer. -/
theorem write_read_back {op : TargetOperation} {dst src : Object} {capacity : Value} {m : Mode}
    (h : (write op dst capacity src m).done = true) :
    let buffer := (write op dst capacity src m).dst
    ∃ v result, (op.onText src.text .none m).result = .ok v ∧ v.written? = some result ∧
      buffer.source "src" = .ok result.untilNul ∧
      (buffer.source "src" = .ok result ↔ ¬ src.text.HoldsZero) ∧
      (¬ src.text.HoldsZero → ∀ (next : TargetOperation) (capacity' : Value) (m' : Mode),
        next.onText buffer.text capacity' m' =
          (next.onBytes result capacity' m').map (.bytes .constant) ∧
        next.onText v capacity' m' = (next.onBytes result capacity' m').map v.answer ∧
        ∀ dst', write next dst' capacity' buffer m' = write next dst' capacity' (.value v) m') := by
  intro buffer
  obtain ⟨data, content, hdata, hcells, hbuffer⟩ := source_write h
  have hsource := Object.source_text hdata
  have htext := Value.source_argument hsource "text"
  have hzero : 0 ∈ (op.product data m).bytes ↔ src.text.HoldsZero := by
    rw [op.zero_mem_product, Value.zero_mem_source hsource]
  have hwhole : buffer.source "src" = .ok (op.product data m).bytes ↔ ¬ src.text.HoldsZero := by
    rw [hbuffer, Except.ok.injEq, Bytes.untilNul_eq_self_iff, hzero]
  refine ⟨src.text.answer (op.product data m).bytes, (op.product data m).bytes, ?_,
    Value.written?_answer hsource _, hbuffer, hwhole, fun hnot next capacity' m' => ?_⟩
  · rw [op.onText_unlimited htext]
    rfl
  · have hread := hwhole.2 hnot
    have hanswer : (src.text.answer (op.product data m).bytes).source "src" =
        .ok (op.product data m).bytes :=
      Value.source_answer hsource (fun _ => List.forall_mem_ne'.2 (hzero.not.2 hnot)) "src"
    obtain ⟨-, -, hkind⟩ := source_of_cells? hcells "src"
    refine ⟨?_, next.onText_source hanswer capacity' m', fun dst' => ?_⟩
    · rw [next.onText_source (Object.source_text hread), hkind]
    · rw [← Object.source_value] at hanswer
      exact write_source hread hanswer next dst' capacity' m'

/-- The text `[red]x` in a buffer that was full before. -/
theorem write_read_back_red :
    let dst : Object := .value (.bytes .array (List.replicate 20 0xFF))
    let src : Object := .value (.text [0x5B, 0x72, 0x65, 0x64, 0x5D, 0x78])
    (write (.convert .replace) dst (.int 20) src .initial).done = true ∧
    ∃ (v : Value) (result : Bytes), v.written? = some result ∧
      (write (.convert .replace) dst (.int 20) src .initial).dst.source "src" =
        .ok result.untilNul := by
  intro dst src
  have hdone : (write (.convert .replace) dst (.int 20) src .initial).done = true := by
    decide +kernel
  obtain ⟨v, result, -, hv, hread, -⟩ := write_read_back hdone
  exact ⟨hdone, v, result, hv, hread⟩

/-- The text of `a`, a zero and `b` is written with its zero, and only `a` is read back. -/
theorem write_read_back_zero :
    let src : Value := .text [0x61, 0, 0x62]
    let dst : Object := .value (.bytes .array (List.replicate 8 0xFF))
    let written := write .stripSequences dst (.int 8) (.value src) .initial
    written.done = true ∧
    (TargetOperation.onText .stripSequences src .none .initial).result = .ok src ∧
    src.written? = some [0x61, 0, 0x62] ∧ written.dst.source "src" = .ok [0x61] :=
  ⟨rfl, rfl, rfl, rfl⟩

end Target
end ColorMarkup
