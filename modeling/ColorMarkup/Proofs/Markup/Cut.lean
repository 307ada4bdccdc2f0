import ColorMarkup.Proofs.Capacity
/-!
# Converting a text in two parts

A text may be converted part by part under one mode, if no body reaches over the cut: if
nothing is open where the first part ends, or the second part closes nothing that it has
not opened. Then the scan finds in the whole text what it finds in the parts, with
the tail of the first part in front of the next body of the second.

Results:
* `scan_append`: the scan of a text that is cut so.
* `conversion_append`: its conversion is that of the first part and then, under the mode left,
  that of the second.
* `convertValue_append`: the same of the operations on byte strings.
-/
namespace ColorMarkup.Markup

/-- Behind the last closing bracket, or in the whole text if it has none, there is no
opening one. -/
def NoneOpen (b : Bytes) : Prop := opening ∉ b.reverse.takeWhile (· != closing)

/-- In front of the first opening bracket, or in the whole text if it has none, there is no
closing one. -/
def NoneClosed (b : Bytes) : Prop := closing ∉ b.takeWhile (· != opening)

instance (b : Bytes) : Decidable (NoneOpen b) := inferInstanceAs (Decidable (_ ∉ _))

instance (b : Bytes) : Decidable (NoneClosed b) := inferInstanceAs (Decidable (_ ∉ _))

theorem noneOpen_cons {c : UInt8} {b : Bytes} (h : NoneOpen (c :: b)) :
    NoneOpen b ∧ (c = opening → closing ∈ b) := by
  unfold NoneOpen at h ⊢
  rw [List.reverse_cons, List.takeWhile_append] at h
  constructor
  · intro hm
    split at h
    · exact h (List.mem_append_left _ ((List.takeWhile_sublist _).mem hm))
    · exact h hm
  · rintro rfl
    by_contra hc
    have hall : ∀ x ∈ b.reverse, (x != closing) = true := by
      intro x hx
      rw [bne_iff_ne]
      rintro rfl
      exact hc (List.mem_reverse.1 hx)
    rw [List.takeWhile_eq_self_iff.2 hall, if_pos rfl] at h
    exact h (List.mem_append_right _ (by decide))

theorem noneClosed_cons {c : UInt8} {b : Bytes} (h : NoneClosed (c :: b)) (hc : c ≠ opening) :
    c ≠ closing ∧ NoneClosed b := by
  have hp : (c != opening) = true := by simpa using hc
  simp only [NoneClosed, List.takeWhile_cons, hp, if_true, List.mem_cons, not_or] at h
  exact ⟨fun he => h.1 he.symm, h.2⟩

/-! ## The scan of the whole -/

namespace Scan

/-- A text without a body in front of a scanned one. -/
def prepend (t : Bytes) : Scan → Scan
  | ⟨[], tail⟩ => ⟨[], t ++ tail⟩
  | ⟨o :: rest, tail⟩ => ⟨⟨t ++ o.before, o.body⟩ :: rest, tail⟩

/-- One scan after another: what the first leaves is in front of the second. -/
def append (s s' : Scan) : Scan :=
  ⟨s.occurrences ++ (s'.prepend s.tail).occurrences, (s'.prepend s.tail).tail⟩

theorem prepend_cons (t : Bytes) (o : Occurrence) (s : Scan) :
    (s.cons o).prepend t = s.cons ⟨t ++ o.before, o.body⟩ := rfl

end Scan

theorem pending_append (before t : Bytes) (opened : Option Bytes) :
    pending (before ++ t) opened = pending before opened ++ t := by
  cases opened <;> simp [pending]

/-- What was read before all that is in the memory stays in front. -/
theorem scanFrom_behind (t before b : Bytes) (opened : Option Bytes) :
    scanFrom (before ++ t.reverse) opened b = (scanFrom before opened b).prepend t := by
  induction b generalizing before opened with
  | nil => simp [scanFrom, Scan.prepend, pending_append]
  | cons c b ih =>
    by_cases ho : c = opening
    · subst ho
      rw [scanFrom_cons_opening, scanFrom_cons_opening, pending_append, ih]
    · cases opened with
      | none => rw [scanFrom_cons_text ho, scanFrom_cons_text ho, ← ih, List.cons_append]
      | some body =>
        by_cases hc : c = closing
        · subst hc
          rw [scanFrom_cons_closing, scanFrom_cons_closing, Scan.prepend_cons]
          simp
        · rw [scanFrom_cons_inner ho hc, scanFrom_cons_inner ho hc, ih]

/-- An open body that is not closed is text like any other. -/
theorem scanFrom_of_noneClosed {b : Bytes} (h : NoneClosed b) (before body : Bytes) :
    scanFrom before (some body) b = scanFrom (pending before (some body)) none b := by
  induction b generalizing body with
  | nil => rfl
  | cons c b ih =>
    by_cases ho : c = opening
    · subst ho
      rw [scanFrom_cons_opening, scanFrom_cons_opening]
      rfl
    · obtain ⟨hc, hb⟩ := noneClosed_cons h ho
      rw [scanFrom_cons_inner ho hc, scanFrom_cons_text ho, ih hb]
      rfl

/-- With nothing open, or nothing closed, a memory is no more than text in front. -/
theorem scanFrom_eq_prepend {b before : Bytes} {opened : Option Bytes}
    (h : opened = none ∨ NoneClosed b) :
    scanFrom before opened b = (scan b).prepend (pending before opened).reverse := by
  have hnone : ∀ t, scanFrom t none b = (scan b).prepend t.reverse := by
    intro t
    have := scanFrom_behind t.reverse [] b none
    rwa [List.nil_append, List.reverse_reverse] at this
  cases opened with
  | none => exact hnone before
  | some body =>
    obtain hopened | hb := h
    · cases hopened
    · rw [scanFrom_of_noneClosed hb, hnone]

/-- The pass over a text goes on from the memory that its first part leaves. In this memory
a body is open only if one was open that the part does not close, or the part opens one. -/
theorem scanFrom_append (a b before : Bytes) (opened : Option Bytes) :
    ∃ before' opened', (pending before' opened').reverse = (scanFrom before opened a).tail ∧
      scanFrom before opened (a ++ b) =
        ⟨(scanFrom before opened a).occurrences ++ (scanFrom before' opened' b).occurrences,
          (scanFrom before' opened' b).tail⟩ ∧
      (NoneOpen a → (opened = none ∨ closing ∈ a) → opened' = none) := by
  induction a generalizing before opened with
  | nil => exact ⟨before, opened, rfl, rfl, fun _ h => h.resolve_right (by simp)⟩
  | cons c a ih =>
    rw [List.cons_append]
    by_cases ho : c = opening
    · subst ho
      obtain ⟨before', opened', h1, h2, h3⟩ := ih (pending before opened) (some [])
      refine ⟨before', opened', ?_, ?_, fun hn _ => ?_⟩
      · rw [scanFrom_cons_opening, h1]
      · rw [scanFrom_cons_opening, scanFrom_cons_opening, h2]
      · obtain ⟨hna, hclosed⟩ := noneOpen_cons hn
        exact h3 hna (.inr (hclosed rfl))
    · cases opened with
      | none =>
        obtain ⟨before', opened', h1, h2, h3⟩ := ih (c :: before) none
        refine ⟨before', opened', ?_, ?_, fun hn _ => h3 (noneOpen_cons hn).1 (.inl rfl)⟩
        · rw [scanFrom_cons_text ho, h1]
        · rw [scanFrom_cons_text ho, scanFrom_cons_text ho, h2]
      | some body =>
        by_cases hc : c = closing
        · subst hc
          obtain ⟨before', opened', h1, h2, h3⟩ := ih [] none
          refine ⟨before', opened', ?_, ?_, fun hn _ => h3 (noneOpen_cons hn).1 (.inl rfl)⟩
          · rw [scanFrom_cons_closing, h1]
            rfl
          · rw [scanFrom_cons_closing, scanFrom_cons_closing, h2]
            rfl
        · obtain ⟨before', opened', h1, h2, h3⟩ := ih before (some (c :: body))
          refine ⟨before', opened', ?_, ?_, fun hn hclosed => h3 (noneOpen_cons hn).1 (.inr ?_)⟩
          · rw [scanFrom_cons_inner ho hc, h1]
          · rw [scanFrom_cons_inner ho hc, scanFrom_cons_inner ho hc, h2]
          · obtain hopened | hmem := hclosed
            · cases hopened
            · exact (List.mem_cons.1 hmem).resolve_left fun he => hc he.symm

/-- The scan of a text in two parts, if no body reaches over the cut. -/
theorem scan_append {a b : Bytes} (h : NoneOpen a ∨ NoneClosed b) :
    scan (a ++ b) = (scan a).append (scan b) := by
  obtain ⟨before, opened, h1, h2, h3⟩ := scanFrom_append a b [] none
  have hopened : opened = none ∨ NoneClosed b := h.imp_left fun ha => h3 ha (.inl rfl)
  rw [scan, h2, scanFrom_eq_prepend hopened, h1]
  rfl

/-! ## The conversion of the whole -/

namespace Conversion

/-- The same product, of a text that starts so many bytes later. -/
def shift (c : Conversion) (k : Nat) : Conversion :=
  { c with kept := c.kept.map fun p => ⟨k + p.offset, p.body⟩ }

theorem append_assoc (c d e : Conversion) : (c.append d).append e = c.append (d.append e) := by
  simp [append, List.append_assoc]

end Conversion

theorem product_shift (o : Occurrence) (action : Action) (k start : Nat) (m : Mode) :
    o.product action (k + start) m = (o.product action start m).shift k := by
  unfold Occurrence.product
  cases replacement? action o.body m <;> simp [Conversion.shift, Nat.add_assoc]

/-- Only the offsets of what is kept depend on where the text starts. -/
theorem conversionFrom_shift (action : Action) (tail : Bytes) (os : List Occurrence) (k start : Nat)
    (m : Mode) :
    conversionFrom action tail os (k + start) m = (conversionFrom action tail os start m).shift k := by
  induction os generalizing start m with
  | nil => rfl
  | cons o os ih =>
    have hmode : ((o.product action start m).shift k).mode = (o.product action start m).mode := rfl
    simp only [conversionFrom, product_shift, hmode, Nat.add_assoc, ih]
    simp [Conversion.append, Conversion.shift]

theorem conversionFrom_append (action : Action) (tail : Bytes) (os os' : List Occurrence) (start : Nat)
    (m : Mode) :
    conversionFrom action tail (os ++ os') start m =
      (conversionFrom action [] os start m).append
        (conversionFrom action tail os' (start + (os.flatMap Occurrence.source).length)
          (conversionFrom action [] os start m).mode) := by
  induction os generalizing start m with
  | nil => simp [conversionFrom, Conversion.append]
  | cons o os ih =>
    simp only [List.cons_append, conversionFrom, ih, Conversion.append_assoc, List.flatMap_cons,
      List.length_append, Nat.add_assoc]
    rfl

theorem conversionFrom_tail (action : Action) (tail : Bytes) (os : List Occurrence) (start : Nat)
    (m : Mode) :
    conversionFrom action tail os start m =
      (conversionFrom action [] os start m).append
        ⟨tail, (conversionFrom action [] os start m).mode, []⟩ := by
  simpa [conversionFrom] using conversionFrom_append action tail os [] start m

theorem conversionFrom_prepend (action : Action) (t : Bytes) (s : Scan) (start : Nat) (m : Mode) :
    conversionFrom action (s.prepend t).tail (s.prepend t).occurrences start m =
      (Conversion.mk t m []).append
        (conversionFrom action s.tail s.occurrences (start + t.length) m) := by
  obtain ⟨os, tail⟩ := s
  cases os with
  | nil => rfl
  | cons o os =>
    have hlen : start + (t ++ o.before).length = start + t.length + o.before.length := by
      simp [Nat.add_assoc]
    have hsource : start + (Occurrence.source ⟨t ++ o.before, o.body⟩).length =
        start + t.length + o.source.length := by
      simp [Occurrence.source, Occurrence.bracketed, Nat.add_assoc]
    simp only [Scan.prepend, conversionFrom, Occurrence.product, hlen, hsource]
    cases replacement? action o.body m <;>
      simp [Conversion.append, Occurrence.source, Occurrence.bracketed]

/-- If no body reaches over the cut, the conversion of the whole is that of the first part
and then, under the mode it leaves, that of the second. -/
theorem conversion_append (action : Action) {a b : Bytes} (h : NoneOpen a ∨ NoneClosed b) (m : Mode) :
    conversion action (a ++ b) m =
      (conversion action a m).append
        ((conversion action b (conversion action a m).mode).shift a.length) := by
  have hlen := congrArg List.length (join_scan a)
  rw [Scan.join, List.length_append] at hlen
  have htail := conversionFrom_tail action (scan a).tail (scan a).occurrences 0 m
  have hmode : (conversion action a m).mode = (conversionFrom action [] (scan a).occurrences 0 m).mode := by
    rw [conversion, htail]
    rfl
  calc conversion action (a ++ b) m
      = (conversionFrom action [] (scan a).occurrences 0 m).append
          ((Conversion.mk (scan a).tail (conversion action a m).mode []).append
            (conversionFrom action (scan b).tail (scan b).occurrences (a.length + 0)
              (conversion action a m).mode)) := by
        rw [conversion, scan_append h, Scan.append, conversionFrom_append, conversionFrom_prepend, hmode,
          Nat.zero_add, hlen, Nat.add_zero]
    _ = _ := by
        rw [← Conversion.append_assoc, hmode, ← htail, conversionFrom_shift]
        rfl

/-- An occurrence in front of a text is converted first. -/
theorem conversion_source_append (action : Action) {o : Occurrence} (hu : Unpaired o.before)
    (hb : NoBrackets o.body) (rest : Bytes) (m : Mode) :
    conversion action (o.source ++ rest) m =
      (o.product action 0 m).append
        ((conversion action rest (o.product action 0 m).mode).shift o.source.length) := by
  rw [conversion, scan_source_append hu hb, conversion, ← conversionFrom_shift, Nat.add_zero]
  simp only [Scan.cons, conversionFrom, Nat.zero_add]

theorem convertValue_bytes (action : Action) {b : Bytes} (hb : ∀ x ∈ b, x ≠ 0) (holder : Holder)
    (m : Mode) :
    convertValue action (.bytes holder b) .none m =
      (conversion action b m).outcome.map (Value.bytes .constant) := by
  have hsrc : (Value.bytes holder b).source "text" = .ok b := by
    rw [Value.source_bytes, Bytes.untilNul_eq_self hb]
  exact TargetOperation.onText_unlimited (.convert action) hsrc m

/-- A byte string without zero bytes may be converted in two parts if no body reaches over
the cut: its result is that of the first part and behind it that of the second under the
mode the first part leaves, which leaves the mode of the whole. -/
theorem convertValue_append (action : Action) {a b : Bytes} (ha : ∀ x ∈ a, x ≠ 0)
    (hb : ∀ x ∈ b, x ≠ 0) (hcut : NoneOpen a ∨ NoneClosed b) (holder : Holder) (m : Mode) :
    ∃ ra rb,
      (convertValue action (.bytes holder a) .none m).result = .ok (.bytes .constant ra) ∧
      (convertValue action (.bytes holder b) .none
        (convertValue action (.bytes holder a) .none m).mode).result = .ok (.bytes .constant rb) ∧
      (convertValue action (.bytes holder (a ++ b)) .none m).result =
        .ok (.bytes .constant (ra ++ rb)) ∧
      (convertValue action (.bytes holder (a ++ b)) .none m).mode =
        (convertValue action (.bytes holder b) .none
          (convertValue action (.bytes holder a) .none m).mode).mode := by
  have hab : ∀ x ∈ a ++ b, x ≠ 0 := List.forall_mem_append.2 ⟨ha, hb⟩
  refine ⟨(conversion action a m).bytes, (conversion action b (conversion action a m).mode).bytes, ?_⟩
  rw [convertValue_bytes action ha, convertValue_bytes action hab, conversion_append action hcut]
  have hmode : ((conversion action a m).outcome.map (Value.bytes .constant)).mode =
      (conversion action a m).mode := rfl
  rw [hmode, convertValue_bytes action hb]
  exact ⟨rfl, rfl, rfl, rfl⟩

/-- The text `[bg]x[` is cut from `[red]`: a bracket is open there, but the rest opens its own. -/
theorem convertValue_append_open :
    let a : Bytes := [0x5B, 0x62, 0x67, 0x5D, 0x78, 0x5B]
    let b : Bytes := [0x5B, 0x72, 0x65, 0x64, 0x5D]
    ((∀ x ∈ a, x ≠ 0) ∧ (∀ x ∈ b, x ≠ 0) ∧ (NoneOpen a ∨ NoneClosed b)) ∧
    ∃ ra rb,
      (convertValue .replace (.bytes .constant a) .none .initial).result = .ok (.bytes .constant ra) ∧
      (convertValue .replace (.bytes .constant b) .none
        (convertValue .replace (.bytes .constant a) .none .initial).mode).result =
          .ok (.bytes .constant rb) ∧
      (convertValue .replace (.bytes .constant (a ++ b)) .none .initial).result =
        .ok (.bytes .constant (ra ++ rb)) ∧
      (convertValue .replace (.bytes .constant (a ++ b)) .none .initial).mode =
        (convertValue .replace (.bytes .constant b) .none
          (convertValue .replace (.bytes .constant a) .none .initial).mode).mode := by
  intro a b
  have ha : ∀ x ∈ a, x ≠ 0 := by simp [a]
  have hb : ∀ x ∈ b, x ≠ 0 := by simp [b]
  have hcut : NoneOpen a ∨ NoneClosed b := .inr (by decide)
  exact ⟨⟨ha, hb, hcut⟩, convertValue_append .replace ha hb hcut .constant .initial⟩

end ColorMarkup.Markup
