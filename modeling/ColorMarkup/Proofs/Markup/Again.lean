import ColorMarkup.Proofs.Escape.Spans
import ColorMarkup.Proofs.Markup.Cut
import ColorMarkup.Proofs.ReadBack
/-!
# Stripping again

What is left of a text when its tags are removed may hold a tag: the removal can join an
opening bracket to a closing one, and it takes out the changes of the mode under which a body
was kept. Removing tags again changes the text exactly if a body in it is a tag. None is if
the text outside the bodies has no pair of brackets and no kept body is a tag under the mode
before. Sequences are alike: what is left may hold one that the removal has put together.

Results:
* `conversion_remove_eq_self_iff`: removing tags changes nothing exactly if there is none.
* `exists_kept_body`: a text without a stray pair keeps its kept bodies and gets no new one.
* `strip_again`: both operations, done twice.
-/
namespace ColorMarkup
namespace Markup

/-- No body that stands in brackets in the text is a tag under the mode. -/
def Inert (src : Bytes) (m : Mode) : Prop :=
  ∀ p : Place, p.OccursIn src → replacement? .remove p.body m = none

/-- What stands outside the bodies, put together. -/
def Scan.stray (s : Scan) : Bytes := s.occurrences.flatMap Occurrence.before ++ s.tail

theorem forall_body_placesFrom {P : Bytes → Prop} (start : Nat) (os : List Occurrence) :
    (∀ p ∈ placesFrom start os, P p.body) ↔ ∀ o ∈ os, P o.body := by
  induction os generalizing start with
  | nil => simp [placesFrom]
  | cons o os ih => simp only [placesFrom, List.forall_mem_cons, ih]

theorem inert_iff (src : Bytes) (m : Mode) :
    Inert src m ↔ ∀ o ∈ (scan src).occurrences, replacement? .remove o.body m = none := by
  rw [← forall_body_placesFrom (P := fun body => replacement? .remove body m = none) 0,
    placesFrom_scan]
  simp only [mem_places, Inert]

/-! ## Nothing to remove -/

/-- A body that is not kept leaves less than it takes. -/
theorem product_remove_lt {o : Occurrence} {m : Mode} (h : replacement? .remove o.body m ≠ none)
    (start : Nat) : (o.product .remove start m).bytes.length < o.source.length := by
  have hsource : o.source.length = o.before.length + (o.body.length + 2) := by
    simp [Occurrence.source, Occurrence.bracketed]
  unfold Occurrence.product
  cases body_kind o.body m with
  | kept hk => exact absurd (hk _) h
  | modeChange m' hk => rw [hk, hsource]; simp
  | fixed hk => rw [hk, hsource]; simp
  | sequence params _ _ hk => rw [hk, hsource]; simp

theorem conversionFrom_remove_eq_iff (tail : Bytes) (os : List Occurrence) (start : Nat) (m : Mode) :
    (conversionFrom .remove tail os start m).bytes = os.flatMap Occurrence.source ++ tail ↔
      ∀ o ∈ os, replacement? .remove o.body m = none := by
  refine ⟨fun heq => ?_, fun h => (conversionFrom_of_kept h tail start).1⟩
  induction os generalizing start with
  | nil => simp
  | cons o os ih =>
    simp only [conversionFrom, Conversion.append, List.flatMap_cons, List.append_assoc] at heq
    by_cases ho : replacement? .remove o.body m = none
    · have hproduct : o.product .remove start m =
          ⟨o.source, m, [⟨start + o.before.length, o.body⟩]⟩ := by
        rw [Occurrence.product, ho]
      rw [hproduct, List.append_cancel_left_eq] at heq
      exact List.forall_mem_cons.2 ⟨ho, ih _ heq⟩
    · -- the body leaves less than it takes, and nothing behind it leaves more
      have hlen := congrArg List.length heq
      have hlt := product_remove_lt ho start
      have hle := conversionFrom_remove_length tail os (start + o.source.length)
        (o.product .remove start m).mode
      simp only [Scan.join, List.length_append] at hlen hle
      omega

/-- Removing tags leaves a text as it is exactly if no body in it is a tag. -/
theorem conversion_remove_eq_self_iff (src : Bytes) (m : Mode) :
    (conversion .remove src m).bytes = src ↔ Inert src m := by
  rw [inert_iff, ← conversionFrom_remove_eq_iff (scan src).tail, ← Scan.join, join_scan]
  rfl

/-! ## No new body -/

theorem noneClosed_append {a b : Bytes} (ha : closing ∉ a) (hb : NoneClosed b) :
    NoneClosed (a ++ b) := by
  unfold NoneClosed at hb ⊢
  rw [List.takeWhile_append]
  split
  · exact fun hm => (List.mem_append.1 hm).elim ha hb
  · exact fun hm => ha ((List.takeWhile_sublist _).mem hm)

theorem noneClosed_opening (b : Bytes) : NoneClosed (opening :: b) := by
  simp [NoneClosed]

theorem noneOpen_of_not_mem {a : Bytes} (h : opening ∉ a) : NoneOpen a :=
  fun hm => h (List.mem_reverse.1 ((List.takeWhile_sublist _).mem hm))

/-- What is written in place of a body that is removed holds no bracket. -/
theorem replacement?_remove_noBrackets {body data : Bytes} {m m' : Mode}
    (h : replacement? .remove body m = some (data, m')) : NoBrackets data := by
  cases body_kind body m with
  | kept hk => rw [hk] at h; cases h
  | modeChange m'' hk =>
    rw [hk] at h
    cases h
    simp [NoBrackets]
  | fixed hk =>
    rw [hk] at h
    cases h
    intro c hc
    obtain rfl := List.mem_singleton.1 hc
    decide
  | sequence params _ _ hk =>
    rw [hk] at h
    cases h
    simp [NoBrackets]

/-- If nothing outside the bodies closes, the text that is left closes nothing that it has
not opened. -/
theorem noneClosed_conversionFrom {tail : Bytes} {os : List Occurrence}
    (h : closing ∉ Scan.stray ⟨os, tail⟩) (start : Nat) (m : Mode) :
    NoneClosed (conversionFrom .remove tail os start m).bytes := by
  induction os generalizing start m with
  | nil =>
    have htail := noneClosed_append (b := []) h (by simp [NoneClosed])
    rwa [List.append_nil] at htail
  | cons o os ih =>
    simp only [Scan.stray, List.flatMap_cons, List.append_assoc, List.mem_append, not_or] at h
    obtain ⟨hbefore, hrest⟩ := h
    have hos := ih (by simpa [Scan.stray] using hrest) (start + o.source.length)
      (o.product .remove start m).mode
    simp only [conversionFrom, Conversion.append]
    cases hr : replacement? .remove o.body m with
    | none =>
      simp only [Occurrence.product, hr, Occurrence.source, Occurrence.bracketed, List.append_assoc,
        List.cons_append]
      exact noneClosed_append hbefore (noneClosed_opening _)
    | some r =>
      have hdata := replacement?_remove_noBrackets hr
      simp only [Occurrence.product, hr] at hos ⊢
      refine noneClosed_append (fun hm => ?_) hos
      exact (List.mem_append.1 hm).elim hbefore fun hm => (hdata _ hm).2 rfl

theorem Scan.prepend_body {t : Bytes} {s : Scan} {o : Occurrence}
    (h : o ∈ (s.prepend t).occurrences) : ∃ o' ∈ s.occurrences, o'.body = o.body := by
  obtain ⟨os, tail⟩ := s
  cases os with
  | nil => cases h
  | cons o' os =>
    obtain rfl | h := List.mem_cons.1 h
    · exact ⟨o', List.mem_cons_self, rfl⟩
    · exact ⟨o, List.mem_cons_of_mem _ h, rfl⟩

/-- If the text outside the bodies has no pair of brackets, every body of the text that is
left when tags are removed is one that was kept. -/
theorem exists_kept_body {tail : Bytes} {os : List Occurrence} (hb : ∀ o ∈ os, NoBrackets o.body)
    (h : Unpaired (Scan.stray ⟨os, tail⟩)) (start : Nat) (m : Mode) :
    ∀ o ∈ (scan (conversionFrom .remove tail os start m).bytes).occurrences,
      ∃ p ∈ (conversionFrom .remove tail os start m).kept, p.body = o.body := by
  induction os generalizing start m with
  | nil =>
    have htail : Unpaired tail := h
    simp [conversionFrom, scan_of_unpaired htail]
  | cons o os ih =>
    obtain ⟨hbody, hbodies⟩ := List.forall_mem_cons.1 hb
    rw [Scan.stray, List.flatMap_cons, List.append_assoc] at h
    obtain ⟨hbefore, hstray, hcross⟩ := List.pairwise_append.1 h
    have hos := ih hbodies hstray (start + o.source.length) (o.product .remove start m).mode
    simp only [conversionFrom, Conversion.append]
    cases hr : replacement? .remove o.body m with
    | none =>
      simp only [Occurrence.product, hr] at hos ⊢
      rw [scan_source_append hbefore hbody]
      intro o' ho'
      obtain rfl | ho' := List.mem_cons.1 ho'
      · exact ⟨_, List.mem_cons_self, rfl⟩
      · obtain ⟨p, hp, hpo⟩ := hos o' ho'
        exact ⟨p, List.mem_append_right _ hp, hpo⟩
    | some r =>
      obtain ⟨data, m'⟩ := r
      have hdata := replacement?_remove_noBrackets hr
      simp only [Occurrence.product, hr] at hos ⊢
      have hfront : Unpaired (o.before ++ data) := by
        refine List.pairwise_append.2 ⟨hbefore, unpaired_of_no_closing fun hm => (hdata _ hm).2 rfl, ?_⟩
        exact fun _ _ y hy _ => (hdata y hy).2
      -- the cut is not reached over: nothing is open there, or nothing is closed behind it
      have hcut : NoneOpen (o.before ++ data) ∨
          NoneClosed (conversionFrom .remove tail os (start + o.source.length) m').bytes := by
        by_cases ho : opening ∈ o.before
        · exact .inr (noneClosed_conversionFrom (fun hm => hcross _ ho _ hm rfl rfl) _ _)
        · refine .inl (noneOpen_of_not_mem fun hm => ?_)
          exact (List.mem_append.1 hm).elim ho fun hm => (hdata _ hm).1 rfl
      rw [scan_append hcut, scan_of_unpaired hfront]
      intro o' ho'
      obtain ⟨o'', ho'', hbody''⟩ := Scan.prepend_body ho'
      obtain ⟨p, hp, hpo⟩ := hos o'' ho''
      exact ⟨p, List.mem_append_right _ hp, hpo.trans hbody''⟩

/-- If the text outside the bodies has no pair of brackets and no kept body is a tag under
the mode before, there is no tag in what is left. -/
theorem inert_conversion_remove {src : Bytes} {m : Mode} (h : Unpaired (scan src).stray)
    (hkept : ∀ p ∈ (conversion .remove src m).kept, replacement? .remove p.body m = none) :
    Inert (conversion .remove src m).bytes m := by
  rw [inert_iff]
  intro o ho
  obtain ⟨p, hp, hpo⟩ := exists_kept_body (body_no_brackets src) h 0 m o ho
  exact hpo ▸ hkept p hp

end Markup

/-! ## The operations -/

/-- An operation done again on its own answer answers in the same kind, so the answer is the
same exactly if the bytes are. -/
theorem TargetOperation.onText_again (op : TargetOperation) {text : Value} {src : Bytes}
    (h : text.source "text" = .ok src) (m : Mode) :
    ∃ once out twice, (op.onText text .none m).result = .ok once ∧ once.source "text" = .ok out ∧
      (op.onText once .none m).result = .ok twice ∧ out = (op.product src m).bytes ∧
      (twice = once ↔ (op.product out m).bytes = out) := by
  have hzero (hsrc : ∀ b ∈ src, b ≠ 0) : ∀ b ∈ (op.product src m).bytes, b ≠ 0 := by
    rintro b hb rfl
    exact hsrc 0 ((op.zero_mem_product src m).1 hb) rfl
  have honce := Value.source_answer h hzero "text"
  refine ⟨text.answer (op.product src m).bytes, (op.product src m).bytes,
    text.answer (op.product (op.product src m).bytes m).bytes, ?_, honce, ?_, rfl, ?_⟩
  · rw [op.onText_unlimited h]
    rfl
  · rw [op.onText_unlimited honce]
    exact congrArg Except.ok (text.answer_answer _ _)
  · refine ⟨fun heq => ?_, congrArg text.answer⟩
    have hwritten := congrArg Value.written? heq
    rwa [Value.written?_answer h, Value.written?_answer h, Option.some.injEq] at hwritten

/-- Removing again, under the same mode, what an operation has removed before. A text that
has been stripped of tags changes exactly if it holds a body that is a tag; it does not if
the text outside the bodies had no pair of brackets and no kept body is a tag under the mode
before. A text that has been stripped of sequences changes exactly if it holds one; it does not
if no sequence stood right behind the start of another one. -/
theorem strip_again {text : Value} {src : Bytes} (h : text.source "text" = .ok src) (m : Mode) :
    (∃ once out twice, (Markup.convertValue .remove text .none m).result = .ok once ∧
      once.source "text" = .ok out ∧
      (Markup.convertValue .remove once .none m).result = .ok twice ∧
      (twice = once ↔ Markup.Inert out m) ∧
      (Markup.Unpaired (Markup.scan src).stray →
        (∀ p ∈ (Markup.conversion .remove src m).kept,
          Markup.replacement? .remove p.body m = none) → twice = once)) ∧
    (∃ once out twice, Sgr.stripValue text .none = .ok once ∧ once.source "text" = .ok out ∧
      Sgr.stripValue once .none = .ok twice ∧
      (twice = once ↔ ∀ s, ¬ Sgr.SpanIn UInt8.toNat s out) ∧
      (Sgr.Apart UInt8.toNat src → twice = once)) := by
  constructor
  · obtain ⟨once, out, twice, honce, hout, htwice, rfl, hiff⟩ :=
      TargetOperation.onText_again (.convert .remove) h m
    refine ⟨once, _, twice, honce, hout, htwice, hiff.trans (Markup.conversion_remove_eq_self_iff _ m),
      fun hstray hkept => hiff.2 ?_⟩
    exact (Markup.conversion_remove_eq_self_iff _ m).2 (Markup.inert_conversion_remove hstray hkept)
  · obtain ⟨once, out, twice, honce, hout, htwice, rfl, hiff⟩ :=
      TargetOperation.onText_again .stripSequences h m
    exact ⟨once, _, twice, honce, hout, htwice, hiff.trans (Sgr.remove_eq_self_iff _),
      fun hapart => hiff.2 (Sgr.remove_remove hapart)⟩

/-- The text `[red]a[z]` has one tag, and the brackets that are left hold none. -/
theorem strip_again_brackets :
    let src : Bytes := [0x5B, 0x72, 0x65, 0x64, 0x5D, 0x61, 0x5B, 0x7A, 0x5D]
    (Value.bytes .constant src).source "text" = .ok src ∧
    ∃ once twice, (Markup.convertValue .remove (.bytes .constant src) .none .initial).result = .ok once ∧
      (Markup.convertValue .remove once .none .initial).result = .ok twice ∧ twice = once := by
  intro src
  have hsrc : (Value.bytes .constant src).source "text" = .ok src := rfl
  obtain ⟨⟨once, _, twice, honce, -, htwice, -, hagain⟩, -⟩ := strip_again hsrc .initial
  refine ⟨hsrc, once, twice, honce, htwice, hagain ?_ ?_⟩
  · unfold Markup.Unpaired
    decide +kernel
  · decide +kernel

/-- Removing once is not enough for `[re[red]d]`, which leaves `[red]`, for `[24-bit][5]`, which
leaves `[5]`, which is a tag as long as the mode is of 8 bits, and for a sequence within
another one. -/
theorem strip_again_joined :
    let nested : Bytes := [0x5B, 0x72, 0x65, 0x5B, 0x72, 0x65, 0x64, 0x5D, 0x64, 0x5D]
    let red : Bytes := [0x5B, 0x72, 0x65, 0x64, 0x5D]
    let switched : Bytes := [0x5B, 0x32, 0x34, 0x2D, 0x62, 0x69, 0x74, 0x5D, 0x5B, 0x35, 0x5D]
    let five : Bytes := [0x5B, 0x35, 0x5D]
    let within : Bytes := [0x1B, 0x5B, 0x1B, 0x5B, 0x30, 0x6D, 0x31, 0x6D]
    let sequence : Bytes := [0x1B, 0x5B, 0x31, 0x6D]
    let strip := fun b => (Markup.convertValue .remove (.bytes .constant b) .none .initial).result
    let stripSequences := fun b => Sgr.stripValue (.bytes .constant b) .none
    (strip nested = .ok (.bytes .constant red) ∧ strip red = .ok (.bytes .constant [])) ∧
    (strip switched = .ok (.bytes .constant five) ∧ strip five = .ok (.bytes .constant [])) ∧
    (stripSequences within = .ok (.bytes .constant sequence) ∧
      stripSequences sequence = .ok (.bytes .constant [])) := by
  intro nested red switched five within sequence strip stripSequences
  have hstrip (b : Bytes) (hb : ∀ x ∈ b, x ≠ 0) (r : Bytes)
      (hr : (Markup.conversion .remove b .initial).bytes = r) : strip b = .ok (.bytes .constant r) := by
    rw [← hr]
    exact congrArg Outcome.result (Markup.convertValue_bytes .remove hb .constant .initial)
  refine ⟨⟨hstrip _ ?_ _ ?_, hstrip _ ?_ _ ?_⟩, ⟨hstrip _ ?_ _ ?_, hstrip _ ?_ _ ?_⟩, rfl, rfl⟩
  all_goals decide +kernel

end ColorMarkup
