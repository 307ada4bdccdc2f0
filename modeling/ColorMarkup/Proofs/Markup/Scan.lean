import ColorMarkup.Markup.Scan
/-!
# The scan of a text in pieces

The scan is one pass with a memory. Here it is described from outside: what one
byte does to the memory, what an opening bracket in the middle of the text does,
and what is found in a text that is put together from occurrences. In the text
before an occurrence no opening bracket has a closing one behind it.

Results:
* `scanFrom_opening`: from an opening bracket on, the pass depends on the rest only.
* `scan_source_append`, `scan_of_unpaired`: an occurrence in front is found first,
  and text without a pair of brackets holds none.
* `before_unpaired`, `tail_unpaired`: text outside the bodies has no pair of brackets in it.
* `scan_occurrences_take`: the first occurrences of a text are those of its beginning.
-/
namespace ColorMarkup.Markup

/-! ## One byte -/

theorem scanFrom_cons_opening (before rest : Bytes) (opened : Option Bytes) :
    scanFrom before opened (opening :: rest) = scanFrom (pending before opened) (some []) rest := by
  simp [scanFrom]

theorem scanFrom_cons_text {c : UInt8} (h : c ≠ opening) (before rest : Bytes) :
    scanFrom before none (c :: rest) = scanFrom (c :: before) none rest := by
  simp [scanFrom, h]

theorem scanFrom_cons_closing (before body rest : Bytes) :
    scanFrom before (some body) (closing :: rest) =
      (scanFrom [] none rest).cons ⟨before.reverse, body.reverse⟩ := by
  simp [scanFrom, opening, closing]

theorem scanFrom_cons_inner {c : UInt8} (ho : c ≠ opening) (hc : c ≠ closing)
    (before body rest : Bytes) :
    scanFrom before (some body) (c :: rest) = scanFrom before (some (c :: body)) rest := by
  simp [scanFrom, ho, hc]

/-- An opening bracket anywhere in the text opens a body in front of the rest, whatever
was open before it. -/
theorem scanFrom_opening (pre rest before : Bytes) (opened : Option Bytes) :
    ∃ os before', (scanFrom before opened (pre ++ opening :: rest)).occurrences =
        os ++ (scanFrom before' (some []) rest).occurrences ∧
      os.flatMap Occurrence.source ++ before'.reverse = (pending before opened).reverse ++ pre := by
  induction pre generalizing before opened with
  | nil => exact ⟨[], pending before opened, by simp [scanFrom_cons_opening], by simp⟩
  | cons c pre ih =>
    rw [List.cons_append]
    by_cases ho : c = opening
    · subst ho
      obtain ⟨os, before', h1, h2⟩ := ih (pending before opened) (some [])
      exact ⟨os, before', by rw [scanFrom_cons_opening, h1], by simp [h2, pending]⟩
    · cases opened with
      | none =>
        obtain ⟨os, before', h1, h2⟩ := ih (c :: before) none
        exact ⟨os, before', by rw [scanFrom_cons_text ho, h1], by simp [h2, pending]⟩
      | some body =>
        by_cases hc : c = closing
        · subst hc
          obtain ⟨os, before', h1, h2⟩ := ih [] none
          refine ⟨⟨before.reverse, body.reverse⟩ :: os, before', ?_, ?_⟩
          · rw [scanFrom_cons_closing, Scan.cons, h1, List.cons_append]
          · simp [h2, pending, Occurrence.source, Occurrence.bracketed]
        · obtain ⟨os, before', h1, h2⟩ := ih before (some (c :: body))
          exact ⟨os, before', by rw [scanFrom_cons_inner ho hc, h1], by simp [h2, pending]⟩

/-- Text without brackets goes into the open body. -/
theorem scanFrom_noBrackets {t : Bytes} (ht : NoBrackets t) (before read rest : Bytes) :
    scanFrom before (some read) (t ++ rest) = scanFrom before (some (t.reverse ++ read)) rest := by
  induction t generalizing read with
  | nil => rfl
  | cons c t ih =>
    obtain ⟨⟨ho, hc⟩, ht'⟩ := List.forall_mem_cons.1 ht
    rw [List.cons_append, scanFrom_cons_inner ho hc, ih ht']
    simp

/-- An open body goes on to the next closing bracket. -/
theorem scanFrom_body {body : Bytes} (hb : NoBrackets body) (before read rest : Bytes) :
    scanFrom before (some read) (body ++ closing :: rest) =
      (scanFrom [] none rest).cons ⟨before.reverse, read.reverse ++ body⟩ := by
  rw [scanFrom_noBrackets hb, scanFrom_cons_closing, List.reverse_append, List.reverse_reverse]

/-! ## Text without a pair -/

/-- No opening bracket has a closing one behind it. -/
def Unpaired (b : Bytes) : Prop := b.Pairwise fun x y => x = opening → y ≠ closing

theorem unpaired_of_no_opening {b : Bytes} (h : opening ∉ b) : Unpaired b :=
  (List.pairwise_of_forall fun _ _ => trivial).imp_of_mem fun hx _ _ ho => absurd (ho ▸ hx) h

theorem unpaired_of_no_closing {b : Bytes} (h : closing ∉ b) : Unpaired b :=
  (List.pairwise_of_forall fun _ _ => trivial).imp_of_mem fun _ hy _ _ hc => h (hc ▸ hy)

theorem unpaired_append {a b : Bytes} (ha : opening ∉ a) (hb : closing ∉ b) : Unpaired (a ++ b) :=
  List.pairwise_append.2 ⟨unpaired_of_no_opening ha, unpaired_of_no_closing hb,
    fun _ hx _ _ ho => absurd (ho ▸ hx) ha⟩

/-- Such a text ends no body, also none that was open before it if it holds no closing
bracket: all of it becomes pending. -/
theorem scanFrom_unpaired {t : Bytes} (ht : Unpaired t) (before rest : Bytes)
    (opened : Option Bytes) (hc : opened.isSome → closing ∉ t) :
    ∃ before' opened', scanFrom before opened (t ++ rest) = scanFrom before' opened' rest ∧
      pending before' opened' = t.reverse ++ pending before opened := by
  induction t generalizing before opened with
  | nil => exact ⟨before, opened, rfl, rfl⟩
  | cons c t ih =>
    obtain ⟨hhead, htail⟩ := List.pairwise_cons.1 ht
    rw [List.cons_append]
    by_cases ho : c = opening
    · subst ho
      obtain ⟨before', opened', h1, h2⟩ := ih htail (pending before opened) (some [])
        fun _ hm => hhead _ hm rfl rfl
      exact ⟨before', opened', by rw [scanFrom_cons_opening, h1], by rw [h2]; simp [pending]⟩
    · cases opened with
      | none =>
        obtain ⟨before', opened', h1, h2⟩ := ih htail (c :: before) none (by simp)
        exact ⟨before', opened', by rw [scanFrom_cons_text ho, h1], by rw [h2]; simp [pending]⟩
      | some body =>
        have hn : closing ∉ c :: t := hc rfl
        obtain ⟨before', opened', h1, h2⟩ := ih htail before (some (c :: body))
          fun _ hm => hn (List.mem_cons_of_mem _ hm)
        have hcc : c ≠ closing := fun e => hn (e ▸ List.mem_cons_self)
        exact ⟨before', opened', by rw [scanFrom_cons_inner ho hcc, h1], by rw [h2]; simp [pending]⟩

theorem scan_of_unpaired {t : Bytes} (h : Unpaired t) : scan t = ⟨[], t⟩ := by
  obtain ⟨before, opened, h1, h2⟩ := scanFrom_unpaired h [] [] none (by simp)
  rw [List.append_nil] at h1
  rw [scan, h1, scanFrom, h2]
  simp [pending]

/-- An occurrence in front of a text is the first that is found. -/
theorem scan_source_append {o : Occurrence} (hu : Unpaired o.before) (hb : NoBrackets o.body)
    (rest : Bytes) : scan (o.source ++ rest) = (scan rest).cons o := by
  obtain ⟨before, opened, h1, h2⟩ :=
    scanFrom_unpaired hu [] (o.bracketed ++ rest) none (by simp)
  have hsrc : o.bracketed ++ rest = opening :: (o.body ++ closing :: rest) := by
    simp [Occurrence.bracketed]
  rw [scan, Occurrence.source, List.append_assoc, h1, hsrc, scanFrom_cons_opening, scanFrom_body hb,
    h2]
  simp [scan, pending]

/-! ## The beginning of a text -/

/-- A body that is given up closes nothing in the text before it. -/
theorem unpaired_pending {before : Bytes} {opened : Option Bytes} (h : opened = none → opening ∉ before)
    (hopened : ∀ body ∈ opened, Unpaired before.reverse ∧ closing ∉ body) :
    Unpaired (pending before opened).reverse := by
  cases opened with
  | none => exact unpaired_of_no_opening (by simpa [pending] using h rfl)
  | some body =>
    obtain ⟨hbefore, hb⟩ := hopened body rfl
    have hbody : closing ∉ [opening] ++ body.reverse := by
      simpa [opening, closing] using hb
    rw [pending, List.reverse_append, List.reverse_cons, List.append_assoc]
    exact List.pairwise_append.2 ⟨hbefore, unpaired_of_no_closing hbody,
      fun _ _ y hy _ hc => hbody (hc ▸ hy)⟩

theorem scanFrom_outside_unpaired (before : Bytes) (opened : Option Bytes) (src : Bytes)
    (h : opened = none → opening ∉ before)
    (hopened : ∀ body ∈ opened, Unpaired before.reverse ∧ closing ∉ body) :
    (∀ o ∈ (scanFrom before opened src).occurrences, Unpaired o.before) ∧
      Unpaired (scanFrom before opened src).tail := by
  induction src generalizing before opened with
  | nil => exact ⟨by simp [scanFrom], unpaired_pending h hopened⟩
  | cons c src ih =>
    by_cases ho : c = opening
    · subst ho
      rw [scanFrom_cons_opening]
      refine ih _ _ (by simp) fun body hbody => ⟨unpaired_pending h hopened, ?_⟩
      cases hbody
      simp
    · cases opened with
      | none =>
        rw [scanFrom_cons_text ho]
        refine ih _ _ (fun _ hm => ?_) (by simp)
        obtain he | hm := List.mem_cons.1 hm
        · exact ho he.symm
        · exact h rfl hm
      | some body =>
        obtain ⟨hbefore, hb⟩ := hopened body rfl
        by_cases hc : c = closing
        · subst hc
          rw [scanFrom_cons_closing]
          obtain ⟨hos, htail⟩ := ih [] none (by simp) (by simp)
          exact ⟨List.forall_mem_cons.2 ⟨hbefore, hos⟩, htail⟩
        · rw [scanFrom_cons_inner ho hc]
          refine ih _ _ (by simp) fun body' hbody' => ⟨hbefore, ?_⟩
          cases hbody'
          exact fun hm => (List.mem_cons.1 hm).elim (fun he => hc he.symm) hb

theorem before_unpaired (src : Bytes) : ∀ o ∈ (scan src).occurrences, Unpaired o.before :=
  (scanFrom_outside_unpaired _ _ _ (by simp) (by simp)).1

theorem tail_unpaired (src : Bytes) : Unpaired (scan src).tail :=
  (scanFrom_outside_unpaired _ _ _ (by simp) (by simp)).2

/-- Occurrences are found again in what they are put together to. -/
theorem scan_flatMap_source {os : List Occurrence} (hu : ∀ o ∈ os, Unpaired o.before)
    (hb : ∀ o ∈ os, NoBrackets o.body) : scan (os.flatMap Occurrence.source) = ⟨os, []⟩ := by
  induction os with
  | nil => rfl
  | cons o os ih =>
    obtain ⟨huo, hus⟩ := List.forall_mem_cons.1 hu
    obtain ⟨hbo, hbs⟩ := List.forall_mem_cons.1 hb
    rw [List.flatMap_cons, scan_source_append huo hbo, ih hus hbs]
    rfl

/-- The text up to the end of an occurrence is found to hold the occurrences up to it. -/
theorem scan_occurrences_take {src : Bytes} {os rest : List Occurrence}
    (h : (scan src).occurrences = os ++ rest) :
    scan (src.take (os.flatMap Occurrence.source).length) = ⟨os, []⟩ := by
  have hsrc : os.flatMap Occurrence.source ++ (rest.flatMap Occurrence.source ++ (scan src).tail) = src := by
    rw [← List.append_assoc, ← List.flatMap_append, ← h]
    exact join_scan src
  have hmem (o : Occurrence) (ho : o ∈ os) : o ∈ (scan src).occurrences :=
    h ▸ List.mem_append_left rest ho
  rw [← hsrc, List.take_left]
  exact scan_flatMap_source (fun o ho => before_unpaired src o (hmem o ho))
    fun o ho => body_no_brackets src o (hmem o ho)

end ColorMarkup.Markup
