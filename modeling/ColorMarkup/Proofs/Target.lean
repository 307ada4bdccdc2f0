import ColorMarkup.Proofs.Capacity
/-!
# Writing into a buffer agrees with the text operations

An operation that writes into a buffer says yes exactly if the buffer can take the
capacity byte by byte, the source can be read, and the source and the result of the same
operation on text stay below the capacity. What it writes is that result with its terminator, in
place of the start of the buffer; otherwise nothing is written.

Of the rest most is a no. What is not are views: one without a length, one that has been
released, and one that has other items than bytes, which fails when the result is there.

Results:
* `write_of_accepts`: what is written and left behind if everything is accepted.
* `accepts_of_done`: a yes means that everything was accepted.
* `write_error_iff`: when there is an error.
* `write_agrees`: all of them together.
-/
namespace ColorMarkup

theorem Value.asInt?_int (n : Int) : (Value.int n).asInt? = some n := rfl

namespace Object

/-- A flat buffer takes a capacity that is at most the number of its bytes. -/
theorem takes_of_cells? {o : Object} {content : Bytes} (h : o.cells? = some content) (c : Int) :
    o.takes c = .ok (decide (c ≤ content.length)) := by
  cases o with
  | value v =>
    cases v with
    | bytes holder b =>
      simp only [cells?, Option.ite_none_right_eq_some, Option.some.injEq] at h
      obtain ⟨hm, rfl⟩ := h
      simp [takes, hm]
    | _ => cases h
  | view v =>
    simp only [cells?, Option.ite_none_right_eq_some, Option.some.injEq, Bool.and_eq_true] at h
    obtain ⟨⟨hw, hflat⟩, rfl⟩ := h
    simp [takes, length, View.length_of_isFlat hflat, hw, Except.map]
  | releasedView | other => cases h

/-- A flat buffer can be written over, and stays one. -/
theorem overwrite_of_cells? {o : Object} {content result : Bytes} (h : o.cells? = some content)
    (hlen : result.length < content.length) :
    ∃ o', o.overwrite result = .ok o' ∧ o'.cells? = some (Target.store content result) := by
  cases o with
  | value v =>
    cases v with
    | bytes holder b =>
      simp only [cells?, Option.ite_none_right_eq_some, Option.some.injEq] at h
      obtain ⟨hm, rfl⟩ := h
      exact ⟨_, rfl, by simp [cells?, hm]⟩
    | _ => cases h
  | view v =>
    simp only [cells?, Option.ite_none_right_eq_some, Option.some.injEq, Bool.and_eq_true] at h
    obtain ⟨⟨hw, hflat⟩, rfl⟩ := h
    have hletter := hflat
    simp only [View.isFlat, Bool.and_eq_true, beq_iff_eq] at hletter
    refine ⟨view (v.withContent (Target.store v.content result) (Target.length_store hlen)), ?_, ?_⟩
    · simp [overwrite, View.overwrite, hletter, hlen, Except.map]
    · simp [cells?, View.withContent, hw, View.isFlat, hletter]
  | releasedView | other => cases h

/-- A buffer that takes a capacity is flat, or a view of another layout, which cannot be written
over. -/
theorem cells?_or_not_flat {o : Object} {c : Int} (h : o.takes c = .ok true) :
    (∃ content, o.cells? = some content) ∨
      (∃ v, o = .view v ∧ v.isFlat = false) ∧ ∀ result, ∃ e, o.overwrite result = .error e := by
  cases o with
  | value v =>
    cases v with
    | bytes holder b =>
      simp only [takes, Except.ok.injEq, Bool.and_eq_true] at h
      exact .inl ⟨b, by simp [cells?, h.2]⟩
    | _ => simp [takes] at h
  | view v =>
    cases hflat : v.isFlat with
    | true =>
      simp only [takes, length, View.length_of_isFlat hflat, Except.map, Except.ok.injEq,
        Bool.and_eq_true] at h
      exact .inl ⟨v.content, by simp [cells?, h.2, hflat]⟩
    | false =>
      refine .inr ⟨⟨v, rfl, hflat⟩, fun result => ?_⟩
      simp only [overwrite, View.overwrite]
      cases hletter : View.letter? v.format with
      | none => exact ⟨_, rfl⟩
      | some letter =>
        by_cases hshape : v.shape.length = 1
        · have hbyte : letter ≠ 'B' := by
            rintro rfl
            simp [View.isFlat, hletter, hshape] at hflat
          simp only [hshape, if_true, hbyte, false_and, dite_false]
          exact ⟨_, rfl⟩
        · simp only [hshape, if_false]
          exact ⟨_, rfl⟩
  | releasedView => cases h
  | other => simp [takes] at h

/-- Whether an object can be written over has an error for an answer if it is a view without a
length. -/
theorem takes_eq_error_iff (o : Object) (c : Int) :
    (∃ e, o.takes c = .error e) ↔ o = .releasedView ∨ ∃ v, o = .view v ∧ v.length? = none := by
  cases o with
  | value v => cases v <;> simp [takes]
  | view v =>
    simp only [takes, length]
    cases hlength : v.length? <;> simp [Except.map, hlength]
  | releasedView => simp [takes]
  | other => simp [takes]

/-- An object that cannot be read as a text is of a wrong type, or a text that no bytes stand for,
or a view that has been released. -/
theorem source_error {argument : String} {o : Object} {e : Error} (h : o.source argument = .error e) :
    e.isUnreadable = true ∨ o = .releasedView ∧ e = .misuse .released := by
  cases o with
  | value v =>
    obtain rfl | rfl := Value.source_error h
    · exact .inl rfl
    · exact .inl rfl
  | view v => cases h
  | releasedView =>
    cases h
    exact .inr ⟨rfl, rfl⟩
  | other =>
    cases h
    exact .inl rfl

end Object

namespace Target

/-- The source can be read, and it and the result of the operation on text are shorter than a
capacity. -/
structure Fits (op : TargetOperation) (src : Object) (m : Mode) (c : Int) (data : Bytes) (v : Value)
    (result : Bytes) : Prop where
  reads : src.source "src" = .ok data
  answers : (op.onText src.text .none m).result = .ok v
  writes : v.written? = some result
  source_lt : (data.length : Int) < c
  result_lt : (result.length : Int) < c

/-- The buffer is writable byte by byte and takes the capacity, and the source fits. -/
structure Accepts (op : TargetOperation) (dst : Object) (capacity : Value) (src : Object) (m : Mode)
    (content : Bytes) (c : Int) (data : Bytes) (v : Value) (result : Bytes) : Prop where
  cells : dst.cells? = some content
  isWhole : capacity.asInt? = some c
  takesCapacity : c ≤ content.length
  fits : Fits op src m c data v result

/-- There is an error: the buffer is a view without a length, or it takes the capacity but the
source is a view that has been released, or it takes the capacity and the source fits but the
items of the buffer are no bytes along one dimension. -/
structure Fails (op : TargetOperation) (dst : Object) (capacity : Value) (src : Object) (m : Mode)
    (c : Int) : Prop where
  isWhole : capacity.asInt? = some c
  isGiven : src ≠ .value .none
  why : (dst = .releasedView ∨ ∃ view, dst = .view view ∧ view.length? = none) ∨
    dst.takes c = .ok true ∧ (src = .releasedView ∨
      (∃ view, dst = .view view ∧ view.isFlat = false) ∧ ∃ data v result, Fits op src m c data v result)

variable {op : TargetOperation} {dst src : Object} {capacity : Value} {m : Mode}

theorem run_eq (op : TargetOperation) (src : Bytes) (c : Int) (m : Mode) :
    run op src c m = op.onBytes src (.int c) m := by
  cases op <;> rfl

theorem write_eq (op : TargetOperation) (dst : Object) (capacity : Value) (src : Object) (m : Mode) :
    write op dst capacity src m = match prepare dst capacity src with
      | .error answer => ⟨answer, dst, m, []⟩
      | .ok (c, data) =>
        let o := op.onBytes data (.int c) m
        ⟨(conclude dst o.result).1, (conclude dst o.result).2, o.mode, o.notices⟩ := by
  unfold write writeIn
  cases prepare dst capacity src with
  | error answer => rfl
  | ok p =>
    simp only [runIn_shared, Outcome.onShared, run_eq]

/-- An error comes before the operation runs: the buffer is a view without a length, or it takes
the capacity and the source is a view that has been released. -/
structure Stops (dst : Object) (capacity : Value) (src : Object) (c : Int) : Prop where
  isWhole : capacity.asInt? = some c
  isGiven : src ≠ .value .none
  why : (∃ e, dst.takes c = .error e) ∨ dst.takes c = .ok true ∧ src = .releasedView

theorem exists_stops_iff {c : Int} (hwhole : capacity.asInt? = some c) (hgiven : src ≠ .value .none) :
    (∃ c, Stops dst capacity src c) ↔
      (∃ e, dst.takes c = .error e) ∨ dst.takes c = .ok true ∧ src = .releasedView := by
  constructor
  · rintro ⟨c', h⟩
    obtain rfl : c' = c := Option.some.inj (h.isWhole.symm.trans hwhole)
    exact h.why
  · exact fun why => ⟨c, hwhole, hgiven, why⟩

/-- An operation runs if the buffer takes the capacity and the source can be read. If it does not
run, the answer is no, but for those errors. -/
theorem prepare_cases (dst : Object) (capacity : Value) (src : Object) :
    (∃ c data, prepare dst capacity src = .ok (c, data) ∧ capacity.asInt? = some c ∧
      dst.takes c = .ok true ∧ src.source "src" = .ok data) ∨
    ((¬ ∃ c, capacity.asInt? = some c ∧ dst.takes c = .ok true ∧ ∃ data, src.source "src" = .ok data) ∧
      ((prepare dst capacity src = .error (.ok false) ∧ ¬ ∃ c, Stops dst capacity src c) ∨
        ((∃ e, prepare dst capacity src = .error (.error e)) ∧ ∃ c, Stops dst capacity src c))) := by
  cases hwhole : capacity.asInt? with
  | none =>
    refine .inr ⟨by simp, .inl ⟨by simp only [prepare, hwhole], fun ⟨c, h⟩ => ?_⟩⟩
    rw [h.isWhole] at hwhole
    cases hwhole
  | some c =>
    by_cases hnone : src = .value .none
    · subst hnone
      exact .inr ⟨by simp [Object.source, Value.source, Value.sourceNamed],
        .inl ⟨by simp [prepare, hwhole, Object.isNone], fun ⟨_, h⟩ => h.isGiven rfl⟩⟩
    · have hgiven : src.isNone = false := by
        unfold Object.isNone
        split
        · exact absurd rfl hnone
        · rfl
      rw [exists_stops_iff hwhole hnone]
      simp only [prepare, hwhole, hgiven]
      cases htakes : dst.takes c with
      | error e => exact .inr ⟨by simp [htakes], .inr ⟨⟨e, rfl⟩, .inl ⟨e, rfl⟩⟩⟩
      | ok can =>
        cases can with
        | false => exact .inr ⟨by simp [htakes], .inl ⟨rfl, by simp⟩⟩
        | true =>
          cases hread : src.source "src" with
          | ok data => exact .inl ⟨c, data, rfl, rfl, htakes, rfl⟩
          | error e =>
            refine .inr ⟨by simp, ?_⟩
            obtain hunreadable | ⟨hreleased, rfl⟩ := Object.source_error hread
            · refine .inl ⟨by simp [refused, hunreadable], ?_⟩
              rintro (⟨_, he⟩ | ⟨-, rfl⟩)
              · cases he
              · cases hread
                cases hunreadable
            · exact .inr ⟨⟨_, rfl⟩, .inr ⟨rfl, hreleased⟩⟩

theorem prepare_eq_ok_iff {c : Int} {data : Bytes} :
    prepare dst capacity src = .ok (c, data) ↔
      capacity.asInt? = some c ∧ dst.takes c = .ok true ∧ src.source "src" = .ok data := by
  obtain ⟨c', data', hprepare, hwhole, htakes, hread⟩ | ⟨hnot, hend⟩ := prepare_cases dst capacity src
  · rw [hprepare, Except.ok.injEq, Prod.mk.injEq, hwhole, hread, Option.some.injEq, Except.ok.injEq]
    exact ⟨fun ⟨hc, hdata⟩ => ⟨hc, hc ▸ htakes, hdata⟩, fun ⟨hc, _, hdata⟩ => ⟨hc, hdata⟩⟩
  · constructor
    · intro h
      obtain ⟨hno, -⟩ | ⟨⟨e, he⟩, -⟩ := hend
      · rw [hno] at h
        cases h
      · rw [he] at h
        cases h
    · rintro ⟨hwhole, htakes, hread⟩
      exact absurd ⟨c, hwhole, htakes, data, hread⟩ hnot

/-- What fits is the product of the operation. -/
theorem Fits.result_eq {c : Int} {data : Bytes} {v : Value} {result : Bytes}
    (h : Fits op src m c data v result) : result = (op.product data m).bytes := by
  have hsrc := Value.source_argument (Object.source_text h.reads) "text"
  have hv : src.text.answer (op.product data m).bytes = v := by
    have hanswers := h.answers
    rw [op.onText_unlimited hsrc] at hanswers
    exact Except.ok.inj hanswers
  have hwrites := h.writes
  rw [← hv, Value.written?_answer hsrc] at hwrites
  exact (Option.some.inj hwrites).symm

/-- The product fits if it and the source are short enough. -/
theorem fits_product {c : Int} {data : Bytes} (hread : src.source "src" = .ok data)
    (hlen : (data.length : Int) < c) (hout : ((op.product data m).bytes.length : Int) < c) :
    Fits op src m c data (src.text.answer (op.product data m).bytes) (op.product data m).bytes where
  reads := hread
  answers := by
    rw [op.onText_unlimited (Value.source_argument (Object.source_text hread) "text")]
    rfl
  writes := Value.written?_answer (Object.source_text hread) _
  source_lt := hlen
  result_lt := hout

/-- What fits is what the operation makes within the capacity. -/
theorem Fits.onBytes_eq {c : Int} {data : Bytes} {v : Value} {result : Bytes}
    (h : Fits op src m c data v result) :
    op.onBytes data (.int c) m = (op.product data m).outcome := by
  have hlt := h.result_lt
  rw [h.result_eq] at hlt
  obtain ⟨-, -, hok⟩ | ⟨hnot, -⟩ := op.onBytes_limited data (Value.asInt?_int c) m
  · exact hok
  · exact absurd ⟨h.source_lt, hlt⟩ hnot

/-- An accepted operation is done: the result and its terminator are over the start of
the buffer, and the mode and the notices are those of the operation on text. -/
theorem write_of_accepts {content : Bytes} {c : Int} {data : Bytes} {v : Value} {result : Bytes}
    (h : Accepts op dst capacity src m content c data v result) :
    ∃ dst', dst.overwrite result = .ok dst' ∧ dst'.cells? = some (store content result) ∧
      write op dst capacity src m = ⟨.ok true, dst', (op.onText src.text .none m).mode,
        (op.onText src.text .none m).notices⟩ := by
  have hsrc := Value.source_argument (Object.source_text h.fits.reads) "text"
  have hlen : result.length < content.length := by
    have h1 := h.fits.result_lt
    have h2 := h.takesCapacity
    omega
  obtain ⟨dst', hover, hcells⟩ := Object.overwrite_of_cells? h.cells hlen
  have htakes : dst.takes c = .ok true := by
    rw [Object.takes_of_cells? h.cells, decide_eq_true h.takesCapacity]
  have hresult := h.fits.result_eq
  refine ⟨dst', hover, hcells, ?_⟩
  rw [write_eq, prepare_eq_ok_iff.2 ⟨h.isWhole, htakes, h.fits.reads⟩]
  simp only [h.fits.onBytes_eq, Markup.Conversion.outcome, conclude, ← hresult, hover]
  rw [op.onText_unlimited hsrc]
  rfl

theorem Accepts.not_fails {content : Bytes} {c c' : Int} {data : Bytes} {v : Value} {result : Bytes}
    (h : Accepts op dst capacity src m content c data v result) : ¬ Fails op dst capacity src m c' := by
  intro hfails
  obtain hlength | ⟨-, rfl | ⟨⟨view, rfl, hflat⟩, -⟩⟩ := hfails.why
  · obtain ⟨e, he⟩ := (dst.takes_eq_error_iff c').2 hlength
    rw [Object.takes_of_cells? h.cells] at he
    cases he
  · cases h.fits.reads
  · have hcells := h.cells
    simp [Object.cells?, hflat] at hcells

/-- How an operation ends that runs: it is done, or fails when the result is there, or is refused. -/
theorem conclude_cases (op : TargetOperation) {c : Int} (htakes : dst.takes c = .ok true)
    {data : Bytes} (hread : src.source "src" = .ok data) (m : Mode) :
    (∃ content v result, dst.cells? = some content ∧ c ≤ content.length ∧
      Fits op src m c data v result) ∨
    ((∃ view, dst = .view view ∧ view.isFlat = false) ∧ (∃ v result, Fits op src m c data v result) ∧
      ∃ e, conclude dst (op.onBytes data (.int c) m).result = (.error e, dst)) ∨
    ((¬ ∃ v result, Fits op src m c data v result) ∧
      conclude dst (op.onBytes data (.int c) m).result = (.ok false, dst)) := by
  obtain ⟨hlen, hout, hok⟩ | ⟨hnot, cause, herr, -⟩ :=
    op.onBytes_limited data (Value.asInt?_int c) m
  · have hfits : Fits op src m c data _ _ := fits_product hread hlen hout
    obtain ⟨content, hcells⟩ | ⟨hview, hover⟩ := Object.cells?_or_not_flat htakes
    · rw [Object.takes_of_cells? hcells, Except.ok.injEq, decide_eq_true_eq] at htakes
      exact .inl ⟨content, _, _, hcells, htakes, hfits⟩
    · obtain ⟨e, he⟩ := hover (op.product data m).bytes
      refine .inr (.inl ⟨hview, ⟨_, _, hfits⟩, e, ?_⟩)
      rw [hok]
      simp [conclude, Markup.Conversion.outcome, he]
  · refine .inr (.inr ⟨fun ⟨v, result, hfits⟩ => hnot ⟨hfits.source_lt, ?_⟩, ?_⟩)
    · rw [← hfits.result_eq]
      exact hfits.result_lt
    · rw [herr]
      rfl

/-- How a call ends: done, as it is accepted; or failed, with the buffer as it was; or with a no, with
the buffer as it was. -/
theorem write_cases (op : TargetOperation) (dst : Object) (capacity : Value) (src : Object) (m : Mode) :
    (∃ content c data v result, Accepts op dst capacity src m content c data v result) ∨
    ((∃ c, Fails op dst capacity src m c) ∧ (∃ e, (write op dst capacity src m).result = .error e) ∧
      (write op dst capacity src m).dst = dst) ∨
    ((¬ ∃ c, Fails op dst capacity src m c) ∧ (write op dst capacity src m).result = .ok false ∧
      (write op dst capacity src m).dst = dst) := by
  rw [write_eq]
  obtain ⟨c, data, hprepare, hwhole, htakes, hread⟩ | ⟨hnot, ⟨hno, hgoes⟩ | ⟨⟨e, he⟩, c, hstops⟩⟩ :=
    prepare_cases dst capacity src
  · simp only [hprepare]
    obtain ⟨content, v, result, hcells, hle, hfits⟩ | ⟨hview, ⟨v, result, hfits⟩, e, he⟩ | ⟨hnot, hno⟩ :=
      conclude_cases op htakes hread m
    · exact .inl ⟨content, c, data, v, result, hcells, hwhole, hle, hfits⟩
    · have hgiven : src ≠ .value .none := by
        rintro rfl
        cases hread
      rw [he]
      exact .inr (.inl ⟨⟨c, hwhole, hgiven, .inr ⟨htakes, .inr ⟨hview, data, v, result, hfits⟩⟩⟩,
        ⟨e, rfl⟩, rfl⟩)
    · rw [hno]
      refine .inr (.inr ⟨fun ⟨c', hfails⟩ => ?_, rfl, rfl⟩)
      obtain rfl : c' = c := Option.some.inj (hfails.isWhole.symm.trans hwhole)
      obtain hlength | ⟨-, rfl | ⟨-, data', v, result, hfits⟩⟩ := hfails.why
      · obtain ⟨e, he⟩ := (dst.takes_eq_error_iff c').2 hlength
        rw [htakes] at he
        cases he
      · cases hread
      · obtain rfl : data' = data := Except.ok.inj (hfits.reads.symm.trans hread)
        exact hnot ⟨v, result, hfits⟩
  · rw [hno]
    refine .inr (.inr ⟨fun ⟨c, hfails⟩ => ?_, rfl, rfl⟩)
    obtain hlength | ⟨htakes, rfl | ⟨-, data, v, result, hfits⟩⟩ := hfails.why
    · exact hgoes ⟨c, hfails.isWhole, hfails.isGiven, .inl ((dst.takes_eq_error_iff c).2 hlength)⟩
    · exact hgoes ⟨c, hfails.isWhole, hfails.isGiven, .inr ⟨htakes, rfl⟩⟩
    · exact hnot ⟨c, hfails.isWhole, htakes, data, hfits.reads⟩
  · rw [he]
    refine .inr (.inl ⟨⟨c, hstops.isWhole, hstops.isGiven, ?_⟩, ⟨e, rfl⟩, rfl⟩)
    obtain hlength | ⟨htakes, hreleased⟩ := hstops.why
    · exact .inl ((dst.takes_eq_error_iff c).1 hlength)
    · exact .inr ⟨htakes, .inl hreleased⟩

/-- An operation that is done was accepted. -/
theorem accepts_of_done (h : (write op dst capacity src m).done = true) :
    ∃ content c data v result, Accepts op dst capacity src m content c data v result := by
  rw [Answer.done_iff] at h
  obtain haccepts | ⟨-, ⟨e, he⟩, -⟩ | ⟨-, hno, -⟩ := write_cases op dst capacity src m
  · exact haccepts
  · rw [he] at h
    cases h
  · rw [hno] at h
    cases h

/-- The errors of a call. -/
theorem write_error_iff (op : TargetOperation) (dst : Object) (capacity : Value) (src : Object)
    (m : Mode) :
    (∃ e, (write op dst capacity src m).result = .error e) ↔ ∃ c, Fails op dst capacity src m c := by
  obtain ⟨content, c, data, v, result, haccepts⟩ | ⟨hfails, he, -⟩ | ⟨hnot, hno, -⟩ :=
    write_cases op dst capacity src m
  · obtain ⟨dst', -, -, hdone⟩ := write_of_accepts haccepts
    refine ⟨fun ⟨e, he⟩ => ?_, fun ⟨c', hfails⟩ => ?_⟩
    · rw [hdone] at he
      cases he
    · exact absurd hfails haccepts.not_fails
  · exact ⟨fun _ => hfails, fun _ => he⟩
  · refine ⟨fun ⟨e, he⟩ => ?_, fun hfails => absurd hfails hnot⟩
    rw [hno] at he
    cases he

/-- Writing into a buffer agrees with the operation on text. It is done exactly if it is
accepted; then the buffer holds the result, a zero byte, and what stood behind these,
and is as long as before. Otherwise the buffer is what it was. An error comes only from a view: from
one without a length, from one that has been released, or from one whose items are no bytes. -/
theorem write_agrees (op : TargetOperation) (dst : Object) (capacity : Value) (src : Object) (m : Mode) :
    ((write op dst capacity src m).done = true ↔
      ∃ content c data v result, Accepts op dst capacity src m content c data v result) ∧
    (∀ content c data v result, Accepts op dst capacity src m content c data v result →
      (write op dst capacity src m).dst.cells? =
        some (result ++ 0 :: content.drop (result.length + 1)) ∧
      (result ++ 0 :: content.drop (result.length + 1)).length = content.length ∧
      (write op dst capacity src m).mode = (op.onText src.text .none m).mode ∧
      (write op dst capacity src m).notices = (op.onText src.text .none m).notices) ∧
    ((write op dst capacity src m).done = false → (write op dst capacity src m).dst = dst) ∧
    ((∃ e, (write op dst capacity src m).result = .error e) ↔ ∃ c, Fails op dst capacity src m c) := by
  refine ⟨⟨accepts_of_done, ?_⟩, ?_, fun hnot => ?_, write_error_iff op dst capacity src m⟩
  · rintro ⟨content, c, data, v, result, h⟩
    obtain ⟨dst', -, -, hdone⟩ := write_of_accepts h
    rw [hdone]
    rfl
  · intro content c data v result h
    -- the capacity stands between the result and the end of the buffer
    have hlen : result.length < content.length := by
      have h1 := h.fits.result_lt
      have h2 := h.takesCapacity
      omega
    obtain ⟨dst', -, hcells, hdone⟩ := write_of_accepts h
    rw [hdone]
    exact ⟨hcells, length_store hlen, rfl, rfl⟩
  · obtain ⟨content, c, data, v, result, h⟩ | ⟨-, -, hdst⟩ | ⟨-, -, hdst⟩ :=
      write_cases op dst capacity src m
    · obtain ⟨dst', -, -, hdone⟩ := write_of_accepts h
      rw [hdone] at hnot
      cases hnot
    · exact hdst
    · exact hdst

/-- The text `[red]x` is written into a buffer of twenty bytes. -/
theorem write_agrees_red :
    let dst : Object := .value (.bytes .array (List.replicate 20 0xFF))
    let src : Object := .value (.bytes .constant [0x5B, 0x72, 0x65, 0x64, 0x5D, 0x78])
    (write (.convert .replace) dst (.int 20) src .initial).done = true ∧
    ∃ content c data v result,
      Accepts (.convert .replace) dst (.int 20) src .initial content c data v result := by
  intro dst src
  have hdone : (write (.convert .replace) dst (.int 20) src .initial).done = true := by
    decide +kernel
  exact ⟨hdone, (write_agrees (.convert .replace) dst (.int 20) src .initial).1.1 hdone⟩

/-- Eight words may be written over, and are no fewer than a capacity of eight: the operation runs,
and writing its result fails. The text `é[tan]` has a result of eleven characters, whose bytes are
twelve: a capacity of twelve is not enough for it. -/
theorem write_eightWords :
    let hi : Value := .text [0x68, 0x69]
    let tan : Value := .text [0xE9, 0x5B, 0x74, 0x61, 0x6E, 0x5D]
    let dst : Object := .value (.bytes .array (List.replicate 20 0xFF))
    ((Object.view .eightWords).length = .ok 8 ∧ View.eightWords.isWritable = true ∧
      (TargetOperation.onText .stripSequences hi .none .initial).result = .ok hi ∧
      (write .stripSequences (.view .eightWords) (.int 8) (.value hi) .initial).result =
        .error (.misuse .viewItems)) ∧
    (∃ t : Text, t.length = 11 ∧
      (TargetOperation.onText (.convert .replace) tan .none .initial).result = .ok (.text t)) ∧
    (write (.convert .replace) dst (.int 12) (.value tan) .initial).done = false := by
  intro hi tan dst
  have hsrc : tan.source "text" = .ok [0xC3, 0xA9, 0x5B, 0x74, 0x61, 0x6E, 0x5D] := rfl
  refine ⟨⟨rfl, rfl, rfl, rfl⟩, ⟨Utf8.decode (TargetOperation.product (.convert .replace)
    [0xC3, 0xA9, 0x5B, 0x74, 0x61, 0x6E, 0x5D] .initial).bytes, by decide +kernel, ?_⟩,
    by decide +kernel⟩
  rw [TargetOperation.onText_unlimited _ hsrc]
  rfl

end Target
end ColorMarkup
