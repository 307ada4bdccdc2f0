import ColorMarkup.Proofs.Mode.Change
import ColorMarkup.Session
/-!
# The last accepted mode wins

What happens to a mode can be said without following it: every operation gives parts of
the mode new values, and which ones does not depend on the mode it meets. A request
gives a value if it asks for one; a tag for a mode gives its value wherever a text, a
builder or a caller performs it; nothing else gives any. After a run each part has the
value given last, or the one it had.

Results:
* `Operation.run_mode`: one operation applies its changes, in order, and nothing else.
* `Operation.mode_of_error`: a refused operation changes nothing.
* `Operation.last_change_wins`: the depth and the direction after a run.
-/
namespace ColorMarkup

namespace Subject

/-- What performing the subject changes. A caller's own definition requests what it forces. -/
def modeChanges : Subject → List ModeChange
  | name v | body v => (ModeChange.ofNameValue? v).toList
  | number _ => []
  | definition fields => match Definition.ofFields fields with
    | .ok e => (ModeChange.ofDepthValue? e.forcesDepth).toList ++
        (ModeChange.ofDirectionValue? e.forcesDirection).toList
    | .error _ => []

end Subject

namespace Operation

/-- What the operation changes, in order, whatever mode it meets. A text changes what its tags
change; a builder or a caller that is refused before a tag is performed changes nothing. -/
def modeChanges : Operation → List ModeChange
  | requestDepth v => (ModeChange.ofDepthValue? v).toList
  | requestDirection v => (ModeChange.ofDirectionValue? v).toList
  | ofIndex .. | ofColor .. => []
  | ofName name direction depth =>
    if (Builder.request name direction depth).isOk then (ModeChange.ofNameValue? name).toList else []
  | perform subject depth direction =>
    if (subject.request depth direction).isOk then subject.modeChanges else []
  | convert _ text _ => match text.source "text" with
    | .ok src => (Markup.places src).filterMap fun p => ModeChange.ofBody? p.body
    | .error _ => []

/-- The operation has no capacity to fail by. -/
def Unlimited : Operation → Prop
  | convert _ _ capacity => capacity = .none
  | _ => True

end Operation

/-- The mode after operations, one after the other. -/
def Mode.after (m : Mode) (ops : List Operation) : Mode := ops.foldl (fun m op => (op.run m).mode) m

/-! ## What values mean as names -/

namespace ModeChange

/-- What a value means as a tag's body, if it can be a body at all. -/
theorem ofValue?_cases {v : Value} {meaning : Option Meaning} (h : Meaning.ofValue? v = .ok meaning) :
    (meaning = none ∧ ofNameValue? v = none) ∨ ∃ n, meaning = some n ∧
      ∀ m depth d, (n.perform m depth d).mode = applyAll (ofNameValue? v).toList m := by
  unfold Meaning.ofValue? at h
  cases hkey : v.key? "name" with
  | error e => simp [hkey, Except.map] at h
  | ok key =>
    rw [ofNameValue?_of_key? hkey]
    simp only [hkey, Except.map, Except.ok.injEq] at h
    subst h
    cases key with
    | none => exact .inl ⟨rfl, rfl⟩
    | some body =>
      simp only [Option.bind_some]
      cases hb : Meaning.ofBody? body with
      | none => exact .inl ⟨rfl, ofBody?_of_no_meaning hb⟩
      | some n => exact .inr ⟨n, rfl, meaning_mode hb⟩

theorem ofBody?_of_entry {body : Bytes} {e : Entry} (h : Vocabulary.find? body = some e) :
    Meaning.ofBody? body = some (.entry e) := by
  unfold Meaning.ofBody?
  split
  · next e' he =>
    rw [h] at he
    cases he
    rfl
  · next hnone =>
    rw [h] at hnone
    cases hnone

/-- A name of the vocabulary means as a tag's body what it is a name of. -/
theorem meaning_of_entry {v : Value} {e : Entry} (h : Vocabulary.ofValue? v = .ok (some e)) :
    Meaning.ofValue? v = .ok (some (.entry e)) := by
  unfold Vocabulary.ofValue? at h
  cases hkey : v.key? "name" with
  | error e => simp [hkey, Except.map] at h
  | ok key =>
    simp only [hkey, Except.map, Except.ok.injEq] at h
    obtain ⟨body, hbody, he⟩ := Option.bind_eq_some_iff.1 h
    have hmeaning : key.bind Meaning.ofBody? = some (.entry e) :=
      Option.bind_eq_some_iff.2 ⟨body, hbody, ofBody?_of_entry he⟩
    simp only [Meaning.ofValue?, hkey, Except.map, hmeaning]

theorem ofNameValue?_of_no_entry {v : Value} (h : Vocabulary.ofValue? v = .ok none) :
    ofNameValue? v = none := by
  unfold Vocabulary.ofValue? at h
  cases hkey : v.key? "name" with
  | error e => simp [hkey, Except.map] at h
  | ok key =>
    simp only [hkey, Except.map, Except.ok.injEq] at h
    rw [ofNameValue?_of_key? hkey]
    cases key with
    | none => rfl
    | some body =>
      rw [Option.bind_some] at h ⊢
      exact ofBody?_of_not_found h

/-! ## Subjects -/

theorem requestDepth_result (e : Definition) (m : Mode) : (e.requestDepth m).result = .ok () := by
  unfold Definition.requestDepth
  cases e.forcesDepth.given? with
  | none => rfl
  | some v => simp [Outcome.map, Mode.requestDepth_ok, Except.map]

theorem requestDirection_result (e : Definition) (m : Mode) :
    (e.requestDirection m).result = .ok () := by
  unfold Definition.requestDirection
  cases e.forcesDirection.given? with
  | none => rfl
  | some v => simp [Outcome.map, Mode.requestDirection_ok, Except.map]

theorem definition_requestDepth_mode (e : Definition) (m : Mode) :
    (e.requestDepth m).mode = applyAll (ofDepthValue? e.forcesDepth).toList m := by
  rw [← requestDepth_mode]
  unfold Definition.requestDepth
  cases e.forcesDepth <;> rfl

theorem definition_requestDirection_mode (e : Definition) (m : Mode) :
    (e.requestDirection m).mode = applyAll (ofDirectionValue? e.forcesDirection).toList m := by
  rw [← requestDirection_mode]
  unfold Definition.requestDirection
  cases e.forcesDirection <;> rfl

/-- A definition that does not change the mode forces nothing. -/
theorem definition_forces_nothing {e : Definition} (h : e.changesMode = false) :
    e.forcesDepth = .none ∧ e.forcesDirection = .none := by
  simp only [Definition.changesMode, Bool.or_eq_false_iff, Option.isSome_eq_false_iff,
    Option.isNone_iff_eq_none] at h
  obtain ⟨hdepth, hdirection⟩ := h
  constructor
  · cases hv : e.forcesDepth <;> simp [hv, Value.given?] at hdepth ⊢
  · cases hv : e.forcesDirection <;> simp [hv, Value.given?] at hdirection ⊢

theorem definition_mode (e : Definition) (m : Mode) (depth : Option Depth) (d : Option Direction) :
    (e.perform m depth d).mode =
      applyAll ((ofDepthValue? e.forcesDepth).toList ++ (ofDirectionValue? e.forcesDirection).toList)
        m := by
  unfold Definition.perform
  cases hc : e.changesMode with
  | true =>
    rw [if_pos rfl, applyAll_append, ← definition_requestDepth_mode,
      ← definition_requestDirection_mode]
    rw [Outcome.map, Outcome.andThen_mode (requestDepth_result e m)]
  | false =>
    obtain ⟨hdepth, hdirection⟩ := definition_forces_nothing hc
    rw [hdepth, hdirection]
    rfl

/-- A subject that is found is performed with the changes it stands for. -/
theorem found_mode {s : Subject} {f : Found} (h : s.find? = .ok (some f)) (m : Mode)
    (depth : Option Depth) (d : Option Direction) :
    (f.perform m depth d).mode = applyAll s.modeChanges m := by
  cases s with
  | name v =>
    cases he : Vocabulary.ofValue? v with
    | error e => simp [Subject.find?, he, Except.map] at h
    | ok entry =>
      cases entry with
      | none => simp [Subject.find?, he, Except.map] at h
      | some e =>
        obtain ⟨hn, -⟩ | ⟨n, hn, hmode⟩ := ofValue?_cases (meaning_of_entry he)
        · cases hn
        · simp only [Subject.find?, he, Except.map, Option.map_some, Except.ok.injEq,
            Option.some.injEq] at h
          cases h
          cases hn
          exact hmode m depth d
  | body v =>
    cases hv : Meaning.ofValue? v with
    | error e => simp [Subject.find?, hv, Except.map] at h
    | ok meaning =>
      obtain ⟨rfl, -⟩ | ⟨n, rfl, hmode⟩ := ofValue?_cases hv
      · simp [Subject.find?, hv, Except.map] at h
      · simp only [Subject.find?, hv, Except.map, Option.map_some, Except.ok.injEq,
          Option.some.injEq] at h
        cases h
        exact hmode m depth d
  | number p =>
    cases h
    rfl
  | definition fields =>
    cases he : Definition.ofFields fields with
    | error e => simp [Subject.find?, he, Except.map] at h
    | ok e =>
      simp only [Subject.find?, he, Except.map, Except.ok.injEq, Option.some.injEq] at h
      cases h
      simp only [Subject.modeChanges, he]
      exact definition_mode e m depth d

theorem not_found_changes {s : Subject} (h : s.find? = .ok none) : s.modeChanges = [] := by
  cases s with
  | name v =>
    cases he : Vocabulary.ofValue? v with
    | error e => simp [Subject.find?, he, Except.map] at h
    | ok entry =>
      cases entry with
      | none => simp only [Subject.modeChanges, ofNameValue?_of_no_entry he, Option.toList_none]
      | some e => simp [Subject.find?, he, Except.map] at h
  | body v =>
    cases hv : Meaning.ofValue? v with
    | error e => simp [Subject.find?, hv, Except.map] at h
    | ok meaning =>
      obtain ⟨-, hnone⟩ | ⟨n, rfl, -⟩ := ofValue?_cases hv
      · simp only [Subject.modeChanges, hnone, Option.toList_none]
      · simp [Subject.find?, hv, Except.map] at h
  | number p => cases h
  | definition fields =>
    cases he : Definition.ofFields fields <;> simp [Subject.find?, he, Except.map] at h

end ModeChange

namespace Operation

open ModeChange

theorem meaning_of_request {name direction depth : Value} {meaning : Option Meaning}
    {d : Option Direction} {depth' : Option Depth}
    (h : Builder.request name direction depth = .ok (meaning, d, depth')) :
    Meaning.ofValue? name = .ok meaning := by
  unfold Builder.request at h
  cases hd : Builder.direction? direction with
  | error e => simp [hd, bind, Except.bind] at h
  | ok d0 =>
    cases hdepth : Builder.depth? depth with
    | error e => simp [hd, hdepth, bind, Except.bind] at h
    | ok depth0 =>
      cases hv : Meaning.ofValue? name with
      | error e => simp [hd, hdepth, hv, bind, Except.bind] at h
      | ok n =>
        simp [hd, hdepth, hv, bind, Except.bind, pure, Except.pure] at h
        simp [h.1]

theorem ofName_mode (name direction depth : Value) (m : Mode) :
    ((ofName name direction depth).run m).mode = applyAll (ofName name direction depth).modeChanges m := by
  simp only [run_eq, modeChanges, Outcome.map, Builder.ofName_eq_match]
  cases hr : Builder.request name direction depth with
  | error e => rfl
  | ok r =>
    obtain ⟨meaning, d, depth'⟩ := r
    obtain ⟨rfl, hnone⟩ | ⟨n, rfl, hmode⟩ := ofValue?_cases (meaning_of_request hr)
    · rw [hnone]
      rfl
    · exact hmode m depth' d

theorem find?_of_request {s : Subject} {depth direction : Value} {found : Option Found}
    {depth' : Option Depth} {d : Option Direction}
    (h : s.request depth direction = .ok (found, depth', d)) : s.find? = .ok found := by
  unfold Subject.request at h
  cases hf : s.find? with
  | error e => simp [hf, bind, Except.bind] at h
  | ok found0 =>
    cases hdepth : Subject.override Depth.matching depth with
    | error e => simp [hf, hdepth, bind, Except.bind] at h
    | ok depth0 =>
      cases hd : Subject.override Direction.matching direction with
      | error e => simp [hf, hdepth, hd, bind, Except.bind] at h
      | ok d0 =>
        simp only [hf, hdepth, hd, bind, Except.bind, pure, Except.pure, Except.ok.injEq,
          Prod.mk.injEq] at h
        rw [h.1]

theorem perform_mode (s : Subject) (depth direction : Value) (m : Mode) :
    ((perform s depth direction).run m).mode = applyAll (perform s depth direction).modeChanges m := by
  simp only [run_eq, modeChanges, Subject.perform]
  cases hr : s.request depth direction with
  | error e => rfl
  | ok r =>
    obtain ⟨found, depth', d⟩ := r
    cases found with
    | none =>
      rw [not_found_changes (find?_of_request hr)]
      rfl
    | some f => exact found_mode (find?_of_request hr) m depth' d

theorem convert_mode (action : Markup.Action) (text : Value) (m : Mode) :
    ((convert action text .none).run m).mode = applyAll (convert action text .none).modeChanges m := by
  simp only [run_eq, modeChanges, Markup.convertValue_unlimited]
  cases text.source "text" with
  | error e => rfl
  | ok src => exact Markup.conversion_mode_eq action src m

/-- An operation applies its changes to the mode it meets, and leaves the rest of it alone. -/
theorem run_mode {op : Operation} (h : op.Unlimited) (m : Mode) :
    (op.run m).mode = applyAll op.modeChanges m := by
  cases op with
  | requestDepth v => exact requestDepth_mode m v
  | requestDirection v => exact requestDirection_mode m v
  | ofIndex index direction => rfl
  | ofColor red green blue direction => rfl
  | ofName name direction depth => exact ofName_mode name direction depth m
  | perform s depth direction => exact perform_mode s depth direction m
  | convert action text capacity =>
    cases h
    exact convert_mode action text m

theorem after_eq {ops : List Operation} (h : ∀ op ∈ ops, op.Unlimited) (m : Mode) :
    m.after ops = applyAll (ops.flatMap modeChanges) m := by
  induction ops generalizing m with
  | nil => rfl
  | cons op ops ih =>
    obtain ⟨hop, hops⟩ := List.forall_mem_cons.1 h
    rw [Mode.after, List.foldl_cons, ← Mode.after, ih hops, run_mode hop, List.flatMap_cons,
      applyAll_append]

theorem found_mode_of_error {f : Found} {m : Mode} {depth : Option Depth} {d : Option Direction}
    {e : Error} (h : (f.perform m depth d).result = .error e) : (f.perform m depth d).mode = m := by
  cases f with
  | meaning n =>
    unfold Found.perform Meaning.perform at h ⊢
    cases hc : n.modeChange? with
    | some e' => simp [hc, Outcome.map, Except.map] at h
    | none => simp [hc, Outcome.map, Outcome.ofResult]
  | number p => rfl
  | definition e' =>
    simp only [Found.perform, Definition.perform] at h ⊢
    cases hc : e'.changesMode with
    | true =>
      -- what is forced is requested, and a request is never refused
      simp [hc, Outcome.map, Outcome.andThen, requestDepth_result, requestDirection_result,
        Except.map] at h
    | false => simp [Outcome.ofResult]

/-- A refused operation leaves the mode alone. -/
theorem mode_of_error {op : Operation} (hop : op.Unlimited) {m : Mode} {e : Error}
    (h : (op.run m).result = .error e) : (op.run m).mode = m := by
  rw [run_eq] at h ⊢
  cases op with
  | requestDepth v => simp [Outcome.map, Mode.requestDepth_ok, Except.map] at h
  | requestDirection v => simp [Outcome.map, Mode.requestDirection_ok, Except.map] at h
  | ofIndex index direction => rfl
  | ofColor red green blue direction => rfl
  | ofName name direction depth =>
    cases hr : (Builder.ofName name direction depth m).result with
    | error e' => exact Builder.ofName_mode_of_error hr
    | ok escape => simp [Outcome.map, hr, Except.map] at h
  | perform s depth direction =>
    simp only [Subject.perform] at h ⊢
    cases hr : s.request depth direction with
    | error e' => rfl
    | ok r =>
      obtain ⟨found, depth', d⟩ := r
      cases found with
      | none => rfl
      | some f =>
        simp only [hr] at h
        exact found_mode_of_error h
  | convert action text capacity =>
    cases hop
    simp only [Markup.convertValue_unlimited] at h ⊢
    cases hs : text.source "text" with
    | error e' => rfl
    | ok src => simp [hs, Markup.Conversion.outcome, Outcome.map, Except.map] at h

/-- After any operations without a capacity the depth is the one given by the last change of
the depth, and the direction the one given by the last change of the direction; a part that
nothing changes is kept. A refused operation changes nothing, and whether tags are replaced or
removed does not matter. -/
theorem last_change_wins {ops : List Operation} (h : ∀ op ∈ ops, op.Unlimited) (m : Mode) :
    (m.after ops).depth =
      ((ops.flatMap modeChanges).filterMap ModeChange.depth?).getLast?.getD m.depth ∧
    (m.after ops).direction =
      ((ops.flatMap modeChanges).filterMap ModeChange.direction?).getLast?.getD m.direction ∧
    (∀ op ∈ ops, ∀ m' e, (op.run m').result = .error e → (op.run m').mode = m') ∧
    (∀ text m', (Markup.convertValue .replace text .none m').mode =
      (Markup.convertValue .remove text .none m').mode) := by
  refine ⟨?_, ?_, fun op hop m' e he => mode_of_error (h op hop) he, fun text m' => ?_⟩
  · rw [after_eq h, applyAll_depth]
  · rw [after_eq h, applyAll_direction]
  · rw [Markup.convertValue_unlimited, Markup.convertValue_unlimited]
    cases text.source "text" with
    | error e => rfl
    | ok src => exact Markup.conversion_mode src m' .replace .remove

/-- Requests, a text with nested brackets, and a builder that is refused before it is not. -/
theorem last_change_wins_mixed :
    let ops := [requestDepth (.int 24), requestDepth (.bool true),
      convert .replace (.text (Text.ofString "[red][x[BG]")) .none,
      ofName (.text (Text.ofString "8-bit")) (.text (Text.ofString "up")) .none,
      ofName (.text (Text.ofString "4-BIT")) (.text (Text.ofString "fg")) .none]
    (∀ op ∈ ops, op.Unlimited) ∧ (Mode.initial.after ops).depth = .four ∧
      (Mode.initial.after ops).direction = .background := by
  intro ops
  have h : ∀ op ∈ ops, op.Unlimited := by simp [ops, Unlimited]
  obtain ⟨hdepth, hdirection, -⟩ := last_change_wins h .initial
  exact ⟨h, hdepth.trans (by decide +kernel), hdirection.trans (by decide +kernel)⟩

end Operation
end ColorMarkup
