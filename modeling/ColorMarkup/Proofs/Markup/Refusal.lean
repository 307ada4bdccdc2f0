import ColorMarkup.Proofs.Markup.Cut
import ColorMarkup.Proofs.Mode.Change
import ColorMarkup.Proofs.Target
/-!
# The mode that a refused conversion leaves

A tag changes the mode before its output is written, so a conversion that is refused leaves
the changes of all tags that it has come to. It comes to none if the source does not fit. If
the source fits, it comes to the bodies from the first on, up to the one with which the
output reaches the capacity; if only the text behind the last body does not fit, to all.
Removing never makes a text longer, so it is refused for its source only, and changes nothing then.
A buffer is filled under the same checks.

Results:
* `conversion_take`: the output up to a body is the output of the text up to it.
* `convert_mode_limited`: the mode left within a whole capacity, by a conversion that is done
  or refused.
* `mode_within_capacity`: the same of the operations on texts, and into buffers.
-/
namespace ColorMarkup
namespace Markup

open ModeChange

/-- The output of the text up to the end of a body is shorter than the capacity. -/
def FitsUpTo (action : Action) (src : Bytes) (c : Int) (m : Mode) (p : Place) : Prop :=
  ((conversion action (src.take p.stop) m).bytes.length : Int) < c

instance (action : Action) (src : Bytes) (c : Int) (m : Mode) (p : Place) :
    Decidable (FitsUpTo action src c m p) := inferInstanceAs (Decidable (_ < _))

/-- The places before the first one that fails a test, and that one. -/
def upToFirst (test : Place → Bool) : List Place → List Place
  | [] => []
  | p :: rest => if test p then p :: upToFirst test rest else [p]

/-- The places that a conversion within a capacity comes to. -/
def reached (action : Action) (src : Bytes) (c : Int) (m : Mode) : List Place :=
  upToFirst (fun p => FitsUpTo action src c m p) (places src)

/-! ## The output up to a body -/

theorem conversion_take {src : Bytes} {os rest : List Occurrence}
    (h : (scan src).occurrences = os ++ rest) (action : Action) (m : Mode) :
    conversion action (src.take (os.flatMap Occurrence.source).length) m =
      conversionFrom action [] os 0 m := by
  rw [conversion, scan_occurrences_take h]

/-- One more occurrence adds its product. -/
theorem conversionFrom_concat (action : Action) (os : List Occurrence) (o : Occurrence) (m : Mode) :
    conversionFrom action [] (os ++ [o]) 0 m =
      (conversionFrom action [] os 0 m).append
        (o.product action (os.flatMap Occurrence.source).length
          (conversionFrom action [] os 0 m).mode) := by
  rw [conversionFrom_append, Nat.zero_add]
  simp [conversionFrom, Conversion.append]

/-! ## The mode left -/

/-- What is left to do, with the output `d` of what is done in the sink, leaves the changes of
the places that it comes to. -/
theorem convertFrom_mode_limited {src : Bytes} {c : Int} {action : Action} {m : Mode} (tail : Bytes)
    {done os : List Occurrence} (h : (scan src).occurrences = done ++ os) {d : Conversion}
    (hd : conversionFrom action [] done 0 m = d) {start : Nat}
    (hstart : (done.flatMap Occurrence.source).length = start) {out : Sink} {content : Bytes}
    (hhas : out.Has content (some (c - d.bytes.length))) :
    (convertFrom action tail os start out d.mode).mode =
      applyAll ((upToFirst (fun p => FitsUpTo action src c m p) (placesFrom start os)).filterMap
        fun p => ofBody? p.body) d.mode := by
  induction os generalizing done d start out content with
  | nil => rfl
  | cons o os ih =>
    have hdone : (scan src).occurrences = (done ++ [o]) ++ os := by rw [h, List.append_assoc]; rfl
    have hconcat := conversionFrom_concat action done o m
    rw [hd, hstart] at hconcat
    have hstop : ((done ++ [o]).flatMap Occurrence.source).length = start + o.source.length := by
      simp [hstart]
    -- the body fits exactly if its product fits into what is left of the capacity
    have hfits : FitsUpTo action src c m ⟨start + o.before.length, o.body⟩ ↔
        Within (some (c - d.bytes.length)) (o.product action start d.mode).bytes.length := by
      rw [FitsUpTo, stop_of_occurrence, ← hstop, conversion_take hdone, hconcat, within_some]
      simp only [Conversion.append, List.length_append]
      omega
    rw [placesFrom, upToFirst, convertFrom]
    obtain ⟨out', h1, hw, hhas'⟩ | ⟨cause, h1, -, hnot⟩ := o.process_has hhas action start d.mode
    · have hroom : out'.Has (content ++ (o.product action start d.mode).bytes)
          (some (c - (d.append (o.product action start d.mode)).bytes.length)) := by
        have hlimit : c - d.bytes.length - (o.product action start d.mode).bytes.length =
            c - (d.append (o.product action start d.mode)).bytes.length := by
          simp only [Conversion.append, List.length_append]
          omega
        rwa [Option.map_some, hlimit] at hhas'
      have hos := ih hdone hconcat hstop hroom
      rw [Outcome.andThen_mode (by rw [h1]), h1, if_pos (decide_eq_true (hfits.2 hw)),
        applyAll_changes_cons, ← product_mode_eq o action start d.mode]
      exact hos
    · rw [h1, if_neg (by simpa using fun hw => hnot (hfits.1 hw)), applyAll_changes_cons,
        ← product_mode_eq o action start d.mode]
      rfl

/-- A conversion within a whole capacity leaves the mode it met if the source does not fit, and
otherwise the changes of the places that it comes to. -/
theorem convert_mode_limited (action : Action) (src : Bytes) {capacity : Value} {c : Int}
    (h : capacity.asInt? = some c) (m : Mode) :
    (c ≤ src.length → (convert action src capacity m).mode = m) ∧
    (src.length < c → (convert action src capacity m).mode =
      applyAll ((reached action src c m).filterMap fun p => ofBody? p.body) m) := by
  unfold convert
  obtain ⟨hc, given, h1⟩ | ⟨hc, hlen, b, cause, h1, h2, -⟩ | ⟨hc, hlen, b, h1, h2, hhas⟩ :=
    Sink.open_cases h src.length
  · rw [h1]
    exact ⟨fun _ => rfl, fun hlt => by omega⟩
  · simp only [h1, h2]
    exact ⟨fun _ => rfl, fun hlt => absurd hlt hlen⟩
  · simp only [h1, h2]
    refine ⟨fun hle => by omega, fun _ => ?_⟩
    rw [reached, ← placesFrom_scan]
    have hall : (scan src).occurrences = [] ++ (scan src).occurrences := rfl
    have hroom : b.Has [] (some (c - (conversionFrom action [] [] 0 m).bytes.length)) := by
      simpa [conversionFrom] using hhas
    exact convertFrom_mode_limited (scan src).tail hall rfl rfl hroom

end Markup

/-! ## Texts and buffers -/

namespace TargetOperation

theorem onText_mode (op : TargetOperation) {text : Value} {src : Bytes}
    (h : text.source "text" = .ok src) (capacity : Value) (m : Mode) :
    (op.onText text capacity m).mode = (op.onBytes src capacity m).mode := by
  rw [onText_eq op h]
  rfl

/-- The integer of a capacity decides what mode is left, whatever value gives it. -/
theorem onBytes_mode_congr (op : TargetOperation) (src : Bytes) {capacity capacity' : Value} {c : Int}
    (h : capacity.asInt? = some c) (h' : capacity'.asInt? = some c) (m : Mode) :
    (op.onBytes src capacity m).mode = (op.onBytes src capacity' m).mode := by
  cases op with
  | stripSequences => rfl
  | convert action =>
    obtain ⟨hle, hlt⟩ := Markup.convert_mode_limited action src h m
    obtain ⟨hle', hlt'⟩ := Markup.convert_mode_limited action src h' m
    by_cases hc : c ≤ src.length
    · exact (hle hc).trans (hle' hc).symm
    · exact (hlt (by omega)).trans (hlt' (by omega)).symm

theorem onBytes_refused_iff (op : TargetOperation) (src : Bytes) {capacity : Value} {c : Int}
    (h : capacity.asInt? = some c) (m : Mode) :
    (∃ e, (op.onBytes src capacity m).result = .error e) ↔
      ¬ ((src.length : Int) < c ∧ ((op.product src m).bytes.length : Int) < c) := by
  obtain ⟨hlen, hout, hok⟩ | ⟨hnot, cause, herr, -⟩ := op.onBytes_limited src h m
  · rw [hok]
    exact ⟨fun ⟨_, he⟩ => (by cases he), fun hnot => absurd ⟨hlen, hout⟩ hnot⟩
  · exact ⟨fun _ => hnot, fun _ => ⟨_, herr⟩⟩

theorem onText_refused_iff (op : TargetOperation) {text : Value} {src : Bytes}
    (h : text.source "text" = .ok src) (capacity : Value) (m : Mode) :
    (∃ e, (op.onText text capacity m).result = .error e) ↔
      ∃ e, (op.onBytes src capacity m).result = .error e := by
  rw [onText_eq op h]
  cases hr : (op.onBytes src capacity m).result <;> simp [Outcome.map, hr, Except.map]

end TargetOperation

namespace Target

/-- Into a buffer that takes the capacity, the operation runs: a refusal is a no, and the
mode is the one it leaves. -/
theorem write_run (op : TargetOperation) {dst text : Object} {capacity : Value} {src : Bytes} {c : Int}
    (hsrc : text.source "src" = .ok src) (hc : capacity.asInt? = some c)
    (htakes : dst.takes c = .ok true) (m : Mode) :
    ((write op dst capacity text m).result = .ok false ↔
      ∃ e, (op.onBytes src (.int c) m).result = .error e) ∧
    (write op dst capacity text m).mode = (op.onBytes src (.int c) m).mode := by
  rw [write_eq, prepare_eq_ok_iff.2 ⟨hc, htakes, hsrc⟩]
  refine ⟨?_, rfl⟩
  dsimp only
  cases hr : (op.onBytes src (.int c) m).result with
  | error e =>
    obtain ⟨-, -, hok⟩ | ⟨-, cause, herr, -⟩ := op.onBytes_limited src (Value.asInt?_int c) m
    · rw [hok] at hr
      cases hr
    · obtain rfl : Error.capacity cause = e := Except.error.inj (herr.symm.trans hr)
      simp [conclude, refused, Error.isCapacity]
  | ok result => cases hover : dst.overwrite result <;> simp [conclude, hover]

/-- Into one that does not, it does not run. -/
theorem write_mode_of_not_takes (op : TargetOperation) {dst text : Object} {capacity : Value} {c : Int}
    (hc : capacity.asInt? = some c) (htakes : dst.takes c ≠ .ok true) (m : Mode) :
    (write op dst capacity text m).mode = m := by
  rw [write_eq]
  cases hprepare : prepare dst capacity text with
  | error answer => rfl
  | ok p =>
    obtain ⟨hc', htakes', -⟩ := prepare_eq_ok_iff.1 hprepare
    obtain rfl : c = p.1 := Option.some.inj (hc.symm.trans hc')
    exact absurd htakes' htakes

end Target

/-- The mode left within a whole capacity. Replacing tags leaves the mode it met if the source
reaches the capacity, and otherwise the changes of the bodies up to the first one with which the
output reaches it, or of all; removing tags leaves the mode it met whenever it is refused. Into a
buffer that takes the capacity, the answer is no exactly if the operation on text is refused, and
the mode is the one that this leaves; any other buffer leaves the mode. -/
theorem mode_within_capacity {capacity : Value} {c : Int} (hc : capacity.asInt? = some c) (m : Mode) :
    (∀ text src, text.source "text" = .ok src →
      (c ≤ src.length → (∃ e, (Markup.convertValue .replace text capacity m).result = .error e) ∧
        (Markup.convertValue .replace text capacity m).mode = m) ∧
      (src.length < c → (Markup.convertValue .replace text capacity m).mode =
        ModeChange.applyAll ((Markup.reached .replace src c m).filterMap
          fun p => ModeChange.ofBody? p.body) m)) ∧
    (∀ text e, (Markup.convertValue .remove text capacity m).result = .error e →
      (Markup.convertValue .remove text capacity m).mode = m) ∧
    (∀ op text src dst, text.source "src" = .ok src → dst.takes c = .ok true →
      ((Target.write op dst capacity text m).result = .ok false ↔
        ∃ e, (TargetOperation.onText op text.text capacity m).result = .error e) ∧
      (Target.write op dst capacity text m).mode = (op.onText text.text capacity m).mode) ∧
    ∀ op text dst, dst.takes c ≠ .ok true → (Target.write op dst capacity text m).mode = m := by
  refine ⟨fun text src hsrc => ?_, fun text e he => ?_, fun op text src dst hread htakes => ?_,
    fun op text dst htakes => Target.write_mode_of_not_takes op hc htakes m⟩
  · obtain ⟨hle, hlt⟩ := Markup.convert_mode_limited .replace src hc m
    have hmode := TargetOperation.onText_mode (.convert .replace) hsrc capacity m
    refine ⟨fun hlen => ⟨?_, hmode.trans (hle hlen)⟩, fun hlen => hmode.trans (hlt hlen)⟩
    have hrefused := (TargetOperation.onBytes_refused_iff (.convert .replace) src hc m).2
      fun hfits => by omega
    exact (TargetOperation.onText_refused_iff (.convert .replace) hsrc capacity m).2 hrefused
  · cases hsrc : text.source "text" with
    | error cause => rw [Markup.convertValue_eq, hsrc]; rfl
    | ok src =>
      -- the result is no longer than the source, so it is the source that does not fit
      have hrefused := (TargetOperation.onText_refused_iff (.convert .remove) hsrc capacity m).1 ⟨e, he⟩
      have hnot := (TargetOperation.onBytes_refused_iff (.convert .remove) src hc m).1 hrefused
      have hshort := @TargetOperation.product_length (.convert .remove) (by simp) src m
      have hlen : c ≤ src.length := by omega
      exact (TargetOperation.onText_mode (.convert .remove) hsrc capacity m).trans
        ((Markup.convert_mode_limited .remove src hc m).1 hlen)
  · have hsrc := Value.source_argument (Object.source_text hread) "text"
    obtain ⟨hdone, hmode⟩ := Target.write_run op hread hc htakes m
    have hint := Value.asInt?_int c
    refine ⟨hdone.trans ?_, hmode.trans ?_⟩
    · rw [op.onBytes_refused_iff src hint m, op.onText_refused_iff hsrc, op.onBytes_refused_iff src hc m]
    · rw [op.onText_mode hsrc, op.onBytes_mode_congr src hint hc m]

/-- The text `[24-bit][tan]` has 13 bytes. In a capacity of 14 its second tag does not fit, and the
first one has changed the mode. -/
theorem mode_within_capacity_tan :
    let text : Value := .bytes .constant
      [0x5B, 0x32, 0x34, 0x2D, 0x62, 0x69, 0x74, 0x5D, 0x5B, 0x74, 0x61, 0x6E, 0x5D]
    (Value.int 14).asInt? = some 14 ∧
    (Markup.convertValue .replace text (.int 14) .initial).mode = ⟨.twentyFour, .foreground⟩ := by
  intro text
  have hc : (Value.int 14).asInt? = some 14 := rfl
  obtain ⟨hreplace, -⟩ := mode_within_capacity hc .initial
  refine ⟨hc, ((hreplace text _ rfl).2 (by decide)).trans ?_⟩
  decide +kernel

/-- With a zero byte behind it, the same text has the length of the capacity, but it is read up to
that byte only: its source fits, and the mode is changed before the refusal. -/
theorem mode_within_capacity_zero :
    let bytes : Bytes :=
      [0x5B, 0x32, 0x34, 0x2D, 0x62, 0x69, 0x74, 0x5D, 0x5B, 0x74, 0x61, 0x6E, 0x5D, 0x00]
    (14 : Int) ≤ bytes.length ∧
    (∃ e, (Markup.convertValue .replace (.bytes .constant bytes) (.int 14) .initial).result = .error e) ∧
    (Markup.convertValue .replace (.bytes .constant bytes) (.int 14) .initial).mode ≠ .initial := by
  intro bytes
  have hsrc : (Value.bytes .constant bytes).source "text" = .ok bytes.untilNul := rfl
  have hlong := (TargetOperation.onBytes_refused_iff (.convert .replace) bytes.untilNul
    (Value.asInt?_int 14) .initial).2 (by decide +kernel)
  exact ⟨by decide, (TargetOperation.onText_refused_iff (.convert .replace) hsrc _ _).2 hlong,
    by decide +kernel⟩

end ColorMarkup
