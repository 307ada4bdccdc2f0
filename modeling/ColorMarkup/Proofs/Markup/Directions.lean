import ColorMarkup.Proofs.Escape.Directions
import ColorMarkup.Proofs.Mode.Change
import Mathlib.Data.List.Forall2
/-!
# The direction decides no tag

Take a text and convert it twice, under modes of one depth and of different directions. At every
bracketed body the two runs do the same: both keep it, or both change the mode in the same part,
or both write the fixed text, or both write a sequence for it, or both remove it. So their modes
have the same depth all along, and what they write differs only in the sequences: these stand for
the same body at the same depth, and differ in their first parameter at most. A tag that sets the
direction makes the two modes equal, and nothing tells them apart from there on.

Results:
* `product_directions`: one body under two modes of one depth.
* `conversionFrom_directions`: all bodies of a text, one after the other.
* `directions_agree`: the same of the operations on a text argument.
-/
namespace ColorMarkup.Markup

/-- What stands for a body in two results: the same bytes, or sequences for its meaning at one
depth in two directions. -/
inductive Counterpart (body : Bytes) : Bytes → Bytes → Prop where
  | same (b : Bytes) : Counterpart body b b
  | sequences {meaning : Meaning} {depth : Depth} {d d' : Direction} {e e' : Escape}
      (hbody : Meaning.ofBody? body = some meaning)
      (h : meaning.build depth d = .ok (some e)) (h' : meaning.build depth d' = .ok (some e'))
      (hbeside : e.Beside e') : Counterpart body e.bytes e'.bytes

/-- The text with these bytes in place of its bracketed bodies. -/
def woven (tail : Bytes) (os : List Occurrence) (bs : List Bytes) : Bytes :=
  (os.zip bs).flatMap (fun p => p.1.before ++ p.2) ++ tail

theorem woven_cons (tail : Bytes) (o : Occurrence) (os : List Occurrence) (b : Bytes)
    (bs : List Bytes) : woven tail (o :: os) (b :: bs) = o.before ++ b ++ woven tail os bs := by
  simp [woven]

section Run

variable {m m' : Mode} (action : Action)

/-- A body is kept under both of two modes of one depth, or it has counterparts under them. -/
theorem replacement?_directions (hdepth : m.depth = m'.depth) (body : Bytes) :
    (replacement? action body m = none ∧ replacement? action body m' = none) ∨
    ∃ b b' n n', replacement? action body m = some (b, n) ∧
      replacement? action body m' = some (b', n') ∧ n.depth = n'.depth ∧ Counterpart body b b' ∧
      (action = .remove → b = b') := by
  by_cases hlen : body.length ≤ 14
  · cases hbody : Meaning.ofBody? body with
    | none => exact .inl ⟨by simp [replacement?, hbody], by simp [replacement?, hbody]⟩
    | some meaning =>
      cases hc : meaning.modeChange? with
      | some e =>
        refine .inr ⟨[], [], Meaning.applyChange e m, Meaning.applyChange e m', ?_, ?_, ?_,
          .same [], fun _ => rfl⟩
        · simp [replacement?, hlen, hbody, hc]
        · simp [replacement?, hlen, hbody, hc]
        · simp [Meaning.applyChange, hdepth]
      | none =>
        obtain ⟨hfixed, hbuild, hbuild'⟩ | ⟨hfixed, hbuild | ⟨e, e', he, he', hbeside⟩⟩ :=
          Meaning.build_directions (Meaning.ofBody?_valid hbody) hc m.depth m.direction m'.direction
        · rw [hdepth] at hbuild'
          refine .inr ⟨[0x1B], [0x1B], m, m', ?_, ?_, hdepth, .same _, fun _ => rfl⟩
          · rw [replacement?_of_written hlen hbody hc hbuild, if_pos (.inr hfixed)]
            rfl
          · rw [replacement?_of_written hlen hbody hc hbuild', if_pos (.inr hfixed)]
            rfl
        · rw [hdepth] at hbuild
          exact .inl ⟨replacement?_of_unwritten hlen hbody hc (hdepth ▸ hbuild.1) action,
            replacement?_of_unwritten hlen hbody hc hbuild.2 action⟩
        · have hwritten := replacement?_of_written hlen hbody hc he action
          have hwritten' := replacement?_of_written hlen hbody hc (hdepth ▸ he') action
          simp only [hfixed, Bool.false_eq_true, or_false] at hwritten hwritten'
          refine .inr ⟨_, _, m, m', hwritten, hwritten', hdepth, ?_, ?_⟩
          · cases action with
            | replace => exact .sequences hbody he he' hbeside
            | remove => exact .same []
          · rintro rfl
            rfl
  · exact .inl ⟨by simp [replacement?, hlen], by simp [replacement?, hlen]⟩

/-- One occurrence under two modes of one depth. -/
theorem product_directions (hdepth : m.depth = m'.depth) (o : Occurrence) (start : Nat) :
    (o.product action start m).kept = (o.product action start m').kept ∧
    (o.product action start m).mode.depth = (o.product action start m').mode.depth ∧
    ∃ b b', (o.product action start m).bytes = o.before ++ b ∧
      (o.product action start m').bytes = o.before ++ b' ∧ Counterpart o.body b b' ∧
      (action = .remove → b = b') := by
  unfold Occurrence.product
  obtain ⟨h, h'⟩ | ⟨b, b', n, n', h, h', hn, hcounter, hremove⟩ :=
    replacement?_directions action hdepth o.body
  · rw [h, h']
    exact ⟨rfl, hdepth, o.bracketed, o.bracketed, rfl, rfl, .same _, fun _ => rfl⟩
  · rw [h, h']
    exact ⟨rfl, hn, b, b', rfl, rfl, hcounter, hremove⟩

/-- Occurrences one after the other, under two modes of one depth. -/
theorem conversionFrom_directions (hdepth : m.depth = m'.depth) (tail : Bytes)
    (os : List Occurrence) (start : Nat) :
    let c := conversionFrom action tail os start m
    let c' := conversionFrom action tail os start m'
    c.kept = c'.kept ∧ c.mode.depth = c'.mode.depth ∧ (action = .remove → c.bytes = c'.bytes) ∧
    ∃ ps : List (Bytes × Bytes), c.bytes = woven tail os (ps.map Prod.fst) ∧
      c'.bytes = woven tail os (ps.map Prod.snd) ∧
      List.Forall₂ (fun o p => Counterpart o.body p.1 p.2) os ps := by
  induction os generalizing m m' start with
  | nil => exact ⟨rfl, hdepth, fun _ => rfl, [], rfl, rfl, .nil⟩
  | cons o os ih =>
    obtain ⟨hkept, hmode, b, b', hb, hb', hcounter, hremove⟩ :=
      product_directions action hdepth o start
    obtain ⟨hkepts, hmodes, hremoves, ps, hps, hps', hcounters⟩ :=
      ih hmode (start + o.source.length)
    simp only [conversionFrom, Conversion.append]
    refine ⟨by rw [hkept, hkepts], hmodes, ?_, (b, b') :: ps, ?_, ?_, .cons hcounter hcounters⟩
    · intro h
      rw [hb, hb', hremove h, hremoves h]
    · rw [hb, hps, List.map_cons, woven_cons]
    · rw [hb', hps', List.map_cons, woven_cons]

end Run

/-! ## The direction at the end -/

/-- Is the body the name of a tag that sets the direction? -/
def SetsDirection (body : Bytes) : Prop :=
  body.lower ∈ [Bytes.ofString "fg", Bytes.ofString "nobg", Bytes.ofString "bg"]

theorem setsDirection_iff (body : Bytes) :
    SetsDirection body ↔ ((ModeChange.ofBody? body).bind ModeChange.direction?).isSome = true := by
  constructor
  · intro h
    have hall : ∀ name ∈ [Bytes.ofString "fg", Bytes.ofString "nobg", Bytes.ofString "bg"],
        ((ModeChange.ofName? name).bind ModeChange.direction?).isSome = true := by
      decide
    exact hall _ h
  · intro h
    have hall : ∀ p ∈ ModeChange.names, p.2.direction?.isSome = true →
        p.1 ∈ [Bytes.ofString "fg", Bytes.ofString "nobg", Bytes.ofString "bg"] := by
      decide
    obtain ⟨d, hd⟩ := Option.isSome_iff_exists.1 h
    obtain ⟨c, hc, hdirection⟩ := Option.bind_eq_some_iff.1 hd
    exact hall _ (ModeChange.ofBody?_eq_some hc) (by rw [hdirection]; rfl)

/-- The directions that the tags of a text set, in order. -/
def directions (src : Bytes) : List Direction :=
  (places src).filterMap fun p => (ModeChange.ofBody? p.body).bind ModeChange.direction?

theorem directions_eq_nil_iff (src : Bytes) :
    directions src = [] ↔ ∀ p ∈ places src, ¬ SetsDirection p.body := by
  simp only [directions, List.filterMap_eq_nil_iff, setsDirection_iff, Bool.not_eq_true,
    Option.isSome_eq_false_iff, Option.isNone_iff_eq_none]

theorem conversion_direction (action : Action) (src : Bytes) (m : Mode) :
    (conversion action src m).mode.direction = (directions src).getLast?.getD m.direction := by
  rw [conversion_mode_eq, ModeChange.applyAll_direction, List.filterMap_filterMap]
  rfl

/-- Two modes of one depth become equal if a tag sets the direction. -/
theorem conversion_mode_of_set {src : Bytes} (h : ∃ p ∈ places src, SetsDirection p.body)
    (action : Action) {m m' : Mode} (hdepth : m.depth = m'.depth) :
    (conversion action src m).mode = (conversion action src m').mode := by
  obtain ⟨p, hp, hset⟩ := h
  have hne : directions src ≠ [] := fun hnil => (directions_eq_nil_iff src).1 hnil p hp hset
  have hlast := List.getLast?_eq_some_getLast hne
  have hdirection : (conversion action src m).mode.direction =
      (conversion action src m').mode.direction := by
    rw [conversion_direction, conversion_direction, hlast]
    rfl
  have hdepths : (conversion action src m).mode.depth = (conversion action src m').mode.depth :=
    (conversionFrom_directions action hdepth _ _ 0).2.1
  calc (conversion action src m).mode
      = ⟨(conversion action src m).mode.depth, (conversion action src m).mode.direction⟩ := rfl
    _ = (conversion action src m').mode := by rw [hdepths, hdirection]

/-- Two modes keep their directions if no tag sets one. -/
theorem conversion_direction_of_unset {src : Bytes} (h : ∀ p ∈ places src, ¬ SetsDirection p.body)
    (action : Action) (m : Mode) : (conversion action src m).mode.direction = m.direction := by
  rw [conversion_direction, (directions_eq_nil_iff src).2 h]
  rfl

/-! ## Results -/

section Results

variable {m m' : Mode} (hdepth : m.depth = m'.depth)

include hdepth

/-- The same is reported in both directions, and the depth at the end is the same; so is the result
if tags are removed. -/
theorem convertValue_directions (action : Action) (text : Value) :
    (convertValue action text .none m).notices = (convertValue action text .none m').notices ∧
    (convertValue action text .none m).mode.depth = (convertValue action text .none m').mode.depth ∧
    (action = .remove →
      (convertValue action text .none m).result = (convertValue action text .none m').result) := by
  rw [convertValue_unlimited, convertValue_unlimited]
  cases text.source "text" with
  | error e => exact ⟨rfl, hdepth, fun _ => rfl⟩
  | ok src =>
    obtain ⟨hkept, hmode, hremove, -⟩ :=
      conversionFrom_directions action hdepth (scan src).tail (scan src).occurrences 0
    refine ⟨?_, hmode, fun h => ?_⟩
    · exact congrArg (List.map fun p : Place => Notice.unresolvedTag p.body p.offset) hkept
    · exact congrArg (fun b => Except.ok (text.answer b)) (hremove h)

/-- The results of replacing tags have counterparts where the bodies stand. -/
theorem convertValue_replace_directions {text : Value} {src : Bytes}
    (hsrc : text.source "text" = .ok src) :
    ∃ ps : List (Bytes × Bytes),
      List.Forall₂ (fun o p => Counterpart o.body p.1 p.2) (scan src).occurrences ps ∧
      (convertValue .replace text .none m).result =
        .ok (text.answer (woven (scan src).tail (scan src).occurrences (ps.map Prod.fst))) ∧
      (convertValue .replace text .none m').result =
        .ok (text.answer (woven (scan src).tail (scan src).occurrences (ps.map Prod.snd))) := by
  obtain ⟨-, -, -, ps, hb, hb', hcounters⟩ :=
    conversionFrom_directions .replace hdepth (scan src).tail (scan src).occurrences 0
  rw [convertValue_unlimited, convertValue_unlimited, hsrc]
  refine ⟨ps, hcounters, ?_, ?_⟩
  · exact congrArg (fun b => Except.ok (text.answer b)) hb
  · exact congrArg (fun b => Except.ok (text.answer b)) hb'

end Results

theorem convertValue_mode {text : Value} {src : Bytes} (hsrc : text.source "text" = .ok src)
    (action : Action) (m : Mode) :
    (convertValue action text .none m).mode = (conversion action src m).mode := by
  rw [convertValue_unlimited, hsrc]
  rfl

/-- Convert any text without a capacity, at one depth and in both directions. The same bodies are
kept, at the same places, and the depth at the end is the same. Removing tags gives the same text.
Replacing them gives two texts that are the same outside the bracketed bodies, and where a body
stands they have the same bytes, or the sequences that it means at one depth in two directions;
these differ in their first parameter at most. The directions at the end are equal if a tag sets
the direction, and otherwise those of the start. A text that cannot be read is refused alike. -/
theorem directions_agree (text : Value) (depth : Depth) :
    let fore : Mode := ⟨depth, .foreground⟩
    let back : Mode := ⟨depth, .background⟩
    (∀ action, (convertValue action text .none fore).notices =
        (convertValue action text .none back).notices ∧
      (convertValue action text .none fore).mode.depth =
        (convertValue action text .none back).mode.depth) ∧
    (convertValue .remove text .none fore).result = (convertValue .remove text .none back).result ∧
    (∀ src, text.source "text" = .ok src →
      (∃ ps : List (Bytes × Bytes),
        List.Forall₂ (fun o p => Counterpart o.body p.1 p.2) (scan src).occurrences ps ∧
        (convertValue .replace text .none fore).result =
          .ok (text.answer (woven (scan src).tail (scan src).occurrences (ps.map Prod.fst))) ∧
        (convertValue .replace text .none back).result =
          .ok (text.answer (woven (scan src).tail (scan src).occurrences (ps.map Prod.snd)))) ∧
      ∀ action,
        ((∃ p ∈ places src, SetsDirection p.body) →
          (convertValue action text .none fore).mode = (convertValue action text .none back).mode) ∧
        ((∀ p ∈ places src, ¬ SetsDirection p.body) →
          (convertValue action text .none fore).mode.direction = .foreground ∧
          (convertValue action text .none back).mode.direction = .background)) ∧
    (∀ e, text.source "text" = .error e → ∀ action d,
      convertValue action text .none ⟨depth, d⟩ = .ofResult (.error e) ⟨depth, d⟩) := by
  intro fore back
  have hdepth : fore.depth = back.depth := rfl
  refine ⟨fun action => ?_, ?_, fun src hsrc => ?_, fun e herror action d => ?_⟩
  · obtain ⟨hnotices, hmode, -⟩ := convertValue_directions hdepth action text
    exact ⟨hnotices, hmode⟩
  · obtain ⟨-, -, hresult⟩ := convertValue_directions hdepth .remove text
    exact hresult rfl
  · refine ⟨convertValue_replace_directions hdepth hsrc, fun action => ?_⟩
    rw [convertValue_mode hsrc, convertValue_mode hsrc]
    exact ⟨fun hset => conversion_mode_of_set hset action hdepth, fun hunset =>
      ⟨conversion_direction_of_unset hunset action fore,
        conversion_direction_of_unset hunset action back⟩⟩
  · rw [convertValue_unlimited, herror]

end ColorMarkup.Markup
