import ColorMarkup.Proofs.Escape.Builder
import ColorMarkup.Proofs.Markup.Characters
import ColorMarkup.Proofs.Mode.Change
/-!
# A single tag and its builder

A body can be written by itself, or in brackets as a text of its own. A body of at most fourteen
bytes without brackets and zero bytes gives the same both ways, and leaves the same mode; a text
in brackets that the builder has no escape for, or that is too long for a tag, stays as it is.
The builder takes a depth and a direction in place of those of the mode: for a name that
changes no mode this is the same as another mode.

Results:
* `Meaning.perform_replacement`: what a body means is performed as the body is replaced.
* `IsBody.convertValue_of_replaced`, `IsBody.convertValue_of_kept`: what one body in brackets is
  converted to.
* `Builder.ofName_agrees`: tag and builder agree, and what the builder leaves alone.
-/
namespace ColorMarkup

namespace Value

/-- A text without surrogates, or bytes. -/
def IsReadable : Value → Prop
  | text t => t.hasSurrogate = false
  | bytes _ _ => True
  | _ => False

/-- The same in brackets; of bytes, in bytes of their own. -/
def inBrackets : Value → Value
  | text t => text (Markup.openingPoint :: (t ++ [Markup.closingPoint]))
  | bytes _ b => bytes .constant (Markup.opening :: (b ++ [Markup.closing]))
  | v => v

/-- A text without surrogates, or bytes, with these bytes: no bracket, and no zero byte. -/
structure IsBody (v : Value) (b : Bytes) : Prop where
  isReadable : v.IsReadable
  isWritten : v.written? = some b
  noBrackets : Markup.NoBrackets b
  ne_zero : ∀ x ∈ b, x ≠ 0

variable {v : Value} {b : Bytes}

theorem exists_isBody (hread : v.IsReadable) (hcodes : ∀ n ∈ v.codes, n ≠ 0x5B ∧ n ≠ 0x5D ∧ n ≠ 0) :
    ∃ b, v.IsBody b := by
  obtain ⟨b, hwritten⟩ : ∃ b, v.written? = some b := by
    cases v with
    | text t => exact Utf8.exists_encode hread
    | bytes holder b => exact ⟨b, rfl⟩
    | _ => cases hread
  have hfree : ∀ x ∈ b, x ≠ Markup.opening ∧ x ≠ Markup.closing ∧ x ≠ 0 := by
    intro x hx
    have hcode := fun hlow => hcodes _ (mem_codes_of_written? hwritten hx hlow)
    refine ⟨?_, ?_, ?_⟩
    · rintro rfl
      exact (hcode (by decide)).1 rfl
    · rintro rfl
      exact (hcode (by decide)).2.1 rfl
    · rintro rfl
      exact (hcode (by decide)).2.2 rfl
  exact ⟨b, hread, hwritten, fun x hx => ⟨(hfree x hx).1, (hfree x hx).2.1⟩,
    fun x hx => (hfree x hx).2.2⟩

/-- What the bytes in brackets are as text. -/
theorem encode_inBrackets {t : Text} (h : Utf8.encode t = some b) :
    Utf8.encode (Markup.openingPoint :: (t ++ [Markup.closingPoint])) =
      some (Markup.opening :: (b ++ [Markup.closing])) := by
  have hnil : Utf8.encode [] = some [] := rfl
  exact Markup.encode_bracketed hnil h hnil

namespace IsBody

theorem source_inBrackets (h : v.IsBody b) (argument : String) :
    v.inBrackets.source argument = .ok (Markup.opening :: (b ++ [Markup.closing])) := by
  obtain ⟨hread, hwritten, -, hzero⟩ := h
  cases v with
  | text t => simp [inBrackets, source, sourceNamed, encode_inBrackets hwritten]
  | bytes holder b' =>
    obtain rfl : b' = b := Option.some.inj hwritten
    have hne : ∀ x ∈ Markup.opening :: (b' ++ [Markup.closing]), x ≠ 0 :=
      List.forall_mem_cons.2 ⟨by decide, List.forall_mem_append.2 ⟨hzero, by simp [Markup.closing]⟩⟩
    rw [inBrackets, source_bytes, Bytes.untilNul_eq_self hne]
  | _ => cases hread

/-- A value in brackets that is answered with its bytes is answered with itself. -/
theorem answer_self (h : v.IsBody b) :
    v.inBrackets.answer (Markup.opening :: (b ++ [Markup.closing])) = v.inBrackets := by
  obtain ⟨hread, hwritten, -, -⟩ := h
  cases v with
  | text t =>
    have hsurrogate := (Markup.hasSurrogate_bracketed [] t []).2 ⟨rfl, hread, rfl⟩
    exact congrArg text (Utf8.decode_encode hsurrogate (encode_inBrackets hwritten))
  | bytes holder b' =>
    obtain rfl : b' = b := Option.some.inj hwritten
    rfl
  | _ => cases hread

/-- An answer with the bytes of a text is the text in the kind of the value. -/
theorem answer_text (h : v.IsBody b) {t : Text} {data : Bytes} (ht : Utf8.encode t = some data)
    (hsurrogate : t.hasSurrogate = false) : v.inBrackets.answer data = v.inKind t := by
  have hread := h.isReadable
  cases v with
  | text _ => exact congrArg text (Utf8.decode_encode hsurrogate ht)
  | bytes holder _ => simp [inBrackets, answer, inKind, ht]
  | _ => cases hread

end IsBody

end Value

namespace Meaning

/-- A name means what its bytes mean. -/
theorem ofValue?_of_written? {v : Value} {b : Bytes} (h : v.written? = some b) :
    ofValue? v = .ok (ofBody? b) := by
  cases v with
  | text t => exact ofValue?_of_encode h
  | bytes holder b' =>
    obtain rfl : b' = b := Option.some.inj h
    exact ofValue?_bytes holder b'
  | _ => cases h

/-- What a short body means is performed as the body is replaced: both leave the same mode, and
both write the same or nothing. -/
theorem perform_replacement {b : Bytes} {meaning : Meaning} (hlen : b.length ≤ 14)
    (hb : ofBody? b = some meaning) (m : Mode) :
    ∃ r m', meaning.perform m none none = ⟨.ok r, m', []⟩ ∧
      Markup.replacement? .replace b m = r.map (fun e => (e.bytes, m')) ∧ (r = none → m' = m) ∧
      ∀ e ∈ r, Utf8.encode e.text = some e.bytes ∧ e.text.hasSurrogate = false := by
  cases hc : meaning.modeChange? with
  | some e =>
    refine ⟨some .nothing, applyChange e m, by simp [perform, hc], ?_, by simp, ?_⟩
    · simp [Markup.replacement?, hlen, hb, hc, Escape.bytes]
    · rintro _ ⟨⟩
      exact ⟨rfl, rfl⟩
  | none =>
    have hvalid := ofBody?_valid hb
    obtain ⟨r, hbuild⟩ := exists_build hvalid hc m.depth m.direction
    refine ⟨r, m, by simp [perform, hc, hbuild, Outcome.ofResult], ?_, fun _ => rfl, ?_⟩
    · cases r with
      | none => exact Markup.replacement?_of_unwritten hlen hb hc hbuild _
      | some e => simpa using Markup.replacement?_of_written hlen hb hc hbuild .replace
    · rintro e rfl
      exact encode_of_build hvalid hc hbuild

end Meaning

namespace Markup

/-- A body in brackets is all that a text of its own holds. -/
theorem scan_single {b : Bytes} (hb : NoBrackets b) :
    scan (opening :: (b ++ [closing])) = ⟨[⟨[], b⟩], []⟩ := by
  rw [scan, scanFrom_cons_opening, scanFrom_body hb]
  rfl

end Markup

namespace Value.IsBody

open Markup

variable {body : Value} {b : Bytes} {m : Mode}

theorem convertValue_eq (h : body.IsBody b) (m : Mode) :
    convertValue .replace body.inBrackets .none m =
      (conversionFrom .replace [] [⟨[], b⟩] 0 m).outcome.map body.inBrackets.answer := by
  simp only [convertValue_unlimited, h.source_inBrackets, conversion, scan_single h.noBrackets]

theorem convertValue_of_replaced (h : body.IsBody b) {data : Bytes} {m' : Mode}
    (hdata : replacement? .replace b m = some (data, m')) :
    (convertValue .replace body.inBrackets .none m).result = .ok (body.inBrackets.answer data) ∧
      (convertValue .replace body.inBrackets .none m).mode = m' := by
  rw [h.convertValue_eq]
  simp [Conversion.outcome, Outcome.map, Except.map, conversionFrom, Conversion.append,
    Occurrence.product, hdata]

theorem convertValue_of_kept (h : body.IsBody b) (hdata : replacement? .replace b m = Option.none) :
    (convertValue .replace body.inBrackets .none m).result = .ok body.inBrackets ∧
      (convertValue .replace body.inBrackets .none m).mode = m := by
  rw [h.convertValue_eq]
  simp [Conversion.outcome, Outcome.map, Except.map, conversionFrom, Conversion.append,
    Occurrence.product, hdata, Occurrence.source, Occurrence.bracketed, h.answer_self]

end Value.IsBody

namespace Builder

open Markup

/-- A short body in brackets is converted as its builder says, and both leave the same mode. -/
theorem convertValue_inBrackets {body : Value} {b : Bytes} (h : body.IsBody b) (hlen : b.length ≤ 14)
    (m : Mode) :
    ∃ r, (ofName body .none .none m).result = .ok r ∧
      (convertValue .replace body.inBrackets .none m).result =
        .ok ((r.map fun e => body.inKind e.text).getD body.inBrackets) ∧
      (convertValue .replace body.inBrackets .none m).mode = (ofName body .none .none m).mode := by
  have hname : ofName body .none .none m = _ := ofName_eq body rfl rfl m
  rw [hname, Meaning.ofValue?_of_written? h.isWritten]
  cases hm : Meaning.ofBody? b with
  | none =>
    have hkept : replacement? .replace b m = none := by simp [replacement?, hm]
    exact ⟨none, rfl, h.convertValue_of_kept hkept⟩
  | some meaning =>
    obtain ⟨r, m', hperform, hdata, hmode, htext⟩ := Meaning.perform_replacement hlen hm m
    simp only [hperform]
    refine ⟨r, rfl, ?_⟩
    cases r with
    | none =>
      obtain rfl := hmode rfl
      exact h.convertValue_of_kept hdata
    | some e =>
      obtain ⟨hencode, hsurrogate⟩ := htext e rfl
      obtain ⟨hresult, hleft⟩ := h.convertValue_of_replaced hdata
      rw [h.answer_text hencode hsurrogate] at hresult
      exact ⟨hresult, hleft⟩

/-! ## Overrides -/

theorem direction?_of_ofValue? {v : Value} {d : Direction} (h : Direction.ofValue? v = some d) :
    direction? v = .ok (some d) := by
  cases v <;> simp_all [direction?, Direction.ofValue?]

theorem depth?_of_ofValue? {v : Value} {d : Depth} (h : Depth.ofValue? v = some d) :
    depth? v = .ok (some d) := by
  cases v <;> simp_all [depth?, Depth.ofValue?]

/-- A depth and a direction in place of those of the mode are as good as a mode of these. -/
theorem ofName_overrides {name direction depth : Value} {m' : Mode}
    (hchange : ModeChange.ofNameValue? name = none) (hmode : Mode.ofValues depth direction = .ok m')
    (m : Mode) :
    (ofName name direction depth m).result = (ofName name .none .none m').result ∧
      (ofName name direction depth m).mode = m := by
  unfold Mode.ofValues at hmode
  split at hmode
  · cases hmode
  · next dep hdep =>
    split at hmode
    · cases hmode
    · next dir hdir =>
      obtain rfl := Except.ok.inj hmode
      have hname : ofName name .none .none ⟨dep, dir⟩ = _ := ofName_eq name rfl rfl _
      rw [ofName_eq name (direction?_of_ofValue? hdir) (depth?_of_ofValue? hdep), hname]
      cases hv : Meaning.ofValue? name with
      | error e => exact ⟨rfl, rfl⟩
      | ok meaning =>
        cases meaning with
        | none => exact ⟨rfl, rfl⟩
        | some meaning =>
          simp only [Meaning.perform, ModeChange.modeChange?_of_ofNameValue? hchange hv]
          exact ⟨rfl, rfl⟩

/-- In every mode: a text without surrogates, or bytes, that holds no bracket and no zero byte
gives in brackets what the builder gives for it, in its own kind, or stays as it is if that is
nothing, and both leave the same mode; with more than fourteen bytes it stays as it is. For a name
that changes no mode, a depth and a direction in place of those of the mode are as good as a mode
of these, and the mode stays; it also stays whenever the builder refuses. -/
theorem ofName_agrees (m : Mode) :
    (∀ body : Value, body.IsReadable → (∀ n ∈ body.codes, n ≠ 0x5B ∧ n ≠ 0x5D ∧ n ≠ 0) →
      ∃ b, body.written? = some b ∧
        (b.length ≤ 14 → ∃ r, (ofName body .none .none m).result = .ok r ∧
          (convertValue .replace body.inBrackets .none m).result =
            .ok ((r.map fun e => body.inKind e.text).getD body.inBrackets) ∧
          (convertValue .replace body.inBrackets .none m).mode = (ofName body .none .none m).mode) ∧
        (14 < b.length →
          (convertValue .replace body.inBrackets .none m).result = .ok body.inBrackets ∧
          (convertValue .replace body.inBrackets .none m).mode = m)) ∧
    (∀ name direction depth m', ModeChange.ofNameValue? name = none →
      Mode.ofValues depth direction = .ok m' →
        (ofName name direction depth m).result = (ofName name .none .none m').result ∧
        (ofName name direction depth m).mode = m) ∧
    ∀ name direction depth e, (ofName name direction depth m).result = .error e →
      (ofName name direction depth m).mode = m := by
  refine ⟨fun body hread hcodes => ?_, fun name direction depth m' hchange hmode =>
    ofName_overrides hchange hmode m, fun name direction depth e h => ofName_mode_of_error h⟩
  obtain ⟨b, hbody⟩ := Value.exists_isBody hread hcodes
  exact ⟨b, hbody.isWritten, fun hlen => convertValue_inBrackets hbody hlen m,
    fun hlen => hbody.convertValue_of_kept (if_neg (by omega))⟩

/-- The text `Red` is written alike in brackets and by the builder, and for the background at 8 bits
as in a mode of these. -/
theorem ofName_agrees_red :
    let body : Value := .text (Text.ofString "Red")
    let m' : Mode := ⟨.eight, .background⟩
    (∃ r, (ofName body .none .none .initial).result = .ok r ∧
      (convertValue .replace body.inBrackets .none .initial).result =
        .ok ((r.map fun e => body.inKind e.text).getD body.inBrackets)) ∧
    (ofName body (.text (Text.ofString "bg")) (.int 8) .initial).result =
      (ofName body .none .none m').result := by
  intro body m'
  obtain ⟨hshort, hoverrides, -⟩ := ofName_agrees .initial
  obtain ⟨b, hwritten, hb, -⟩ := hshort body rfl (by decide +kernel)
  obtain rfl : Bytes.ofString "Red" = b := Option.some.inj hwritten
  obtain ⟨r, hname, hconvert, -⟩ := hb (by decide +kernel)
  exact ⟨⟨r, hname, hconvert⟩, (hoverrides body _ _ m' (by decide +kernel) (by rfl)).1⟩

end Builder
end ColorMarkup
