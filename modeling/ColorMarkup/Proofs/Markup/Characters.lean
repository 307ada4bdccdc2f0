import ColorMarkup.Proofs.Escape.Characters
import ColorMarkup.Proofs.Markup.Cut
import ColorMarkup.Proofs.Markup.Replacement
import ColorMarkup.Proofs.Numeral.Acceptance
import ColorMarkup.Proofs.Text.Codec
/-!
# Tags in texts, character by character

Tags are looked for in the bytes of a text. The same can be said of its characters: text
before the first pair of brackets is copied, a body of at most fourteen characters between
a pair gives way to what it stands for, any other body stays, and so on behind it. On a
text without surrogates this is what comes out: a bracket is one byte, no byte of another
character is a bracket, and only an ASCII body stands for anything.

Results:
* `Meaning.ofBody?_isAscii`: only an ASCII body means something.
* `exists_substitutes`: every text has a substitution.
* `Substitutes.conversion`: it encodes the conversion of the text's bytes.
* `characters_agree`: it is the answer, the only one, and the same of sequences and spans.
-/
namespace ColorMarkup

namespace Vocabulary

theorem table_isAscii : ∀ p ∈ table, p.1.isAscii = true := by
  intro p hp
  rw [Bytes.isAscii_iff]
  intro x hx
  have := table_bounds p hp x hx
  omega

theorem isAscii_of_lower {b : Bytes} (h : b.lower.isAscii = true) : b.isAscii = true := by
  rw [Bytes.isAscii_iff] at h ⊢
  intro x hx
  refine Nat.lt_of_not_le fun hhigh => ?_
  have hlower : asciiLower x.toNat = x.toNat := if_neg (by omega)
  have := h _ (List.mem_map_of_mem hx)
  rw [hlower, UInt8.ofNat_toNat] at this
  omega

theorem find?_isAscii {name : Bytes} {e : Entry} (h : find? name = some e) : name.isAscii = true :=
  isAscii_of_lower (table_isAscii _ (mem_table_of_find? h))

end Vocabulary

namespace Meaning

/-- Only an ASCII body means something. -/
theorem ofBody?_isAscii {body : Bytes} {meaning : Meaning} (h : ofBody? body = some meaning) :
    body.isAscii = true := by
  unfold ofBody? at h
  split at h
  · next e he => exact Vocabulary.find?_isAscii he
  · obtain ⟨n, hn, -⟩ := Option.map_eq_some_iff.1 h
    exact NumberTag.bytes_isAscii_of_parse? hn

theorem ofValue?_of_not_isAscii {t : Text} (h : t.isAscii = false) : ofValue? (.text t) = .ok none := by
  simp [ofValue?, Value.key?_of_not_isAscii h, Except.map]

theorem ofValue?_of_isAscii {t : Text} {b : Bytes} (h : t.isAscii = true) (hb : Utf8.encode t = some b) :
    ofValue? (.text t) = .ok (ofBody? b) := by
  simp [ofValue?, Value.key?_of_isAscii h hb, Except.map]

theorem ofBody?_of_not_isAscii {t : Text} {b : Bytes} (h : t.isAscii = false)
    (hb : Utf8.encode t = some b) : ofBody? b = none := by
  cases hm : ofBody? b with
  | none => rfl
  | some meaning =>
    have := (Utf8.isAscii_iff_of_encode hb).2 (ofBody?_isAscii hm)
    rw [h] at this
    cases this

/-- A text means what its encoding means. -/
theorem ofValue?_of_encode {t : Text} {b : Bytes} (h : Utf8.encode t = some b) :
    ofValue? (.text t) = .ok (ofBody? b) := by
  cases hascii : t.isAscii with
  | false => rw [ofValue?_of_not_isAscii hascii, ofBody?_of_not_isAscii hascii h]
  | true => exact ofValue?_of_isAscii hascii h

/-- What a body means is written without surrogates, as text and as bytes alike. -/
theorem encode_of_build {meaning : Meaning} (h : meaning.Valid) (hc : meaning.modeChange? = none)
    {depth : Depth} {d : Direction} {e : Escape} (he : meaning.build depth d = .ok (some e)) :
    Utf8.encode e.text = some e.bytes ∧ e.text.hasSurrogate = false := by
  obtain ⟨hbuild, -⟩ | ⟨-, hbuild | ⟨e', hbuild, params, rfl, -, hp⟩⟩ := build_cases h hc depth d
  · rw [hbuild] at he
    cases he
    exact ⟨rfl, rfl⟩
  · rw [hbuild] at he
    cases he
  · rw [hbuild] at he
    cases he
    exact Escape.encode_sequence fun p hmem => (hp p hmem).1

end Meaning

namespace Markup

/-- An opening bracket among characters. -/
def openingPoint : CodePoint := CodePoint.ofByte opening

/-- A closing bracket among characters. -/
def closingPoint : CodePoint := CodePoint.ofByte closing

/-- The characters hold no bracket. -/
def IsInner (t : Text) : Prop := ∀ c ∈ t, c ≠ openingPoint ∧ c ≠ closingPoint

/-- No opening bracket has a closing one behind it. -/
def Pairless (t : Text) : Prop := t.Pairwise fun c d => c = openingPoint → d ≠ closingPoint

/-- What stands in the result for a body of characters in brackets under a mode, and the
mode after it. A body that is kept has neither. -/
def textReplacement? (action : Action) (body : Text) (m : Mode) : Option (Text × Mode) :=
  if body.length ≤ 14 then
    match Meaning.ofValue? (.text body) with
    | .ok (some meaning) =>
      let r := meaning.perform m none none
      match r.result with
      | .ok (some e) => some (if action = .replace ∨ meaning.isFixed then e.text else [], r.mode)
      | _ => none
    | _ => none
  else none

/-- A text under a mode, the text with its tags replaced or removed, and the mode left: all
of it said of characters. -/
inductive Substitutes (action : Action) : Mode → Text → Text → Mode → Prop where
  | copied {m : Mode} {t : Text} (h : Pairless t) : Substitutes action m t t m
  | replaced {m m' m'' : Mode} {before body data rest result : Text} (hbefore : Pairless before)
      (hbody : IsInner body) (hdata : textReplacement? action body m = some (data, m'))
      (hrest : Substitutes action m' rest result m'') :
      Substitutes action m (before ++ openingPoint :: (body ++ closingPoint :: rest))
        (before ++ (data ++ result)) m''
  | kept {m m' : Mode} {before body rest result : Text} (hbefore : Pairless before)
      (hbody : IsInner body) (hdata : textReplacement? action body m = none)
      (hrest : Substitutes action m rest result m') :
      Substitutes action m (before ++ openingPoint :: (body ++ closingPoint :: rest))
        (before ++ openingPoint :: (body ++ closingPoint :: result)) m'

/-! ## Every text has a substitution -/

/-- Without a pair, nothing in front of the first closing bracket is a bracket. -/
theorem exists_inner_closing {t : Text} (ht : Pairless t) (hc : closingPoint ∈ t) :
    ∃ body rest, IsInner body ∧ t = body ++ closingPoint :: rest := by
  obtain ⟨body, rest, rfl, hbody⟩ := List.eq_append_cons_of_mem hc
  refine ⟨body, rest, fun c hm => ⟨fun ho => ?_, fun he => hbody (he ▸ hm)⟩, rfl⟩
  exact (List.pairwise_append.1 ht).2.2 c hm closingPoint (by simp) ho rfl

theorem pairless_cons {c : CodePoint} {t : Text} (ht : Pairless t)
    (h : ¬ (c = openingPoint ∧ closingPoint ∈ t)) : Pairless (c :: t) :=
  List.pairwise_cons.2 ⟨fun _ hd ho hc => h ⟨ho, hc ▸ hd⟩, ht⟩

/-- A text has no pair of brackets, or a first one. -/
theorem pairless_or_exists_first (t : Text) :
    Pairless t ∨ ∃ before body rest, Pairless before ∧ IsInner body ∧
      t = before ++ openingPoint :: (body ++ closingPoint :: rest) := by
  induction t with
  | nil => exact .inl .nil
  | cons c t ih =>
    obtain ht | ⟨before, body, rest, hbefore, hbody, rfl⟩ := ih
    · by_cases h : c = openingPoint ∧ closingPoint ∈ t
      · obtain ⟨rfl, hc⟩ := h
        obtain ⟨body, rest, hbody, rfl⟩ := exists_inner_closing ht hc
        exact .inr ⟨[], body, rest, .nil, hbody, rfl⟩
      · exact .inl (pairless_cons ht h)
    · by_cases h : c = openingPoint ∧ closingPoint ∈ before
      · -- the new bracket is closed before the pair that was the first
        obtain ⟨rfl, hc⟩ := h
        obtain ⟨body', rest', hbody', rfl⟩ := exists_inner_closing hbefore hc
        exact .inr ⟨[], body', rest' ++ openingPoint :: (body ++ closingPoint :: rest), .nil, hbody',
          by simp⟩
      · exact .inr ⟨c :: before, body, rest, pairless_cons hbefore h, hbody, rfl⟩

theorem exists_substitutes (action : Action) (m : Mode) (t : Text) :
    ∃ result m', Substitutes action m t result m' := by
  induction hn : t.length using Nat.strongRecOn generalizing t m with
  | ind n ih =>
    obtain h | ⟨before, body, rest, hbefore, hbody, rfl⟩ := pairless_or_exists_first t
    · exact ⟨t, m, .copied h⟩
    · have hlt : rest.length < n := by
        rw [← hn]
        simp only [List.length_append, List.length_cons]
        omega
      cases hdata : textReplacement? action body m with
      | none =>
        obtain ⟨result, m', h⟩ := ih rest.length hlt m rest rfl
        exact ⟨_, m', .kept hbefore hbody hdata h⟩
      | some r =>
        obtain ⟨result, m', h⟩ := ih rest.length hlt r.2 rest rfl
        exact ⟨_, m', .replaced hbefore hbody hdata h⟩

/-! ## Brackets in the bytes -/

/-- An ASCII byte of an encoding is the byte of its character. -/
theorem ofByte_mem_of_encode {t : Text} {src : Bytes} (h : Utf8.encode t = some src) {x : UInt8}
    (hx : x ∈ src) (hlow : x.toNat < 0x80) : CodePoint.ofByte x ∈ t := by
  obtain ⟨c, hc, hv⟩ := Utf8.mem_of_mem_encode h hx hlow
  have hcx : CodePoint.ofByte x = c := Fin.ext hv.symm
  exact hcx ▸ hc

theorem noBrackets_of_encode {t : Text} {src : Bytes} (h : Utf8.encode t = some src) (ht : IsInner t) :
    NoBrackets src := by
  intro x hx
  constructor
  · rintro rfl
    exact (ht _ (ofByte_mem_of_encode h hx (by decide))).1 rfl
  · rintro rfl
    exact (ht _ (ofByte_mem_of_encode h hx (by decide))).2 rfl

theorem unpaired_of_encode {t : Text} {src : Bytes} (h : Utf8.encode t = some src) (ht : Pairless t) :
    Unpaired src := by
  induction t generalizing src with
  | nil => cases h; exact .nil
  | cons c t ih =>
    obtain ⟨hhead, htail⟩ := List.pairwise_cons.1 ht
    obtain ⟨x, rest, rfl, -, hx, -, hrest⟩ | ⟨b, rest, rfl, -, -, hhigh, -, hrest⟩ :=
      Utf8.encode_cons_cases h
    · refine List.pairwise_cons.2 ⟨?_, ih hrest htail⟩
      rintro y hy rfl rfl
      have hc : c = openingPoint := Fin.ext hx.symm
      exact hhead _ (ofByte_mem_of_encode hrest hy (by decide)) hc rfl
    · have hb : opening ∉ b := fun hm => absurd (hhigh opening hm) (by decide)
      exact List.pairwise_append.2 ⟨unpaired_of_no_opening hb, ih hrest htail,
        fun x hx _ _ ho => absurd (ho ▸ hx) hb⟩

/-- A pair of brackets among characters is an occurrence among bytes. -/
theorem exists_occurrence_of_encode {before body rest : Text} {src : Bytes}
    (h : Utf8.encode (before ++ openingPoint :: (body ++ closingPoint :: rest)) = some src) :
    ∃ o : Occurrence, ∃ rest', Utf8.encode before = some o.before ∧ Utf8.encode body = some o.body ∧
      Utf8.encode rest = some rest' ∧ src = o.source ++ rest' := by
  obtain ⟨b1, r1, hbefore, h1, rfl⟩ := Utf8.encode_append_eq_some h
  obtain ⟨b2, r2, hopen, h2, rfl⟩ := Utf8.encode_cons_eq_some h1
  obtain ⟨b3, r3, hbody, h3, rfl⟩ := Utf8.encode_append_eq_some h2
  obtain ⟨b4, r4, hclose, hrest, rfl⟩ := Utf8.encode_cons_eq_some h3
  obtain rfl : [opening] = b2 := Option.some.inj hopen
  obtain rfl : [closing] = b4 := Option.some.inj hclose
  exact ⟨⟨b1, b3⟩, r4, hbefore, hbody, hrest, by simp [Occurrence.source, Occurrence.bracketed]⟩

/-- A text around two bracketed parts is encoded part by part. -/
theorem encode_bracketed {before body rest : Text} {b b' r : Bytes} (hbefore : Utf8.encode before = some b)
    (hbody : Utf8.encode body = some b') (hrest : Utf8.encode rest = some r) :
    Utf8.encode (before ++ openingPoint :: (body ++ closingPoint :: rest)) =
      some (b ++ opening :: (b' ++ closing :: r)) := by
  have hopen : Utf8.encodePoint openingPoint = some [opening] := rfl
  have hclose : Utf8.encodePoint closingPoint = some [closing] := rfl
  simp [Utf8.encode_append, Utf8.encode, hbefore, hbody, hrest, hopen, hclose]

/-! ## What stands for a body -/

section Meaning

variable {body : Text} {meaning : Meaning} {m : Mode}

theorem textReplacement?_of_modeChange (hlen : body.length ≤ 14)
    (hbody : Meaning.ofValue? (.text body) = .ok (some meaning)) {e : Entry}
    (hc : meaning.modeChange? = some e) (action : Action) :
    textReplacement? action body m = some ([], Meaning.applyChange e m) := by
  simp [textReplacement?, hlen, hbody, Meaning.perform, hc, Escape.text]

theorem textReplacement?_of_unwritten (hbody : Meaning.ofValue? (.text body) = .ok (some meaning))
    (hc : meaning.modeChange? = none) (hbuild : meaning.build m.depth m.direction = .ok none)
    (action : Action) : textReplacement? action body m = none := by
  simp [textReplacement?, hbody, Meaning.perform, hc, hbuild, Outcome.ofResult]

theorem textReplacement?_of_written (hlen : body.length ≤ 14)
    (hbody : Meaning.ofValue? (.text body) = .ok (some meaning)) (hc : meaning.modeChange? = none)
    {e : Escape} (hbuild : meaning.build m.depth m.direction = .ok (some e)) (action : Action) :
    textReplacement? action body m =
      some (if action = .replace ∨ meaning.isFixed then e.text else [], m) := by
  simp [textReplacement?, hlen, hbody, Meaning.perform, hc, hbuild, Outcome.ofResult]

end Meaning

/-- A body of characters and its bytes are both kept, or stand for the same. -/
inductive SameReplacement (action : Action) (body : Text) (b : Bytes) (m : Mode) : Prop where
  | kept (htext : textReplacement? action body m = none) (hbytes : replacement? action b m = none)
  | replaced (data : Text) (d : Bytes) (m' : Mode) (hencode : Utf8.encode data = some d)
      (hsurrogate : data.hasSurrogate = false)
      (htext : textReplacement? action body m = some (data, m'))
      (hbytes : replacement? action b m = some (d, m'))

theorem sameReplacement_of_meaning {body : Text} {b : Bytes} {meaning : Meaning}
    (hlen : body.length ≤ 14) (hblen : b.length ≤ 14)
    (hbody : Meaning.ofValue? (.text body) = .ok (some meaning))
    (hb : Meaning.ofBody? b = some meaning) (action : Action) (m : Mode) :
    SameReplacement action body b m := by
  cases hc : meaning.modeChange? with
  | some e =>
    refine .replaced [] [] (Meaning.applyChange e m) rfl rfl
      (textReplacement?_of_modeChange hlen hbody hc action) ?_
    simp [replacement?, hblen, hb, hc]
  | none =>
    have hvalid := Meaning.ofBody?_valid hb
    obtain ⟨r, hbuild⟩ := Meaning.exists_build hvalid hc m.depth m.direction
    cases r with
    | none =>
      exact .kept (textReplacement?_of_unwritten hbody hc hbuild action)
        (replacement?_of_unwritten hblen hb hc hbuild action)
    | some e =>
      have htext := textReplacement?_of_written hlen hbody hc hbuild action
      have hbytes := replacement?_of_written hblen hb hc hbuild action
      by_cases ha : action = .replace ∨ meaning.isFixed = true
      · obtain ⟨hencode, hsurrogate⟩ := Meaning.encode_of_build hvalid hc hbuild
        rw [if_pos ha] at htext hbytes
        exact .replaced e.text e.bytes m hencode hsurrogate htext hbytes
      · rw [if_neg ha] at htext hbytes
        exact .replaced [] [] m rfl rfl htext hbytes

/-- A body of characters stands for the same as its bytes: one with a character beyond ASCII
is kept in both, whatever its length, and any other has as many characters as bytes. -/
theorem sameReplacement_of_encode {body : Text} {b : Bytes} (h : Utf8.encode body = some b)
    (action : Action) (m : Mode) : SameReplacement action body b m := by
  cases hascii : body.isAscii with
  | false =>
    have hmeaning := Meaning.ofBody?_of_not_isAscii hascii h
    refine .kept ?_ ?_
    · simp [textReplacement?, Meaning.ofValue?_of_not_isAscii hascii]
    · simp [replacement?, hmeaning]
  | true =>
    obtain ⟨b', hb', rfl, -⟩ := Utf8.exists_encode_of_isAscii hascii
    obtain rfl := Option.some.inj (h.symm.trans hb')
    have hlen : (Bytes.toText b).length = b.length := by simp [Bytes.toText]
    have hvalue := Meaning.ofValue?_of_isAscii hascii h
    by_cases hshort : b.length ≤ 14
    · cases hb : Meaning.ofBody? b with
      | none => exact .kept (by simp [textReplacement?, hvalue, hb]) (by simp [replacement?, hb])
      | some meaning =>
        rw [hb] at hvalue
        exact sameReplacement_of_meaning (hlen ▸ hshort) hshort hvalue hb action m
    · exact .kept (by simp [textReplacement?, hlen, hshort]) (by simp [replacement?, hshort])

/-! ## The substitution is the conversion -/

theorem hasSurrogate_bracketed (before body rest : Text) :
    Text.hasSurrogate (before ++ openingPoint :: (body ++ closingPoint :: rest)) = false ↔
      before.hasSurrogate = false ∧ body.hasSurrogate = false ∧ rest.hasSurrogate = false := by
  have hopen : openingPoint.isSurrogate = false := rfl
  have hclose : closingPoint.isSurrogate = false := rfl
  simp [Text.hasSurrogate, hopen, hclose]

/-- A substitution encodes the conversion of the text's bytes, leaves its mode and makes no
surrogates. -/
theorem Substitutes.conversion {action : Action} {m m' : Mode} {t r : Text}
    (h : Substitutes action m t r m') {src : Bytes} (hsrc : Utf8.encode t = some src)
    (hs : t.hasSurrogate = false) :
    Utf8.encode r = some (Markup.conversion action src m).bytes ∧
      (Markup.conversion action src m).mode = m' ∧ r.hasSurrogate = false := by
  induction h generalizing src with
  | copied h =>
    rw [Markup.conversion, scan_of_unpaired (unpaired_of_encode hsrc h)]
    exact ⟨hsrc, rfl, hs⟩
  | @replaced m m' m'' before body data rest result hbefore hbody hdata _ ih =>
    obtain ⟨o, rest', ho, hb, hrest, rfl⟩ := exists_occurrence_of_encode hsrc
    obtain ⟨hs1, -, hs2⟩ := (hasSurrogate_bracketed before body rest).1 hs
    obtain ⟨hresult, hmode, hs3⟩ := ih hrest hs2
    obtain ⟨htext, -⟩ | ⟨data', d, m1, hencode, hs4, htext, hbytes⟩ :=
      sameReplacement_of_encode hb action m
    · rw [hdata] at htext
      cases htext
    · obtain ⟨rfl, rfl⟩ := Prod.mk.inj (Option.some.inj (hdata.symm.trans htext))
      have hproduct : o.product action 0 m = ⟨o.before ++ d, m', []⟩ := by
        simp [Occurrence.product, hbytes]
      rw [conversion_source_append action (unpaired_of_encode ho hbefore)
        (noBrackets_of_encode hb hbody), hproduct]
      refine ⟨?_, hmode, ?_⟩
      · simp [Utf8.encode_append, ho, hencode, hresult, Conversion.append, Conversion.shift]
      · exact (Text.hasSurrogate_append _ _).2 ⟨hs1, (Text.hasSurrogate_append _ _).2 ⟨hs4, hs3⟩⟩
  | @kept m m' before body rest result hbefore hbody hdata _ ih =>
    obtain ⟨o, rest', ho, hb, hrest, rfl⟩ := exists_occurrence_of_encode hsrc
    obtain ⟨hs1, hs2, hs3⟩ := (hasSurrogate_bracketed before body rest).1 hs
    obtain ⟨hresult, hmode, hs4⟩ := ih hrest hs3
    obtain ⟨-, hbytes⟩ | ⟨data', d, m1, -, -, htext, -⟩ := sameReplacement_of_encode hb action m
    · have hproduct : o.product action 0 m = ⟨o.source, m, [⟨0 + o.before.length, o.body⟩]⟩ := by
        simp [Occurrence.product, hbytes]
      rw [conversion_source_append action (unpaired_of_encode ho hbefore)
        (noBrackets_of_encode hb hbody), hproduct]
      refine ⟨?_, hmode, ?_⟩
      · rw [encode_bracketed ho hb hresult]
        simp [Conversion.append, Conversion.shift, Occurrence.source, Occurrence.bracketed]
      · exact (hasSurrogate_bracketed before body result).2 ⟨hs1, hs2, hs4⟩
    · rw [hdata] at htext
      cases htext

/-- A text without surrogates is answered with its only substitution. -/
theorem convertValue_text (action : Action) {t : Text} (hs : t.hasSurrogate = false) (m : Mode) :
    ∃ r, (convertValue action (.text t) .none m).result = .ok (.text r) ∧
      ∀ r' m', Substitutes action m t r' m' ↔
        r' = r ∧ m' = (convertValue action (.text t) .none m).mode := by
  obtain ⟨src, hsrc⟩ := Utf8.exists_encode hs
  have hanswer : convertValue action (.text t) .none m =
      (conversion action src m).outcome.map (Value.text t).answer :=
    TargetOperation.onText_unlimited (.convert action)
      ((Value.source_text_eq_ok_iff "text" t src).2 hsrc) m
  have hsub : ∀ r' m', Substitutes action m t r' m' →
      r' = Utf8.decode (conversion action src m).bytes ∧ m' = (conversion action src m).mode := by
    intro r' m' h
    obtain ⟨hr, hm, hsr⟩ := h.conversion hsrc hs
    exact ⟨(Utf8.decode_encode hsr hr).symm, hm.symm⟩
  refine ⟨Utf8.decode (conversion action src m).bytes, by rw [hanswer]; rfl, fun r' m' => ?_⟩
  rw [hanswer]
  constructor
  · exact hsub r' m'
  · rintro ⟨rfl, rfl⟩
    obtain ⟨r, m', h⟩ := exists_substitutes action m t
    obtain ⟨rfl, rfl⟩ := hsub r m' h
    exact h

/-- A text without surrogates is stripped of its sequences character by character. -/
theorem stripValue_text {t : Text} (hs : t.hasSurrogate = false) :
    Sgr.stripValue (.text t) .none = .ok (.text (Sgr.remove Fin.val t)) := by
  obtain ⟨src, hsrc⟩ := Utf8.exists_encode hs
  have hleft : Text.hasSurrogate (Sgr.remove Fin.val t) = false := by
    rw [Text.hasSurrogate_eq_false_iff] at hs ⊢
    exact fun c hc => hs c ((Sgr.remove_sublist Fin.val t).mem hc)
  rw [Sgr.stripValue_eq ((Value.source_text_eq_ok_iff "text" t src).2 hsrc), Sgr.strip_unlimited]
  simp [Except.map, Value.answer, Utf8.decode_encode hleft (Sgr.remove_encode hsrc)]

/-- What is done in bytes is the same said of characters: a text without surrogates is
answered with its only substitution and its mode, or with what stands outside the spans of
its sequences; and the spans in the bytes of any text that has some are those in the text,
by the offsets of the characters. -/
theorem characters_agree :
    (∀ (action : Action) (t : Text) (m : Mode), t.hasSurrogate = false →
      ∃ r, (convertValue action (.text t) .none m).result = .ok (.text r) ∧
        ∀ r' m', Substitutes action m t r' m' ↔
          r' = r ∧ m' = (convertValue action (.text t) .none m).mode) ∧
    (∀ t : Text, t.hasSurrogate = false → ∃ spans, Sgr.spansOf (.text t) = .ok spans ∧
      Sgr.stripValue (.text t) .none = .ok (.text (Sgr.outside spans t))) ∧
    (∀ (t : Text) (b : Bytes) (holder : Holder), (Value.text t).source "text" = .ok b →
      ∃ spans, Sgr.spansOf (.text t) = .ok spans ∧
        Sgr.spansOf (.bytes holder b) =
          .ok (spans.map fun s => (Utf8.byteOffset t s.1, Utf8.byteOffset t s.2))) := by
  refine ⟨fun action t m hs => convertValue_text action hs m, fun t hs => ?_, fun t b holder h => ?_⟩
  · refine ⟨Sgr.spans Fin.val t, rfl, ?_⟩
    rw [stripValue_text hs, Sgr.outside_spans]
  · refine ⟨Sgr.spans Fin.val t, rfl, ?_⟩
    rw [Sgr.spansOf, Sgr.spans_encode ((Value.source_text_eq_ok_iff "text" t b).1 h)]

/-- The text `é[bg]` has one substitution, and is answered with it. -/
theorem characters_agree_accented :
    let t : Text := [0xE9, 0x5B, 0x62, 0x67, 0x5D]
    t.hasSurrogate = false ∧
    ∃ r, (convertValue .replace (.text t) .none .initial).result = .ok (.text r) ∧
      ∀ r' m', Substitutes .replace .initial t r' m' ↔
        r' = r ∧ m' = (convertValue .replace (.text t) .none .initial).mode :=
  ⟨by decide, characters_agree.1 _ _ _ (by decide)⟩

end Markup
end ColorMarkup
