import ColorMarkup.Proofs.Markup.Again
import ColorMarkup.Proofs.Mode.Change
import ColorMarkup.Proofs.Numeral.Printed
/-!
# Converting again

A text whose tags have been replaced holds brackets of three kinds: those of bodies that were
kept, those of the sequences that were written, and stray ones of the source. A sequence's
bracket opens a body that starts with a digit and holds the `m` of the sequence. A stray bracket
is closed, if at all, behind a tag, so its body holds the escape character of what was written for
that tag. No name and no numeral is like these two, and a body that was kept is kept again under
the same mode. So if no tag changes the mode, there is nothing to replace in what was replaced.

Results:
* `Spoiled.ofBody?_eq_none`: a body of these two kinds means nothing.
* `keptFrom_conversionFrom`: every body of a replaced text is such a one, or was kept.
* `replace_again`: replacing tags again changes nothing.
-/
namespace ColorMarkup
namespace Markup

/-! ## Bodies that are no tags -/

/-- The bytes hold an escape character, or the parameters of a sequence up to its end. -/
def Spoiled (b : Bytes) : Prop := 0x1B ∈ b ∨ (b.head?.any Decimal.isDigit = true ∧ 0x6D ∈ b)

instance (b : Bytes) : Decidable (Spoiled b) := inferInstanceAs (Decidable (_ ∨ _))

theorem Spoiled.append {b : Bytes} (h : Spoiled b) (t : Bytes) : Spoiled (b ++ t) := by
  obtain hesc | ⟨hdigit, hm⟩ := h
  · exact .inl (List.mem_append_left t hesc)
  · refine .inr ⟨?_, List.mem_append_left t hm⟩
    cases b with
    | nil => cases hm
    | cons d b => exact hdigit

theorem Spoiled.lower {b : Bytes} (h : Spoiled b) : Spoiled b.lower := by
  obtain hesc | ⟨hdigit, hm⟩ := h
  · exact .inl (List.mem_map.2 ⟨_, hesc, rfl⟩)
  · refine .inr ⟨?_, List.mem_map.2 ⟨_, hm, rfl⟩⟩
    cases b with
    | nil => cases hm
    | cons d b =>
      have hd : Decimal.isDigit d = true := hdigit
      have hbounds := (NumberTag.isDigit_iff d).1 hd
      have hlower : asciiLower d.toNat = d.toNat := if_neg (by omega)
      simp [Bytes.lower, hlower, hd]

theorem table_not_spoiled : ∀ p ∈ Vocabulary.table, ¬ Spoiled p.1 := by decide +kernel

theorem Spoiled.not_isPart {b : Bytes} (h : Spoiled b) : ¬ ∀ x ∈ b, NumberTag.isPart x = true := by
  intro hpart
  obtain hesc | ⟨-, hm⟩ := h
  · exact absurd (hpart _ hesc) (by decide)
  · exact absurd (hpart _ hm) (by decide)

/-- Such a body is neither a name nor a numeral. -/
theorem Spoiled.ofBody?_eq_none {b : Bytes} (h : Spoiled b) : Meaning.ofBody? b = none := by
  have hname : Vocabulary.find? b = none := by
    cases hf : Vocabulary.find? b with
    | none => rfl
    | some e => exact absurd h.lower (table_not_spoiled _ (Vocabulary.mem_table_of_find? hf))
  have hnumeral : NumberTag.parse? b = none := by
    cases hp : NumberTag.parse? b with
    | none => rfl
    | some tag =>
      obtain ⟨n, rfl, -, -⟩ := (NumberTag.parse?_eq_some_iff b tag).1 hp
      exact absurd n.bytes_isPart h.not_isPart
  unfold Meaning.ofBody?
  rw [hname, hnumeral]
  rfl

theorem Spoiled.replacement?_eq_none {b : Bytes} (h : Spoiled b) (action : Action) (m : Mode) :
    replacement? action b m = none := by
  simp [replacement?, h.ofBody?_eq_none]

theorem exists_joinParams_cons (p : Int) (ps : List Int) :
    ∃ rest, Escape.joinParams (p :: ps) = Decimal.ofInt p ++ rest := by
  cases ps with
  | nil => exact ⟨[], (List.append_nil _).symm⟩
  | cons q ps => exact ⟨_, rfl⟩

/-- The parameters of a sequence, up to its end. -/
theorem spoiled_joinParams {params : List Int} (hne : params ≠ []) (h : ∀ p ∈ params, 0 ≤ p) :
    Spoiled (Escape.joinParams params ++ [0x6D]) := by
  refine .inr ⟨?_, by simp⟩
  obtain ⟨p, ps, rfl⟩ := List.exists_cons_of_ne_nil hne
  obtain ⟨rest, hjoin⟩ := exists_joinParams_cons p ps
  have hp : ¬ p < 0 := by
    have := h p List.mem_cons_self
    omega
  rw [hjoin, Decimal.ofInt, if_neg hp]
  cases hd : Decimal.ofNat p.natAbs with
  | nil => exact absurd hd (Decimal.ofNat_ne_nil _)
  | cons d ds => exact Decimal.ofNat_isDigit p.natAbs d (hd ▸ List.mem_cons_self)

theorem joinParams_noBrackets {params : List Int} (h : ∀ p ∈ params, 0 ≤ p) :
    NoBrackets (Escape.joinParams params ++ [0x6D]) := by
  refine List.forall_mem_append.2 ⟨fun b hb => ?_, by simp [opening, closing]⟩
  have hparam := Escape.joinParams_isParameter h b hb
  constructor <;> (rintro rfl; cases hparam)

/-! ## Bodies of a replaced text -/

/-- What is open, if anything, is such a body. -/
def OpenSpoiled (opened : Option Bytes) : Prop := ∀ body ∈ opened, Spoiled body.reverse

/-- In text without a pair of brackets no body ends but the one that was open. -/
theorem scanFrom_append_of_unpaired {t : Bytes} (ht : Unpaired t) (before rest : Bytes)
    {opened : Option Bytes} (h : OpenSpoiled opened) :
    ∃ os before' opened', (scanFrom before opened (t ++ rest)).occurrences =
        os ++ (scanFrom before' opened' rest).occurrences ∧ ∀ o ∈ os, Spoiled o.body := by
  by_cases hclosed : opened.isSome ∧ closing ∈ t
  · obtain ⟨hopened, hc⟩ := hclosed
    obtain ⟨body, rfl⟩ := Option.isSome_iff_exists.1 hopened
    obtain ⟨t1, t2, rfl, hfirst⟩ := List.eq_append_cons_of_mem hc
    obtain ⟨-, ht2, hcross⟩ := List.pairwise_append.1 ht
    -- an opening bracket in front of the first closing one would make a pair
    have hb : NoBrackets t1 := by
      intro x hx
      refine ⟨fun ho => ?_, fun hx' => hfirst (hx' ▸ hx)⟩
      exact hcross x hx closing List.mem_cons_self ho rfl
    obtain ⟨before', opened', hscan, -⟩ :=
      scanFrom_unpaired (List.pairwise_cons.1 ht2).2 [] rest none (by simp)
    refine ⟨[⟨before.reverse, body.reverse ++ t1⟩], before', opened', ?_, ?_⟩
    · rw [List.append_assoc, List.cons_append, scanFrom_body hb, hscan]
      rfl
    · intro o ho
      obtain rfl := List.mem_singleton.1 ho
      exact (h body rfl).append t1
  · obtain ⟨before', opened', hscan, -⟩ := scanFrom_unpaired ht before rest opened
      fun hopened hc => hclosed ⟨hopened, hc⟩
    exact ⟨[], before', opened', by rw [hscan]; rfl, by simp⟩

/-- What is written for a tag that changes no mode. -/
inductive Mark : Bytes → Prop where
  | esc : Mark [0x1B]
  | sequence (params : List Int) (hne : params ≠ []) (hp : ∀ p ∈ params, 0 ≤ p) :
      Mark (Escape.sequenceBytes params)

theorem mark_of_replacement? {body data : Bytes} {m m' : Mode} (hplain : ModeChange.ofBody? body = none)
    (h : replacement? .replace body m = some (data, m')) : m' = m ∧ Mark data := by
  have hlen : body.length ≤ 14 := by
    by_contra hlong
    rw [replacement?, if_neg hlong] at h
    cases h
  cases hb : Meaning.ofBody? body with
  | none => simp [replacement?, hb] at h
  | some meaning =>
    have hc := ModeChange.modeChange?_eq_none hb hplain
    obtain ⟨hbuild, -⟩ | ⟨-, hbuild | ⟨e, hbuild, params, rfl, hne, hp⟩⟩ :=
      Meaning.build_cases (Meaning.ofBody?_valid hb) hc m.depth m.direction
    · rw [replacement?_of_written hlen hb hc hbuild, if_pos (.inl rfl)] at h
      cases h
      exact ⟨rfl, .esc⟩
    · rw [replacement?_of_unwritten hlen hb hc hbuild] at h
      cases h
    · rw [replacement?_of_written hlen hb hc hbuild, if_pos (.inl rfl)] at h
      cases h
      exact ⟨rfl, .sequence params hne fun p hmem => (hp p hmem).1⟩

/-- An escape character spoils the body that is open, if any. -/
theorem scanFrom_esc (before : Bytes) (opened : Option Bytes) (rest : Bytes) :
    ∃ before' opened', scanFrom before opened (0x1B :: rest) = scanFrom before' opened' rest ∧
      OpenSpoiled opened' := by
  cases opened with
  | none => exact ⟨0x1B :: before, none, scanFrom_cons_text (by decide) before rest, by simp [OpenSpoiled]⟩
  | some body =>
    refine ⟨before, some (0x1B :: body), scanFrom_cons_inner (by decide) (by decide) before body rest, ?_⟩
    intro b hb
    cases hb
    exact .inl (by simp)

/-- Behind what is written for a tag nothing is open but a spoiled body: a sequence opens one of
its own, which holds its parameters. -/
theorem scanFrom_mark {data : Bytes} (h : Mark data) (before : Bytes) (opened : Option Bytes)
    (rest : Bytes) :
    ∃ before' opened', scanFrom before opened (data ++ rest) = scanFrom before' opened' rest ∧
      OpenSpoiled opened' := by
  cases h with
  | esc => exact scanFrom_esc before opened rest
  | sequence params hne hp =>
    have hsplit : Escape.sequenceBytes params ++ rest =
        0x1B :: opening :: (Escape.joinParams params ++ [0x6D] ++ rest) := by
      simp [Escape.sequenceBytes, Escape.introducer, opening]
    obtain ⟨before1, opened1, hesc, -⟩ := scanFrom_esc before opened
      (opening :: (Escape.joinParams params ++ [0x6D] ++ rest))
    refine ⟨pending before1 opened1, some (Escape.joinParams params ++ [0x6D]).reverse, ?_, ?_⟩
    · rw [hsplit, hesc, scanFrom_cons_opening, scanFrom_noBrackets (joinParams_noBrackets hp),
        List.append_nil]
    · intro b hb
      cases hb
      rw [List.reverse_reverse]
      exact spoiled_joinParams hne hp

/-- Every body of the text is kept under the mode, also one that goes on from a spoiled body. -/
def KeptFrom (m : Mode) (b : Bytes) : Prop :=
  ∀ before opened, OpenSpoiled opened → ∀ o ∈ (scanFrom before opened b).occurrences,
    replacement? .replace o.body m = none

section KeptFrom

variable {m : Mode} {t rest : Bytes}

theorem keptFrom_of_unpaired (ht : Unpaired t) : KeptFrom m t := by
  intro before opened hopened
  obtain ⟨os, before', opened', hscan, hspoiled⟩ := scanFrom_append_of_unpaired ht before [] hopened
  rw [List.append_nil] at hscan
  rw [hscan]
  intro o ho
  obtain ho | ho := List.mem_append.1 ho
  · exact (hspoiled o ho).replacement?_eq_none _ m
  · cases ho

/-- A body that is kept in front. -/
theorem KeptFrom.source_append (h : KeptFrom m rest) {o : Occurrence} (hu : Unpaired o.before)
    (hb : NoBrackets o.body) (hkept : replacement? .replace o.body m = none) :
    KeptFrom m (o.source ++ rest) := by
  intro before opened hopened
  have hsplit : o.source ++ rest = o.before ++ opening :: (o.body ++ closing :: rest) := by
    simp [Occurrence.source, Occurrence.bracketed]
  obtain ⟨os, before', opened', hscan, hspoiled⟩ := scanFrom_append_of_unpaired hu before
    (opening :: (o.body ++ closing :: rest)) hopened
  rw [hsplit, hscan, scanFrom_cons_opening, scanFrom_body hb]
  intro o' ho'
  obtain ho' | ho' := List.mem_append.1 ho'
  · exact (hspoiled o' ho').replacement?_eq_none _ m
  · obtain rfl | ho' := List.mem_cons.1 ho'
    · exact hkept
    · exact h [] none (by simp [OpenSpoiled]) o' ho'

/-- What is written for a tag in front. -/
theorem KeptFrom.mark_append (h : KeptFrom m rest) (ht : Unpaired t) {data : Bytes} (hdata : Mark data) :
    KeptFrom m (t ++ data ++ rest) := by
  intro before opened hopened
  obtain ⟨os, before1, opened1, hscan, hspoiled⟩ :=
    scanFrom_append_of_unpaired ht before (data ++ rest) hopened
  obtain ⟨before2, opened2, hmark, hopened2⟩ := scanFrom_mark hdata before1 opened1 rest
  rw [List.append_assoc, hscan, hmark]
  intro o ho
  obtain ho | ho := List.mem_append.1 ho
  · exact (hspoiled o ho).replacement?_eq_none _ m
  · exact h before2 opened2 hopened2 o ho

end KeptFrom

/-- If no body of a text changes the mode, every body of the replaced text is kept under it. -/
theorem keptFrom_conversionFrom {tail : Bytes} {os : List Occurrence}
    (hbefore : ∀ o ∈ os, Unpaired o.before) (htail : Unpaired tail)
    (hbody : ∀ o ∈ os, NoBrackets o.body) (hplain : ∀ o ∈ os, ModeChange.ofBody? o.body = none)
    (start : Nat) (m : Mode) : KeptFrom m (conversionFrom .replace tail os start m).bytes := by
  induction os generalizing start with
  | nil => exact keptFrom_of_unpaired htail
  | cons o os ih =>
    obtain ⟨hbefore1, hbefores⟩ := List.forall_mem_cons.1 hbefore
    obtain ⟨hbody1, hbodies⟩ := List.forall_mem_cons.1 hbody
    obtain ⟨hplain1, hplains⟩ := List.forall_mem_cons.1 hplain
    have hrest := ih hbefores hbodies hplains (start + o.source.length)
    simp only [conversionFrom, Conversion.append, Occurrence.product]
    cases hr : replacement? .replace o.body m with
    | none => exact hrest.source_append hbefore1 hbody1 hr
    | some r =>
      obtain ⟨data, m'⟩ := r
      obtain ⟨rfl, hmark⟩ := mark_of_replacement? hplain1 hr
      exact hrest.mark_append hbefore1 hmark

/-- No body of the text changes the mode. -/
def KeepsMode (src : Bytes) : Prop := ∀ p : Place, p.OccursIn src → ModeChange.ofBody? p.body = none

theorem KeepsMode.of_append {src rest : Bytes} (h : KeepsMode (src ++ rest)) : KeepsMode src :=
  fun p hp => h p (hp.append rest)

theorem KeepsMode.occurrences {src : Bytes} (h : KeepsMode src) :
    ∀ o ∈ (scan src).occurrences, ModeChange.ofBody? o.body = none := by
  rw [← forall_body_placesFrom (P := fun body => ModeChange.ofBody? body = none) 0, placesFrom_scan]
  exact fun p hp => h p ((mem_places src p).1 hp)

theorem KeepsMode.conversion_mode {src : Bytes} (h : KeepsMode src) (action : Action) (m : Mode) :
    (conversion action src m).mode = m := by
  have hnone : (places src).filterMap (fun p => ModeChange.ofBody? p.body) = [] :=
    List.filterMap_eq_nil_iff.2 fun p hp => h p ((mem_places src p).1 hp)
  rw [conversion_mode_eq, hnone]
  rfl

/-- If no body of a text changes the mode, replacing tags again changes nothing. -/
theorem conversion_replace_again {src : Bytes} (h : KeepsMode src) (m : Mode) :
    (conversion .replace (conversion .replace src m).bytes m).bytes = (conversion .replace src m).bytes ∧
      (conversion .replace (conversion .replace src m).bytes m).mode = m :=
  conversion_of_kept (keptFrom_conversionFrom (before_unpaired src) (tail_unpaired src)
    (body_no_brackets src) h.occurrences 0 m [] none (by simp [OpenSpoiled]))

end Markup

/-- What is read of a text or of bytes is a beginning of it. -/
theorem Value.source_of_written? {v : Value} {whole : Bytes} (h : v.written? = some whole)
    (argument : String) : ∃ src rest, v.source argument = .ok src ∧ whole = src ++ rest := by
  cases v with
  | text t => exact ⟨whole, [], by simp [source, sourceNamed, show Utf8.encode t = some whole from h], by simp⟩
  | bytes holder b =>
    obtain rfl : b = whole := Option.some.inj h
    exact ⟨b.untilNul, b.dropWhile (· != 0), rfl, List.takeWhile_append_dropWhile.symm⟩
  | _ => cases h

namespace Markup

/-- A text or bytes, none of whose bracketed bodies is a tag for the mode in any letter case:
replacing the tags, and replacing them again under the same mode, gives the same as replacing
them once, and leaves the mode both times. -/
theorem replace_again {text : Value} {whole : Bytes} (h : text.written? = some whole)
    (hplain : ∀ p : Place, p.OccursIn whole → ModeChange.ofBody? p.body = none) (m : Mode) :
    ∃ once, (convertValue .replace text .none m).result = .ok once ∧
      (convertValue .replace text .none m).mode = m ∧
      (convertValue .replace once .none m).result = .ok once ∧
      (convertValue .replace once .none m).mode = m := by
  obtain ⟨src, rest, hsrc, rfl⟩ := Value.source_of_written? h "text"
  have hkeeps : KeepsMode src := KeepsMode.of_append hplain
  obtain ⟨hbytes, hmode⟩ := conversion_replace_again hkeeps m
  obtain ⟨once, out, twice, honce, hout, htwice, rfl, hiff⟩ :=
    TargetOperation.onText_again (.convert .replace) hsrc m
  obtain rfl := hiff.2 hbytes
  refine ⟨twice, honce, ?_, htwice, ?_⟩
  · rw [convertValue_unlimited, hsrc]
    exact hkeeps.conversion_mode .replace m
  · rw [convertValue_unlimited, hout]
    exact hmode

/-- In `[re[red]d][z]` the brackets that are left stand around a sequence and around no tag. -/
theorem replace_again_nested :
    let src : Bytes := [0x5B, 0x72, 0x65, 0x5B, 0x72, 0x65, 0x64, 0x5D, 0x64, 0x5D, 0x5B, 0x7A, 0x5D]
    (∀ p : Place, p.OccursIn src → ModeChange.ofBody? p.body = none) ∧
    ∃ once, (convertValue .replace (.bytes .constant src) .none .initial).result = .ok once ∧
      (convertValue .replace once .none .initial).result = .ok once := by
  intro src
  have hplaces : ∀ p ∈ places src, ModeChange.ofBody? p.body = none := by decide +kernel
  have hplain : ∀ p : Place, p.OccursIn src → ModeChange.ofBody? p.body = none :=
    fun p hp => hplaces p ((mem_places src p).2 hp)
  have hwritten : (Value.bytes .constant src).written? = some src := rfl
  obtain ⟨once, honce, -, htwice, -⟩ := replace_again hwritten hplain .initial
  exact ⟨hplain, once, honce, htwice⟩

end Markup
end ColorMarkup
