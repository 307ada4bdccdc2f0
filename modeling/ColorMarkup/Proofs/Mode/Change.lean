import ColorMarkup.Proofs.Markup.Replacement
import ColorMarkup.Mode.Request
/-!
# Changes of the mode

What changes the mode, said without the mode: a value that asks for a depth or a
direction, or a tag with one of six names. A change sets one part of the mode and keeps
the other, so after several changes each part has the value set last.

Results:
* `ModeChange.part_applyAll`: the value set last is the one left.
* `ModeChange.meaning_mode`: a tag's body leaves the mode that its change gives.
* `Markup.conversion_mode_eq`: so does a text, with the changes of its tags in order.
-/
namespace ColorMarkup

/-- A part of the mode is given a value. -/
inductive ModeChange where
  | depth (d : Depth)
  | direction (d : Direction)
  deriving DecidableEq, Repr

namespace ModeChange

def apply : ModeChange → Mode → Mode
  | depth d, m => { m with depth := d }
  | direction d, m => { m with direction := d }

def applyAll (cs : List ModeChange) (m : Mode) : Mode := cs.foldl (fun m c => c.apply m) m

def depth? : ModeChange → Option Depth
  | depth d => some d
  | direction _ => none

def direction? : ModeChange → Option Direction
  | depth _ => none
  | direction d => some d

/-- The names of tags for a mode. -/
def names : List (Bytes × ModeChange) :=
  [(Bytes.ofString "4-bit", depth .four), (Bytes.ofString "8-bit", depth .eight),
   (Bytes.ofString "24-bit", depth .twentyFour), (Bytes.ofString "fg", direction .foreground),
   (Bytes.ofString "nobg", direction .foreground), (Bytes.ofString "bg", direction .background)]

/-- What a tag of this name changes; names stand in lower case. -/
def ofName? (name : Bytes) : Option ModeChange := (names.find? fun p => p.1 == name).map (·.2)

/-- What a tag's body changes, in any letter case. -/
def ofBody? (body : Bytes) : Option ModeChange := ofName? body.lower

/-- What a value changes if it is requested as a depth: it is a depth, or the bits of one. -/
def ofDepthValue? : Value → Option ModeChange
  | .depth d => some (depth d)
  | .int 4 => some (depth .four)
  | .int 8 => some (depth .eight)
  | .int 24 => some (depth .twentyFour)
  | _ => none

/-- What a value changes if it is requested as a direction: it is a direction, or the code of
one in any letter case. -/
def ofDirectionValue? : Value → Option ModeChange
  | .direction d => some (direction d)
  | .text t =>
    if t.lower = Text.ofString "fg" then some (direction .foreground)
    else if t.lower = Text.ofString "bg" then some (direction .background)
    else none
  | _ => none

/-- What a tag changes whose body a value gives. -/
def ofNameValue? (v : Value) : Option ModeChange :=
  match v.key? "name" with
  | .ok (some body) => ofBody? body
  | _ => none

end ModeChange

/-! ## Changes in order -/

namespace ModeChange

theorem applyAll_append (cs cs' : List ModeChange) (m : Mode) :
    applyAll (cs ++ cs') m = applyAll cs' (applyAll cs m) := List.foldl_append

/-- A part of the mode that every change sets or keeps has the value set last. -/
theorem part_applyAll {α : Type} {part : Mode → α} {value? : ModeChange → Option α}
    (h : ∀ c m, part (apply c m) = (value? c).getD (part m)) (cs : List ModeChange) (m : Mode) :
    part (applyAll cs m) = (cs.filterMap value?).getLast?.getD (part m) := by
  induction cs generalizing m with
  | nil => rfl
  | cons c cs ih =>
    rw [applyAll, List.foldl_cons, ← applyAll, ih, h]
    cases hc : value? c with
    | none => rw [List.filterMap_cons_none hc]; rfl
    | some a => rw [List.filterMap_cons_some hc, List.getLast?_cons]; rfl

theorem applyAll_depth (cs : List ModeChange) (m : Mode) :
    (applyAll cs m).depth = (cs.filterMap depth?).getLast?.getD m.depth :=
  part_applyAll (fun c _ => by cases c <;> rfl) cs m

theorem applyAll_direction (cs : List ModeChange) (m : Mode) :
    (applyAll cs m).direction = (cs.filterMap direction?).getLast?.getD m.direction :=
  part_applyAll (fun c _ => by cases c <;> rfl) cs m

/-! ## Requests -/

theorem ofDepthValue?_eq (v : Value) : ofDepthValue? v = (Depth.ofValue? v).map depth := by
  unfold ofDepthValue?
  split
  · rfl
  · rfl
  · rfl
  · rfl
  · next hdepth h4 h8 h24 =>
    cases v with
    | depth d => exact absurd rfl (hdepth d)
    | int n =>
      cases h : Depth.ofBits? n with
      | none => simp [Depth.ofValue?, h]
      | some d =>
        have hn := (Depth.ofBits?_eq_some_iff n d).1 h
        subst hn
        cases d
        · exact absurd rfl h4
        · exact absurd rfl h8
        · exact absurd rfl h24
    | _ => rfl

theorem ofDirectionValue?_eq (v : Value) :
    ofDirectionValue? v = (Direction.ofValue? v).map direction := by
  cases v with
  | text t =>
    simp only [ofDirectionValue?, Direction.ofValue?, Direction.ofCode?, Direction.all,
      Direction.code, List.find?_cons, List.find?_nil, beq_eq_decide, eq_comm (a := t.lower)]
    by_cases hfg : Text.ofString "fg" = t.lower
    · simp [hfg]
    · by_cases hbg : Text.ofString "bg" = t.lower <;> simp [hfg, hbg]
  | _ => rfl

theorem requestDepth_mode (m : Mode) (v : Value) :
    (m.requestDepth v).mode = applyAll (ofDepthValue? v).toList m := by
  rw [ofDepthValue?_eq]
  unfold Mode.requestDepth
  cases Depth.ofValue? v <;> rfl

theorem requestDirection_mode (m : Mode) (v : Value) :
    (m.requestDirection v).mode = applyAll (ofDirectionValue? v).toList m := by
  rw [ofDirectionValue?_eq]
  unfold Mode.requestDirection
  cases Direction.ofValue? v <;> rfl

/-! ## Tags -/

/-- What an entry changes. -/
def changesOf (e : Entry) : List ModeChange :=
  (e.forcesDepth.map depth).toList ++ (e.forcesDirection.map direction).toList

theorem changesOf_table : ∀ p ∈ Vocabulary.table, changesOf p.2 = (ofName? p.1).toList := by
  decide +kernel

theorem names_mem_table : ∀ p ∈ names, p.1 ∈ Vocabulary.table.map Prod.fst := by decide +kernel

theorem names_short : ∀ p ∈ names, p.1.length ≤ 6 := by decide +kernel

theorem ofBody?_eq_some {body : Bytes} {c : ModeChange} (h : ofBody? body = some c) :
    (body.lower, c) ∈ names := by
  obtain ⟨p, hp, rfl⟩ := Option.map_eq_some_iff.1 h
  have hname : p.1 = body.lower := by simpa using List.find?_some hp
  exact hname ▸ List.mem_of_find?_eq_some hp

theorem length_of_ofBody? {body : Bytes} {c : ModeChange} (h : ofBody? body = some c) :
    body.length ≤ 6 := by
  simpa [Bytes.lower] using names_short _ (ofBody?_eq_some h)

/-- An entry that is found by a name changes what a tag of this name changes. -/
theorem changesOf_find? {body : Bytes} {e : Entry} (h : Vocabulary.find? body = some e) :
    changesOf e = (ofBody? body).toList :=
  changesOf_table _ (Vocabulary.mem_table_of_find? h)

/-- A body under which nothing is found changes nothing. -/
theorem ofBody?_of_not_found {body : Bytes} (h : Vocabulary.find? body = none) :
    ofBody? body = none := by
  cases hc : ofBody? body with
  | none => rfl
  | some c =>
    have hlen := length_of_ofBody? hc
    obtain ⟨p, hp, hname⟩ := List.mem_map.1 (names_mem_table _ (ofBody?_eq_some hc))
    have hshort : ¬ Vocabulary.longestName < body.length := by
      have : Vocabulary.longestName = 9 := by decide +kernel
      omega
    rw [Vocabulary.find?, if_neg hshort, Option.map_eq_none_iff, List.find?_eq_none] at h
    exact absurd (by simpa using hname) (h p hp)

theorem applyChange_eq (e : Entry) (m : Mode) : Meaning.applyChange e m = applyAll (changesOf e) m := by
  unfold Meaning.applyChange changesOf
  cases e.forcesDepth <;> cases e.forcesDirection <;> rfl

theorem changesOf_of_not_changesMode {e : Entry} (h : e.changesMode = false) : changesOf e = [] := by
  simp only [Entry.changesMode, Bool.or_eq_false_iff, Option.isSome_eq_false_iff,
    Option.isNone_iff_eq_none] at h
  simp [changesOf, h.1, h.2]

/-- What a body means changes the mode only if the body changes something. -/
theorem modeChange?_eq_none {body : Bytes} {meaning : Meaning} (h : Meaning.ofBody? body = some meaning)
    (hc : ofBody? body = none) : meaning.modeChange? = none := by
  unfold Meaning.ofBody? at h
  split at h
  · next e he =>
    cases h
    have hchanges := changesOf_find? he
    rw [hc] at hchanges
    simp only [changesOf, Option.toList_none, List.append_eq_nil_iff, Option.toList_eq_nil_iff,
      Option.map_eq_none_iff] at hchanges
    simp [Meaning.modeChange?, Entry.changesMode, hchanges]
  · obtain ⟨n, -, rfl⟩ := Option.map_eq_some_iff.1 h
    rfl

/-- Performing what a body means applies what the body changes, whatever overrides are given. -/
theorem meaning_mode {body : Bytes} {meaning : Meaning} (h : Meaning.ofBody? body = some meaning)
    (m : Mode) (depth : Option Depth) (d : Option Direction) :
    (meaning.perform m depth d).mode = applyAll (ofBody? body).toList m := by
  unfold Meaning.ofBody? at h
  split at h
  · next e he =>
    cases h
    rw [← changesOf_find? he]
    cases hc : e.changesMode with
    | true => simp only [Meaning.perform, Meaning.modeChange?, hc, if_true, applyChange_eq]
    | false =>
      rw [changesOf_of_not_changesMode hc]
      simp [Meaning.perform, Meaning.modeChange?, hc, Outcome.ofResult, applyAll]
  · next hnone =>
    obtain ⟨n, -, rfl⟩ := Option.map_eq_some_iff.1 h
    rw [ofBody?_of_not_found hnone]
    rfl

theorem ofBody?_of_no_meaning {body : Bytes} (h : Meaning.ofBody? body = none) :
    ofBody? body = none := by
  unfold Meaning.ofBody? at h
  split at h
  · cases h
  · next hnone => exact ofBody?_of_not_found hnone

theorem ofNameValue?_of_key? {v : Value} {key : Option Bytes} (h : v.key? "name" = .ok key) :
    ofNameValue? v = key.bind ofBody? := by
  simp only [ofNameValue?, h]
  cases key <;> rfl

/-- A name that changes nothing means nothing that changes the mode. -/
theorem modeChange?_of_ofNameValue? {name : Value} {meaning : Meaning} (h : ofNameValue? name = none)
    (hname : Meaning.ofValue? name = .ok (some meaning)) : meaning.modeChange? = none := by
  unfold Meaning.ofValue? at hname
  cases hkey : name.key? "name" with
  | error e => simp [hkey, Except.map] at hname
  | ok key =>
    rw [ofNameValue?_of_key? hkey] at h
    simp only [hkey, Except.map, Except.ok.injEq] at hname
    obtain ⟨body, rfl, hbody⟩ := Option.bind_eq_some_iff.1 hname
    exact modeChange?_eq_none hbody h

end ModeChange

/-! ## Texts -/

namespace Markup

open ModeChange

/-- A bracketed body leaves the mode that its change gives. -/
theorem product_mode_eq (o : Occurrence) (action : Action) (start : Nat) (m : Mode) :
    (o.product action start m).mode = applyAll (ofBody? o.body).toList m := by
  unfold Occurrence.product replacement?
  by_cases hlen : o.body.length ≤ 14
  · rw [if_pos hlen]
    cases hb : Meaning.ofBody? o.body with
    | none => rw [ofBody?_of_no_meaning hb]; rfl
    | some meaning =>
      rw [← meaning_mode hb m none none, Meaning.perform]
      cases hc : meaning.modeChange? with
      | some e => simp [hc]
      | none =>
        cases hr : meaning.build m.depth m.direction with
        | error e => simp [hc, hr, Outcome.ofResult]
        | ok escape => cases escape <;> simp [hc, hr, Outcome.ofResult]
  · have hnone : ofBody? o.body = none := by
      cases hc : ofBody? o.body with
      | none => rfl
      | some c => exact absurd (length_of_ofBody? hc) (by omega)
    rw [if_neg hlen, hnone]
    rfl

/-- The change of the first place comes first. -/
theorem applyAll_changes_cons (p : Place) (ps : List Place) (m : Mode) :
    applyAll ((p :: ps).filterMap fun p => ofBody? p.body) m =
      applyAll (ps.filterMap fun p => ofBody? p.body) (applyAll (ofBody? p.body).toList m) := by
  rw [← applyAll_append]
  cases h : ofBody? p.body <;> simp [h]

theorem conversionFrom_mode_eq (action : Action) (tail : Bytes) (os : List Occurrence) (start : Nat)
    (m : Mode) :
    (conversionFrom action tail os start m).mode =
      applyAll ((placesFrom start os).filterMap fun p => ofBody? p.body) m := by
  induction os generalizing start m with
  | nil => rfl
  | cons o os ih =>
    simp only [conversionFrom, Conversion.append, ih, product_mode_eq, placesFrom,
      applyAll_changes_cons]

/-- A text leaves the mode that the tags in it give, one after the other. -/
theorem conversion_mode_eq (action : Action) (src : Bytes) (m : Mode) :
    (conversion action src m).mode = applyAll ((places src).filterMap fun p => ofBody? p.body) m := by
  rw [conversion, conversionFrom_mode_eq, placesFrom_scan]

theorem convertValue_unlimited (action : Action) (text : Value) (m : Mode) :
    convertValue action text .none m =
      match text.source "text" with
      | .ok src => (conversion action src m).outcome.map text.answer
      | .error e => .ofResult (.error e) m := by
  rw [convertValue_eq]
  cases text.source "text" with
  | ok src => simp only [convert_unlimited]
  | error e => rfl

end Markup

end ColorMarkup
