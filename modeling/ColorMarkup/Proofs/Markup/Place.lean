import ColorMarkup.Proofs.Markup.Scan
import Mathlib.Data.List.Sort
import Mathlib.Data.List.TakeWhile
/-!
# Where bracketed bodies stand

A place is a bracketed body and the offset of its opening bracket. A text has a
body at a place if the body stands there in brackets and holds no bracket
itself. All places of a text are found by looking at every offset by itself,
with no memory of the offsets before.

Results:
* `mem_places`: the listed places are all places at which the text has a body.
* `places_disjoint`: of two places in the list the first ends before the second starts.
* `placesFrom_scan`: the one pass over the text finds exactly these places.
-/
namespace ColorMarkup.Markup

/-- A bracketed body by the offset of its opening bracket. -/
structure Place where
  offset : Nat
  body : Bytes
  deriving DecidableEq, Repr

namespace Place

/-- The body in its brackets. -/
def bracketed (p : Place) : Bytes := opening :: (p.body ++ [closing])

/-- The offset behind the closing bracket. -/
def stop (p : Place) : Nat := p.offset + p.bracketed.length

/-- The text has the body in brackets at this offset, and the body holds no bracket. -/
def OccursIn (p : Place) (src : Bytes) : Prop :=
  NoBrackets p.body ∧ ∃ before after, before.length = p.offset ∧ src = before ++ (p.bracketed ++ after)

end Place

/-- Is the byte no bracket? -/
def isInner (c : UInt8) : Bool := c != opening && c != closing

/-- The bracketed body at the head of a text. -/
def bodyAt? : Bytes → Option Bytes
  | [] => none
  | c :: rest =>
    if c = opening ∧ (rest.dropWhile isInner).head? = some closing then some (rest.takeWhile isInner)
    else none

/-- The places of all bracketed bodies of a text. -/
def places (src : Bytes) : List Place :=
  (List.range src.length).filterMap fun i => (bodyAt? (src.drop i)).map (Place.mk i)

theorem isInner_iff (c : UInt8) : isInner c = true ↔ c ≠ opening ∧ c ≠ closing := by
  simp [isInner]

theorem noBrackets_iff (b : Bytes) : NoBrackets b ↔ ∀ c ∈ b, isInner c = true := by
  simp only [NoBrackets, isInner_iff]

theorem bodyAt?_eq_some_iff (s body : Bytes) :
    bodyAt? s = some body ↔
      NoBrackets body ∧ ∃ after, s = opening :: (body ++ [closing]) ++ after := by
  constructor
  · intro h
    cases s with
    | nil => cases h
    | cons c rest =>
      simp only [bodyAt?] at h
      split at h
      · next hc =>
        obtain ⟨rfl, hd⟩ := hc
        cases h
        obtain ⟨after, ha⟩ := List.head?_eq_some_iff.1 hd
        refine ⟨(noBrackets_iff _).2 fun x hx => List.mem_takeWhile_imp hx, after, ?_⟩
        calc opening :: rest
            = opening :: (rest.takeWhile isInner ++ rest.dropWhile isInner) := by
              rw [List.takeWhile_append_dropWhile]
          _ = opening :: (rest.takeWhile isInner ++ [closing]) ++ after := by rw [ha]; simp
      · cases h
  · rintro ⟨hb, after, rfl⟩
    rw [noBrackets_iff] at hb
    have hstop : isInner closing = false := by decide
    simp [bodyAt?, List.takeWhile_append_of_pos hb, List.dropWhile_append_of_pos hb, hstop]

theorem mem_places (src : Bytes) (p : Place) : p ∈ places src ↔ p.OccursIn src := by
  unfold places Place.OccursIn
  simp only [List.mem_filterMap, List.mem_range, Option.map_eq_some_iff, bodyAt?_eq_some_iff]
  constructor
  · rintro ⟨i, hi, body, ⟨hb, after, hd⟩, rfl⟩
    refine ⟨hb, src.take i, after, by simp; omega, ?_⟩
    rw [Place.bracketed, ← hd, List.take_append_drop]
  · rintro ⟨hb, before, after, hl, hs⟩
    refine ⟨p.offset, ?_, p.body, ⟨hb, after, ?_⟩, rfl⟩
    · simp [hs, hl, Place.bracketed]
    · rw [hs, ← hl, List.drop_left, Place.bracketed]

theorem places_increasing (src : Bytes) :
    (places src).Pairwise fun p q => p.offset < q.offset := by
  refine List.Pairwise.filterMap _ ?_ List.pairwise_lt_range
  intro i j hij p hp q hq
  obtain ⟨_, -, rfl⟩ := Option.map_eq_some_iff.1 hp
  obtain ⟨_, -, rfl⟩ := Option.map_eq_some_iff.1 hq
  exact hij

theorem Place.OccursIn.getElem? {p : Place} {src : Bytes} (h : p.OccursIn src) {k : Nat}
    (hk : k < p.bracketed.length) : src[p.offset + k]? = p.bracketed[k]? := by
  obtain ⟨-, before, after, hl, rfl⟩ := h
  rw [← hl, List.getElem?_append_right (by omega), Nat.add_sub_cancel_left,
    List.getElem?_append_left hk]

/-- A body of the beginning of a text is one of the text. -/
theorem Place.OccursIn.append {p : Place} {src : Bytes} (h : p.OccursIn src) (rest : Bytes) :
    p.OccursIn (src ++ rest) := by
  obtain ⟨hb, before, after, hl, rfl⟩ := h
  exact ⟨hb, before, after ++ rest, hl, by simp⟩

/-- Two bodies never overlap: within the brackets of the first there is no opening bracket. -/
theorem Place.OccursIn.stop_le {p q : Place} {src : Bytes} (hp : p.OccursIn src)
    (hq : q.OccursIn src) (h : p.offset < q.offset) : p.stop ≤ q.offset := by
  by_contra hlt
  obtain ⟨k, hk⟩ : ∃ k, q.offset = p.offset + (k + 1) := ⟨q.offset - p.offset - 1, by omega⟩
  have hlen : k + 1 < p.bracketed.length := by unfold Place.stop at hlt; omega
  have hopen : src[q.offset]? = some opening := by
    simpa [Place.bracketed] using hq.getElem? (k := 0) (by simp [Place.bracketed])
  have hinner : (p.body ++ [closing])[k]? = some opening := by
    rw [← hopen, hk, hp.getElem? hlen, Place.bracketed, List.getElem?_cons_succ]
  rcases List.mem_append.1 (List.mem_of_getElem? hinner) with hm | hm
  · exact (hp.1 _ hm).1 rfl
  · exact absurd hm (by decide)

theorem places_disjoint (src : Bytes) :
    (places src).Pairwise fun p q => p.stop ≤ q.offset :=
  (places_increasing src).imp_of_mem fun hp hq h =>
    ((mem_places src _).1 hp).stop_le ((mem_places src _).1 hq) h

/-! ## The places of a scan -/

/-- The places of occurrences, the first of which starts at an offset. -/
def placesFrom : Nat → List Occurrence → List Place
  | _, [] => []
  | start, o :: rest =>
    ⟨start + o.before.length, o.body⟩ :: placesFrom (start + o.source.length) rest

theorem stop_of_occurrence (start : Nat) (o : Occurrence) :
    Place.stop ⟨start + o.before.length, o.body⟩ = start + o.source.length := by
  simp only [Place.stop, Place.bracketed, Occurrence.source, Occurrence.bracketed, List.length_append]
  omega

theorem placesFrom_append (start : Nat) (os more : List Occurrence) :
    placesFrom start (os ++ more) =
      placesFrom start os ++ placesFrom (start + (os.flatMap Occurrence.source).length) more := by
  induction os generalizing start with
  | nil => simp [placesFrom]
  | cons o os ih => simp [placesFrom, ih, Nat.add_assoc]

theorem le_offset_of_mem_placesFrom {start : Nat} {os : List Occurrence} {p : Place}
    (h : p ∈ placesFrom start os) : start ≤ p.offset := by
  induction os generalizing start with
  | nil => cases h
  | cons o os ih =>
    rcases List.mem_cons.1 h with rfl | h
    · exact Nat.le_add_right _ _
    · exact Nat.le_trans (Nat.le_add_right _ _) (ih h)

theorem placesFrom_increasing (start : Nat) (os : List Occurrence) :
    (placesFrom start os).Pairwise fun p q => p.offset < q.offset := by
  induction os generalizing start with
  | nil => exact .nil
  | cons o os ih =>
    refine .cons (fun q hq => ?_) (ih _)
    have := le_offset_of_mem_placesFrom hq
    simp only [Occurrence.source, Occurrence.bracketed, List.length_append, List.length_cons] at this
    show start + o.before.length < q.offset
    omega

theorem occursIn_of_mem_placesFrom {os : List Occurrence} (hb : ∀ o ∈ os, NoBrackets o.body)
    (pre tail : Bytes) {p : Place} (h : p ∈ placesFrom pre.length os) :
    p.OccursIn (pre ++ (os.flatMap Occurrence.source ++ tail)) := by
  induction os generalizing pre with
  | nil => cases h
  | cons o os ih =>
    rcases List.mem_cons.1 h with rfl | h
    · exact ⟨hb o (by simp), pre ++ o.before, os.flatMap Occurrence.source ++ tail, by simp,
        by simp [Place.bracketed, Occurrence.source, Occurrence.bracketed]⟩
    · rw [← List.length_append] at h
      simpa using ih (fun o ho => hb o (by simp [ho])) (pre ++ o.source) h

theorem mem_placesFrom_scan {src : Bytes} {p : Place} (h : p.OccursIn src) :
    p ∈ placesFrom 0 (scan src).occurrences := by
  obtain ⟨hb, before, after, hl, rfl⟩ := h
  -- whatever was found before, the opening bracket of the place opens its body
  obtain ⟨os, before', h1, h2⟩ := scanFrom_opening before (p.body ++ closing :: after) [] none
  have hsrc : p.bracketed ++ after = opening :: (p.body ++ closing :: after) := by
    simp [Place.bracketed]
  have hlen := congrArg List.length h2
  simp only [List.length_append, List.length_reverse, pending, List.length_nil] at hlen
  rw [scan, hsrc, h1, scanFrom_body hb, placesFrom_append]
  refine List.mem_append_right _ (List.mem_cons.2 (.inl ?_))
  cases p
  simp only [Place.mk.injEq, List.length_reverse] at hl ⊢
  exact ⟨by omega, rfl⟩

/-- The one pass finds every place, in order, and nothing else. -/
theorem placesFrom_scan (src : Bytes) : placesFrom 0 (scan src).occurrences = places src := by
  -- two increasing lists of the same places are the same list
  refine List.Pairwise.eq_of_mem_iff (r := fun p q : Place => p.offset < q.offset)
    (placesFrom_increasing _ _) (places_increasing _) fun p => ?_
  rw [mem_places]
  constructor
  · intro h
    have := occursIn_of_mem_placesFrom (body_no_brackets src) [] (scan src).tail (p := p) h
    rwa [List.nil_append, ← Scan.join, join_scan] at this
  · exact mem_placesFrom_scan

end ColorMarkup.Markup
