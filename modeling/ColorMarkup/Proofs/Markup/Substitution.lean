import ColorMarkup.Proofs.Markup.Conversion
import ColorMarkup.Proofs.Markup.Search
/-!
# Conversion is substitution

The result of a conversion can be said without any loop: at every place of the text
at which a body stands in brackets, the brackets and the body give way to what the
body stands for under the mode left by the places before it, or stay; every other
byte stays. The one pass of the library, and a loop that searches for the next body
by positions, both give exactly this.

Results:
* `convert_eq_substitute`: a conversion without a capacity is the substitution at all
  places of the text, and so is the searching loop.
-/
namespace ColorMarkup.Markup

/-- The text from `pos` on, with what stands at some places replaced. -/
def substituteFrom (action : Action) (src : Bytes) : List Place → Nat → Mode → Conversion
  | [], pos, m => ⟨src.drop pos, m, []⟩
  | p :: rest, pos, m =>
    match replacement? action p.body m with
    | some (data, m') =>
      (Conversion.mk (slice src pos p.offset ++ data) m' []).append
        (substituteFrom action src rest p.stop m')
    | none =>
      (Conversion.mk (slice src pos p.offset ++ p.bracketed) m [p]).append
        (substituteFrom action src rest p.stop m)

/-- The text with what stands at all its places replaced. -/
def substitute (action : Action) (src : Bytes) (m : Mode) : Conversion :=
  substituteFrom action src (places src) 0 m

/-- The conversion of the text from `start` on, body after body as searching finds them. -/
def searchFrom (action : Action) (src : Bytes) (start : Nat) (m : Mode) : Conversion :=
  match _h : turn? src start with
  | none => ⟨src.drop start, m, []⟩
  | some (last, close) =>
    match replacement? action (slice src (last + 1) close) m with
    | some (data, m') =>
      (Conversion.mk (slice src start last ++ data) m' []).append
        (searchFrom action src (close + 1) m')
    | none =>
      (Conversion.mk (slice src start (close + 1)) m [⟨last, slice src (last + 1) close⟩]).append
        (searchFrom action src (close + 1) m)
termination_by src.length - start
decreasing_by all_goals exact turn?_lt _h

/-- The log record of a kept body. -/
def Place.record (p : Place) : Journal.Record :=
  .ofPart "tags" Journal.debugLevel "_process_tags"
    ("Unresolved tag " ++ p.body.quoted ++ s!" at {p.offset}")

theorem slice_left {src before rest : Bytes} {start : Nat} (h : src.drop start = before ++ rest) :
    slice src start (start + before.length) = before := by
  rw [slice, h, Nat.add_sub_cancel_left, List.take_left]

theorem substituteFrom_placesFrom (action : Action) {src : Bytes} (tail : Bytes)
    (os : List Occurrence) {start : Nat}
    (h : src.drop start = os.flatMap Occurrence.source ++ tail) (m : Mode) :
    substituteFrom action src (placesFrom start os) start m =
      conversionFrom action tail os start m := by
  induction os generalizing start m with
  | nil => simpa [placesFrom, substituteFrom, conversionFrom] using h
  | cons o os ih =>
    rw [List.flatMap_cons, List.append_assoc] at h
    have hrest := drop_length_add h
    rw [Occurrence.source, List.append_assoc] at h
    simp only [placesFrom, substituteFrom, conversionFrom, Occurrence.product, stop_of_occurrence,
      slice_left h]
    cases replacement? action o.body m with
    | some r => simp only [ih hrest r.2]
    | none => simp only [ih hrest m]; rfl

theorem searchFrom_eq (action : Action) (src : Bytes) (start : Nat) (m : Mode) :
    searchFrom action src start m =
      conversionFrom action (scan (src.drop start)).tail (scan (src.drop start)).occurrences start
        m := by
  -- a turn leaves less to search, so the induction is on what is left behind `start`
  induction hn : src.length - start using Nat.strongRecOn generalizing start m with
  | ind n ih =>
    rw [searchFrom]
    split
    · next h => rw [scan_of_unpaired (turn?_eq_none h)]; rfl
    · next last close h =>
      obtain ⟨o, hs, hu, hb, hlast, hbody, hclose⟩ := turn?_eq_some h
      have hrest := fun m => ih _ (hn ▸ turn?_lt h) (close + 1) m rfl
      have hsource := slice_left hs
      have hbefore : slice src start last = o.before := by
        rw [hlast]
        exact slice_left (by rw [hs, Occurrence.source, List.append_assoc])
      rw [← hclose] at hsource
      rw [hbody, hbefore, hsource, hs, scan_source_append hu hb]
      simp only [Scan.cons, conversionFrom, Occurrence.product, ← hclose, ← hlast]
      cases replacement? action o.body m with
      | some r => simp only [hrest]
      | none => simp only [hrest]

/-- Without a capacity, a conversion is the substitution at all places of the text at
which a body stands in brackets, each found once and none inside another; the
searching loop is the same substitution, and one record is made for each kept body. -/
theorem convert_eq_substitute (action : Action) (src : Bytes) (m : Mode) :
    convert action src .none m = (substitute action src m).outcome ∧
    searchFrom action src 0 m = substitute action src m ∧
    (∀ p, p ∈ places src ↔ p.OccursIn src) ∧
    (places src).Pairwise (fun p q => p.stop ≤ q.offset) ∧
    (convert action src .none m).notices.map Notice.record =
      (substitute action src m).kept.map Place.record := by
  have hsub : substitute action src m = conversion action src m := by
    rw [substitute, ← placesFrom_scan]
    refine substituteFrom_placesFrom action (scan src).tail _ ?_ m
    rw [List.drop_zero, ← Scan.join, join_scan]
  have hconvert := convert_unlimited action src m
  refine ⟨hsub ▸ hconvert, ?_, mem_places src, places_disjoint src, ?_⟩
  · rw [searchFrom_eq, hsub]; rfl
  · rw [hconvert, hsub]
    simp only [Conversion.outcome, Conversion.notices, List.map_map]
    rfl

end ColorMarkup.Markup
