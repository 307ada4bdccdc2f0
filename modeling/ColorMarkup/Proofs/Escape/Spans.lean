import ColorMarkup.Proofs.Capacity
/-!
# Exactly the sequences are removed

What a sequence is can be said without a search: `ESC [`, then digits and semicolons, then
`m`. A list may hold sequences at any of its places. There is at most one at each place, and
two never overlap, because only the first item of a sequence is an `ESC`. So the one search
from left to right misses none: it gives up on a start that is not finished, and goes on
right behind its `ESC`.

Results:
* `mem_spans_iff`: the spans found are those of all sequences in the list.
* `spans_disjoint`: of two spans in the list the first ends before the second starts.
* `remove_append_iff`: parts of a list can be cleaned apart unless a sequence reaches over
  the cut.
* `strip_exactly`: all this of the operation on bytes.
-/
namespace ColorMarkup.Sgr

variable {α : Type} {number : α → Nat}

/-- The two items `ESC [`, parameters, and the closing letter. -/
inductive IsSequence (number : α → Nat) : List α → Prop where
  | intro {esc bracket close : α} {ps : List α} (hesc : number esc = 0x1B)
      (hbracket : number bracket = 0x5B) (hps : ∀ x ∈ ps, isParameter (number x) = true)
      (hclose : number close = 0x6D) : IsSequence number (esc :: bracket :: (ps ++ [close]))

/-- The start of a sequence: an `ESC`, or `ESC [` and parameters. -/
inductive IsUnfinished (number : α → Nat) : List α → Prop where
  | esc {esc : α} (hesc : number esc = 0x1B) : IsUnfinished number [esc]
  | parameters {esc bracket : α} {ps : List α} (hesc : number esc = 0x1B)
      (hbracket : number bracket = 0x5B) (hps : ∀ x ∈ ps, isParameter (number x) = true) :
      IsUnfinished number (esc :: bracket :: ps)

/-- The list has a sequence from the first position up to the second. -/
def SpanIn (number : α → Nat) (s : Nat × Nat) (xs : List α) : Prop :=
  ∃ before w after, xs = before ++ (w ++ after) ∧ IsSequence number w ∧
    s = (before.length, before.length + w.length)

/-- A sequence reaches over the cut between two lists: the first ends in its start, and the
second starts with its rest. -/
def Straddles (number : α → Nat) (xs ys : List α) : Prop :=
  ∃ p q, IsUnfinished number p ∧ p <:+ xs ∧ q <+: ys ∧ IsSequence number (p ++ q)

/-! ## Matching is being a sequence -/

theorem closing?_eq_some_iff {xs : List α} {n : Nat} :
    closing? number xs = some n ↔ ∃ ps close rest, xs = ps ++ close :: rest ∧
      (∀ x ∈ ps, isParameter (number x) = true) ∧ number close = 0x6D ∧ n = ps.length + 1 := by
  constructor
  · intro h
    induction xs generalizing n with
    | nil => cases h
    | cons x xs ih =>
      rw [closing?] at h
      split at h
      · next hx =>
        cases h
        exact ⟨[], x, xs, rfl, by simp, hx, rfl⟩
      · split at h
        · next hx =>
          obtain ⟨k, hk, rfl⟩ := Option.map_eq_some_iff.1 h
          obtain ⟨ps, close, rest, rfl, hps, hclose, rfl⟩ := ih hk
          exact ⟨x :: ps, close, rest, rfl, List.forall_mem_cons.2 ⟨hx, hps⟩, hclose, rfl⟩
        · cases h
  · rintro ⟨ps, close, rest, rfl, hps, hclose, rfl⟩
    exact closing?_append number hps hclose rest

theorem match?_eq_some_iff {xs : List α} {n : Nat} :
    match? number xs = some n ↔ ∃ w rest, xs = w ++ rest ∧ IsSequence number w ∧ n = w.length := by
  constructor
  · intro h
    unfold match? at h
    split at h
    · next esc bracket rest =>
      split at h
      · next hx =>
        obtain ⟨k, hk, rfl⟩ := Option.map_eq_some_iff.1 h
        obtain ⟨ps, close, after, rfl, hps, hclose, rfl⟩ := closing?_eq_some_iff.1 hk
        exact ⟨esc :: bracket :: (ps ++ [close]), after, by simp, .intro hx.1 hx.2 hps hclose, by simp⟩
      · cases h
    · cases h
  · rintro ⟨w, rest, rfl, hw, rfl⟩
    obtain ⟨hesc, hbracket, hps, hclose⟩ := hw
    simp [match?, hesc, hbracket, closing?_append number hps hclose]

theorem IsSequence.match? {w : List α} (h : IsSequence number w) (rest : List α) :
    Sgr.match? number (w ++ rest) = some w.length := match?_eq_some_iff.2 ⟨w, rest, rfl, h, rfl⟩

theorem IsSequence.ne_nil {w : List α} (h : IsSequence number w) : w ≠ [] := by
  cases h
  simp

/-- Only the first item of a sequence is an `ESC`. -/
theorem IsSequence.ne_esc {x : α} {w : List α} (h : IsSequence number (x :: w)) :
    ∀ y ∈ w, number y ≠ 0x1B := by
  cases h with
  | intro hesc hbracket hps hclose =>
    intro y hy he
    simp only [List.mem_cons, List.mem_append, List.not_mem_nil, or_false] at hy
    obtain rfl | hy | rfl := hy
    · rw [hbracket] at he
      cases he
    · have := hps y hy
      rw [he] at this
      cases this
    · rw [hclose] at he
      cases he

/-- Within a sequence no other one starts. -/
theorem match?_drop_none {xs : List α} {n i : Nat} (h : match? number xs = some n) (hi : 0 < i)
    (hin : i < n) : match? number (xs.drop i) = none := by
  obtain ⟨w, rest, rfl, hw, rfl⟩ := match?_eq_some_iff.1 h
  obtain ⟨x, w, rfl⟩ := List.exists_cons_of_ne_nil hw.ne_nil
  obtain ⟨k, rfl⟩ : ∃ k, i = k + 1 := ⟨i - 1, by omega⟩
  have hk : k < w.length := by simpa using hin
  rw [List.cons_append, List.drop_succ_cons, List.drop_append_of_le_length hk.le,
    List.drop_eq_getElem_cons hk]
  exact match?_none_of_head_ne number (hw.ne_esc _ (List.getElem_mem hk)) _

/-! ## The spans of all sequences -/

theorem mem_spansFrom {pos skip : Nat} {xs : List α} {s : Nat × Nat} :
    s ∈ spansFrom number pos skip xs ↔
      ∃ i n, skip ≤ i ∧ match? number (xs.drop i) = some n ∧ s = (pos + i, pos + i + n) := by
  induction xs generalizing pos skip with
  | nil => simp [spansFrom, match?]
  | cons x xs ih =>
    cases skip with
    | succ skip =>
      rw [spansFrom, ih]
      constructor
      · rintro ⟨i, n, hi, hm, rfl⟩
        exact ⟨i + 1, n, by omega, hm, by rw [Prod.mk.injEq]; omega⟩
      · rintro ⟨i, n, hi, hm, rfl⟩
        obtain ⟨i, rfl⟩ : ∃ j, i = j + 1 := ⟨i - 1, by omega⟩
        exact ⟨i, n, by omega, hm, by rw [Prod.mk.injEq]; omega⟩
    | zero =>
      rw [spansFrom]
      cases hx : match? number (x :: xs) with
      | none =>
        simp only [ih]
        constructor
        · rintro ⟨i, n, -, hm, rfl⟩
          exact ⟨i + 1, n, by omega, hm, by rw [Prod.mk.injEq]; omega⟩
        · rintro ⟨i, n, -, hm, rfl⟩
          cases i with
          | zero =>
            rw [List.drop_zero, hx] at hm
            cases hm
          | succ i => exact ⟨i, n, by omega, hm, by rw [Prod.mk.injEq]; omega⟩
      | some k =>
        have hk := (match?_le_length number hx).1
        simp only [List.mem_cons, ih]
        constructor
        · rintro (rfl | ⟨i, n, hi, hm, rfl⟩)
          · exact ⟨0, k, by omega, hx, rfl⟩
          · exact ⟨i + 1, n, by omega, hm, by rw [Prod.mk.injEq]; omega⟩
        · rintro ⟨i, n, -, hm, rfl⟩
          cases i with
          | zero =>
            rw [List.drop_zero, hx] at hm
            cases hm
            exact .inl rfl
          | succ i =>
            -- the sequence at the head is stepped over, and none starts within it
            have hlt : ¬ i + 1 < k := by
              intro hlt
              rw [match?_drop_none hx (by omega) hlt] at hm
              cases hm
            exact .inr ⟨i, n, by omega, hm, by rw [Prod.mk.injEq]; omega⟩

theorem spanIn_iff {xs : List α} {s : Nat × Nat} :
    SpanIn number s xs ↔ ∃ i n, match? number (xs.drop i) = some n ∧ s = (i, i + n) := by
  constructor
  · rintro ⟨before, w, after, rfl, hw, rfl⟩
    exact ⟨before.length, w.length, by rw [List.drop_left, hw.match?], rfl⟩
  · rintro ⟨i, n, hm, rfl⟩
    have hle : 3 ≤ n ∧ n ≤ xs.length - i := by simpa using match?_le_length number hm
    have hlen : (xs.take i).length = i := by
      rw [List.length_take]
      omega
    obtain ⟨w, rest, hd, hw, rfl⟩ := match?_eq_some_iff.1 hm
    exact ⟨xs.take i, w, rest, by rw [← hd, List.take_append_drop], hw, by rw [hlen]⟩

/-- The search finds every sequence of the list, and nothing else. -/
theorem mem_spans_iff (xs : List α) (s : Nat × Nat) : s ∈ spans number xs ↔ SpanIn number s xs := by
  rw [spans, mem_spansFrom, spanIn_iff]
  simp

/-- At most one sequence starts at a position. -/
theorem SpanIn.stop_unique {xs : List α} {s t : Nat × Nat} (hs : SpanIn number s xs)
    (ht : SpanIn number t xs) (h : s.1 = t.1) : s = t := by
  obtain ⟨i, n, hn, rfl⟩ := spanIn_iff.1 hs
  obtain ⟨j, k, hk, rfl⟩ := spanIn_iff.1 ht
  cases h
  rw [hn, Option.some.injEq] at hk
  rw [hk]

/-- A sequence ends before the next one starts. -/
theorem SpanIn.stop_le {xs : List α} {s t : Nat × Nat} (hs : SpanIn number s xs)
    (ht : SpanIn number t xs) (h : s.1 < t.1) : s.2 ≤ t.1 := by
  obtain ⟨i, n, hn, rfl⟩ := spanIn_iff.1 hs
  obtain ⟨j, k, hk, rfl⟩ := spanIn_iff.1 ht
  simp only at h ⊢
  refine Nat.le_of_not_lt fun hlt => ?_
  obtain ⟨d, rfl⟩ : ∃ d, j = i + d := ⟨j - i, by omega⟩
  rw [← List.drop_drop, match?_drop_none hn (by omega) (by omega)] at hk
  cases hk

theorem spansFrom_increasing (pos skip : Nat) (xs : List α) :
    (spansFrom number pos skip xs).Pairwise fun s t => s.1 < t.1 := by
  induction xs generalizing pos skip with
  | nil => simp [spansFrom]
  | cons x xs ih =>
    cases skip with
    | succ skip => exact ih (pos + 1) skip
    | zero =>
      rw [spansFrom]
      split
      · exact .cons (fun t ht => spansFrom_le number ht) (ih _ _)
      · exact ih _ _

theorem spans_disjoint (xs : List α) : (spans number xs).Pairwise fun s t => s.2 ≤ t.1 :=
  (spansFrom_increasing 0 0 xs).imp_of_mem fun hs ht h =>
    ((mem_spans_iff xs _).1 hs).stop_le ((mem_spans_iff xs _).1 ht) h

/-! ## Two parts -/

theorem match?_append {xs : List α} {n : Nat} (h : match? number xs = some n) (ys : List α) :
    match? number (xs ++ ys) = some n := by
  obtain ⟨w, rest, rfl, hw, rfl⟩ := match?_eq_some_iff.1 h
  rw [List.append_assoc]
  exact hw.match? _

/-- A sequence that is cut has the start of one in front of the cut. -/
theorem IsSequence.isUnfinished {p q : List α} (h : IsSequence number (p ++ q)) (hp : p ≠ [])
    (hq : q ≠ []) : IsUnfinished number p := by
  generalize hw : p ++ q = w at h
  obtain ⟨hesc, hbracket, hps, -⟩ := h
  match p, hp with
  | [x], _ =>
    cases hw
    exact .esc hesc
  | x :: y :: p, _ =>
    simp only [List.cons_append, List.cons.injEq] at hw
    obtain ⟨rfl, rfl, hw⟩ := hw
    -- the last item is the closing letter, and it is behind the cut
    have hparameters := congrArg List.dropLast hw
    rw [List.dropLast_append_of_ne_nil hq, List.dropLast_concat] at hparameters
    exact .parameters hesc hbracket fun x hx => hps x (hparameters ▸ List.mem_append_left _ hx)

theorem IsUnfinished.ne_nil {p : List α} (h : IsUnfinished number p) : p ≠ [] := by
  cases h <;> simp

/-- What has only been started is no sequence. -/
theorem IsUnfinished.not_isSequence {p : List α} (h : IsUnfinished number p) :
    ¬ IsSequence number p := by
  intro hw
  generalize hp : p = w at hw
  obtain ⟨-, -, -, hclose⟩ := hw
  cases h with
  | esc => simp at hp
  | parameters _ _ hps =>
    simp only [List.cons.injEq] at hp
    have hparameter := hps _ (hp.2.2 ▸ List.mem_append_right _ List.mem_cons_self)
    rw [hclose] at hparameter
    cases hparameter

theorem straddles_of_isSequence {p q xs ys : List α} (h : IsSequence number (p ++ q)) (hp : p ≠ [])
    (hq : q ≠ []) (hxs : p <:+ xs) (hys : q <+: ys) : Straddles number xs ys :=
  ⟨p, q, h.isUnfinished hp hq, hxs, hys, h⟩

/-- A match in two lists lies in the first one, or reaches over the cut. -/
theorem match?_append_cases {xs ys : List α} {n : Nat} (hxs : xs ≠ [])
    (h : match? number (xs ++ ys) = some n) : match? number xs = some n ∨ Straddles number xs ys := by
  obtain ⟨w, rest, heq, hw, rfl⟩ := match?_eq_some_iff.1 h
  obtain ⟨q, rfl, rfl⟩ | ⟨c, rfl, -⟩ := List.append_eq_append_iff.1 heq
  · cases q with
    | nil =>
      rw [List.append_nil] at hw ⊢
      exact .inl (match?_eq_some_iff.2 ⟨xs, [], by simp, hw, rfl⟩)
    | cons y q =>
      exact .inr (straddles_of_isSequence hw hxs (by simp) List.suffix_rfl (List.prefix_append _ _))
  · exact .inl (hw.match? c)

/-- Behind a list that ends in no start of a sequence that the next list finishes, the next
list is cleaned by itself. -/
theorem removeFrom_append {xs ys : List α} (h : ¬ Straddles number xs ys) {skip : Nat}
    (hskip : skip ≤ xs.length) :
    removeFrom number skip (xs ++ ys) = removeFrom number skip xs ++ remove number ys := by
  induction xs generalizing skip with
  | nil =>
    obtain rfl : skip = 0 := by simpa using hskip
    rfl
  | cons x xs ih =>
    have hxs : ¬ Straddles number xs ys := fun ⟨p, q, hp, hsuffix, hq, hw⟩ =>
      h ⟨p, q, hp, hsuffix.trans (List.suffix_cons x xs), hq, hw⟩
    cases skip with
    | succ skip => exact ih hxs (by simpa using hskip)
    | zero =>
      rw [List.cons_append, removeFrom, removeFrom, ← List.cons_append]
      cases hm : match? number (x :: xs) with
      | some n =>
        have hn := (match?_le_length number hm).2
        rw [match?_append hm]
        exact ih hxs (by rw [List.length_cons] at hn; omega)
      | none =>
        cases hm' : match? number ((x :: xs) ++ ys) with
        | none => exact congrArg (x :: ·) (ih hxs (Nat.zero_le _))
        | some n =>
          obtain hfound | hover := match?_append_cases (by simp) hm'
          · rw [hm] at hfound
            cases hfound
          · exact absurd hover h

theorem remove_append {xs ys : List α} (h : ¬ Straddles number xs ys) :
    remove number (xs ++ ys) = remove number xs ++ remove number ys :=
  removeFrom_append h (Nat.zero_le _)

/-- No sequence reaches over a cut in front of an `ESC`. -/
theorem not_straddles_of_esc {x : α} (hx : number x = 0x1B) (xs ys : List α) :
    ¬ Straddles number xs (x :: ys) := by
  rintro ⟨p, q, hp, -, ⟨rest, hq⟩, hw⟩
  obtain ⟨y, p, rfl⟩ := List.exists_cons_of_ne_nil hp.ne_nil
  cases q with
  | nil =>
    rw [List.append_nil] at hw
    exact hp.not_isSequence hw
  | cons z q =>
    cases hq
    exact hw.ne_esc x (by simp) hx

theorem remove_of_plain {xs : List α} (h : ∀ x ∈ xs, number x ≠ 0x1B) : remove number xs = xs := by
  simpa [remove, removeFrom] using remove_append_of_plain number xs [] h

/-- The start of a sequence is kept, as long as its rest is not there. -/
theorem IsUnfinished.remove_eq {p q : List α} (hp : IsUnfinished number p)
    (h : IsSequence number (p ++ q)) : remove number p = p := by
  obtain ⟨x, p, rfl⟩ := List.exists_cons_of_ne_nil hp.ne_nil
  have hplain : ∀ y ∈ p, number y ≠ 0x1B := fun y hy => h.ne_esc y (List.mem_append_left _ hy)
  have hnone : match? number (x :: p) = none := by
    cases hm : match? number (x :: p) with
    | none => rfl
    | some n =>
      -- the match goes on to the rest, so there is no rest
      have hlen := (match?_le_length number hm).2
      have hmatch := h.match? []
      rw [List.append_nil, match?_append hm, Option.some.injEq] at hmatch
      have hq : q = [] := List.length_eq_zero_iff.1 (by rw [List.length_append] at hmatch; omega)
      rw [hq, List.append_nil] at h
      exact absurd h hp.not_isSequence
  rw [remove, removeFrom, hnone]
  exact congrArg (x :: ·) (remove_of_plain hplain)

/-- A sequence anywhere in a list is taken out, and what stands on its two sides is cleaned
apart. -/
theorem remove_sequence {w : List α} (hw : IsSequence number w) (xs ys : List α) :
    remove number (xs ++ (w ++ ys)) = remove number xs ++ remove number ys := by
  obtain ⟨x, w', rfl⟩ := List.exists_cons_of_ne_nil hw.ne_nil
  have hx : number x = 0x1B := by
    cases hw
    assumption
  rw [← remove_append_of_match number (hw.match? ys), List.cons_append,
    remove_append (not_straddles_of_esc hx xs _)]

/-- Cleaning two parts apart leaves what cleaning the whole leaves, unless a sequence reaches
over the cut: then both its parts are left. -/
theorem remove_append_iff (xs ys : List α) :
    remove number (xs ++ ys) = remove number xs ++ remove number ys ↔ ¬ Straddles number xs ys := by
  refine ⟨?_, remove_append⟩
  rintro heq ⟨p, q, hp, ⟨xs, rfl⟩, ⟨ys, rfl⟩, hw⟩
  obtain ⟨x, p', rfl⟩ := List.exists_cons_of_ne_nil hp.ne_nil
  have hx : number x = 0x1B := by cases hp <;> assumption
  have hq : ∀ y ∈ q, number y ≠ 0x1B := fun y hy => hw.ne_esc y (List.mem_append_right _ hy)
  have hxs : remove number (xs ++ x :: p') = remove number xs ++ (x :: p') := by
    rw [remove_append (not_straddles_of_esc hx _ _), hp.remove_eq hw]
  have hwhole : xs ++ x :: p' ++ (q ++ ys) = xs ++ ((x :: p' ++ q) ++ ys) := by simp
  rw [hwhole, remove_sequence hw, hxs, remove_append_of_plain number q ys hq] at heq
  have hlen := congrArg List.length heq
  simp only [List.length_append, List.length_cons] at hlen
  omega

/-! ## Cleaning again -/

/-- A clean list is one without sequences. -/
theorem remove_eq_self_iff (xs : List α) :
    remove number xs = xs ↔ ∀ s, ¬ SpanIn number s xs := by
  constructor
  · rintro heq s ⟨before, w, after, rfl, hw, -⟩
    have hlen := congrArg List.length heq
    have hbefore := (remove_sublist number before).length_le
    have hafter := (remove_sublist number after).length_le
    have hpos := List.length_pos_iff.2 hw.ne_nil
    rw [remove_sequence hw] at hlen
    simp only [List.length_append] at hlen
    omega
  · intro h
    have hnil : spans number xs = [] :=
      List.eq_nil_iff_forall_not_mem.2 fun s hs => h s ((mem_spans_iff xs s).1 hs)
    rw [← outside_spans, hnil]
    rfl

/-- A list is clean, or a clean part of it is in front of a sequence. -/
theorem clean_or_exists_first (xs : List α) :
    remove number xs = xs ∨
      ∃ before w after, xs = before ++ (w ++ after) ∧ IsSequence number w ∧
        remove number before = before := by
  induction xs with
  | nil => exact .inl rfl
  | cons x xs ih =>
    cases hm : match? number (x :: xs) with
    | some n =>
      obtain ⟨w, after, heq, hw, -⟩ := match?_eq_some_iff.1 hm
      exact .inr ⟨[], w, after, heq, hw, rfl⟩
    | none =>
      obtain hclean | ⟨before, w, after, rfl, hw, hclean⟩ := ih
      · refine .inl ?_
        rw [remove, removeFrom, hm]
        exact congrArg (x :: ·) hclean
      · refine .inr ⟨x :: before, w, after, rfl, hw, ?_⟩
        have hbefore : match? number (x :: before) = none := by
          cases hm' : match? number (x :: before) with
          | none => rfl
          | some n =>
            rw [← List.cons_append, match?_append hm'] at hm
            cases hm
        rw [remove, removeFrom, hbefore]
        exact congrArg (x :: ·) hclean

/-- No sequence stands right behind the start of another one. -/
def Apart (number : α → Nat) (xs : List α) : Prop :=
  ∀ p w, IsUnfinished number p → IsSequence number w → ¬ p ++ w <:+: xs

/-- If no sequence stands right behind the start of another one, cleaning joins no new one. -/
theorem remove_remove {xs : List α} (h : Apart number xs) :
    remove number (remove number xs) = remove number xs := by
  -- the list behind the first sequence is shorter, and apart as well
  induction hn : xs.length using Nat.strongRecOn generalizing xs with
  | ind n ih =>
    obtain hclean | ⟨before, w, after, rfl, hw, hclean⟩ := @clean_or_exists_first α number xs
    · rw [hclean, hclean]
    · have hafter : Apart number after := fun p w' hp hw' hin =>
        h p w' hp hw' (hin.trans ⟨before ++ w, [], by simp⟩)
      have hpos := List.length_pos_iff.2 hw.ne_nil
      have hagain := ih after.length (by simp only [List.length_append] at hn; omega) hafter rfl
      have hcut : ¬ Straddles number before (remove number after) := by
        rintro ⟨p, q, hp, ⟨front, rfl⟩, -, -⟩
        exact h p w hp hw ⟨front, after, by simp⟩
      rw [remove_sequence hw, hclean, remove_append hcut, hclean, hagain]

/-! ## Bytes -/

/-- What is left of bytes is what stands outside the sequences in them. The spans found are
those of all sequences, at most one starts at each position, and none reaches into another.
Bytes may be cleaned in two parts exactly if no sequence reaches over the cut. -/
theorem strip_exactly (src : Bytes) :
    strip src .none = .ok (outside (spans UInt8.toNat src) src) ∧
    (∀ holder, spansOf (.bytes holder src) = .ok (spans UInt8.toNat src)) ∧
    (∀ s, s ∈ spans UInt8.toNat src ↔ SpanIn UInt8.toNat s src) ∧
    (∀ s t, SpanIn UInt8.toNat s src → SpanIn UInt8.toNat t src → s.1 = t.1 → s = t) ∧
    (spans UInt8.toNat src).Pairwise (fun s t => s.2 ≤ t.1) ∧
    (∀ more, (∃ r r', strip src .none = .ok r ∧ strip more .none = .ok r' ∧
      strip (src ++ more) .none = .ok (r ++ r')) ↔ ¬ Straddles UInt8.toNat src more) := by
  refine ⟨?_, fun _ => rfl, mem_spans_iff src, fun s t hs ht h => hs.stop_unique ht h,
    spans_disjoint src, fun more => ?_⟩
  · rw [strip_unlimited, outside_spans]
  · rw [← remove_append_iff]
    simp [strip_unlimited]

/-- Two sequences behind an `ESC [` that is not finished: spans 2 to 5 and 5 to 9 of nine bytes. -/
theorem strip_exactly_nested :
    let src : Bytes := [0x1B, 0x5B, 0x1B, 0x5B, 0x6D, 0x1B, 0x5B, 0x31, 0x6D]
    SpanIn UInt8.toNat (2, 5) src ∧ SpanIn UInt8.toNat (5, 9) src ∧
    strip src .none = .ok [0x1B, 0x5B] := by
  intro src
  obtain ⟨hstrip, -, hspans, -⟩ := strip_exactly src
  refine ⟨(hspans _).1 (by decide), (hspans _).1 (by decide), hstrip.trans ?_⟩
  rfl

end ColorMarkup.Sgr
