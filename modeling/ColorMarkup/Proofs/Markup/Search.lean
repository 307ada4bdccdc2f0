import ColorMarkup.Proofs.Markup.Scan
import Mathlib.Data.List.Basic
/-!
# Finding bodies by searching

Instead of one pass with a memory, a text can be searched: for the next opening
bracket, for the next closing bracket behind it, and for the last opening bracket
between the two, which opens the body. The next turn starts behind the body.

Results:
* `turn?_eq_some`, `turn?_eq_none`: a turn finds the first occurrence behind its
  start, and if it finds nothing there is none.
-/
namespace ColorMarkup.Markup

/-- The bytes from one position to another. -/
def slice (src : Bytes) (first stop : Nat) : Bytes := (src.drop first).take (stop - first)

/-- The first position of a byte at or behind `start`. -/
def findFirst? (c : UInt8) (src : Bytes) (start : Nat) : Option Nat :=
  ((src.drop start).findIdx? (· == c)).map (start + ·)

/-- The last position of a byte from `start` on and before `stop`. -/
def findLast? (c : UInt8) (src : Bytes) (start stop : Nat) : Option Nat :=
  ((slice src start stop).reverse.findIdx? (· == c)).map (stop - 1 - ·)

/-- The brackets of the next body at or behind `start`. -/
def turn? (src : Bytes) (start : Nat) : Option (Nat × Nat) :=
  (findFirst? opening src start).bind fun first =>
    (findFirst? closing src (first + 1)).bind fun close =>
      (findLast? opening src first close).map (·, close)

theorem drop_length_add {src u v : Bytes} {start : Nat} (h : src.drop start = u ++ v) :
    src.drop (start + u.length) = v := by
  rw [← List.drop_drop, h, List.drop_left]

theorem split_of_findIdx? {c : UInt8} {s : Bytes} {k : Nat} (h : s.findIdx? (· == c) = some k) :
    ∃ u v, s = u ++ c :: v ∧ c ∉ u ∧ u.length = k := by
  obtain ⟨hk, hc, hu⟩ := List.findIdx?_eq_some_iff_getElem.1 h
  refine ⟨s.take k, s.drop (k + 1), ?_, ?_, by simp; omega⟩
  · have hc : s[k] = c := by simpa using hc
    rw [← hc, ← List.drop_eq_getElem_cons hk, List.take_append_drop]
  · intro hm
    obtain ⟨j, hj, hjc⟩ := List.mem_take_iff_getElem.1 hm
    exact hu j (by omega) (by simpa using hjc)

theorem findFirst?_eq_some {c : UInt8} {src : Bytes} {start i : Nat}
    (h : findFirst? c src start = some i) :
    src.drop i = c :: src.drop (i + 1) ∧
      ∃ u, src.drop start = u ++ src.drop i ∧ c ∉ u ∧ i = start + u.length := by
  obtain ⟨k, hk, rfl⟩ := Option.map_eq_some_iff.1 h
  obtain ⟨u, v, hs, hu, rfl⟩ := split_of_findIdx? hk
  have hi := drop_length_add hs
  refine ⟨?_, u, by rw [hi, hs], hu, rfl⟩
  rw [← List.drop_drop (i := 1), hi]
  rfl

theorem findFirst?_eq_none {c : UInt8} {src : Bytes} {start : Nat}
    (h : findFirst? c src start = none) : c ∉ src.drop start := by
  intro hm
  have hn : ∀ x ∈ src.drop start, ¬x = c := by simpa [findFirst?] using h
  exact hn c hm rfl

/-- The last of some bytes, in a text that starts with one. -/
theorem findLast?_eq_some {c : UInt8} {src w rest : Bytes} {start : Nat} (hw : c ∈ w)
    (hs : src.drop start = w ++ rest) :
    ∃ x y, findLast? c src start (start + w.length) = some (start + x.length) ∧
      w = x ++ c :: y ∧ c ∉ y := by
  have hslice : slice src start (start + w.length) = w := by simp [slice, hs]
  obtain ⟨k, hk⟩ : ∃ k, w.reverse.findIdx? (· == c) = some k := by
    rw [← Option.isSome_iff_exists, List.findIdx?_isSome]
    simpa using hw
  obtain ⟨u, v, hr, hu, rfl⟩ := split_of_findIdx? hk
  have hwe : w = v.reverse ++ c :: u.reverse := by simpa using congrArg List.reverse hr
  refine ⟨v.reverse, u.reverse, ?_, hwe, by simpa using hu⟩
  have hlen := congrArg List.length hwe
  simp only [List.length_append, List.length_cons, List.length_reverse] at hlen
  simp only [findLast?, hslice, hk, Option.map_some, List.length_reverse, Option.some.injEq]
  omega

theorem turn?_eq_some {src : Bytes} {start last close : Nat}
    (h : turn? src start = some (last, close)) :
    ∃ o : Occurrence, src.drop start = o.source ++ src.drop (close + 1) ∧ Unpaired o.before ∧
      NoBrackets o.body ∧ last = start + o.before.length ∧ slice src (last + 1) close = o.body ∧
      close + 1 = start + o.source.length := by
  obtain ⟨first, h1, h⟩ := Option.bind_eq_some_iff.1 h
  obtain ⟨close', h2, h⟩ := Option.bind_eq_some_iff.1 h
  obtain ⟨last', h3, h⟩ := Option.map_eq_some_iff.1 h
  cases h
  obtain ⟨hfirst, u, hu, huo, hfirstpos⟩ := findFirst?_eq_some h1
  obtain ⟨hclose, v, hv, hvc, hclosepos⟩ := findFirst?_eq_some h2
  have hdrop : src.drop first = (opening :: v) ++ closing :: src.drop (close + 1) := by
    rw [hfirst, hv, hclose, List.cons_append]
  obtain ⟨x, y, hlast, hw, hy⟩ := findLast?_eq_some (c := opening) List.mem_cons_self hdrop
  have hstop : first + (opening :: v).length = close := by simp [hclosepos]; omega
  rw [hstop, h3, Option.some.injEq] at hlast
  -- between the first opening bracket and the closing one there is no other closing one
  have hxy : ∀ c ∈ x ++ opening :: y, c ≠ closing := by
    intro c hc he
    rw [← hw, he, List.mem_cons] at hc
    exact hc.elim (by decide) hvc
  have hlen := congrArg List.length hw
  simp only [List.length_append, List.length_cons] at hlen
  refine ⟨⟨u ++ x, y⟩, ?_, unpaired_append huo fun hc => hxy _ (by simp [hc]) rfl, ?_, ?_, ?_, ?_⟩
  · rw [hu, hdrop, hw]
    simp [Occurrence.source, Occurrence.bracketed]
  · exact fun c hc => ⟨fun he => hy (he ▸ hc), hxy c (by simp [hc])⟩
  · simp only [List.length_append]; omega
  · have hbody : src.drop (last + 1) = y ++ closing :: src.drop (close + 1) := by
      rw [hw, List.append_assoc] at hdrop
      rw [hlast, ← List.drop_drop, drop_length_add hdrop]
      rfl
    have hcount : close - (last + 1) = y.length := by omega
    rw [slice, hbody, hcount, List.take_left]
  · simp only [Occurrence.source, Occurrence.bracketed, List.length_append, List.length_cons,
      List.length_nil]
    omega

theorem turn?_eq_none {src : Bytes} {start : Nat} (h : turn? src start = none) :
    Unpaired (src.drop start) := by
  cases h1 : findFirst? opening src start with
  | none => exact unpaired_of_no_opening (findFirst?_eq_none h1)
  | some first =>
    obtain ⟨hfirst, u, hu, huo, -⟩ := findFirst?_eq_some h1
    cases h2 : findFirst? closing src (first + 1) with
    | none =>
      have hc := findFirst?_eq_none h2
      rw [hu, hfirst]
      refine unpaired_append huo fun hm => ?_
      exact (List.mem_cons.1 hm).elim (by decide) hc
    | some close =>
      obtain ⟨-, v, hv, -, hclosepos⟩ := findFirst?_eq_some h2
      rw [hv, ← List.cons_append] at hfirst
      obtain ⟨x, y, hlast, -⟩ := findLast?_eq_some (c := opening) List.mem_cons_self hfirst
      have hstop : first + (opening :: v).length = close := by simp [hclosepos]; omega
      rw [hstop] at hlast
      simp [turn?, h1, h2, hlast] at h

theorem turn?_lt {src : Bytes} {start last close : Nat} (h : turn? src start = some (last, close)) :
    src.length - (close + 1) < src.length - start := by
  obtain ⟨o, hs, -, -, -, -, hclose⟩ := turn?_eq_some h
  have hlen := congrArg List.length hs
  simp only [Occurrence.source, Occurrence.bracketed, List.length_append, List.length_cons,
    List.length_drop] at hlen hclose
  omega

end ColorMarkup.Markup
