import ColorMarkup.Proofs.Files.Path
/-!
# Paths in absolute normal form

A path is in absolute normal form if it starts from the root and only plain components stand
behind the root, with one slash between every two. These are the paths that the absolute normal
form leaves as they are. Any other path from the root has such a form too, but is not spelled so:
it ends in a slash, repeats one, or has a component that stays or goes up.

Results:
* `not_isNormal_iff`: how a path from the root is spelled if it is not.
* `root_append_behindRoot`: a path from the root is its root and the pieces behind it.
* `isNormal_normalize`: the normal form of a path from the root is of that form.
* `absolute_eq_self_iff`: the paths that are their own absolute normal form.
-/
namespace ColorMarkup.Path

/-- The pieces of a path between the slashes behind its root, if anything stands there. -/
def behindRoot (p : Text) : List Text :=
  if p.drop (root p).length = [] then [] else Text.splitOn slash (p.drop (root p).length)

instance (c : Text) : Decidable (IsPlain c) := inferInstanceAs (Decidable (_ ∧ _ ∧ _ ∧ _))

/-- The path starts from the root, and no piece behind the root is empty, stays or goes up. -/
structure IsNormal (p : Text) : Prop where
  isAbsolute : isAbsolute p = true
  pieces : ∀ c ∈ behindRoot p, IsPlain c

instance (p : Text) : Decidable (IsNormal p) :=
  decidable_of_iff (isAbsolute p = true ∧ ∀ c ∈ behindRoot p, IsPlain c)
    ⟨fun h => ⟨h.1, h.2⟩, fun h => ⟨h.isAbsolute, h.pieces⟩⟩

/-- A path from the root is not in normal form for a piece that is empty, stays or goes up. -/
theorem not_isNormal_iff {p : Text} (h : isAbsolute p = true) :
    ¬ IsNormal p ↔ ∃ c ∈ behindRoot p, c = [] ∨ c = here ∨ c = up := by
  have hslash : ∀ c ∈ behindRoot p, slash ∉ c := by
    intro c hc hs
    unfold behindRoot at hc
    split at hc
    · cases hc
    · exact (Text.mem_of_mem_splitOn hc hs).2 rfl
  constructor
  · intro hnot
    by_contra hnone
    refine hnot ⟨h, fun c hc => ?_⟩
    have hcomponent : ¬ (c = [] ∨ c = here ∨ c = up) := fun hbad => hnone ⟨c, hc, hbad⟩
    exact ⟨fun hnil => hcomponent (.inl hnil), fun hhere => hcomponent (.inr (.inl hhere)),
      fun hup => hcomponent (.inr (.inr hup)), hslash c hc⟩
  · intro ⟨c, hc, hbad⟩ hnormal
    obtain ⟨hnil, hhere, hup, -⟩ := hnormal.pieces c hc
    obtain rfl | rfl | rfl := hbad
    · exact hnil rfl
    · exact hhere rfl
    · exact hup rfl

theorem root_starts (p : Text) : root p <+: p := by
  have hslashes : p.takeWhile (· == slash) = List.replicate (p.takeWhile (· == slash)).length slash :=
    List.eq_replicate_of_mem fun c hc => by simpa using List.mem_takeWhile_imp hc
  refine List.IsPrefix.trans ?_ (List.takeWhile_prefix (· == slash))
  unfold root
  dsimp only
  generalize p.takeWhile (· == slash) = t at hslashes ⊢
  split
  · exact List.nil_prefix
  · next hne =>
    split
    · next htwo =>
      rw [htwo] at hslashes
      rw [hslashes]
      exact List.prefix_refl _
    · obtain ⟨n, hn⟩ := Nat.exists_eq_succ_of_ne_zero hne
      rw [hn, List.replicate_succ] at hslashes
      rw [hslashes]
      exact ⟨_, rfl⟩

theorem root_append_behindRoot (p : Text) : root p ++ [slash].intercalate (behindRoot p) = p := by
  have hjoin : [slash].intercalate (behindRoot p) = p.drop (root p).length := by
    unfold behindRoot
    split
    · next hnil => rw [hnil]; rfl
    · rw [Text.splitOn_eq]
      exact List.intercalate_splitOn slash
  rw [hjoin]
  exact List.prefix_iff_eq_append.1 (root_starts p)

/-- Components with slashes between them start with no slash. -/
theorem takeWhile_intercalate {cs : List Text} (h : ∀ c ∈ cs, c ≠ [] ∧ slash ∉ c) :
    ([slash].intercalate cs).takeWhile (· == slash) = [] := by
  cases cs with
  | nil => rfl
  | cons c cs =>
    obtain ⟨hne, hslash⟩ := h c List.mem_cons_self
    obtain ⟨d, c, rfl⟩ := List.exists_cons_of_ne_nil hne
    have hd : d ≠ slash := fun hd => hslash (hd ▸ List.mem_cons_self)
    cases cs <;> simp [hd]

/-- Components behind a root are the pieces behind it. -/
theorem behindRoot_append {r : Text} (hr : r = [slash] ∨ r = [slash, slash]) {cs : List Text}
    (h : ∀ c ∈ cs, c ≠ [] ∧ slash ∉ c) : behindRoot (r ++ [slash].intercalate cs) = cs := by
  have hstart := takeWhile_intercalate h
  have hroot : root (r ++ [slash].intercalate cs) = r := by
    obtain rfl | rfl := hr <;> simp [root, hstart]
  rw [behindRoot, hroot, List.drop_left]
  cases cs with
  | nil => rfl
  | cons c cs =>
    have hne : [slash].intercalate (c :: cs) ≠ [] := by
      obtain ⟨d, hd, -⟩ := getLast?_intercalate (List.cons_ne_nil c cs) h
      intro hnil
      rw [hnil] at hd
      cases hd
    rw [if_neg hne, Text.splitOn_eq]
    exact List.splitOn_intercalate slash (fun c hc => (h c hc).2) (List.cons_ne_nil c cs)

theorem isNormal_normalize {p : Text} (h : isAbsolute p = true) : IsNormal (normalize p) := by
  refine ⟨(names_normalize h).2, ?_⟩
  obtain ⟨-, h'⟩ | ⟨hroot, -⟩ := root_cases p
  · rw [h] at h'
    cases h'
  · rw [normalize_eq h, behindRoot_append hroot (collapse_splitOn p)]
    have hpieces : ∀ c ∈ Text.splitOn slash p, slash ∉ c := fun c hc hs =>
      (Text.mem_of_mem_splitOn hc hs).2 rfl
    exact fun c hc => collapse_isPlain (by simp) hpieces c (List.mem_reverse.1 hc)

theorem normalize_of_isNormal {p : Text} (h : IsNormal p) : normalize p = p := by
  have hnames : names p = behindRoot p := by
    have hjoin := names_root_append p ([slash].intercalate (behindRoot p))
    rw [root_append_behindRoot] at hjoin
    exact hjoin.trans (names_intercalate fun c hc => ⟨(h.pieces c hc).1, (h.pieces c hc).2.2.2⟩)
  rw [normalize_eq h.isAbsolute, ← collapse_names, hnames, collapse_of_isPlain h.pieces,
    List.append_nil, List.reverse_reverse, root_append_behindRoot]

/-- The paths that are their own absolute normal form, whatever directory is worked in. -/
theorem absolute_eq_self_iff {workdir : Text} (h : isAbsolute workdir = true) (p : Text) :
    absolute workdir p = p ↔ IsNormal p := by
  constructor
  · intro hp
    obtain ⟨q, hq, hqabs, -⟩ := absolute_eq h p
    rw [← hp, hq]
    exact isNormal_normalize hqabs
  · intro hp
    rw [absolute, if_pos hp.isAbsolute]
    exact normalize_of_isNormal hp

end ColorMarkup.Path
