import ColorMarkup.Json.Reader
/-!
# What is read

Every value that is read is of one of the kinds that JSON has; a depth or a direction of
the library is never one of them. A key that is met again in an object gives its value to
the member there is, so no object that is read has two members of one name.

Results:
* `value?_kind`: the kinds of values that are read.
* `members?_induction`: what storing keeps holds of every object that is read.
* `nodup_put`: storing keeps the keys distinct.
* `nodup_of_read?`, `isJson_of_read?`: the keys of an object that makes up a text are
  distinct, and its values are of the kinds of JSON.
-/
namespace ColorMarkup.Json

/-! ## Kinds -/

/-- Is the value of a kind that JSON has? -/
def IsJson : Value → Prop
  | .depth _ | .direction _ | .bytes _ _ => False
  | _ => True

/-- Words and numbers are no lists and no objects. -/
theorem scalar?_kind {t rest : Text} {v : Value} (h : scalar? t = some (v, rest)) :
    IsJson v ∧ ∀ es, v ≠ .dict es := by
  have hwords : ∀ p ∈ words, IsJson p.2 ∧ ∀ es, p.2 ≠ .dict es := by simp [words, IsJson]
  have hnumber : ∀ negative u, number? negative u = some (v, rest) →
      IsJson v ∧ ∀ es, v ≠ .dict es := by
    intro negative u h
    obtain ⟨r, -, h⟩ := Option.map_eq_some_iff.1 h
    dsimp only at h
    split at h
    · cases h
      exact ⟨trivial, nofun⟩
    · cases h
      exact ⟨trivial, nofun⟩
  unfold scalar? at h
  split at h
  · next r hr =>
    cases h
    obtain ⟨p, hp, hr⟩ := List.exists_of_findSome?_eq_some hr
    obtain ⟨_, -, heq⟩ := Option.map_eq_some_iff.1 hr
    cases heq
    exact hwords p hp
  · split at h
    · cases h
    · split at h
      · exact hnumber _ _ h
      · exact hnumber _ _ h

/-- A value that is read is of a kind that JSON has, and an object only if it was read member
by member. -/
theorem value?_kind {fuel : Nat} {t rest : Text} {v : Value} (h : value? fuel t = some (v, rest)) :
    IsJson v ∧ ∀ es, v = .dict es → es = [] ∨ ∃ fuel t rest, members? fuel [] t = some (es, rest) := by
  unfold value? at h
  split at h
  · cases h
  · cases h
  · split at h
    · obtain ⟨_, -, heq⟩ := Option.map_eq_some_iff.1 h
      cases heq
      exact ⟨trivial, nofun⟩
    · split at h
      · split at h
        · cases h
        · split at h
          · cases h
            exact ⟨trivial, nofun⟩
          · obtain ⟨_, -, heq⟩ := Option.map_eq_some_iff.1 h
            cases heq
            exact ⟨trivial, nofun⟩
      · split at h
        · split at h
          · cases h
          · split at h
            · cases h
              exact ⟨trivial, fun es heq => by cases heq; exact .inl rfl⟩
            · obtain ⟨r, hr, heq⟩ := Option.map_eq_some_iff.1 h
              cases heq
              exact ⟨trivial, fun es heq => by cases heq; exact .inr ⟨_, _, _, hr⟩⟩
        · obtain ⟨hkind, hnot⟩ := scalar?_kind h
          exact ⟨hkind, fun es heq => absurd heq (hnot es)⟩

/-! ## Members -/

/-- What holds of the members read before, and is kept when a value that is read is stored,
holds of all members. -/
theorem members?_induction {P : List (Text × Value) → Prop}
    (hput : ∀ key v l, IsJson v → P l → P (put key v l)) {fuel : Nat} {read es : List (Text × Value)}
    {t rest : Text} (hread : P read) (h : members? fuel read t = some (es, rest)) : P es := by
  induction fuel generalizing read t with
  | zero => cases t <;> simp [members?] at h
  | succ fuel ih =>
    cases t with
    | nil => simp [members?] at h
    | cons c t =>
      -- a member goes on after a comma or is the last; anything else stops the reading
      rw [members?] at h
      split at h
      · split at h
        · cases h
        · next key _ _ =>
          split at h
          · cases h
          · split at h
            · split at h
              · cases h
              · next v _ hv =>
                have hput := hput key v read (value?_kind hv).1 hread
                dsimp only at h
                split at h
                · cases h
                · split at h
                  · cases h
                    exact hput
                  · split at h
                    · exact ih hput h
                    · cases h
            · cases h
      · cases h

theorem mem_put {key : Text} {v : Value} {l : List (Text × Value)} {entry : Text × Value}
    (h : entry ∈ put key v l) : entry = (key, v) ∨ entry ∈ l := by
  induction l with
  | nil => exact .inl (by simpa [put] using h)
  | cons p l ih =>
    unfold put at h
    split at h
    · exact (List.mem_cons.1 h).imp_right (List.mem_cons_of_mem _)
    · obtain rfl | h := List.mem_cons.1 h
      · exact .inr List.mem_cons_self
      · exact (ih h).imp_right (List.mem_cons_of_mem _)

theorem nodup_put (key : Text) (v : Value) {l : List (Text × Value)}
    (h : (l.map Prod.fst).Nodup) : ((put key v l).map Prod.fst).Nodup := by
  induction l with
  | nil => simp [put]
  | cons p l ih =>
    obtain ⟨hp, hl⟩ := List.nodup_cons.1 h
    unfold put
    split
    · next heq => exact List.nodup_cons.2 ⟨heq ▸ hp, hl⟩
    · next hne =>
      refine List.nodup_cons.2 ⟨fun hmem => ?_, ih hl⟩
      obtain ⟨entry, hentry, hkey⟩ := List.mem_map.1 hmem
      obtain rfl | hentry := mem_put hentry
      · exact hne hkey.symm
      · exact hp (hkey ▸ List.mem_map_of_mem hentry)

/-! ## Texts -/

/-- What storing keeps holds of the members of an object that makes up a text. -/
theorem read?_induction {P : List (Text × Value) → Prop} (hnil : P [])
    (hput : ∀ key v l, IsJson v → P l → P (put key v l)) {t : Text} {es : List (Text × Value)}
    (h : read? t = some (.dict es)) : P es := by
  unfold read? at h
  split at h
  · next v rest hv =>
    split at h
    · cases h
      obtain rfl | ⟨fuel, t, rest, hmembers⟩ := (value?_kind hv).2 es rfl
      · exact hnil
      · exact members?_induction hput hnil hmembers
    · cases h
  · cases h

/-- The keys of an object that makes up a text are distinct. -/
theorem nodup_of_read? {t : Text} {es : List (Text × Value)} (h : read? t = some (.dict es)) :
    (es.map Prod.fst).Nodup :=
  read?_induction (P := fun es => (es.map Prod.fst).Nodup) List.nodup_nil
    (fun key v _ _ hl => nodup_put key v hl) h

/-- The values in an object that makes up a text are of the kinds that JSON has. -/
theorem isJson_of_read? {t : Text} {es : List (Text × Value)} (h : read? t = some (.dict es)) :
    ∀ entry ∈ es, IsJson entry.2 := by
  refine read?_induction (P := fun es => ∀ entry ∈ es, IsJson entry.2) nofun ?_ h
  intro key v l hv hl entry hentry
  obtain rfl | hentry := mem_put hentry
  · exact hv
  · exact hl entry hentry

end ColorMarkup.Json
