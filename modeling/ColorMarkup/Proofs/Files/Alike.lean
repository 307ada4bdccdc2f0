import ColorMarkup.Files.Open
/-!
# Trees of the same shape

Two trees are alike if the same things are at the same addresses, whatever the files
hold, and the user may do the same with them. A path leads to the same address in both, or in
neither for the same reason. A file that grows or gets another content leaves a tree alike.

Results:
* `FileTree.append_alike`, `FileTree.appendAll_alike`, `FileTree.overwrite_alike`: writing to
  files leaves the tree alike.
* `FileTree.find?_appendAll_self`, `FileTree.find?_appendAll_of_ne`: what it leaves of a file,
  and that it changes those files only.
* `Files.lookup_cases`: a path leads to the same place in both, or in neither.
-/
namespace ColorMarkup

/-- What a node is, the content of a file set aside. -/
def Node.shape : Node → Node
  | file _ => file []
  | n => n

theorem Node.eq_or_files_of_shape {n n' : Node} (h : n.shape = n'.shape) :
    n = n' ∨ ∃ c c', n = file c ∧ n' = file c' := by
  cases n with
  | file c =>
    cases n' with
    | file c' => exact .inr ⟨c, c', rfl, rfl⟩
    | _ => cases h
  | _ =>
    cases n' with
    | file c' => cases h
    | _ => exact .inl h

/-- The same things are at the same addresses, and the user may do the same with them. -/
structure FileTree.Alike (t t' : FileTree) : Prop where
  shape : ∀ a, (t.find? a).map Node.shape = (t'.find? a).map Node.shape
  access : t.access = t'.access

namespace FileTree

/-- At an address there is nothing in both of two trees that are alike, or the same thing,
or a file in each. -/
theorem Alike.find?_cases {t t' : FileTree} (h : t.Alike t') (a : Address) :
    t.find? a = t'.find? a ∨ ∃ c c', t.find? a = some (.file c) ∧ t'.find? a = some (.file c') := by
  have ha := h.shape a
  cases hn : t.find? a with
  | none =>
    rw [hn] at ha
    exact .inl (Option.map_eq_none_iff.1 ha.symm).symm
  | some n =>
    rw [hn] at ha
    obtain ⟨n', hn', hshape⟩ := Option.map_eq_some_iff.1 ha.symm
    rw [hn']
    obtain rfl | ⟨c, c', rfl, rfl⟩ := Node.eq_or_files_of_shape hshape
    · exact .inl rfl
    · exact .inr ⟨c', c, rfl, rfl⟩

theorem Alike.refl (t : FileTree) : t.Alike t := ⟨fun _ => rfl, rfl⟩

theorem Alike.symm {t t' : FileTree} (h : t.Alike t') : t'.Alike t :=
  ⟨fun a => (h.shape a).symm, h.access.symm⟩

theorem Alike.trans {t t' t'' : FileTree} (h : t.Alike t') (h' : t'.Alike t'') : t.Alike t'' :=
  ⟨fun a => (h.shape a).trans (h'.shape a), h.access.trans h'.access⟩

theorem ne_nil_of_file {t : FileTree} {a : Address} {c : Bytes} (h : t.find? a = some (.file c)) :
    a ≠ [] := by
  rintro rfl
  cases h

/-- A file is given another content. -/
theorem put_file_alike {t : FileTree} {a : Address} {content : Bytes}
    (h : t.find? a = some (.file content)) (b : Bytes) : t.Alike (t.put a (.file b)) := by
  refine ⟨fun a' => ?_, rfl⟩
  by_cases ha : a' = a
  · rw [ha, find?_put_self t (ne_nil_of_file h), h]
    rfl
  · rw [find?_put_of_ne t ha]

theorem append_alike (t : FileTree) (a : Address) (b : Bytes) : t.Alike (t.append a b) := by
  unfold append
  split
  · next hfile => exact put_file_alike hfile _
  · exact .refl t

theorem find?_overwrite_self {t : FileTree} {a : Address} {c : Bytes} (h : t.find? a = some (.file c))
    (b : Bytes) : (t.overwrite a b).find? a = some (.file ((t.access a).fit b)) := by
  rw [overwrite, h]
  exact find?_put_self t (ne_nil_of_file h) _

/-- What is there and is no file is left as it is. -/
theorem overwrite_of_not_file {t : FileTree} {a : Address} {n : Node} (h : t.find? a = some n)
    (hn : ∀ c, n ≠ .file c) (b : Bytes) : t.overwrite a b = t := by
  rw [overwrite, h]
  cases n with
  | file c => exact absurd rfl (hn c)
  | _ => rfl

theorem overwrite_alike {t : FileTree} {a : Address} {n : Node} (h : t.find? a = some n) (b : Bytes) :
    t.Alike (t.overwrite a b) := by
  cases n with
  | file content =>
    rw [overwrite, h]
    exact put_file_alike h _
  | _ =>
    rw [overwrite_of_not_file h (by simp)]
    exact .refl t

theorem find?_overwrite_of_ne (t : FileTree) {a a' : Address} (h : a' ≠ a) (b : Bytes) :
    (t.overwrite a b).find? a' = t.find? a' := by
  unfold overwrite
  split
  · exact find?_put_of_ne t h _
  · exact find?_put_of_ne t h _
  · rfl

theorem appendAll_alike (t : FileTree) (ws : List (Address × Bytes)) : t.Alike (t.appendAll ws) := by
  induction ws generalizing t with
  | nil => exact .refl t
  | cons w ws ih => exact (append_alike t w.1 w.2).trans (ih _)

theorem find?_append_of_ne (t : FileTree) {a b : Address} (h : b ≠ a) (content : Bytes) :
    (t.append a content).find? b = t.find? b := by
  unfold append
  split
  · exact find?_put_of_ne t h _
  · rfl

/-- What is added to other files does not change what is at an address. -/
theorem find?_appendAll_of_ne (t : FileTree) {ws : List (Address × Bytes)} {a : Address}
    (h : ∀ w ∈ ws, w.1 ≠ a) : (t.appendAll ws).find? a = t.find? a := by
  induction ws generalizing t with
  | nil => rfl
  | cons w ws ih =>
    obtain ⟨hw, hws⟩ := List.forall_mem_cons.1 h
    exact (ih _ hws).trans (find?_append_of_ne t hw.symm w.2)

/-- What is added to one file piece by piece stands behind its content, in one piece. -/
theorem find?_appendAll_self {t : FileTree} {a : Address} {content : Bytes}
    (h : t.find? a = some (.file content)) (pieces : List Bytes) :
    (t.appendAll (pieces.map (a, ·))).find? a = some (.file (content ++ pieces.flatten)) := by
  induction pieces generalizing t content with
  | nil => simpa [appendAll] using h
  | cons piece pieces ih =>
    have hfirst : (t.append a piece).find? a = some (.file (content ++ piece)) := by
      rw [append, h]
      exact find?_put_self t (ne_nil_of_file h) _
    rw [List.flatten_cons, ← List.append_assoc]
    exact ih hfirst

/-- What is there and is no file takes what is added and stays. -/
theorem find?_appendAll_of_not_file {t : FileTree} {a : Address} {n : Node} (h : t.find? a = some n)
    (hn : ∀ c, n ≠ .file c) (ws : List (Address × Bytes)) : (t.appendAll ws).find? a = some n := by
  obtain heq | ⟨c, -, hc, -⟩ := (t.appendAll_alike ws).find?_cases a
  · rw [← heq, h]
  · rw [h] at hc
    exact absurd (Option.some.inj hc) (hn c)

end FileTree

namespace Files

variable {t t' : FileTree}

theorem enter_alike (h : t.Alike t') (a : Address) (name : Bytes) : enter t a name = enter t' a name := by
  unfold enter
  rw [h.access]
  obtain heq | ⟨c, c', hc, hc'⟩ := h.find?_cases a
  · rw [heq]
  · rw [hc, hc']

theorem scan_alike (h : t.Alike t') (a : Address) (names : List Bytes) : scan t a names = scan t' a names := by
  induction names generalizing a with
  | nil => rfl
  | cons name names ih =>
    rw [scan, scan, enter_alike h]
    cases enter t' a name with
    | error e => rfl
    | ok b =>
      obtain heq | ⟨c, c', hc, hc'⟩ := h.find?_cases b
      · simp only [heq, ih b]
      · simp only [hc, hc', ih b]

theorem walk_alike (h : t.Alike t') (links : Nat) (a : Address) (names : List Bytes) :
    walk t links a names = walk t' links a names := by
  induction links generalizing a names with
  | zero => rw [walk, walk, scan_alike h]
  | succ links ih =>
    have hnext : walk t links = walk t' links := funext fun a => funext fun names => ih a names
    rw [walk, walk, scan_alike h, hnext]

/-- The same directory to start from, and trees that are alike. -/
structure Alike (f f' : Files) : Prop where
  workdir : f.workdir = f'.workdir
  tree : f.tree.Alike f'.tree

theorem Alike.refl (f : Files) : f.Alike f := ⟨rfl, .refl _⟩

theorem Alike.symm {f f' : Files} (h : f.Alike f') : f'.Alike f := ⟨h.workdir.symm, h.tree.symm⟩

theorem Alike.trans {f f' f'' : Files} (h : f.Alike f') (h' : f'.Alike f'') : f.Alike f'' :=
  ⟨h.workdir.trans h'.workdir, h.tree.trans h'.tree⟩

theorem route_alike {f f' : Files} (h : f.workdir = f'.workdir) (p : Text) : f.route p = f'.route p := by
  unfold route start
  rw [h]

theorem resolve_alike {f f' : Files} (h : f.Alike f') (r : Route) : f.resolve r = f'.resolve r :=
  walk_alike h.tree _ _ _

theorem place_alike {f f' : Files} (h : f.Alike f') (p : Text) : f.place p = f'.place p := by
  simp only [place, route_alike h.workdir, resolve_alike h, enter_alike h.tree]

/-- A path leads nowhere in both for the same reason, or to the same address and to a thing
of the same shape there. -/
theorem lookup_cases {f f' : Files} (h : f.Alike f') (p : Text) :
    (∃ e, f.lookup p = .error e ∧ f'.lookup p = .error e) ∨
    ∃ a n n', f.lookup p = .ok (a, n) ∧ f'.lookup p = .ok (a, n') ∧ n.shape = n'.shape := by
  simp only [lookup, route_alike h.workdir, resolve_alike h]
  cases f'.route p with
  | error e => exact .inl ⟨e, rfl, rfl⟩
  | ok r =>
    simp only [bind, Except.bind]
    cases f'.resolve r with
    | error e => exact .inl ⟨e, rfl, rfl⟩
    | ok a =>
      obtain heq | ⟨c, c', hc, hc'⟩ := h.tree.find?_cases a
      · simp only [heq]
        split
        · exact .inl ⟨_, rfl, rfl⟩
        · exact .inr ⟨a, _, _, rfl, rfl, rfl⟩
        · cases r.endsInSlash
          · exact .inr ⟨a, _, _, rfl, rfl, rfl⟩
          · exact .inl ⟨_, rfl, rfl⟩
      · simp only [hc, hc']
        cases r.endsInSlash
        · exact .inr ⟨a, _, _, rfl, rfl, rfl⟩
        · exact .inl ⟨_, rfl, rfl⟩

theorem isFile_alike {f f' : Files} (h : f.Alike f') (p : Text) : f.isFile p = f'.isFile p := by
  obtain ⟨e, he, he'⟩ | ⟨a, n, n', hn, hn', hshape⟩ := lookup_cases h p
  · simp only [isFile, he, he']
  · obtain rfl | ⟨c, c', rfl, rfl⟩ := Node.eq_or_files_of_shape hshape
    · simp only [isFile, hn, hn']
    · simp only [isFile, hn, hn', Node.isRegular]

/-- What a path leads to is at the same address in both. -/
theorem lookup_alike {f f' : Files} (h : f.Alike f') {p : Text} {a : Address} {n : Node}
    (hlookup : f.lookup p = .ok (a, n)) : ∃ n', f'.lookup p = .ok (a, n') ∧ n.shape = n'.shape := by
  obtain ⟨e, he, -⟩ | ⟨b, m, m', hm, hm', hshape⟩ := lookup_cases h p
  · rw [hlookup] at he
    cases he
  · rw [hlookup] at hm
    cases hm
    exact ⟨m', hm', hshape⟩

end Files
end ColorMarkup
