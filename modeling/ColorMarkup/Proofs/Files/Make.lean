import ColorMarkup.Proofs.Files.Open
/-!
# Making directories

Making a directory and those above it adds directories where nothing was, also if it fails on the
way, and changes nothing else. Where the directory is there already nothing is made: its path
starts with the paths of all directories above it, and these lead to directories.

Results:
* `Files.makeDirectories_made`: what was there stays.
* `Files.isDirectory_of_above`: what starts a path that leads somewhere leads to a directory.
* `Files.makeDirectories_of_isDirectory`: a directory that is there needs none to be made.
-/
namespace ColorMarkup

open Utf8 (IsEncodable encoded)

/-! ## The paths above -/

namespace Path

theorem slash_notMem_lastPart (p : Text) : slash ∉ lastPart p := by
  intro h
  simpa using List.mem_takeWhile_imp (List.mem_reverse.1 h)

/-- The directory part is empty or ends in a slash. -/
theorem dirPart_cases (p : Text) : dirPart p = [] ∨ ∃ d, dirPart p = d ++ [slash] := by
  unfold dirPart
  cases h : p.reverse.dropWhile (· != slash) with
  | nil => exact .inl rfl
  | cons c rest =>
    have hc := List.head?_dropWhile_not (· != slash) p.reverse
    rw [h] at hc
    refine .inr ⟨rest.reverse, ?_⟩
    rw [List.reverse_cons, show c = slash by simpa using hc]

/-- The names of a path are those of its directory and of its last part. -/
theorem names_dirname (p : Text) : names p = names (dirname p) ++ names (lastPart p) := by
  have hdir : names (dirname p) = names (dirPart p) := by
    unfold dirname
    dsimp only
    split
    · rfl
    · exact names_dropSlashes _
  rw [hdir]
  conv_lhs => rw [← dirPart_append_lastPart p]
  obtain h | ⟨d, h⟩ := dirPart_cases p
  · rw [h]; rfl
  · rw [h, List.append_assoc, List.singleton_append, names_append_slash, names_append_slash,
      names_nil, List.append_nil]

theorem dirname_starts (p : Text) : dirname p <+: p := by
  have hdir : dirPart p <+: p := ⟨lastPart p, dirPart_append_lastPart p⟩
  unfold dirname
  dsimp only
  split
  · exact hdir
  · obtain ⟨tail, htail, -⟩ := dropSlashes_append (dirPart p)
    exact .trans ⟨tail, htail.symm⟩ hdir

theorem dirPart_of_dirname_eq_nil {p : Text} (h : dirname p = []) : dirPart p = [] := by
  unfold dirname at h
  dsimp only at h
  split at h
  · exact h
  · next hnot =>
    obtain ⟨tail, htail, hslashes⟩ := dropSlashes_append (dirPart p)
    rw [h, List.nil_append] at htail
    refine absurd (List.all_eq_true.2 fun c hc => ?_) hnot
    rw [htail] at hc
    simpa using hslashes c hc

/-- A path that has no directory part holds no slash. -/
theorem slash_notMem_of_dirname_eq_nil {p : Text} (h : dirname p = []) : slash ∉ p := by
  have hp := dirPart_append_lastPart p
  rw [dirPart_of_dirname_eq_nil h, List.nil_append] at hp
  rw [← hp]
  exact slash_notMem_lastPart p

/-- A path that does not end in a slash has a name more than its directory. -/
theorem names_dirname_ne {p : Text} (hne : p ≠ []) (h : (p.getLast? == some slash) = false) :
    names (dirname p) ≠ names p := by
  intro hsame
  have hlast : lastPart p ≠ [] := by
    intro hnil
    have hp := dirPart_append_lastPart p
    rw [hnil, List.append_nil] at hp
    obtain hd | ⟨d, hd⟩ := dirPart_cases p
    · exact hne (hp.symm.trans hd)
    · rw [← hp, hd] at h
      simp at h
  rw [names_dirname p, names_of_no_slash hlast (slash_notMem_lastPart p)] at hsame
  simp at hsame

/-- A path that starts another, and is followed by the first of its names. -/
structure Above (q p : Text) : Prop where
  nonempty : q ≠ []
  starts : q <+: p
  names : names q <+: names p

theorem Above.trans {q p s : Text} (h : Above q p) (h' : Above p s) : Above q s where
  nonempty := h.nonempty
  starts := h.starts.trans h'.starts
  names := h.names.trans h'.names

theorem above_dirname {p : Text} (h : dirname p ≠ []) : Above (dirname p) p where
  nonempty := h
  starts := dirname_starts p
  names := ⟨_, (names_dirname p).symm⟩

theorem Above.isAbsolute {q p : Text} (h : Above q p) : isAbsolute q = isAbsolute p := by
  obtain ⟨rest, hrest⟩ := h.starts
  rw [Path.isAbsolute, Path.isAbsolute, ← hrest, List.head?_append_of_ne_nil _ h.nonempty]

end Path

namespace Files

variable {f : Files} {p q : Text}

/-- The path that is made first is above. -/
theorem above_splitLast (h : (splitLast p).1 ≠ []) : Path.Above (splitLast p).1 p := by
  unfold splitLast at h ⊢
  split at h
  · next hlast =>
    rw [if_pos hlast]
    have hdir : Path.dirname p ≠ [] := by
      intro hnil
      rw [hnil] at h
      exact h rfl
    exact (Path.above_dirname h).trans (Path.above_dirname hdir)
  · next hlast =>
    rw [if_neg hlast]
    exact Path.above_dirname h

/-! ## What is there -/

/-- What starts a path that leads somewhere leads to a directory, if it has fewer names or the path
leads to a directory itself. -/
theorem isDirectory_of_above {a : Address} {n : Node} (h : f.lookup p = .ok (a, n))
    (hq : Path.Above q p) (hless : Path.names q = Path.names p → n = .directory) :
    f.isDirectory q = true := by
  obtain ⟨r, hr, hwalk, hn⟩ := lookup_ok h
  obtain ⟨hp, rfl⟩ := route_eq_ok_iff.1 hr
  have hr' := route_eq_ok_iff.2 ⟨hp.of_prefix hq.starts hq.nonempty, (rfl : f.routeOf q = _)⟩
  obtain ⟨rest, hrest⟩ := hq.names
  have hbase : (f.routeOf p).base = (f.routeOf q).base := by
    rw [routeOf, routeOf, hq.isAbsolute]
  have hnames : (f.routeOf p).names = (f.routeOf q).names ++ rest.map encoded := by
    rw [routeOf, routeOf, ← hrest, List.map_append]
  rw [resolve, hbase, hnames] at hwalk
  refine isDirectory_eq_true_iff.2 ?_
  by_cases hnil : rest = []
  · rw [hnil, List.append_nil] at hrest
    rw [hnil, List.map_nil, List.append_nil] at hwalk
    exact ⟨a, lookup_directory hr' hwalk (by rw [hn, hless hrest])⟩
  · obtain ⟨d, hd, hdir, -⟩ := walk_through hwalk (by simpa using hnil)
    exact ⟨d, lookup_directory hr' hd hdir⟩

theorem exists?_of_isDirectory (h : f.isDirectory p = true) : f.exists? p = true := by
  obtain ⟨a, ha⟩ := isDirectory_eq_true_iff.1 h
  rw [exists?, ha]
  rfl

/-- The last name of a path that leads to a directory is `.` or `..`, or something has it. -/
theorem place_of_isDirectory (h : f.isDirectory p = true) :
    f.place p = .ok none ∨ ∃ b n, f.place p = .ok (some b) ∧ f.tree.find? b = some n := by
  obtain ⟨a, ha⟩ := isDirectory_eq_true_iff.1 h
  obtain ⟨⟨base, names, slash⟩, hr, hwalk, hn⟩ := lookup_ok ha
  obtain rfl | ⟨names, name, rfl⟩ := names.eq_nil_or_concat
  · left
    simp only [place, hr, bind, Except.bind]
    rfl
  · rw [List.concat_eq_append] at hr hwalk
    obtain ⟨d, left, hd, hlast⟩ := walk_append_ok hwalk
    obtain ⟨b, henter⟩ := walk_cons_ok hlast
    rw [place_of_enter hr hd henter]
    split
    · exact .inl rfl
    · refine .inr ⟨b, ?_⟩
      cases hb : f.tree.find? b with
      | some n => exact ⟨n, rfl, rfl⟩
      | none =>
        have hleg : scan f.tree d [name] = .ok (.arrived b) := by
          simp only [scan, henter, hb, List.isEmpty_nil, if_true]
        obtain rfl : b = a := Except.ok.inj ((walk_of_scan hleg left).symm.trans hlast)
        rw [hn] at hb
        cases hb

/-- A file's path does not end in a slash. -/
theorem getLast?_of_lookup {a : Address} {n : Node} (h : f.lookup p = .ok (a, n))
    (hn : n ≠ .directory) : (p.getLast? == some Path.slash) = false := by
  obtain ⟨r, hr, -, -, hslash⟩ := lookup_eq_ok_iff.1 h
  obtain ⟨-, rfl⟩ := route_eq_ok_iff.1 hr
  exact Bool.eq_false_iff.2 fun hends => hn (hslash hends)

/-- A file whose path has a directory part stands in that directory. -/
theorem isDirectory_dirname {a : Address} {n : Node} (h : f.lookup p = .ok (a, n))
    (hn : n ≠ .directory) (hdir : Path.dirname p ≠ []) : f.isDirectory (Path.dirname p) = true := by
  have hne : p ≠ [] := fun hnil => hdir (by rw [hnil]; rfl)
  exact isDirectory_of_above h (Path.above_dirname hdir) fun hsame =>
    absurd hsame (Path.names_dirname_ne hne (getLast?_of_lookup h hn))

/-- A file whose path is a name stands in the working directory. -/
theorem isDirectory_here {a : Address} {n : Node} (h : f.lookup p = .ok (a, n))
    (hdir : Path.dirname p = []) : f.isDirectory Path.here = true := by
  obtain ⟨r, hr, hwalk, -⟩ := lookup_ok h
  obtain ⟨hp, rfl⟩ := route_eq_ok_iff.1 hr
  have hslash := Path.slash_notMem_of_dirname_eq_nil hdir
  have hrelative : Path.isAbsolute p = false := by
    refine Bool.eq_false_iff.2 fun habs => hslash ?_
    obtain ⟨rest, rfl⟩ := (Path.isAbsolute_iff p).1 habs
    exact List.mem_cons_self
  have hroute : f.routeOf p = ⟨f.start, [encoded p], p.getLast? == some Path.slash⟩ := by
    rw [routeOf, hrelative, Path.names_of_no_slash hp.nonempty hslash]
    rfl
  rw [resolve, hroute] at hwalk
  obtain ⟨c, henter⟩ := walk_cons_ok hwalk
  obtain ⟨hdirectory, hsearch, -⟩ := enter_ok henter
  have hhere : f.resolve (f.routeOf Path.here) = .ok f.start :=
    walk_of_scan (scan_here hdirectory hsearch) _
  exact isDirectory_eq_true_iff.2 ⟨f.start,
    lookup_directory (route_eq_ok_iff.2 ⟨Path.isRoutable_here, rfl⟩) hhere hdirectory⟩

/-- A directory that is there is not made. -/
theorem ensureDirectory_of_isDirectory (h : f.isDirectory p = true) :
    f.ensureDirectory p = (f, .ok ()) := by
  have hmade : f.makeDirectory p = .error .alreadyExists := by
    obtain hplace | ⟨b, n, hplace, hn⟩ := place_of_isDirectory h
    · simp only [makeDirectory, hplace, bind, Except.bind]
      rfl
    · simp only [makeDirectory, hplace, bind, Except.bind, hn]
      rfl
  rw [ensureDirectory, hmade]
  dsimp only
  rw [if_pos h]

/-- Where a directory is there, none is made. -/
theorem makeDirectories_of_isDirectory (h : f.isDirectory p = true) :
    f.makeDirectories p = (f, .ok ()) := by
  unfold makeDirectories
  cases p.length with
  | zero => exact ensureDirectory_of_isDirectory h
  | succ fuel =>
    rw [makeDirectoriesFrom]
    dsimp only
    split
    · exact ensureDirectory_of_isDirectory h
    · next hnot =>
      obtain ⟨a, ha⟩ := isDirectory_eq_true_iff.1 h
      simp only [Bool.or_eq_true, not_or] at hnot
      have habove := above_splitLast (p := p) (by simpa using hnot.1.1)
      exact absurd (exists?_of_isDirectory (isDirectory_of_above ha habove fun _ => rfl)) hnot.2

/-! ## What is made -/

theorem makeDirectory_ok {f' : Files} (h : f.makeDirectory p = .ok f') :
    ∃ a, f.tree.find? a = none ∧ f' = { f with tree := f.tree.put a .directory } := by
  cases hplace : f.place p with
  | error e => simp [makeDirectory, hplace, bind, Except.bind] at h
  | ok place =>
    cases place with
    | none => simp [makeDirectory, hplace, bind, Except.bind, throw, throwThe, MonadExceptOf.throw] at h
    | some a =>
      cases hfind : f.tree.find? a with
      | some n =>
        simp [makeDirectory, hplace, bind, Except.bind, hfind, throw, throwThe,
          MonadExceptOf.throw] at h
      | none =>
        cases hmake : f.tree.make a .directory with
        | error e =>
          simp [makeDirectory, hplace, bind, Except.bind, hfind, hmake] at h
        | ok t =>
          have hf' : { f with tree := t } = f' := by
            simpa [makeDirectory, hplace, bind, Except.bind, hfind, hmake, pure, Except.pure] using h
          exact ⟨a, hfind, by rw [← hf', make_ok hmake]⟩

/-- Directories are added, and nothing else happens. -/
structure Made (f f' : Files) : Prop where
  workdir : f'.workdir = f.workdir
  tree : Extends f.tree f'.tree

theorem Made.refl (f : Files) : Made f f := ⟨rfl, .refl _⟩

theorem Made.trans {f' f'' : Files} (h : Made f f') (h' : Made f' f'') : Made f f'' :=
  ⟨h'.workdir.trans h.workdir, h.tree.trans h'.tree⟩

theorem ensureDirectory_made (f : Files) (p : Text) : Made f (f.ensureDirectory p).1 := by
  unfold ensureDirectory
  split
  · next f' hmade =>
    obtain ⟨a, hnone, rfl⟩ := makeDirectory_ok hmade
    exact ⟨rfl, put_extends hnone (by simp)⟩
  · split
    · exact .refl f
    · exact .refl f

theorem finish_made (f : Files) (p last : Text) : Made f (makeDirectoriesFrom.finish f p last).1 := by
  unfold makeDirectoriesFrom.finish
  split
  · exact .refl f
  · exact ensureDirectory_made f p

theorem makeDirectoriesFrom_made (fuel : Nat) (f : Files) (p : Text) :
    Made f (makeDirectoriesFrom fuel f p).1 := by
  induction fuel generalizing f p with
  | zero => exact ensureDirectory_made f p
  | succ fuel ih =>
    have habove := ih f (splitLast p).1
    rw [makeDirectoriesFrom]
    dsimp only
    split
    · exact ensureDirectory_made f p
    · split
      · next f' e heq =>
        rw [heq] at habove
        split
        · exact habove.trans (finish_made f' p _)
        · exact habove
      · next f' heq =>
        rw [heq] at habove
        exact habove.trans (finish_made f' p _)

/-- What was there stays, whether or not all directories can be made. -/
theorem makeDirectories_made (f : Files) (p : Text) : Made f (f.makeDirectories p).1 :=
  makeDirectoriesFrom_made p.length f p

end Files
end ColorMarkup
