import ColorMarkup.Proofs.Files.Walk
import ColorMarkup.Proofs.Settings.Reachable
/-!
# Which settings file counts

The files of a search are loaded one after the other, the one that counts least first, and
each gives options the values in it that are valid. So an option has in the end the value
that the first of the files gives it, in the opposite order; a file that is not there, that
cannot be read, or that gives the option no valid value is passed over.

What is reported of a file is written to the journal, and the journal may write to a file
that is yet to be loaded. A file is therefore taken as it is when its turn comes. That is as
it was at the start, if no handler writes to it. Whether it is there does not change, so that
all files may be looked for at the start.

Results:
* `load_keeps`: loading leaves all other files, the variables and the journal alone.
* `offer_value`: the value of an option when one file has been loaded.
* `loadSearched_eq_loadAll`: a search loads the files that are there.
* `loadSearched_first`: the value of an option after a search.
-/
namespace ColorMarkup.Environment

open Settings (Key Refusal Report)

/-! ## What loading keeps -/

/-- The same environment but for the options, the warnings, and what is in the files that the
journal writes to. -/
structure Keeps (env env' : Environment) : Prop where
  alike : env.Alike env'
  limits : env.limits = env'.limits
  configHome : env.configHome = env'.configHome
  journal : env.journal = env'.journal
  elsewhere : ∀ a, (∀ h ∈ env.journal.attached, h.address ≠ a) →
    env.files.tree.find? a = env'.files.tree.find? a

theorem Keeps.refl (env : Environment) : env.Keeps env := ⟨.refl env, rfl, rfl, rfl, fun _ _ => rfl⟩

theorem Keeps.trans {env env' env'' : Environment} (h : env.Keeps env') (h' : env'.Keeps env'') :
    env.Keeps env'' where
  alike := h.alike.trans h'.alike
  limits := h.limits.trans h'.limits
  configHome := h.configHome.trans h'.configHome
  journal := h.journal.trans h'.journal
  elsewhere a ha := (h.elsewhere a ha).trans (h'.elsewhere a (h.journal ▸ ha))

theorem log_keeps (env : Environment) (r : Journal.Record) : env.Keeps (env.log r) where
  alike := log_alike env r
  limits := rfl
  configHome := rfl
  journal := rfl
  elsewhere a ha := by
    refine (FileTree.find?_appendAll_of_ne env.files.tree fun w hw => ?_).symm
    obtain ⟨h, hh, hout⟩ := List.mem_filterMap.1 hw
    obtain ⟨b, -, rfl⟩ := Option.map_eq_some_iff.1 hout
    exact ha h hh

theorem warn_keeps (env : Environment) (message : Text) : env.Keeps (env.warn message) := by
  unfold warn captureWarning
  split
  · exact log_keeps env _
  · exact ⟨⟨.refl _, rfl, rfl, rfl⟩, rfl, rfl, rfl, fun _ _ => rfl⟩

theorem report_keeps (env : Environment) (r : Report) : env.Keeps (env.report r) :=
  (log_keeps env _).trans (warn_keeps _ _)

theorem foldl_raise_keeps (env : Environment) (xs : List Settings.Objection) :
    env.Keeps (xs.foldl raise env) := by
  induction xs generalizing env with
  | nil => exact .refl env
  | cons x xs ih =>
    have hraise : env.Keeps (env.raise x) := by
      unfold raise
      cases x.former with
      | none => exact report_keeps env _
      | some v => exact (report_keeps env _).trans (log_keeps _ _)
    exact hraise.trans (ih _)

theorem Loaded.keeps {env final : Environment} {path : Text} {entries : List (Text × Value)}
    (h : Loaded env final path entries) : env.Keeps final := by
  obtain ⟨halike, hlimits, hhome, hjournal, helse⟩ :=
    env.foldl_raise_keeps (entries.filterMap (env.objection? path))
  rw [h.raised]
  exact ⟨⟨halike.files, halike.home, halike.ownHome, halike.accounts⟩, hlimits, hhome, hjournal, helse⟩

/-- Loading a file leaves all other files, the variables and the journal alone. -/
theorem load_keeps (env : Environment) (path : Text) : env.Keeps (env.load path).1 := by
  by_cases h : ∃ entries, env.readSettings path = .ok (.dict entries)
  · obtain ⟨entries, h⟩ := h
    rw [load_of_dict h]
    obtain ⟨final, hrun, hloaded, -⟩ | ⟨final, before, t, after, e, hrun, -, -, hloaded⟩ :=
      env.loadEntries_cases path (nodup_of_readSettings h)
    · rw [hrun]
      exact hloaded.keeps
    · rw [hrun]
      exact hloaded.keeps
  · obtain ⟨r, hr⟩ := load_of_not_dict fun entries hentries => h ⟨entries, hentries⟩
    rw [hr]
    exact report_keeps env r

/-! ## What a file gives -/

/-- Is the value one the option may have? A refused check says no. -/
def isValid (env : Environment) (k : Key) (v : Value) : Bool :=
  match env.accepts k v with
  | .ok valid => valid
  | .error _ => false

theorem isValid_iff (env : Environment) (k : Key) (v : Value) :
    env.isValid k v = true ↔ env.accepts k v = .ok true := by
  unfold isValid
  cases env.accepts k v <;> simp

/-- The value that the settings file at a path gives an option, if it is valid for it. -/
def given? (env : Environment) (path : Text) (k : Key) : Option Value :=
  match env.readSettings path with
  | .ok (.dict entries) => (entries.lookup (Text.ofString k.name)).filter (env.isValid k)
  | _ => none

theorem lookup_eq_some_iff_mem {l : List (Text × Value)} (h : (l.map Prod.fst).Nodup) (name : Text)
    (v : Value) : l.lookup name = some v ↔ (name, v) ∈ l := by
  rw [List.lookup_eq_some_iff]
  constructor
  · rintro ⟨before, after, rfl, -⟩
    simp
  · intro hmem
    obtain ⟨before, after, rfl⟩ := List.append_of_mem hmem
    refine ⟨before, after, rfl, fun p hp => ?_⟩
    rw [List.map_append, List.map_cons] at h
    have hdisjoint := List.disjoint_of_nodup_append h (List.mem_map_of_mem hp)
    rw [bne_iff_ne]
    rintro rfl
    exact hdisjoint List.mem_cons_self

theorem given?_eq_some_iff {env : Environment} {path : Text} {entries : List (Text × Value)}
    (h : env.readSettings path = .ok (.dict entries)) (k : Key) (v : Value) :
    env.given? path k = some v ↔
      (Text.ofString k.name, v) ∈ entries ∧ env.accepts k v = .ok true := by
  simp only [given?, h, Option.filter_eq_some_iff, isValid_iff,
    lookup_eq_some_iff_mem (nodup_of_readSettings h)]

theorem given?_of_not_dict {env : Environment} {path : Text}
    (h : ∀ entries, env.readSettings path ≠ .ok (.dict entries)) (k : Key) :
    env.given? path k = none := by
  unfold given?
  split
  · next entries hentries => exact absurd hentries (h entries)
  · rfl

/-- What is no file gives nothing: a directory cannot be read, and a device holds nothing. -/
theorem given?_of_not_isFile {env : Environment} {path : Text} (h : env.files.isFile path = false)
    (k : Key) : env.given? path k = none := by
  refine given?_of_not_dict (fun entries hentries => ?_) k
  have hempty : parse env.limits [] = .error .badSyntax := rfl
  unfold Files.isFile at h
  unfold readSettings Files.read at hentries
  cases hlookup : env.files.lookup path with
  | error e => simp [hlookup] at hentries
  | ok found =>
    obtain ⟨a, n⟩ := found
    rw [hlookup] at h hentries
    cases hread : (env.files.tree.access a).read with
    | false => simp [hread] at hentries
    | true =>
      cases n with
      | file content => cases h
      | special gives => cases h
      | _ => simp [hread, hempty] at hentries

/-- Does a handler write to the file at a path? -/
def WritesTo (env : Environment) (path : Text) : Prop :=
  ∃ h ∈ env.journal.attached, ∃ n, env.files.lookup path = .ok (h.address, n)

/-- A file that no handler writes to gives the same as before. -/
theorem Keeps.given? {env env' : Environment} (hkeeps : env.Keeps env') {path : Text}
    (h : ¬ env.WritesTo path) (k : Key) : env'.given? path k = env.given? path k := by
  have hread : env'.files.read path = env.files.read path := by
    obtain ⟨e, he, he'⟩ | ⟨a, n, n', hn, hn', -⟩ := Files.lookup_cases hkeeps.alike.files path
    · simp only [Files.read, he, he']
    · have hsame := hkeeps.elsewhere a fun handler hmem heq =>
        h ⟨handler, hmem, n, by rw [hn, heq]⟩
      obtain ⟨-, -, -, ha⟩ := Files.lookup_ok hn
      obtain ⟨-, -, -, ha'⟩ := Files.lookup_ok hn'
      rw [ha, ha'] at hsame
      obtain rfl := Option.some.inj hsame
      simp only [Files.read, hn, hn', hkeeps.alike.files.tree.access]
  have hvalid : env'.isValid = env.isValid := by
    funext k v
    simp only [isValid, accepts_alike hkeeps.alike]
  simp only [Environment.given?, readSettings, hread, hvalid, hkeeps.limits]

/-! ## One file after the other -/

/-- Loads a settings file if there is one. -/
def offer (env : Environment) (path : Text) : Environment :=
  if env.files.isFile path then (env.load path).1 else env

/-- No check is refused where the file is loaded. -/
def IsUnrefused (env : Environment) (path : Text) : Prop :=
  env.files.isFile path = true → ∀ e, (env.load path).2 ≠ .error e

theorem loaded_of_load {env : Environment} {path : Text} {entries : List (Text × Value)}
    (h : env.readSettings path = .ok (.dict entries)) (hok : ∀ e, (env.load path).2 ≠ .error e) :
    Loaded env (env.load path).1 path entries := by
  rw [load_of_dict h] at hok ⊢
  obtain ⟨final, hrun, hloaded, -⟩ | ⟨final, before, t, after, e, hrun, -⟩ :=
    env.loadEntries_cases path (nodup_of_readSettings h)
  · rw [hrun]
    exact hloaded
  · rw [hrun] at hok
    exact absurd rfl (hok e)

/-- An option has the value that the file gives it, or keeps the one it has. -/
theorem offer_value {env : Environment} {path : Text} (h : env.IsUnrefused path) (k : Key) :
    (env.offer path).options.value k = (env.given? path k).getD (env.options.value k) := by
  unfold offer
  cases hfile : env.files.isFile path with
  | false =>
    rw [given?_of_not_isFile hfile]
    rfl
  | true =>
    rw [if_pos rfl]
    by_cases hdict : ∃ entries, env.readSettings path = .ok (.dict entries)
    · obtain ⟨entries, hentries⟩ := hdict
      have hloaded := loaded_of_load hentries (h hfile)
      cases hgiven : env.given? path k with
      | some v =>
        obtain ⟨hmem, hv⟩ := (given?_eq_some_iff hentries k v).1 hgiven
        rw [Settings.Options.value, hloaded.given k v hmem hv]
        rfl
      | none =>
        have hkept := hloaded.kept k fun v hmem hv => by
          rw [(given?_eq_some_iff hentries k v).2 ⟨hmem, hv⟩] at hgiven
          cases hgiven
        rw [Settings.Options.value, hkept]
        rfl
    · have hnot : ∀ entries, env.readSettings path ≠ .ok (.dict entries) :=
        fun entries hentries => hdict ⟨entries, hentries⟩
      obtain ⟨r, hr⟩ := load_of_not_dict hnot
      rw [hr, report_options, given?_of_not_dict hnot]
      rfl

theorem offer_keeps (env : Environment) (path : Text) : env.Keeps (env.offer path) := by
  unfold offer
  split
  · exact load_keeps env path
  · exact .refl env

/-- The environment when the files at these paths have been loaded, the last one first. -/
def offered (env : Environment) : List Text → Environment
  | [] => env
  | path :: behind => (env.offered behind).offer path

/-- The files, each with the environment that it is loaded in. -/
def turns (env : Environment) : List Text → List (Text × Environment)
  | [] => []
  | path :: behind => (path, env.offered behind) :: env.turns behind

theorem offered_keeps (env : Environment) (paths : List Text) : env.Keeps (env.offered paths) := by
  induction paths with
  | nil => exact .refl env
  | cons path behind ih => exact ih.trans (offer_keeps _ path)

theorem offered_append (env : Environment) (paths behind : List Text) :
    env.offered (paths ++ behind) = (env.offered behind).offered paths := by
  induction paths with
  | nil => rfl
  | cons path paths ih => rw [List.cons_append, offered, ih, offered]

theorem turns_append (env : Environment) (paths behind : List Text) :
    env.turns (paths ++ behind) = (env.offered behind).turns paths ++ env.turns behind := by
  induction paths with
  | nil => rfl
  | cons path paths ih => rw [List.cons_append, turns, ih, offered_append, turns, List.cons_append]

theorem map_fst_turns (env : Environment) (paths : List Text) :
    (env.turns paths).map Prod.fst = paths := by
  induction paths with
  | nil => rfl
  | cons path behind ih => rw [turns, List.map_cons, ih]

theorem turns_keeps {env : Environment} {paths : List Text} {turn : Text × Environment}
    (h : turn ∈ env.turns paths) : env.Keeps turn.2 := by
  induction paths with
  | nil => cases h
  | cons path behind ih =>
    obtain rfl | h := List.mem_cons.1 h
    · exact offered_keeps env behind
    · exact ih h

/-- The first file that gives an option a value counts. -/
theorem offered_value {env : Environment} {paths : List Text}
    (h : ∀ turn ∈ env.turns paths, turn.2.IsUnrefused turn.1) (k : Key) :
    (env.offered paths).options.value k =
      ((env.turns paths).findSome? fun turn => turn.2.given? turn.1 k).getD (env.options.value k) := by
  induction paths with
  | nil => rfl
  | cons path behind ih =>
    obtain ⟨hpath, hbehind⟩ := List.forall_mem_cons.1 h
    rw [offered, offer_value hpath, ih hbehind, turns, List.findSome?_cons]
    cases (env.offered behind).given? path k <;> rfl

/-- The first file counts as it was at the start, if no handler writes to any of them. -/
theorem findSome?_turns {env : Environment} {paths : List Text}
    (h : ∀ path ∈ paths, ¬ env.WritesTo path) (k : Key) :
    ((env.turns paths).findSome? fun turn => turn.2.given? turn.1 k) =
      paths.findSome? fun path => env.given? path k := by
  have hsame : ∀ turns : List (Text × Environment),
      (∀ turn ∈ turns, turn.2.given? turn.1 k = env.given? turn.1 k) →
      (turns.findSome? fun turn => turn.2.given? turn.1 k) =
        (turns.map Prod.fst).findSome? fun path => env.given? path k := by
    intro turns hturns
    induction turns with
    | nil => rfl
    | cons turn turns ih =>
      obtain ⟨hturn, hturns⟩ := List.forall_mem_cons.1 hturns
      rw [List.findSome?_cons, List.map_cons, List.findSome?_cons, hturn, ih hturns]
  rw [hsame (env.turns paths), map_fst_turns]
  intro turn hturn
  refine (turns_keeps hturn).given? (h turn.1 ?_) k
  rw [← map_fst_turns env paths]
  exact List.mem_map_of_mem hturn

/-! ## The search -/

/-- The files of the search list, the one that counts most first. -/
def searchPaths (env : Environment) : List Text :=
  ((Text.splitOn 0x3A (env.configDirs.getD (Text.ofString "/etc"))).filter env.isSearched).map below

theorem isSearched_keeps {env env' : Environment} (h : env.Keeps env') :
    env'.isSearched = env.isSearched := by
  funext dir
  simp only [isSearched, h.alike.files.workdir]

theorem exists_userFile (env : Environment) : ∃ path, env.userFile = .ok path := by
  unfold userFile
  cases env.configHome with
  | some dir => exact ⟨_, rfl⟩
  | none =>
    -- without an own home directory the tilde stays
    have htilde := env.withHome_tilde (List.not_mem_nil : Path.slash ∉ ([] : Text)) (.inl rfl)
    have hown : env.homeOf? [] = .ok (env.home <|> env.ownHome) := rfl
    rw [List.append_nil, hown] at htilde
    dsimp only
    rw [htilde]
    cases env.home <|> env.ownHome <;> exact ⟨_, rfl⟩

theorem userFile_keeps {env env' : Environment} (h : env.Keeps env') :
    env'.userFile = env.userFile := by
  simp only [userFile, h.configHome, withHome_alike h.alike]

theorem offer_of_load {env env' : Environment} {path : Text} {r : Bool}
    (hfile : env.files.isFile path = true) (hload : env.load path = (env', .ok r)) :
    env.offer path = env' ∧ env.IsUnrefused path := by
  constructor
  · rw [offer, if_pos hfile, hload]
  · intro _ e he
    rw [hload] at he
    cases he

theorem offer_of_not_isFile {env : Environment} {path : Text} (h : env.files.isFile path ≠ true) :
    env.offer path = env ∧ env.IsUnrefused path :=
  ⟨if_neg h, fun hfile => absurd hfile h⟩

/-- Loads settings files one after the other, up to the first that is refused. -/
def loadAll (env : Environment) : List Text → Environment × Except Refusal Unit
  | [] => (env, .ok ())
  | path :: rest => match env.load path with
    | (env, .error e) => (env, .error e)
    | (env, .ok _) => env.loadAll rest

theorem loadAll_append (env : Environment) (paths rest : List Text) :
    env.loadAll (paths ++ rest) = match env.loadAll paths with
      | (env, .error e) => (env, .error e)
      | (env, .ok ()) => env.loadAll rest := by
  induction paths generalizing env with
  | nil => rfl
  | cons path paths ih =>
    rw [List.cons_append, loadAll, loadAll]
    split
    · rfl
    · exact ih _

theorem loadAll_keeps (env : Environment) (paths : List Text) : env.Keeps (env.loadAll paths).1 := by
  induction paths generalizing env with
  | nil => exact .refl env
  | cons path paths ih =>
    have hload := load_keeps env path
    rw [loadAll]
    split
    · next heq => rwa [heq] at hload
    · next heq =>
      rw [heq] at hload
      exact hload.trans (ih _)

theorem Keeps.isFile {env env' : Environment} (h : env.Keeps env') :
    env'.files.isFile = env.files.isFile :=
  funext fun path => (Files.isFile_alike h.alike.files path).symm

/-- Looking into directories loads the settings files that are there. -/
theorem loadDirs_eq_loadAll (env : Environment) (dirs : List Text) :
    env.loadDirs dirs =
      env.loadAll (((dirs.filter env.isSearched).map below).filter env.files.isFile) := by
  induction dirs generalizing env with
  | nil => rfl
  | cons dir rest ih =>
    rw [loadDirs]
    cases hs : env.isSearched dir with
    | false =>
      rw [Bool.false_and, if_neg Bool.false_ne_true, List.filter_cons_of_neg (by simp [hs])]
      exact ih env
    | true =>
      rw [Bool.true_and, List.filter_cons_of_pos hs, List.map_cons]
      cases hf : env.files.isFile (below dir) with
      | false =>
        rw [if_neg Bool.false_ne_true, List.filter_cons_of_neg (by simp [hf])]
        exact ih env
      | true =>
        have hkeeps := load_keeps env (below dir)
        rw [if_pos rfl, List.filter_cons_of_pos hf, loadAll]
        cases hload : env.load (below dir) with
        | mk env' r =>
          rw [hload] at hkeeps
          cases r with
          | error e => rfl
          | ok _ =>
            -- the directories and files that are left are the same as before the file was loaded
            have hrest := ih env'
            rw [isSearched_keeps hkeeps, hkeeps.isFile] at hrest
            exact hrest

theorem loadUser_eq_loadAll {env : Environment} {user : Text} (h : env.userFile = .ok user) :
    env.loadUser = env.loadAll ([user].filter env.files.isFile) := by
  unfold loadUser
  rw [h]
  cases hf : env.files.isFile user with
  | false => simp [hf, loadAll]
  | true =>
    rw [List.filter_cons_of_pos hf, List.filter_nil, loadAll]
    dsimp only
    rw [if_pos hf]
    obtain ⟨env', r⟩ := env.load user
    cases r with
    | error e => rfl
    | ok _ => rfl

/-- A search loads the settings files that there are, the user's own last. -/
theorem loadSearched_eq_loadAll {env : Environment} {user : Text} (h : env.userFile = .ok user) :
    env.loadSearched =
      env.loadAll ((env.searchPaths.reverse ++ [user]).filter env.files.isFile) := by
  have hpaths : (env.searchDirs.filter env.isSearched).map below = env.searchPaths.reverse := by
    rw [searchDirs, searchPaths, List.filter_reverse, List.map_reverse]
  have hdirs := env.loadDirs_eq_loadAll env.searchDirs
  rw [hpaths] at hdirs
  have hkeeps := env.loadAll_keeps (env.searchPaths.reverse.filter env.files.isFile)
  rw [List.filter_append, loadAll_append, loadSearched, hdirs]
  cases hload : env.loadAll (env.searchPaths.reverse.filter env.files.isFile) with
  | mk env' r =>
    rw [hload] at hkeeps
    cases r with
    | error e => rfl
    | ok _ =>
      have hlast := loadUser_eq_loadAll ((userFile_keeps hkeeps).trans h)
      rw [hkeeps.isFile] at hlast
      exact hlast

/-- Files that are loaded well are offered in turn; the ones that are loaded first count least. -/
theorem loadAll_ok {env final : Environment} {paths : List Text}
    (h : env.loadAll (paths.filter env.files.isFile) = (final, .ok ())) :
    final = env.offered paths.reverse ∧
      ∀ turn ∈ env.turns paths.reverse, turn.2.IsUnrefused turn.1 := by
  induction paths generalizing env with
  | nil =>
    cases h
    exact ⟨rfl, fun turn hturn => by cases hturn⟩
  | cons path rest ih =>
    have hstep : env.IsUnrefused path ∧
        (env.offer path).loadAll (rest.filter env.files.isFile) = (final, .ok ()) := by
      by_cases hfile : env.files.isFile path = true
      · rw [List.filter_cons_of_pos hfile, loadAll] at h
        split at h
        · cases h
        · next env' r hload =>
          obtain ⟨hoffer, hok⟩ := offer_of_load hfile hload
          exact ⟨hok, hoffer ▸ h⟩
      · rw [List.filter_cons_of_neg hfile] at h
        obtain ⟨hoffer, hok⟩ := offer_of_not_isFile hfile
        exact ⟨hok, hoffer.symm ▸ h⟩
    obtain ⟨hok, hrest⟩ := hstep
    rw [← (offer_keeps env path).isFile] at hrest
    obtain ⟨hfinal, hturns⟩ := ih hrest
    rw [List.reverse_cons, offered_append, turns_append]
    refine ⟨hfinal, fun turn hturn => ?_⟩
    obtain hturn | hturn := List.mem_append.1 hturn
    · exact hturns turn hturn
    · obtain rfl := List.mem_singleton.1 hturn
      exact hok

/-- Searching offers the files in turn, the user's own last. -/
theorem loadSearched_ok {env final : Environment} (h : env.loadSearched = (final, .ok ()))
    {user : Text} (huser : env.userFile = .ok user) :
    final = env.offered (user :: env.searchPaths) ∧
      ∀ turn ∈ env.turns (user :: env.searchPaths), turn.2.IsUnrefused turn.1 := by
  rw [loadSearched_eq_loadAll huser] at h
  have hoffered := loadAll_ok h
  rwa [List.reverse_append, List.reverse_reverse, List.reverse_singleton,
    List.singleton_append] at hoffered

/-- Let a search for settings files end well. The user's own file counts most, and then those of
the search list, in order; only directories in absolute normal form are searched. Each option
has the value that the first file gives it that is there, holds an object, and has a valid value
for it, whatever is the matter with the files in front; it keeps its value if there is none. Each
file counts as it is when its turn comes, which is as it was at the start if no handler writes to
it. -/
theorem loadSearched_first {env final : Environment} (h : env.loadSearched = (final, .ok ())) :
    ∃ user, env.userFile = .ok user ∧ ∀ k : Key,
      let paths := user :: env.searchPaths
      final.options.value k =
        ((env.turns paths).findSome? fun turn => turn.2.given? turn.1 k).getD
          (env.options.value k) ∧
      (∀ turn ∈ env.turns paths, ¬ env.WritesTo turn.1 →
        turn.2.given? turn.1 k = env.given? turn.1 k) ∧
      ((∀ path ∈ paths, ¬ env.WritesTo path) → final.options.value k =
        (paths.findSome? fun path => env.given? path k).getD (env.options.value k)) := by
  obtain ⟨user, huser⟩ := env.exists_userFile
  obtain ⟨rfl, hturns⟩ := loadSearched_ok h huser
  refine ⟨user, huser, fun k => ⟨offered_value hturns k, ?_, fun hwrites => ?_⟩⟩
  · intro turn hturn hwrites
    exact (turns_keeps hturn).given? hwrites k
  · rw [offered_value hturns k, findSome?_turns hwrites]

/-- A directory below the root with a settings file. -/
def settingsIn (dir content : String) : List (Address × Node) :=
  let above := [Bytes.ofString dir, Bytes.ofString "term_tags"]
  [([Bytes.ofString dir], .directory), (above, .directory),
    (above ++ [Bytes.ofString "config.json"], .file (Bytes.ofString content))]

/-- A program whose own settings file has a depth that is not valid. Of the files in the search
list, the first is malformed, and the second stands in a directory that is not searched. -/
def searching : Environment :=
  { bare with
    files := ⟨.ofNodes (settingsIn "u" "\x7b\"color depth\": 16, \"direction\": \"bg\"\x7d" ++
      settingsIn "a" "\x7b" ++ settingsIn "b" "\x7b\"color depth\": 24\x7d" ++
      settingsIn "c" "\x7b\"color depth\": 4, \"direction\": \"fg\"\x7d"), [Path.slash]⟩
    configHome := some (Text.ofString "/u")
    configDirs := some (Text.ofString "/a:b:/c") }

/-- The depth comes from the third file of the list, and the direction from the user's own. -/
theorem loadSearched_first_searching :
    ∃ final, searching.loadSearched = (final, .ok ()) ∧
      (final.options.value .colorDepth).same (.int 4) = true ∧
      (final.options.value .direction).same (.text (Text.ofString "bg")) = true := by
  have hok : searching.loadSearched.2 = .ok () := eq_ok_of_toOption (by decide +kernel)
  have hsearched : searching.loadSearched = (searching.loadSearched.1, .ok ()) := by rw [← hok]
  obtain ⟨user, huser, hvalue⟩ := loadSearched_first hsearched
  obtain rfl : below (Text.ofString "/u") = user := Except.ok.inj huser
  -- nothing is written to any file, as no journal is set up
  have hnot : ∀ path, ¬ searching.WritesTo path := by
    rintro path ⟨h, hmem, -⟩
    cases hmem
  refine ⟨_, hsearched, ?_, ?_⟩
  · rw [(hvalue .colorDepth).2.2 fun path _ => hnot path]
    decide +kernel
  · rw [(hvalue .direction).2.2 fun path _ => hnot path]
    decide +kernel

end ColorMarkup.Environment
