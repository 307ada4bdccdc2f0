import ColorMarkup.Proofs.Files.Normal
import ColorMarkup.Proofs.Settings.Precedence
/-!
# Which settings files a search loads

A search looks into the directories of its list and loads every settings file that is there, and
the user's own file last. It leaves out the directories that are not spelled in absolute normal
form. So relative directories are left out, the empty one with them, and of those that start from
the root the ones that end in a slash, repeat one, or have a component that stays or goes up:
whether a file is found depends on how the directory is spelled.

Results:
* `isSearched_iff`: the directories that a search looks into.
* `loadSearched_exactly`: all that a search loads.
-/
namespace ColorMarkup.Environment

theorem isSearched_iff {env : Environment} (h : Path.isAbsolute env.files.workdir = true) (dir : Text) :
    env.isSearched dir = true ↔ Path.IsNormal dir := by
  rw [isSearched, beq_iff_eq]
  exact Path.absolute_eq_self_iff h dir

/-- A search loads, one after the other, the settings files that there are in the directories of
its list, the last directory first, and the user's own file behind them. It looks into the
directories that start from the root and have no piece behind it that is empty, stays or goes up;
all others are left out, from the root or not. -/
theorem loadSearched_exactly {env : Environment} (h : Path.isAbsolute env.files.workdir = true) :
    let entries := Text.splitOn 0x3A (env.configDirs.getD (Text.ofString "/etc"))
    let paths := (entries.reverse.filter fun dir => Path.IsNormal dir).map below
    (∃ user, env.userFile = .ok user ∧
      env.loadSearched = env.loadAll ((paths ++ [user]).filter env.files.isFile)) ∧
    ∀ dir, (Path.isAbsolute dir = false → ¬ Path.IsNormal dir) ∧
      (Path.isAbsolute dir = true → (¬ Path.IsNormal dir ↔
        ∃ c ∈ Path.behindRoot dir, c = [] ∨ c = Path.here ∨ c = Path.up)) := by
  intro entries paths
  obtain ⟨user, huser⟩ := env.exists_userFile
  refine ⟨⟨user, huser, ?_⟩, fun dir => ⟨fun hdir hnormal => ?_, Path.not_isNormal_iff⟩⟩
  · have hnormal : (fun dir => decide (Path.IsNormal dir)) = env.isSearched :=
      funext fun dir => by rw [Bool.eq_iff_iff, isSearched_iff h, decide_eq_true_iff]
    have hpaths : paths = env.searchPaths.reverse := by
      rw [searchPaths, ← List.map_reverse, ← List.filter_reverse, ← hnormal]
    rw [hpaths, loadSearched_eq_loadAll huser]
  · rw [hnormal.isAbsolute] at hdir
    cases hdir

/-- Of the list `/a:b:/c` the last directory is looked into first, and the second one not at all. -/
theorem loadSearched_exactly_searching :
    Path.isAbsolute searching.files.workdir = true ∧
    searching.loadSearched = searching.loadAll
      [below (Text.ofString "/c"), below (Text.ofString "/a"), below (Text.ofString "/u")] := by
  have hworkdir : Path.isAbsolute searching.files.workdir = true := rfl
  obtain ⟨⟨user, huser, hload⟩, -⟩ := loadSearched_exactly hworkdir
  obtain rfl : below (Text.ofString "/u") = user := Except.ok.inj huser
  have hpaths : ((((Text.splitOn 0x3A (searching.configDirs.getD (Text.ofString "/etc"))).reverse.filter
      fun dir => Path.IsNormal dir).map below) ++ [below (Text.ofString "/u")]).filter
        searching.files.isFile =
      [below (Text.ofString "/c"), below (Text.ofString "/a"), below (Text.ofString "/u")] := by
    decide +kernel
  exact ⟨hworkdir, hload.trans (by rw [hpaths])⟩

/-- A program whose search list is one directory from the root, spelled with a slash at its end. -/
def searchingSlash : Environment :=
  { bare with
    files := ⟨.ofNodes (settingsIn "a" "\x7b\"color depth\": 24\x7d"), [Path.slash]⟩
    configDirs := some (Text.ofString "/a/") }

/-- The settings file in the directory is there and gives a depth, and the search does not load it. -/
theorem loadSearched_searchingSlash :
    Text.splitOn 0x3A (searchingSlash.configDirs.getD (Text.ofString "/etc")) = [Text.ofString "/a/"] ∧
    Path.isAbsolute (Text.ofString "/a/") = true ∧
    searchingSlash.files.isFile (below (Text.ofString "/a/")) = true ∧
    ((searchingSlash.load (below (Text.ofString "/a/"))).1.options.value .colorDepth).same (.int 24) = true ∧
    searchingSlash.loadSearched.2.isOk = true ∧
    (searchingSlash.loadSearched.1.options.value .colorDepth).same (.int 8) = true :=
  ⟨by decide +kernel, by decide +kernel, by decide +kernel, by decide +kernel, by decide +kernel,
    by decide +kernel⟩

end ColorMarkup.Environment
