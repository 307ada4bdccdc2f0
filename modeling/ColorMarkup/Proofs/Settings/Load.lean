import ColorMarkup.Proofs.Json.Keys
import ColorMarkup.Proofs.Settings.Access
import ColorMarkup.Settings.Load
import Mathlib.Data.List.Nodup
/-!
# Loading takes entry by entry

Each entry of a settings file gives its option a value, or is objected to: one report
is raised for it, and nothing else changes. As no two entries have one name, neither the
order of the entries nor what is held against some of them matters for the others. What
ends the loading early is an entry for the log file whose check is refused: it starts with
a home directory that cannot be put in. The entries before it have been taken then, it is
not reported, and those behind it are lost.

Results:
* `loadEntry_cases`: all that one entry can change.
* `loadEntries_cases`: what entries do, taken one after the other.
* `load_entrywise`: what loading a file does, and when it is refused.
-/
namespace ColorMarkup

namespace Settings

theorem Key.ofName?_eq_some_iff (t : Text) (k : Key) :
    Key.ofName? t = some k ↔ t = Text.ofString k.name := by
  constructor
  · intro h
    have hname := List.find?_some h
    simp only [beq_iff_eq] at hname
    exact hname.symm
  · rintro rfl
    exact Key.ofName?_name k

/-- What is held against an entry: the report, and the value that its option keeps. An
entry that names no option has none. -/
structure Objection where
  report : Report
  former : Option Value

end Settings

namespace Environment

open Settings (Key Refusal Report Objection Options shown)

/-! ## Objections -/

/-- What is held against an entry, if anything is. -/
def objection? (env : Environment) (path : Text) (entry : Text × Value) : Option Objection :=
  match Key.ofName? entry.1 with
  | none => some ⟨.unknownOption entry.1 path, none⟩
  | some k => match env.accepts k entry.2 with
    | .ok true => none
    | _ => some ⟨.rejected k entry.2, some (env.options.value k)⟩

/-- Reports an objection, and logs the value that is kept. -/
def raise (env : Environment) (o : Objection) : Environment :=
  match o.former with
  | none => env.report o.report
  | some v => (env.report o.report).log
    (.ofPart "config" Journal.infoLevel "load_config" ("Using former value: " ++ shown v ++ "."))

def withOptions (env : Environment) (o : Options) : Environment := { env with options := o }

/-- Nothing is held against the valid values of known options. -/
theorem objection?_eq_none_iff (env : Environment) (path : Text) (entry : Text × Value) :
    env.objection? path entry = none ↔
      ∃ k : Key, entry.1 = Text.ofString k.name ∧ env.accepts k entry.2 = .ok true := by
  constructor
  · intro h
    unfold objection? at h
    split at h
    · cases h
    · next k hk =>
      split at h
      · next hv => exact ⟨k, (Key.ofName?_eq_some_iff _ _).1 hk, hv⟩
      · cases h
  · rintro ⟨k, hk, hv⟩
    simp only [objection?, (Key.ofName?_eq_some_iff _ _).2 hk, hv]

theorem log_withOptions (env : Environment) (o : Options) (r : Journal.Record) :
    (env.withOptions o).log r = (env.log r).withOptions o := rfl

theorem warn_withOptions (env : Environment) (o : Options) (message : Text) :
    (env.withOptions o).warn message = (env.warn message).withOptions o := by
  unfold warn captureWarning
  show (if env.journal.capturing then _ else _) = _
  by_cases h : env.journal.capturing
  · rw [if_pos h, if_pos h]
    show (if env.journal.capturing then _ else _) = _
    rw [if_pos h, if_pos h]
    exact log_withOptions env o _
  · rw [if_neg h, if_neg h]
    rfl

/-- What is raised does not depend on the options. -/
theorem raise_withOptions (env : Environment) (o : Options) (x : Objection) :
    (env.withOptions o).raise x = (env.raise x).withOptions o := by
  have hreport : (env.withOptions o).report x.report = (env.report x.report).withOptions o := by
    rw [report, log_withOptions, warn_withOptions]
    rfl
  unfold raise
  cases x.former with
  | none => exact hreport
  | some v =>
    dsimp only
    rw [hreport, log_withOptions]

theorem foldl_raise_withOptions (env : Environment) (o : Options) (xs : List Objection) :
    xs.foldl raise (env.withOptions o) = (xs.foldl raise env).withOptions o := by
  induction xs generalizing env with
  | nil => rfl
  | cons x xs ih => rw [List.foldl_cons, raise_withOptions, ih, List.foldl_cons]

theorem raise_options (env : Environment) (x : Objection) : (env.raise x).options = env.options := by
  unfold raise
  cases x.former with
  | none => exact report_options _ _
  | some v => exact (log_options _ _).trans (report_options _ _)

theorem raise_alike (env : Environment) (x : Objection) : env.Alike (env.raise x) := by
  unfold raise
  cases x.former with
  | none => exact report_alike _ _
  | some v => exact (report_alike _ _).trans (log_alike _ _)

/-! ## One entry -/

theorem accepts_alike {env env' : Environment} (h : env.Alike env') (k : Key) (v : Value) :
    env.accepts k v = env'.accepts k v := by
  unfold accepts
  split <;> first | rfl | exact canWrite_alike h _

/-- The only check that is refused is that of the log file. -/
theorem accepts_error {env : Environment} {k : Key} {v : Value} {e : Refusal}
    (h : env.accepts k v = .error e) :
    k = .logFile ∧ ∃ t, v = .text t ∧ env.canWrite t = .error e := by
  unfold accepts at h
  split at h
  · cases h
  · cases h
  · next t => exact ⟨rfl, t, rfl, h⟩
  · cases h
  · cases h

theorem eq_text_of_accepts {env : Environment} {v : Value}
    (h : env.accepts .logFile v = .ok true) : ∃ t, v = .text t := by
  cases v with
  | text t => exact ⟨t, rfl⟩
  | _ => cases h

/-- All that one entry does, if its check is not refused. -/
structure Taken (env env' : Environment) (path : Text) (entry : Text × Value) : Prop where
  alike : env.Alike env'
  given : ∀ k : Key, entry.1 = Text.ofString k.name → env.accepts k entry.2 = .ok true →
    env'.options.get k = (env.options.get k).withValue entry.2
  kept : ∀ k : Key, (entry.1 = Text.ofString k.name → env.accepts k entry.2 ≠ .ok true) →
    env'.options.get k = env.options.get k
  raised : env' = ((env.objection? path entry).toList.foldl raise env).withOptions env'.options

theorem taken_raise {env : Environment} {path : Text} {entry : Text × Value} {x : Objection}
    (h : env.objection? path entry = some x) : Taken env (env.raise x) path entry where
  alike := raise_alike env x
  given k hk hv := by
    rw [(objection?_eq_none_iff env path entry).2 ⟨k, hk, hv⟩] at h
    cases h
  kept k _ := by rw [raise_options]
  raised := by rw [h]; rfl

/-- An entry that is not refused is taken; one that is refused is for the log file. -/
theorem loadEntry_cases (env : Environment) (path name : Text) (v : Value) :
    (∃ env', env.loadEntry path name v = .ok env' ∧ Taken env env' path (name, v)) ∨
    ∃ e t, env.loadEntry path name v = .error e ∧ name = Text.ofString Key.logFile.name ∧
      v = .text t ∧ env.canWrite t = .error e := by
  unfold loadEntry
  cases hk : Key.ofName? name with
  | none =>
    refine .inl ⟨_, rfl, taken_raise (x := ⟨.unknownOption name path, none⟩) ?_⟩
    simp only [objection?, hk]
  | some k =>
    have hname := (Key.ofName?_eq_some_iff _ _).1 hk
    dsimp only
    cases hv : env.accepts k v with
    | error e =>
      obtain ⟨rfl, t, rfl, ht⟩ := accepts_error hv
      exact .inr ⟨e, t, rfl, hname, rfl, ht⟩
    | ok valid =>
      cases valid with
      | false =>
        refine .inl ⟨_, rfl, ?_⟩
        refine taken_raise (x := ⟨.rejected k v, some (env.options.value k)⟩) ?_
        simp only [objection?, hk, hv]
      | true =>
        have hnone := (objection?_eq_none_iff env path (name, v)).2 ⟨k, hname, hv⟩
        refine .inl ⟨_, rfl, ⟨.refl _, rfl, rfl, rfl⟩, fun k' hk' _ => ?_, fun k' hk' => ?_, ?_⟩
        · obtain rfl : k = k' := Option.some.inj (hk.symm.trans ((Key.ofName?_eq_some_iff _ _).2 hk'))
          exact Options.get_set _ _ _
        · refine Options.get_set_of_ne _ (fun h => ?_) _
          subst h
          exact hk' hname hv
        · rw [hnone]
          rfl

theorem loadEntry_error {env : Environment} {t : Text} {e : Refusal} (h : env.canWrite t = .error e)
    (path : Text) : env.loadEntry path (Text.ofString Key.logFile.name) (.text t) = .error e := by
  simp only [loadEntry, Key.ofName?_name, accepts, h]

/-! ## All entries -/

/-- What entries with distinct names do, the checks of all of them being made as at the
start. -/
structure Loaded (env final : Environment) (path : Text) (entries : List (Text × Value)) : Prop where
  given : ∀ (k : Key) (v : Value), (Text.ofString k.name, v) ∈ entries →
    env.accepts k v = .ok true → final.options.get k = (env.options.get k).withValue v
  kept : ∀ k : Key, (∀ v, (Text.ofString k.name, v) ∈ entries → env.accepts k v ≠ .ok true) →
    final.options.get k = env.options.get k
  raised : final =
    ((entries.filterMap (env.objection? path)).foldl raise env).withOptions final.options

theorem Loaded.nil (env : Environment) (path : Text) : Loaded env env path [] where
  given k v h := by cases h
  kept k _ := rfl
  raised := rfl

/-- One entry, and then others of other names. -/
theorem Loaded.cons {env env' final : Environment} {path : Text} {entry : Text × Value}
    {rest : List (Text × Value)} (hentry : Taken env env' path entry)
    (hrest : Loaded env' final path rest) (hnew : entry.1 ∉ rest.map Prod.fst) :
    Loaded env final path (entry :: rest) := by
  have haccepts : ∀ k v, env'.accepts k v = env.accepts k v := fun k v =>
    (accepts_alike hentry.alike k v).symm
  have hne : ∀ (k : Key) (v : Value), (Text.ofString k.name, v) ∈ rest →
      entry.1 ≠ Text.ofString k.name := by
    intro k v hmem heq
    exact hnew (heq ▸ List.mem_map_of_mem (f := Prod.fst) hmem)
  constructor
  · intro k v hmem hv
    obtain rfl | hmem := List.mem_cons.1 hmem
    · rw [hrest.kept k fun v' hmem' => absurd rfl (hne k v' hmem')]
      exact hentry.given k rfl hv
    · rw [hrest.given k v hmem (by rwa [haccepts])]
      rw [hentry.kept k fun heq => absurd heq (hne k v hmem)]
  · intro k hk
    rw [hrest.kept k fun v hmem => by rw [haccepts]; exact hk v (.tail _ hmem)]
    exact hentry.kept k fun heq => hk entry.2 (by rw [← heq]; exact List.mem_cons_self)
  · -- the values that options keep are those at the start, as every option is named once
    have hobjections : rest.filterMap (env'.objection? path) =
        rest.filterMap (env.objection? path) := by
      refine List.filterMap_congr fun p hp => ?_
      unfold objection?
      cases hk : Key.ofName? p.1 with
      | none => rfl
      | some k =>
        have hname := (Key.ofName?_eq_some_iff _ _).1 hk
        have hkept := hentry.kept k fun heq => absurd heq (hne k p.2 (by rw [← hname]; exact hp))
        simp only [haccepts, Options.value, hkept]
    have hfinal := hrest.raised
    rw [hobjections, hentry.raised, foldl_raise_withOptions] at hfinal
    rw [hfinal]
    cases h : env.objection? path entry <;> simp [h, withOptions]

/-- All entries are taken, or those before the first one whose check is refused. -/
theorem loadEntries_cases (env : Environment) (path : Text) {entries : List (Text × Value)}
    (hkeys : (entries.map Prod.fst).Nodup) :
    (∃ final, env.loadEntries path entries = (final, .ok ()) ∧ Loaded env final path entries ∧
      ∀ t e, (Text.ofString Key.logFile.name, .text t) ∈ entries → env.canWrite t ≠ .error e) ∨
    ∃ final before t after e, env.loadEntries path entries = (final, .error e) ∧
      entries = before ++ (Text.ofString Key.logFile.name, .text t) :: after ∧
      env.canWrite t = .error e ∧ Loaded env final path before := by
  induction entries generalizing env with
  | nil => exact .inl ⟨env, rfl, .nil env path, by simp⟩
  | cons entry rest ih =>
    obtain ⟨name, v⟩ := entry
    obtain ⟨hnew, hrest⟩ := List.nodup_cons.1 hkeys
    obtain ⟨env', hstep, htaken⟩ | ⟨e, t, hstep, rfl, rfl, ht⟩ := env.loadEntry_cases path name v
    · have hcan := canWrite_alike htaken.alike
      obtain ⟨final, hrun, hloaded, hnone⟩ | ⟨final, before, t, after, e, hrun, rfl, ht, hloaded⟩ :=
        ih env' hrest
      · refine .inl ⟨final, (loadEntries_cons hstep rest).trans hrun, .cons htaken hloaded hnew, ?_⟩
        intro t e hmem ht
        obtain heq | hmem := List.mem_cons.1 hmem
        · cases heq
          rw [loadEntry_error ht] at hstep
          cases hstep
        · exact hnone t e hmem (by rw [← hcan, ht])
      · refine .inr ⟨final, (name, v) :: before, t, after, e, (loadEntries_cons hstep _).trans hrun,
          rfl, by rw [hcan, ht], .cons htaken hloaded fun hmem => hnew ?_⟩
        rw [List.map_append]
        exact List.mem_append_left _ hmem
    · exact .inr ⟨env, [], t, rest, e, by rw [loadEntries, hstep], rfl, ht, .nil env path⟩

/-! ## Warnings -/

theorem log_journal (env : Environment) (r : Journal.Record) : (env.log r).journal = env.journal :=
  rfl

theorem log_warnings (env : Environment) (r : Journal.Record) :
    (env.log r).warnings = env.warnings := rfl

/-- Each objection is shown as one warning, unless warnings are captured. -/
theorem raise_warnings {env : Environment} (h : env.journal.capturing = false) (x : Objection) :
    (env.raise x).warnings = env.warnings ++ [Text.ofString x.report.message] ∧
      (env.raise x).journal = env.journal := by
  have hreport : (env.report x.report).warnings =
      env.warnings ++ [Text.ofString x.report.message] ∧
      (env.report x.report).journal = env.journal := by
    simp [report, warn, log_journal, log_warnings, h]
  unfold raise
  cases x.former with
  | none => exact hreport
  | some v => simpa only [log_journal, log_warnings] using hreport

theorem foldl_raise_warnings {env : Environment} (h : env.journal.capturing = false)
    (xs : List Objection) : (xs.foldl raise env).warnings =
      env.warnings ++ xs.map fun x => Text.ofString x.report.message := by
  induction xs generalizing env with
  | nil => simp
  | cons x xs ih =>
    obtain ⟨hwarnings, hjournal⟩ := raise_warnings h x
    rw [List.foldl_cons, ih (by rw [hjournal, h]), hwarnings, List.map_cons, List.append_assoc,
      List.singleton_append]

/-- One warning for each entry that is held something against, in the order of the entries. -/
theorem Loaded.warnings {env final : Environment} {path : Text} {entries : List (Text × Value)}
    (h : Loaded env final path entries) (hc : env.journal.capturing = false) :
    final.warnings = env.warnings ++
      (entries.filterMap (env.objection? path)).map fun x => Text.ofString x.report.message := by
  rw [h.raised]
  exact foldl_raise_warnings hc _

/-! ## A file -/

/-- What a settings file holds makes up a text. -/
theorem read?_of_readSettings {env : Environment} {path : Text} {v : Value}
    (h : env.readSettings path = .ok v) : ∃ t, Json.read? t = some v := by
  unfold readSettings at h
  split at h
  · cases h
  · unfold parse at h
    split at h
    · cases h
    · split at h
      · cases h
      · split at h
        · cases h
        · next hv =>
          cases h
          exact ⟨_, hv⟩

theorem nodup_of_readSettings {env : Environment} {path : Text} {entries : List (Text × Value)}
    (h : env.readSettings path = .ok (.dict entries)) : (entries.map Prod.fst).Nodup := by
  obtain ⟨t, ht⟩ := read?_of_readSettings h
  exact Json.nodup_of_read? ht

theorem load_of_dict {env : Environment} {path : Text} {entries : List (Text × Value)}
    (h : env.readSettings path = .ok (.dict entries)) :
    env.load path = ((env.loadEntries path entries).1,
      (env.loadEntries path entries).2.map fun _ => true) := by
  simp only [load, h]

/-- A file that holds no object is reported once, and changes nothing else. -/
theorem load_of_not_dict {env : Environment} {path : Text}
    (h : ∀ entries, env.readSettings path ≠ .ok (.dict entries)) :
    ∃ r, env.load path = (env.report r, .ok false) := by
  unfold load
  split
  · next why _ => exact ⟨_, rfl⟩
  · next entries hentries => exact absurd hentries (h entries)
  · exact ⟨_, rfl⟩

/-- Does an entry give a path for the log file that starts with a home directory which
cannot be put in? -/
def Homeless (env : Environment) (entry : Text × Value) (e : Refusal) : Prop :=
  ∃ t user rest, entry = (Text.ofString Key.logFile.name, .text t) ∧
    SplitPath.ofText t = ⟨[], (tilde :: user) :: rest⟩ ∧ env.NoHome user e

theorem homeless_iff (env : Environment) (t : Text) (e : Refusal) :
    env.Homeless (Text.ofString Key.logFile.name, .text t) e ↔ env.canWrite t = .error e := by
  rw [canWrite_error_iff]
  constructor
  · rintro ⟨t', user, rest, heq, h⟩
    cases heq
    exact ⟨user, rest, h⟩
  · rintro ⟨user, rest, h⟩
    exact ⟨t, user, rest, rfl, h⟩

/-- Loading answers no if the file holds no object, and has changed no option and raised one
report then. The keys of an object are distinct; each option has the value of its entry
afterwards if that is valid for it, and its former value otherwise, and one report is raised
for each other entry, in order. All this holds, and the answer is yes, unless the object
gives the log file a path with a home directory that cannot be put in. The loading is
refused then, after the entries in front of that one have been taken. -/
theorem load_entrywise (env : Environment) (path : Text) :
    ((∀ entries, env.readSettings path ≠ .ok (.dict entries)) →
      ∃ r, env.load path = (env.report r, .ok false) ∧ (env.report r).options = env.options) ∧
    ∀ entries, env.readSettings path = .ok (.dict entries) →
      (entries.map Prod.fst).Nodup ∧
      ((∀ entry ∈ entries, ∀ e, ¬ env.Homeless entry e) →
        (env.load path).2 = .ok true ∧ Loaded env (env.load path).1 path entries ∧
        (env.journal.capturing = false → (env.load path).1.warnings = env.warnings ++
          (entries.filterMap (env.objection? path)).map fun x => Text.ofString x.report.message)) ∧
      ∀ entry ∈ entries, ∀ e, env.Homeless entry e →
        (env.load path).2 = .error e ∧ ∃ before after, entries = before ++ entry :: after ∧
          Loaded env (env.load path).1 path before := by
  constructor
  · intro h
    obtain ⟨r, hr⟩ := load_of_not_dict h
    exact ⟨r, hr, report_options env r⟩
  · intro entries hentries
    have hkeys := nodup_of_readSettings hentries
    rw [load_of_dict hentries]
    refine ⟨hkeys, ?_⟩
    obtain ⟨final, hrun, hloaded, hnone⟩ | ⟨final, before, t, after, e, hrun, rfl, ht, hloaded⟩ :=
      env.loadEntries_cases path hkeys
    · rw [hrun]
      refine ⟨fun _ => ⟨rfl, hloaded, hloaded.warnings⟩, fun entry hmem e hentry => ?_⟩
      obtain ⟨t, user, rest, rfl, hrest⟩ := hentry
      exact absurd ((env.canWrite_error_iff t e).2 ⟨user, rest, hrest⟩) (hnone t e hmem)
    · rw [hrun]
      constructor
      · intro h
        exact absurd ((env.homeless_iff t e).2 ht) (h _ (by simp) e)
      · -- no other entry has the name of the log file
        intro entry hmem e' hentry
        obtain ⟨t', user, rest, rfl, hrest⟩ := hentry
        have ht' := (env.canWrite_error_iff t' e').2 ⟨user, rest, hrest⟩
        have hsame : (Text.ofString Key.logFile.name, Value.text t') =
            (Text.ofString Key.logFile.name, Value.text t) :=
          List.inj_on_of_nodup_map hkeys hmem (by simp) rfl
        cases hsame
        obtain rfl : e = e' := Except.error.inj (ht.symm.trans ht')
        exact ⟨rfl, before, after, rfl, hloaded⟩

/-- A program that runs in the root of a tree with nothing in it, which is a home directory
as well. -/
def bare : Environment where
  files := ⟨.empty, [Path.slash]⟩
  home := some [Path.slash]
  ownHome := none
  accounts := []
  limits := ⟨100, 100, by decide, by decide⟩
  configHome := none
  configDirs := none
  options := .initial
  mode := .initial
  journal := .initial
  warnings := []
  caller := ⟨[], .int 1, none⟩

/-- A program with one file, `c`, that gives the log file a path under the home directory of
an unknown user, between two valid entries. -/
def unknownHome : Environment :=
  { bare with files := ⟨.ofNodes [([Bytes.ofString "c"], .file (Bytes.ofString
    "\x7b\"color depth\": 24, \"log file\": \"~nosuchuser_zz/log\", \"direction\": \"bg\"\x7d"))],
    [Path.slash]⟩ }

/-- The loading of that file has no answer; the entry in front has been taken, and the valid
one behind has not. -/
theorem load_unknownHome :
    let r := unknownHome.load (Text.ofString "/c")
    r.2.isOk = false ∧ (r.1.options.value .colorDepth).same (.int 24) = true ∧
    unknownHome.accepts .direction (.text (Text.ofString "bg")) = .ok true ∧
    (r.1.options.value .direction).same (.text (Text.ofString "bg")) = false :=
  ⟨by decide +kernel, by decide +kernel, rfl, by decide +kernel⟩

end Environment
end ColorMarkup
