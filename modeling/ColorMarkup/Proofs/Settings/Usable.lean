import ColorMarkup.Proofs.Journal.Configure
import ColorMarkup.Settings.Store
/-!
# Options that can be used

What a settings file may hold for an option is decided by the check of that option; what the
mode takes is decided by the mode, and more is taken there: the depth may be a depth of the
library, and the direction may be in capitals. An option that is only ever loaded, stored and
reset has a value that both sides agree on, whatever the files are and however the steps end.
Configuring then gives the mode exactly these values.

Results:
* `usable_kept`: an entry that is taken leaves options that can be used.
* `Options.Usable.after`: so does every run of steps.
* `applyOptions_mode`: such options are taken for the mode as they are.
* `loaded_options_usable`: the values after every step, and the mode after configuring.
-/
namespace ColorMarkup

namespace Settings

/-- Can the value be used for the option as it stands? A depth is the number of its bits, a
direction its code, and a level one of the names. -/
def Key.IsUsable : Key → Value → Prop
  | colorDepth, v => ∃ d : Depth, v = .int d.bits
  | direction, v => ∃ d : Direction, v = .text (Text.ofString d.code)
  | logFile, v => ∃ t, v = .text t
  | logLevel, v => ∃ name ∈ levelNames, v = .text (Text.ofString name)

theorem Key.isUsable_initial (k : Key) : k.IsUsable k.initial := by
  cases k with
  | colorDepth => exact ⟨.eight, rfl⟩
  | direction => exact ⟨.foreground, rfl⟩
  | logFile => exact ⟨_, rfl⟩
  | logLevel => exact ⟨"WARNING", by decide, rfl⟩

namespace Options

/-- Every value can be used, and every default is the one at the start. -/
structure Usable (o : Options) : Prop where
  value : ∀ k : Key, k.IsUsable (o.value k)
  default : ∀ k : Key, (o.get k).default = k.initial

theorem usable_initial : Usable .initial where
  value k := by cases k <;> exact Key.isUsable_initial _
  default k := by cases k <;> rfl

theorem Usable.reset {o : Options} (h : Usable o) : Usable o.reset where
  value k := by
    rw [Options.value, get_reset, h.default]
    exact k.isUsable_initial
  default k := by
    rw [get_reset, h.default]
    rfl

end Options
end Settings

namespace Environment

open Settings (Key Options Refusal)
open Settings.Options (Usable)

/-! ## Loading -/

/-- A value of a settings file that passes the check of an option can be used for it. -/
theorem isUsable_of_accepts {env : Environment} {k : Key} {v : Value}
    (h : env.accepts k v = .ok true) (hjson : Json.IsJson v) : k.IsUsable v := by
  cases k with
  | colorDepth =>
    cases v with
    | int n =>
      obtain ⟨d, hd⟩ := Option.isSome_iff_exists.1 (Except.ok.inj h)
      exact ⟨d, congrArg Value.int ((Depth.ofBits?_eq_some_iff n d).1 hd)⟩
    | depth d => exact hjson.elim
    | _ => cases h
  | direction =>
    cases v with
    | text t =>
      obtain ⟨d, hd⟩ := Option.isSome_iff_exists.1 (Except.ok.inj h)
      exact ⟨d, congrArg Value.text ((Direction.ofCode?_eq_some_iff t d).1 hd)⟩
    | _ => cases h
  | logFile => exact eq_text_of_accepts h
  | logLevel =>
    cases v with
    | text t =>
      obtain ⟨name, hmem, hname⟩ := List.any_eq_true.1 (Except.ok.inj h)
      exact ⟨name, hmem, congrArg Value.text (beq_iff_eq.1 hname).symm⟩
    | _ => cases h

theorem usable_kept : KeptByEntries Usable := by
  intro env env' path entry hjson htaken ho
  have hget : ∀ k : Key, (env'.options.get k = (env.options.get k).withValue entry.2 ∧
      k.IsUsable entry.2) ∨ env'.options.get k = env.options.get k := by
    intro k
    by_cases hk : entry.1 = Text.ofString k.name ∧ env.accepts k entry.2 = .ok true
    · exact .inl ⟨htaken.given k hk.1 hk.2, isUsable_of_accepts hk.2 hjson⟩
    · exact .inr (htaken.kept k fun hname hv => hk ⟨hname, hv⟩)
  refine ⟨fun k => ?_, fun k => ?_⟩
  · rw [Options.value]
    obtain ⟨hget, husable⟩ | hget := hget k
    · rw [hget]
      exact husable
    · rw [hget]
      exact ho.value k
  · rw [← ho.default k]
    obtain ⟨hget, -⟩ | hget := hget k
    · rw [hget]
      rfl
    · rw [hget]

/-! ## Configuring -/

/-- Setting up the journal leaves the options and the mode alone. -/
theorem openJournal_keeps (env : Environment) (s : Setup) :
    (env.openJournal s).1.options = env.options ∧ (env.openJournal s).1.mode = env.mode := by
  have hattach : ∀ (env : Environment) (file : Text) (a : Address) (repeats : Nat) (flag : Value),
      (env.attach s file a repeats flag).1.options = env.options ∧
      (env.attach s file a repeats flag).1.mode = env.mode := by
    intro env file a repeats flag
    unfold attach
    dsimp only
    split <;> exact ⟨rfl, rfl⟩
  unfold openJournal exclude
  dsimp only
  split
  · exact ⟨rfl, rfl⟩
  · cases Journal.elements s.exclude with
    | error e => exact ⟨rfl, rfl⟩
    | ok items =>
      dsimp only
      cases Journal.insertAll env.detach.journal.excluded items with
      | mk excluded r =>
        cases r with
        | error e => exact ⟨rfl, rfl⟩
        | ok _ =>
          dsimp only
          split
          · exact ⟨rfl, rfl⟩
          · exact hattach _ _ _ _ _

/-- What comes after the values have been applied leaves the options and the mode alone. -/
theorem configure_of_loaded {env loaded : Environment} {path : Value}
    (h : env.loadFrom path = (loaded, .ok ())) (withJournal : Bool) :
    (env.configure path withJournal).1.options = loaded.options ∧
      (env.configure path withJournal).1.mode = loaded.applyOptions.mode := by
  have hoptions := loaded.applyOptions_alike.2
  unfold configure
  rw [h]
  dsimp only
  cases withJournal with
  | false => exact ⟨hoptions, rfl⟩
  | true =>
    rw [if_pos rfl]
    cases loaded.applyOptions.configuredSetup with
    | error e => exact ⟨hoptions, rfl⟩
    | ok s =>
      obtain ⟨hkeeps, hmode⟩ := loaded.applyOptions.openJournal_keeps s
      exact ⟨hkeeps.trans hoptions, hmode⟩

theorem configure_options (env : Environment) (path : Value) (withJournal : Bool) :
    (env.configure path withJournal).1.options = (env.loadFrom path).1.options := by
  cases h : env.loadFrom path with
  | mk loaded r =>
    cases r with
    | error e => simp only [configure, h]
    | ok _ => exact (configure_of_loaded h withJournal).1

theorem run_requestDepth_mode (env : Environment) (d : Depth) :
    (env.run (.requestDepth (.int d.bits))).1.mode = { env.mode with depth := d } := by
  have hvalue : Depth.ofValue? (.int d.bits) = some d := (Depth.ofBits?_eq_some_iff _ d).2 rfl
  rw [run, logNotices_mode]
  simp only [Operation.run_eq, Outcome.map, Mode.requestDepth, hvalue]

theorem run_requestDirection_mode (env : Environment) (d : Direction) :
    (env.run (.requestDirection (.text (Text.ofString d.code)))).1.mode =
      { env.mode with direction := d } := by
  have hvalue : Direction.ofValue? (.text (Text.ofString d.code)) = some d := by
    cases d <;> rfl
  rw [run, logNotices_mode]
  simp only [Operation.run_eq, Outcome.map, Mode.requestDirection, hvalue]

/-- The depth and the direction of options that can be used are taken for the mode. -/
theorem applyOptions_mode {env : Environment} {depth : Depth} {direction : Direction}
    (hdepth : env.options.value .colorDepth = .int depth.bits)
    (hdirection : env.options.value .direction = .text (Text.ofString direction.code)) :
    env.applyOptions.mode = ⟨depth, direction⟩ := by
  unfold applyOptions
  dsimp only
  rw [(env.run_alike _).2, hdirection, run_requestDirection_mode, hdepth, run_requestDepth_mode]

end Environment

/-! ## Runs -/

namespace Settings

/-- What can be done with the options without giving one a value by hand. -/
inductive Step where
  | load (path : Value)
  | loadSearched
  | configure (path : Value) (withJournal : Bool)
  | store (path : Value)
  | reset

/-- The environment after a step, however it ends. -/
def Step.run (env : Environment) : Step → Environment
  | load path => (env.loadValue path).1
  | loadSearched => env.loadSearched.1
  | configure path withJournal => (env.configure path withJournal).1
  | store path => (env.storeValue path).1
  | reset => env.withOptions env.options.reset

theorem Step.run_usable (step : Step) {env : Environment} (h : env.options.Usable) :
    (step.run env).options.Usable := by
  cases step with
  | load path => exact Environment.usable_kept.loadValue env path h
  | loadSearched => exact Environment.usable_kept.loadSearched env h
  | configure path withJournal =>
    rw [run, Environment.configure_options]
    exact Environment.usable_kept.loadFrom env path h
  | store path =>
    have hkept : (env.storeValue path).1.options = env.options := by
      unfold Environment.storeValue
      split
      · exact Environment.store_options env _
      · exact Environment.report_options env _
    rw [run, hkept]
    exact h
  | reset => exact h.reset

/-- The options after steps, one after the other, each in an environment of its own. -/
def Options.after (o : Options) (steps : List (Environment × Step)) : Options :=
  steps.foldl (fun o (env, step) => (step.run (env.withOptions o)).options) o

theorem Options.Usable.after {o : Options} (h : Usable o) (steps : List (Environment × Step)) :
    (o.after steps).Usable := by
  induction steps generalizing o with
  | nil => exact h
  | cons step steps ih =>
    have hstep : (step.2.run (step.1.withOptions o)).options.Usable := step.2.run_usable h
    exact ih hstep

/-- After any steps from the options at the start, whatever the environments and the ends of the
steps, the depth is the number of bits of one, the direction a code and the log level one of the
names. Configuring that gets past loading gives the mode the depth and the direction that the
options have, whatever becomes of the journal. -/
theorem loaded_options_usable (steps : List (Environment × Step)) (surroundings : Environment) :
    let env := surroundings.withOptions (Options.initial.after steps)
    (∃ d : Depth, env.options.value .colorDepth = .int d.bits) ∧
    (∃ d : Direction, env.options.value .direction = .text (Text.ofString d.code)) ∧
    (∃ name ∈ Key.levelNames, env.options.value .logLevel = .text (Text.ofString name)) ∧
    ∀ path withJournal, (env.loadFrom path).2 = .ok () →
      let final := (env.configure path withJournal).1
      final.options.value .colorDepth = .int final.mode.depth.bits ∧
      final.options.value .direction = .text (Text.ofString final.mode.direction.code) := by
  intro env
  have husable : env.options.Usable := Options.usable_initial.after steps
  refine ⟨husable.value .colorDepth, husable.value .direction, husable.value .logLevel, ?_⟩
  intro path withJournal hok
  have hloaded := Environment.usable_kept.loadFrom env path husable
  have hload : env.loadFrom path = ((env.loadFrom path).1, .ok ()) := by rw [← hok]
  obtain ⟨hoptions, hmode⟩ := Environment.configure_of_loaded hload withJournal
  obtain ⟨depth, hdepth⟩ := hloaded.value .colorDepth
  obtain ⟨direction, hdirection⟩ := hloaded.value .direction
  rw [Environment.applyOptions_mode hdepth hdirection] at hmode
  simp only [hoptions, hmode]
  exact ⟨hdepth, hdirection⟩

/-- A program with one file, `c`, that has a depth, a direction in capitals and a level in small
letters. -/
def oddEntries : Environment :=
  { Environment.bare with files := ⟨.ofNodes [([Bytes.ofString "c"], .file (Bytes.ofString
    "\x7b\"color depth\": 24, \"direction\": \"BG\", \"log level\": \"debug\"\x7d"))],
    [Path.slash]⟩ }

/-- The depth of that file is taken, and the mode has it and the direction at the start. -/
theorem loaded_options_usable_oddEntries :
    let path := Value.text (Text.ofString "/c")
    let env := oddEntries.withOptions (Options.initial.after [(oddEntries, .load path)])
    let final := (env.configure path false).1
    (env.loadFrom path).2 = .ok () ∧
    final.options.value .colorDepth = .int final.mode.depth.bits ∧
    final.options.value .direction = .text (Text.ofString final.mode.direction.code) ∧
    final.mode = ⟨.twentyFour, .foreground⟩ := by
  have hok := Environment.eq_ok_of_toOption (x := ((oddEntries.withOptions (Options.initial.after
    [(oddEntries, .load (.text (Text.ofString "/c")))])).loadFrom (.text (Text.ofString "/c"))).2)
    (a := ()) (by decide +kernel)
  have hused := (loaded_options_usable [(oddEntries, .load (.text (Text.ofString "/c")))]
    oddEntries).2.2.2 (.text (Text.ofString "/c")) false hok
  exact ⟨hok, hused.1, hused.2, by decide +kernel⟩

end Settings
end ColorMarkup
