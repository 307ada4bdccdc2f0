import ColorMarkup.Proofs.Files.Make
import ColorMarkup.Proofs.Json.Writable
import ColorMarkup.Proofs.Settings.Precedence
import ColorMarkup.Settings.Store
/-!
# What a failed store leaves

A store that answers no has changed no option. If every value can be written, and there is room for
the text, all that was there is there still, directories that were made on the way aside. But a file
is emptied before it is written, and a value that cannot be written is noticed only when its turn
comes: the file then holds what was written in front of that value, and its former content is lost.
So it is if there is no room for all of it. A store to a file that is there and that the user may
write fails in no other way, as nothing has to be made for such a file and it can be opened. A file
that the user may not write is left as it is.

Values that were loaded can all be written. So as long as there is room, it takes an option that was
given another value, such as a direction of the library, for a file to be lost.

Results:
* `storedText_refused_iff`: when all that is to be stored can be written.
* `store_cases`: how storing ends.
* `store_failed`: what a store that answers no has changed.
-/
namespace ColorMarkup

/-! ## What is written -/

namespace Settings

theorem Key.name_injective : Function.Injective fun k : Key => Text.ofString k.name := by
  intro k l h
  have hk := Key.ofName?_name k
  rw [show Text.ofString k.name = Text.ofString l.name from h, Key.ofName?_name] at hk
  exact (Option.some.inj hk).symm

namespace Options

variable {o : Options}

theorem mem_changed_iff {k : Key} {v : Value} :
    (Text.ofString k.name, v) ∈ o.changed ↔ (o.get k).isAtDefault = false ∧ v = o.value k := by
  simp only [changed, List.mem_map, List.mem_filter, Prod.mk.injEq, Bool.not_eq_true']
  constructor
  · rintro ⟨l, ⟨-, hl⟩, hname, rfl⟩
    rw [Key.name_injective hname] at hl ⊢
    exact ⟨hl, rfl⟩
  · rintro ⟨hk, rfl⟩
    exact ⟨k, ⟨by cases k <;> decide, hk⟩, rfl, rfl⟩

/-- Every entry that is stored is that of an option. -/
theorem exists_of_mem_changed {e : Text × Value} (h : e ∈ o.changed) :
    ∃ k : Key, e = (Text.ofString k.name, o.value k) := by
  obtain ⟨k, -, rfl⟩ := List.mem_map.1 h
  exact ⟨k, rfl⟩

end Options
end Settings

namespace Environment

open Settings (Key Options Trouble)
open Settings.Options (Accepted Reachable)

/-- Everything can be written exactly if the values that differ from their defaults can. -/
theorem storedText_refused_iff (env : Environment) :
    env.storedText.refused = none ↔
      ∀ k, (env.options.get k).isAtDefault = false → Json.isWritable (env.options.value k) = true := by
  have hdict : Json.isWritable (.dict env.options.changed) = true ↔
      ∀ e ∈ env.options.changed, Json.isWritable e.2 = true := by
    rw [Json.isWritable, Json.membersWritable_iff]
  rw [storedText, Json.refused_eq_none_iff, hdict]
  constructor
  · intro h k hk
    exact h _ (Options.mem_changed_iff.2 ⟨hk, rfl⟩)
  · intro h e he
    obtain ⟨k, rfl⟩ := Options.exists_of_mem_changed he
    exact h k (Options.mem_changed_iff.1 he).1

theorem isWritable_of_accepts {env : Environment} {k : Key} {v : Value}
    (h : env.accepts k v = .ok true) : Json.isWritable v = true := by
  cases v with
  | list vs => cases k <;> cases h
  | dict es => cases k <;> cases h
  | bytes holder b => cases k <;> cases h
  | direction d => cases k <;> cases h
  | _ => rfl

/-- Values that were loaded can be written. -/
theorem isWritable_of_reachable {o : Options} (h : Reachable o) (k : Key) :
    Json.isWritable (o.value k) = true := by
  obtain ⟨env, hv⟩ := accepted_of_reachable h k
  exact isWritable_of_accepts hv

/-! ## Where it is written -/

/-- For a file that is there no directory is made. -/
theorem makeDirectories_of_file {f : Files} {path : Text} {a : Address} {c : Bytes}
    (h : f.lookup path = .ok (a, .file c)) : f.makeDirectories (storeDir path) = (f, .ok ()) := by
  refine Files.makeDirectories_of_isDirectory ?_
  unfold storeDir
  dsimp only
  split
  · next hempty => exact Files.isDirectory_here h (List.isEmpty_iff.1 hempty)
  · next hempty =>
    refine Files.isDirectory_dirname h (by simp) fun hnil => hempty ?_
    rw [hnil]
    rfl

def withFiles (env : Environment) (f : Files) : Environment := { env with files := f }

/-- The bytes that are to be stored, up to the first value that cannot be written. -/
def storedBytes (env : Environment) : Bytes := (Utf8.encode env.storedText.text).getD []

/-- The files when what is to be stored has been written to an address. -/
def filled (env : Environment) (f : Files) (a : Address) : Files :=
  { f with tree := f.tree.overwrite a env.storedBytes }

/-- There is room for what is to be stored, all of it, where the path leads. -/
def HasRoom (env : Environment) (path : Text) : Prop :=
  ∀ f a, (env.files.makeDirectories (storeDir path)).1.openFile path = .ok (f, a) →
    (f.tree.access a).fit env.storedBytes = env.storedBytes

/-- Storing ends before the file is opened, or when all is written that can be. -/
theorem store_cases (env : Environment) (path : Text) :
    let made := env.files.makeDirectories (storeDir path)
    (∃ why, env.store path = ((env.withFiles made.1).report (.unwritten (.text path) why), false) ∧
      (made.2 = .ok () → ∃ e, made.1.openFile path = .error e)) ∨
    ∃ f a, made.1.openFile path = .ok (f, a) ∧
      ((env.storedText.refused = none ∧ (f.tree.access a).fit env.storedBytes = env.storedBytes ∧
          env.store path = (env.withFiles (env.filled f a), true)) ∨
        ∃ why, (env.storedText.refused ≠ none ∨ (f.tree.access a).fit env.storedBytes ≠ env.storedBytes) ∧
          env.store path =
            ((env.withFiles (env.filled f a)).report (.unwritten (.text path) why), false)) := by
  unfold store writeSettings
  obtain ⟨f, r⟩ := env.files.makeDirectories (storeDir path)
  cases r with
  | error e => exact .inl ⟨_, rfl, fun h => by cases h⟩
  | ok _ =>
    dsimp only
    cases hopen : f.openFile path with
    | error e => exact .inl ⟨_, rfl, fun _ => ⟨e, rfl⟩⟩
    | ok opened =>
      obtain ⟨f', a⟩ := opened
      refine .inr ⟨f', a, rfl, ?_⟩
      have hbytes : (Utf8.encode env.storedText.text).getD [] = env.storedBytes := rfl
      dsimp only
      rw [hbytes]
      by_cases hfit : (f'.tree.access a).fit env.storedBytes = env.storedBytes
      · rw [if_pos hfit]
        cases hrefused : env.storedText.refused with
        | none => exact .inl ⟨rfl, hfit, rfl⟩
        | some v => exact .inr ⟨_, .inl (by simp), rfl⟩
      · rw [if_neg hfit]
        exact .inr ⟨_, .inr hfit, rfl⟩

/-- No handler of the journal writes to the address. -/
def Unlogged (env : Environment) (a : Address) : Prop := ∀ h ∈ env.journal.attached, h.address ≠ a

theorem find?_report {env : Environment} {a : Address} (h : env.Unlogged a) (f : Files)
    (r : Settings.Report) : ((env.withFiles f).report r).files.tree.find? a = f.tree.find? a :=
  ((report_keeps (env.withFiles f) r).elsewhere a h).symm

/-- What is written to an opened file changes what is there only if that is a file the user may
write. -/
theorem find?_filled {env : Environment} {f f' : Files} {path : Text} {a b : Address} {n : Node}
    (hopen : f.openFile path = .ok (f', a)) (hn : f.tree.find? b = some n)
    (hnot : (∀ c, f.lookup path ≠ .ok (b, .file c)) ∨ (f.tree.access b).write = false) :
    (env.filled f' a).tree.find? b = some n := by
  have hopened := Files.openFile_ok hopen
  have hb := hopened.tree.find? b n hn
  show (f'.tree.overwrite _ _).find? b = some n
  by_cases hne : b = a
  · subst hne
    obtain ⟨hlookup, -, hwrite⟩ := hopened.kept n hn
    rw [hwrite] at hnot
    have hnotfile := hnot.resolve_right (by simp)
    rwa [FileTree.overwrite_of_not_file hb fun c hc => hnotfile c (hc ▸ hlookup)]
  · rwa [FileTree.find?_overwrite_of_ne _ hne]

/-- A failed store keeps what no handler of the journal writes to, if everything can be written and
there is room, or if it is no file at the path that the user may write. -/
theorem find?_of_store_failed {env : Environment} {path : Text} (h : (env.store path).2 = false)
    {a : Address} {n : Node} (hn : env.files.tree.find? a = some n) (hunlogged : env.Unlogged a)
    (hcase : (env.storedText.refused = none ∧ env.HasRoom path) ∨
      (∀ c, (env.files.makeDirectories (storeDir path)).1.lookup path ≠ .ok (a, .file c)) ∨
      (env.files.tree.access a).write = false) :
    (env.store path).1.files.tree.find? a = some n := by
  have hmade := (Files.makeDirectories_made env.files (storeDir path)).tree
  obtain ⟨why, hstore, -⟩ | ⟨f, b, hopen, ⟨-, -, hstore⟩ | ⟨why, hfailed, hstore⟩⟩ := env.store_cases path
  · rw [hstore]
    exact (find?_report hunlogged _ _).trans (hmade.find? a n hn)
  · rw [hstore] at h
    cases h
  · rw [hstore]
    have hnot := hcase.resolve_left fun ⟨hrefused, hroom⟩ =>
      hfailed.elim (absurd hrefused) (absurd (hroom f b hopen))
    rw [← hmade.access] at hnot
    exact (find?_report hunlogged _ _).trans (find?_filled hopen (hmade.find? a n hn) hnot)

/-- A store to a file that is there makes no directory. If the user may write it and the store fails,
that is for a value or for want of room, and the file is filled with what could be written. -/
theorem store_failed_of_file {env : Environment} {path : Text} (h : (env.store path).2 = false)
    {a : Address} {c : Bytes} (hfile : env.files.lookup path = .ok (a, .file c))
    (hwrite : (env.files.tree.access a).write = true) :
    (env.files.makeDirectories (storeDir path)).1 = env.files ∧
    (env.storedText.refused ≠ none ∨
      (env.files.tree.access a).fit env.storedBytes ≠ env.storedBytes) ∧
    ∃ why, env.store path =
      ((env.withFiles (env.filled env.files a)).report (.unwritten (.text path) why), false) := by
  have hmade := makeDirectories_of_file hfile
  have hopen := Files.openFile_of_lookup hfile (by simp) hwrite
  have hcases := env.store_cases path
  rw [hmade] at hcases ⊢
  refine ⟨rfl, ?_⟩
  obtain ⟨why, -, hfailed⟩ | ⟨f, b, hopen', ⟨-, -, hstore⟩ | ⟨why, hfailed, hstore⟩⟩ := hcases
  · obtain ⟨e, he⟩ := hfailed rfl
    rw [hopen] at he
    cases he
  · rw [hstore] at h
    cases h
  · rw [hopen] at hopen'
    cases hopen'
    exact ⟨hfailed, why, hstore⟩

/-- A store that answers no has changed no option. All that was there and that no handler of the
journal writes to is there still, if every value that differs from its default can be written and
there is room for them all; and also if not, but for a file that the user may write and that is at
the path once the directories are made. Such a file, if it was there before, is where the store fails
for a value that cannot be written or for want of room; it holds then what could be written, up to
that value and as far as there is room. Values that were loaded can all be written. -/
theorem store_failed {env : Environment} {path : Text} (h : (env.store path).2 = false) :
    let after := (env.store path).1
    let made := (env.files.makeDirectories (storeDir path)).1
    let Writable := fun k => Json.isWritable (env.options.value k) = true
    after.options = env.options ∧
    (∀ a n, env.files.tree.find? a = some n → env.Unlogged a →
      ((∀ k, (env.options.get k).isAtDefault = false → Writable k) ∧ env.HasRoom path) ∨
        (∀ c, made.lookup path ≠ .ok (a, .file c)) ∨ (env.files.tree.access a).write = false →
      after.files.tree.find? a = some n) ∧
    (∀ a c, env.files.lookup path = .ok (a, .file c) → (env.files.tree.access a).write = true →
      made = env.files ∧
      ((∃ k, (env.options.get k).isAtDefault = false ∧ ¬ Writable k) ∨
        (env.files.tree.access a).fit env.storedBytes ≠ env.storedBytes) ∧
      (env.Unlogged a → after.files.tree.find? a =
        some (.file ((env.files.tree.access a).fit env.storedBytes)))) ∧
    (Reachable env.options → ∀ k, Writable k) := by
  intro after made Writable
  refine ⟨store_options env path, ?_, ?_, isWritable_of_reachable⟩
  · intro a n hn hunlogged hcase
    exact find?_of_store_failed h hn hunlogged
      (hcase.imp_left fun ⟨hall, hroom⟩ => ⟨env.storedText_refused_iff.2 hall, hroom⟩)
  · intro a c hfile hwrite
    obtain ⟨hmade, hfailed, why, hstore⟩ := store_failed_of_file h hfile hwrite
    refine ⟨hmade, hfailed.imp_left fun hrefused => ?_, fun hunlogged => ?_⟩
    · have hnot := mt env.storedText_refused_iff.2 hrefused
      simpa only [not_forall, exists_prop] using hnot
    · obtain ⟨-, -, -, hfind⟩ := Files.lookup_ok hfile
      simp only [after, hstore]
      exact (find?_report hunlogged _ _).trans (FileTree.find?_overwrite_self hfind _)

/-- A program with a settings file and the direction of the library in place of a text. -/
def withDirection : Environment :=
  { bare with
    files := ⟨.ofNodes [([Bytes.ofString "c"], .file (Bytes.ofString "\x7b\"color depth\": 24\x7d"))],
      [Path.slash]⟩
    options := Options.initial.setValue .direction (.direction .background) }

/-- Storing to its file fails, and leaves the name of the option in it. -/
theorem store_failed_withDirection :
    (withDirection.store (Text.ofString "/c")).2 = false ∧
    (withDirection.store (Text.ofString "/c")).1.files.tree.find? [Bytes.ofString "c"] =
      some (.file (Bytes.ofString "\x7b\n    \"direction\": ")) := by
  have hfailed : (withDirection.store (Text.ofString "/c")).2 = false := by decide +kernel
  have hfile : withDirection.files.lookup (Text.ofString "/c") =
      .ok ([Bytes.ofString "c"], .file (Bytes.ofString "\x7b\"color depth\": 24\x7d")) :=
    eq_ok_of_toOption (by decide +kernel)
  obtain ⟨-, -, hlost, -⟩ := store_failed hfailed
  obtain ⟨-, -, hcontent⟩ := hlost _ _ hfile rfl
  have hwritten : (withDirection.files.tree.access [Bytes.ofString "c"]).fit withDirection.storedBytes =
      Bytes.ofString "\x7b\n    \"direction\": " := by
    decide +kernel
  rw [hwritten] at hcontent
  exact ⟨hfailed, hcontent fun handler hmem => by cases hmem⟩

/-- The file could be read before and was a JSON object; it cannot be parsed after storing has
answered no. -/
theorem store_withDirection :
    let after := (withDirection.store (Text.ofString "/c")).1
    (withDirection.store (Text.ofString "/c")).2 = false ∧
    (withDirection.files.read (Text.ofString "/c")).toOption =
      some (Bytes.ofString "\x7b\"color depth\": 24\x7d") ∧
    (after.files.read (Text.ofString "/c")).toOption ≠
      (withDirection.files.read (Text.ofString "/c")).toOption ∧
    (withDirection.load (Text.ofString "/c")).2.toOption = some true ∧
    (after.load (Text.ofString "/c")).2.toOption = some false :=
  ⟨by decide +kernel, by decide +kernel, by decide +kernel, by decide +kernel, by decide +kernel⟩

end Environment
end ColorMarkup
