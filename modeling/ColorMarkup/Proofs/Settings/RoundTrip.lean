import ColorMarkup.Proofs.Files.Open
import ColorMarkup.Proofs.Json.RoundTrip
import ColorMarkup.Proofs.Settings.Refused
/-!
# What is stored is loaded

The options that differ from their defaults are stored, and all are reset before the file is
loaded. Those that were not stored have their defaults then, which they were equal to; each of
the others is read from the file, and has an equal value: a depth comes back as the number of
its bits. Every check but that of the log file is made on the value alone, so nothing is held
against any entry unless the log file can no longer be written to. A device takes what is
stored and keeps nothing of it.

Results:
* `store_eq_true`: what storing has done if it answers yes.
* `parse_written`: what is written is parsed.
* `load_accepted`: entries that nothing is held against are all taken.
* `load_store`: stored options are loaded again.
-/
namespace ColorMarkup

namespace Value

open Json (IsFlat readAs)

/-- A flat value and another are equal in both orders. -/
theorem same_comm {v : Value} (h : IsFlat v) (w : Value) : same v w = same w v := by
  cases h with
  | int n => cases w <;> simp [same, asInt?, whole?, Whole.toInt, eq_comm]
  | depth d => cases w <;> simp [same, asInt?, whole?, Whole.toInt, eq_comm]
  | text h => cases w <;> simp [same, asInt?, whole?, eq_comm]

theorem same_self {v : Value} (h : IsFlat v) : same v v = true := by
  cases h <;> simp [same, asInt?, whole?, Whole.toInt]

/-- A flat value equals what it is read as. -/
theorem same_readAs {v : Value} (h : IsFlat v) : same (readAs v) v = true := by
  cases h <;> simp [readAs, same, asInt?, whole?, Whole.toInt]

end Value

namespace Settings

theorem Key.name_plain (k : Key) : (Text.ofString k.name).hasSurrogate = false := by
  cases k <;> decide

namespace Options

variable {o : Options}

theorem nodup_changed : (o.changed.map Prod.fst).Nodup := by
  have hkeys : Key.all.Nodup := by decide
  have hnames : o.changed.map Prod.fst =
      (Key.all.filter fun k => !(o.get k).isAtDefault).map fun k => Text.ofString k.name := by
    rw [changed, List.map_map]
    rfl
  rw [hnames]
  exact (hkeys.filter _).map Key.name_injective

/-- A flat value that counts as the default equals it. -/
theorem same_default {k : Key} (hflat : Json.IsFlat (o.value k))
    (h : (o.get k).isAtDefault = true) : (o.get k).default.same (o.value k) = true := by
  unfold Setting.isAtDefault at h
  split at h
  · next hshared =>
    rw [← (o.get k).shared hshared]
    exact Value.same_self hflat
  · rw [← Value.same_comm hflat]
    exact h

end Options
end Settings

namespace Environment

open Settings (Key Options Refusal Trouble)
open Json (IsFlat IsFlatMember readAs readMember)

/-! ## Storing -/

/-- Storing that answers yes has opened the file, and has written everything to it. -/
theorem store_eq_true {env : Environment} {path : Text} (h : (env.store path).2 = true) :
    env.storedText.refused = none ∧ ∃ f f' a, Files.openFile f path = .ok (f', a) ∧
      (f'.tree.access a).fit env.storedBytes = env.storedBytes ∧
      (env.store path).1 = env.withFiles (env.filled f' a) := by
  obtain ⟨why, hstore, -⟩ | ⟨f', a, hopen, ⟨hrefused, hfit, hstore⟩ | ⟨why, -, hstore⟩⟩ :=
    env.store_cases path
  · rw [hstore] at h
    cases h
  · exact ⟨hrefused, _, f', a, hopen, hfit, congrArg Prod.fst hstore⟩
  · rw [hstore] at h
    cases h

/-- A text that is ASCII, not too deep and makes up a value is parsed as that value. -/
theorem parse_written {limits : Limits} {t : Text} {v : Value} (hascii : t.isAscii = true)
    (hdeep : Json.isTooDeep limits.nesting t = false) (hread : Json.read? t = some v) :
    parse limits ((Utf8.encode t).getD []) = .ok v := by
  have hplain := Utf8.hasSurrogate_of_isAscii hascii
  rcases Utf8.exists_encode hplain with ⟨b, hb⟩
  have hdecode : Utf8.decodeStrict? b = some t := by
    unfold Utf8.decodeStrict?
    rw [Utf8.decode_encode hplain hb]
    simp [hplain]
  rw [hb, Option.getD_some]
  simp [parse, hdecode, hdeep, hread]

/-- A valid value is flat, if it is no text with pairs. -/
theorem isFlat_of_accepts {env : Environment} {k : Key} {v : Value}
    (h : env.accepts k v = .ok true) (hpairs : ∀ t, v = .text t → t.Unpaired) : IsFlat v := by
  cases v with
  | text t => exact .text (hpairs t rfl)
  | int n => exact .int n
  | depth d => exact .depth d
  | _ => cases k <;> cases h

/-- Apart from the log file, what is read for a valid value is valid anywhere. -/
theorem accepts_readAs {env : Environment} {k : Key} (hk : k ≠ .logFile) {v : Value}
    (h : env.accepts k v = .ok true) (env' : Environment) :
    env'.accepts k (readAs v) = .ok true := by
  cases k with
  | logFile => exact absurd rfl hk
  | colorDepth => cases v <;> exact h
  | direction => cases v <;> exact h
  | logLevel => cases v <;> exact h

/-! ## Loading -/

/-- Entries that nothing is held against are all taken, and nothing else happens. -/
theorem load_accepted {env : Environment} {path : Text} {es : List (Text × Value)}
    (h : env.readSettings path = .ok (.dict es))
    (hes : ∀ e ∈ es, ∃ k : Key, e.1 = Text.ofString k.name ∧ env.accepts k e.2 = .ok true) :
    ∃ o, env.load path = (env.withOptions o, .ok true) ∧
      (∀ (k : Key) v, (Text.ofString k.name, v) ∈ es → o.value k = v) ∧
      ∀ k : Key, (∀ v, (Text.ofString k.name, v) ∉ es) → o.get k = env.options.get k := by
  have haccepts : ∀ (k : Key) v, (Text.ofString k.name, v) ∈ es → env.accepts k v = .ok true := by
    intro k v hmem
    rcases hes _ hmem with ⟨l, hname, hv⟩
    rw [Key.name_injective hname]
    exact hv
  have hnone : es.filterMap (env.objection? path) = [] := by
    apply List.filterMap_eq_nil_iff.2
    intro e he
    exact (env.objection?_eq_none_iff path e).2 (hes e he)
  rw [load_of_dict h]
  rcases env.loadEntries_cases path (nodup_of_readSettings h) with
    ⟨final, hrun, hloaded, -⟩ | ⟨final, before, t, after, e, -, rfl, ht, -⟩
  · refine ⟨final.options, ?_, ?_, ?_⟩
    · rw [hrun]
      have hfinal := hloaded.raised
      rw [hnone] at hfinal
      exact Prod.ext hfinal rfl
    · intro k v hmem
      rw [Options.value, hloaded.given k v hmem (haccepts k v hmem)]
      rfl
    · intro k hk
      exact hloaded.kept k fun v hmem => absurd hmem (hk v)
  · have hv := haccepts .logFile (.text t) (by simp)
    simp [accepts, ht] at hv

/-! ## Both -/

/-- What has been stored is read from the file, if it is one that the user may read. -/
theorem readSettings_of_store {env : Environment} {path : Text}
    (hflat : ∀ k, IsFlat (env.options.value k)) (hstored : (env.store path).2 = true)
    (hfile : ∃ a c, (env.store path).1.files.lookup path = .ok (a, .file c) ∧
      ((env.store path).1.files.tree.access a).read = true) :
    (env.store path).1.readSettings path = .ok (.dict (env.options.changed.map readMember)) := by
  have hmembers : ∀ e ∈ env.options.changed, IsFlatMember e := by
    intro e he
    rcases Options.exists_of_mem_changed he with ⟨k, rfl⟩
    exact ⟨Text.unpaired_of_plain k.name_plain, hflat k⟩
  rcases Json.read?_written hmembers Options.nodup_changed 4 env.limits.nesting_pos with
    ⟨-, hascii, hdeep, hread⟩
  rcases store_eq_true hstored with ⟨-, f, f', a, hopen, hfit, henv⟩
  rw [henv] at hfile ⊢
  rcases hfile with ⟨b, c, hlookup, hreadable⟩
  have hback : (env.filled f' a).read path = .ok env.storedBytes :=
    Files.read_overwrite hopen hfit hlookup hreadable
  rw [readSettings, show (env.withFiles (env.filled f' a)).files = env.filled f' a from rfl, hback]
  exact parse_written hascii hdeep hread

/-- Let every value be valid, and no text hold a pair. If storing answers yes and the path leads
to an ordinary file then, which the user may read, loading after a reset answers yes, changes nothing
but the options and so raises no warning, and gives every option a value that equals the one it had;
provided that a stored path of the log file can still be written to then. -/
theorem load_store {env : Environment} {path : Text}
    (hvalid : ∀ k, env.accepts k (env.options.value k) = .ok true)
    (hpairs : ∀ k t, env.options.value k = .text t → t.Unpaired)
    (hstored : (env.store path).2 = true)
    (hfile : ∃ a c, (env.store path).1.files.lookup path = .ok (a, .file c) ∧
      ((env.store path).1.files.tree.access a).read = true)
    (hlog : ∀ t, env.options.value .logFile = .text t →
      (env.options.get .logFile).isAtDefault = false → (env.store path).1.canWrite t = .ok true) :
    let stored := (env.store path).1
    let fresh := stored.withOptions stored.options.reset
    ∃ o, fresh.load path = (fresh.withOptions o, .ok true) ∧
      ∀ k, (o.value k).same (env.options.value k) = true := by
  intro stored fresh
  have hflat : ∀ k, IsFlat (env.options.value k) := fun k => isFlat_of_accepts (hvalid k) (hpairs k)
  have hsettings : fresh.readSettings path = .ok (.dict (env.options.changed.map readMember)) :=
    readSettings_of_store hflat hstored hfile
  have hentries : ∀ e ∈ env.options.changed.map readMember,
      ∃ k : Key, e.1 = Text.ofString k.name ∧ fresh.accepts k e.2 = .ok true := by
    intro e he
    rcases List.mem_map.1 he with ⟨e', he', rfl⟩
    rcases Options.exists_of_mem_changed he' with ⟨k, rfl⟩
    refine ⟨k, rfl, ?_⟩
    by_cases hk : k = .logFile
    · subst hk
      rcases eq_text_of_accepts (hvalid .logFile) with ⟨t, ht⟩
      show fresh.accepts .logFile (readAs (env.options.value .logFile)) = _
      rw [ht]
      exact hlog t ht (Options.mem_changed_iff.1 he').1
    · exact accepts_readAs hk (hvalid k) fresh
  rcases load_accepted hsettings hentries with ⟨o, hload, htaken, hkept⟩
  refine ⟨o, hload, fun k => ?_⟩
  cases hdefault : (env.options.get k).isAtDefault with
  | false =>
    have hmem : (Text.ofString k.name, readAs (env.options.value k)) ∈
        env.options.changed.map readMember :=
      List.mem_map.2 ⟨_, Options.mem_changed_iff.2 ⟨hdefault, rfl⟩, rfl⟩
    rw [htaken k _ hmem]
    exact Value.same_readAs (hflat k)
  | true =>
    have hnot : ∀ v, (Text.ofString k.name, v) ∉ env.options.changed.map readMember := by
      intro v hmem
      rcases List.mem_map.1 hmem with ⟨e, he, heq⟩
      have hchanged : (Text.ofString k.name, e.2) ∈ env.options.changed := by
        rw [← show e.1 = Text.ofString k.name from congrArg Prod.fst heq]
        exact he
      rw [(Options.mem_changed_iff.1 hchanged).1] at hdefault
      cases hdefault
    rw [Options.value, hkept k hnot]
    show ((stored.options.reset).get k).value.same _ = true
    rw [Options.get_reset, store_options]
    exact Options.same_default (hflat k) hdefault

/-- A path with quotes, a backslash, a control character, a character beyond `U+FFFF` and a low
surrogate before a high one. -/
def oddPath : Text :=
  [0x2F, 0x22, 0x27, 0x5C, 0x07, 0xE9, 0x1F600, 0xDC80, 0xD83D, 0x2E]

/-- A program whose log file has that path, and whose depth is one of the library. -/
def oddOptions : Environment :=
  let deep := Options.initial.setValue .colorDepth (.depth .twentyFour)
  { bare with options := deep.setValue .logFile (.text oddPath) }

/-- Its options are stored in a directory that is made for them, and loaded again. -/
theorem load_store_oddOptions :
    let stored := (oddOptions.store (Text.ofString "/d/c")).1
    let fresh := stored.withOptions stored.options.reset
    (oddOptions.store (Text.ofString "/d/c")).2 = true ∧
    (oddOptions.options.get .logFile).isAtDefault = false ∧
    ∃ o, fresh.load (Text.ofString "/d/c") = (fresh.withOptions o, .ok true) ∧
      ∀ k, (o.value k).same (oddOptions.options.value k) = true := by
  have hstored : (oddOptions.store (Text.ofString "/d/c")).2 = true := by decide +kernel
  refine ⟨hstored, by decide +kernel, ?_⟩
  apply load_store
  · intro k
    cases k <;> exact eq_ok_of_toOption (by decide +kernel)
  · intro k t ht
    cases k with
    | colorDepth => cases ht
    | logFile =>
      cases ht
      unfold Text.Unpaired
      decide
    | direction =>
      cases ht
      exact Text.unpaired_of_plain (by decide)
    | logLevel =>
      cases ht
      exact Text.unpaired_of_plain (by decide)
  · exact hstored
  · refine ⟨[Bytes.ofString "d", Bytes.ofString "c"], oddOptions.storedBytes,
      eq_ok_of_toOption (by decide +kernel), by decide +kernel⟩
  · intro t ht _
    cases ht
    exact eq_ok_of_toOption (by decide +kernel)

/-- A program with the depth 24, and with a device. -/
def withDevice : Environment :=
  { bare with
    files := ⟨.ofNodes [([Bytes.ofString "dev"], .directory),
      ([Bytes.ofString "dev", Bytes.ofString "null"], .device)], [Path.slash]⟩
    options := Options.initial.setValue .colorDepth (.int 24) }

/-- Storing to the device answers yes and loading from it no, with a warning; the depth is
lost. -/
theorem load_store_withDevice :
    let path := Text.ofString "/dev/null"
    let stored := (withDevice.store path).1
    let fresh := stored.withOptions stored.options.reset
    (∀ k, withDevice.accepts k (withDevice.options.value k) = .ok true) ∧
    (∀ k t, withDevice.options.value k = .text t → t.Unpaired) ∧
    (withDevice.store path).2 = true ∧
    (withDevice.options.get .logFile).isAtDefault = true ∧
    (fresh.load path).2 = .ok false ∧
    (fresh.load path).1.warnings.length = fresh.warnings.length + 1 ∧
    ((fresh.load path).1.options.value .colorDepth).same
      (withDevice.options.value .colorDepth) = false := by
  refine ⟨?_, ?_, by decide +kernel, by decide +kernel, eq_ok_of_toOption (by decide +kernel),
    by decide +kernel, by decide +kernel⟩
  · intro k
    cases k <;> exact eq_ok_of_toOption (by decide +kernel)
  · intro k t ht
    cases k with
    | colorDepth => cases ht
    | _ =>
      cases ht
      exact Text.unpaired_of_plain (by decide)

end Environment
end ColorMarkup
