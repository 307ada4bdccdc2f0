import ColorMarkup.Proofs.Journal.Configure
import ColorMarkup.Proofs.Journal.SetUp
/-!
# Which records reach the file

Once the journal has been set up, a record of the library's own logger or of one under it is
written if its level reaches the journal's and its logger is neither excluded nor under one that
is. Neither the handlers and exclusions of set-ups before nor what loggers decided then make a
difference: a set-up takes the handler away and drops the exclusions, and loggers decide anew.

Names with a second dot directly behind the one that ends the library's are left out: the
library's logger may be passed over when the one above them is looked for. A record with a
surrogate in its name or message cannot be written.

Results:
* `Loggers.isOurs_of_isOwn`: such a name is under the library's, whatever loggers are made.
* `excludes_text_iff`: a logger is excluded by the beginnings of its name, component-wise.
* `Makes.appends`: what records add to the file, along every run.
* `delivered_after`: the file after any records behind any set-up.
-/
namespace ColorMarkup

open Utf8 (encoded)

namespace Journal

/-! ## Loggers -/

/-- The library's own logger, or a name under it in which no second dot follows the first. -/
def IsOwn (name : Text) : Prop :=
  name = ownLogger ∨ ∃ rest : Text, name = ownLogger ++ dot :: rest ∧ rest.head? ≠ some dot

namespace Loggers

/-- Backwards, a name is looked through by one character, or by two where dots follow each
other, and the dot in front of the library's name is not passed over. -/
theorem isUnderOurs_append (ls : Loggers) : ∀ p : Text, p.getLast? ≠ some dot →
    ls.isUnderOurs (p ++ dot :: ownLogger.reverse) = true
  | [], _ => by
    have hhas : ls.has ownLogger = true := by simp [has, libraryLoggers]
    obtain ⟨d, above, hown⟩ : ∃ d above, ownLogger.reverse = d :: above := ⟨_, _, rfl⟩
    have hback : (d :: above).reverse = ownLogger := by rw [← hown, List.reverse_reverse]
    simp only [List.nil_append, hown, isUnderOurs, if_true, hback, hhas, beq_self_eq_true,
      Bool.true_or]
  | [c], h => by
    have hc : c ≠ dot := by simpa using h
    have hrest := ls.isUnderOurs_append [] (by simp)
    simpa only [List.cons_append, List.nil_append, isUnderOurs, if_neg hc] using hrest
  | c :: d :: p, h => by
    have hrest := ls.isUnderOurs_append (d :: p) (by simpa using h)
    simp only [List.cons_append] at hrest ⊢
    rw [isUnderOurs]
    split
    · split
      · rw [hrest, Bool.or_true]
      · refine ls.isUnderOurs_append p fun hp => h ?_
        rw [List.getLast?_cons_cons, List.getLast?_cons, hp, Option.getD_some]
    · exact hrest

theorem isOurs_of_isOwn (ls : Loggers) {name : Text} (h : IsOwn name) : ls.isOurs name = true := by
  obtain rfl | ⟨rest, rfl, hrest⟩ := h
  · exact ls.isOurs_ownLogger
  · have hunder := ls.isUnderOurs_append rest.reverse (by rwa [List.getLast?_reverse])
    rw [isOurs, List.reverse_append, List.reverse_cons, List.append_assoc, List.singleton_append,
      hunder, Bool.or_true]

/-- What has been decided for the library's loggers is what this level says. -/
def Sound (ls : Loggers) (own : Int) : Prop :=
  ∀ name level taken, ((name, level), taken) ∈ ls.decided → IsOwn name →
    taken = (decide (0 < level) && decide (own ≤ level))

theorem sound_of_decided_nil {ls : Loggers} (h : ls.decided = []) (own : Int) : ls.Sound own := by
  intro name level taken hmem
  rw [h] at hmem
  cases hmem

variable {ls : Loggers} {own : Int}

theorem takes_of_sound (h : ls.Sound own) {name : Text} (hname : IsOwn name) (level : Int) :
    ls.takes own name level = (decide (0 < level) && decide (own ≤ level)) := by
  unfold takes
  cases hdecided : ls.decided.lookup (name, level) with
  | none => rw [Option.getD_none, reaches, if_pos (ls.isOurs_of_isOwn hname)]
  | some taken =>
    obtain ⟨before, behind, heq, -⟩ := List.lookup_eq_some_iff.1 hdecided
    exact h name level taken (by rw [heq]; simp) hname

theorem make_decided (ls : Loggers) (name : Text) : (ls.make name).decided = ls.decided := by
  unfold make
  split <;> rfl

theorem Sound.make (h : ls.Sound own) (name : Text) : (ls.make name).Sound own := by
  intro n level taken hmem
  rw [make_decided] at hmem
  exact h n level taken hmem

theorem Sound.settle (h : ls.Sound own) (name : Text) (level : Int) :
    (ls.settle own name level).Sound own := by
  intro n l taken hmem hname
  obtain heq | hmem := List.mem_cons.1 hmem
  · cases heq
    exact takes_of_sound h hname level
  · exact h n l taken hmem hname

end Loggers

/-! ## Exclusions -/

/-- A logger is excluded by a name whose components start its own. -/
theorem excludes_text_iff (logger name : Text) :
    excludes logger (.text name) = true ↔ Text.splitOn dot name <+: Text.splitOn dot logger := by
  rw [Text.splitOn_prefix_iff, excludes, Bool.or_eq_true, Value.same_text, beq_iff_eq, descendsFrom,
    List.isPrefixOf_iff_prefix]
  rfl

/-- Do the components of one of these names start those of the logger's? -/
def isBelow (names : List Text) (logger : Text) : Bool :=
  names.any fun name => (Text.splitOn dot name).isPrefixOf (Text.splitOn dot logger)

/-- Exclusions that stand for names let pass what the names do. -/
theorem passes_eq {excluded : List Value} {names : List Text}
    (hfrom : excluded ⊆ names.map .text)
    (hhas : ∀ v ∈ names.map .text, ∃ w ∈ excluded, v = w ∨ v.same w = true) (logger : Text) :
    passes excluded logger = !isBelow names logger := by
  rw [passes, isBelow, Bool.not_inj_iff, Bool.eq_iff_iff, List.any_eq_true, List.any_eq_true]
  simp only [List.isPrefixOf_iff_prefix, ← excludes_text_iff]
  constructor
  · rintro ⟨v, hv, hexcludes⟩
    obtain ⟨name, hname, rfl⟩ := List.mem_map.1 (hfrom hv)
    exact ⟨name, hname, hexcludes⟩
  · rintro ⟨name, hname, hexcludes⟩
    obtain ⟨w, hw, hsame⟩ := hhas _ (List.mem_map_of_mem hname)
    obtain ⟨other, -, rfl⟩ := List.mem_map.1 (hfrom hw)
    obtain rfl : name = other := by
      obtain heq | hsame := hsame
      · exact Value.text.inj heq
      · rwa [Value.same_text, beq_iff_eq] at hsame
    exact ⟨_, hw, hexcludes⟩

/-! ## Lines -/

/-- A record of the library's loggers, with a level. -/
structure OfLibrary (r : Record) : Prop where
  own : IsOwn r.logger
  level : 1 ≤ r.level.toInt

/-- Is the record of at least this level, its logger no excluded one nor under one, and can its
line be written? -/
def kept (level : Int) (names : List Text) (r : Record) : Bool :=
  decide (level ≤ r.level.toInt) && !isBelow names r.logger &&
    !r.logger.hasSurrogate && !r.message.hasSurrogate

theorem times_hasSurrogate (n : Nat) {t : Text} (h : t.hasSurrogate = false) :
    (times n t).hasSurrogate = false := by
  induction n with
  | zero => rfl
  | succ n ih =>
    rw [times, List.replicate_succ, List.flatten_cons, Text.hasSurrogate_append]
    exact ⟨h, ih⟩

theorem levelName_hasSurrogate (level : Whole) : (levelName level).hasSurrogate = false := by
  unfold levelName
  split <;> exact Text.hasSurrogate_ofString _

/-- A line has surrogates only from the name of the logger and from the message. -/
theorem line_hasSurrogate (h : Handler) (r : Record) :
    (line h r).hasSurrogate = false ↔
      r.logger.hasSurrogate = false ∧ r.message.hasSurrogate = false := by
  have hnewline : Text.hasSurrogate [0x0A] = false := rfl
  simp only [line, Text.hasSurrogate_append, Text.hasSurrogate_ofString,
    times_hasSurrogate _ (Text.hasSurrogate_ofString _), levelName_hasSurrogate, hnewline, true_and,
    and_true]

theorem encode_line (h : Handler) {r : Record} {level : Int} {names : List Text}
    (hr : kept level names r = true) : Utf8.encode (line h r) = some (encoded (line h r)) := by
  simp only [kept, Bool.and_eq_true, Bool.not_eq_true'] at hr
  obtain ⟨b, hb⟩ := Utf8.exists_encode ((line_hasSurrogate h r).2 ⟨hr.1.2, hr.2⟩)
  rw [hb, (Utf8.isEncodable_of_encode hb).2]

/-- The lines of records that are kept can be written as one text. -/
theorem encode_lines (h : Handler) {level : Int} {names : List Text} {rs : List Record}
    (hrs : ∀ r ∈ rs, kept level names r = true) :
    Utf8.encode (rs.map (line h)).flatten = some (rs.map fun r => encoded (line h r)).flatten := by
  induction rs with
  | nil => rfl
  | cons r rs ih =>
    obtain ⟨hr, hrs⟩ := List.forall_mem_cons.1 hrs
    rw [List.map_cons, List.flatten_cons, Utf8.encode_append, encode_line h hr, ih hrs]
    rfl

/-- A record is written by the one handler in place if it is kept. -/
theorem outputs_eq {ls : Loggers} {s : State} (hsound : ls.Sound (effectiveLevel s)) {h : Handler}
    (hattached : s.attached = [h]) {names : List Text}
    (hpasses : ∀ logger, passes s.excluded logger = !isBelow names logger) {r : Record}
    (hr : OfLibrary r) :
    outputs ls s r = ([r].filter (kept (effectiveLevel s) names)).map fun r =>
      (h.address, encoded (line h r)) := by
  have hlevel : decide (0 < r.level.toInt) = true := decide_eq_true hr.level
  have hdelivers : delivers ls s r =
      (decide (effectiveLevel s ≤ r.level.toInt) && !isBelow names r.logger) := by
    rw [delivers, Loggers.takes_of_sound hsound hr.own, ls.isOurs_of_isOwn hr.own, hpasses, hlevel,
      Bool.true_and, Bool.and_true]
  have hsurrogate : (!(line h r).hasSurrogate) =
      (!r.logger.hasSurrogate && !r.message.hasSurrogate) := by
    rw [Bool.eq_iff_iff, Bool.and_eq_true]
    simpa only [Bool.not_eq_true'] using line_hasSurrogate h r
  have houtput : output? ls s h r =
      if kept (effectiveLevel s) names r then some (encoded (line h r)) else none := by
    have hwritten :
        (delivers ls s r && !(line h r).hasSurrogate) = kept (effectiveLevel s) names r := by
      rw [hdelivers, hsurrogate, kept, Bool.and_assoc (_ && _)]
    simp only [output?, hwritten]
    split
    · next hkept => rw [encode_line h hkept]
    · rfl
  rw [outputs, hattached, List.filterMap_cons, houtput, List.filterMap_nil]
  cases hkept : kept (effectiveLevel s) names r <;> simp [hkept]

end Journal

/-! ## Runs -/

namespace Environment

open Journal (OfLibrary effectiveLevel isBelow kept line)

/-- The records made between two environments, in order: one by the library, or one by a
program. Between them anything may be done that leaves the files, the journal and the loggers. -/
inductive Makes : Environment → List Journal.Record → Environment → Prop where
  | nothing (env : Environment) : Makes env [] env
  | elsewhere {env next env' : Environment} {rs : List Journal.Record}
      (files : next.files = env.files) (journal : next.journal = env.journal) (loggers : next.loggers = env.loggers)
      (rest : Makes next rs env') : Makes env rs env'
  | library {env env' : Environment} (r : Journal.Record) {rs : List Journal.Record}
      (rest : Makes (env.log r) rs env') : Makes env (r :: rs) env'
  | program {env env' : Environment} {r : Journal.Record} {logger level message : Value}
      {rs : List Journal.Record} (name : loggerOf logger = .ok r.logger)
      (number : level.whole? = some r.level) (text : message.plain = r.message)
      (rest : Makes (env.emit r.operation logger level message).1 rs env') :
      Makes env (r :: rs) env'

/-- A program's record is one record to the journal, of a logger that is made for it. -/
theorem emit_eq (env : Environment) {r : Journal.Record} {logger level message : Value}
    (name : loggerOf logger = .ok r.logger) (number : level.whole? = some r.level)
    (text : message.plain = r.message) :
    (env.emit r.operation logger level message).1 = log { env with
      loggers := (env.loggers.make r.logger).settle (effectiveLevel env.journal) r.logger
        r.level.toInt } r := by
  simp only [emit, name, number, text]

section

variable {env : Environment} {h : Journal.Handler} {names : List Text}

/-- What a record adds and what others add behind it is what they add together. -/
theorem appendAll_log (env : Environment) (hsound : env.loggers.Sound (effectiveLevel env.journal))
    (hattached : env.journal.attached = [h])
    (hpasses : ∀ logger, Journal.passes env.journal.excluded logger = !isBelow names logger)
    {r : Journal.Record} (hr : OfLibrary r) (rs : List Journal.Record) :
    (env.log r).files.tree.appendAll ((rs.filter (kept (effectiveLevel env.journal) names)).map
        fun r => (h.address, encoded (line h r))) =
      env.files.tree.appendAll (((r :: rs).filter (kept (effectiveLevel env.journal) names)).map
        fun r => (h.address, encoded (line h r))) := by
  rw [← List.singleton_append, List.filter_append, List.map_append,
    ← Journal.outputs_eq hsound hattached hpasses hr]
  exact (List.foldl_append ..).symm

/-- Records add the lines of those that are kept to the file of the one handler in place, in
their order, and nothing else. -/
theorem Makes.appends {env' : Environment} {rs : List Journal.Record} (hmakes : Makes env rs env')
    (hsound : env.loggers.Sound (effectiveLevel env.journal))
    (hattached : env.journal.attached = [h])
    (hpasses : ∀ logger, Journal.passes env.journal.excluded logger = !isBelow names logger)
    (hrs : ∀ r ∈ rs, OfLibrary r) :
    env'.files.tree = env.files.tree.appendAll
      ((rs.filter (kept (effectiveLevel env.journal) names)).map fun r =>
        (h.address, encoded (line h r))) := by
  induction hmakes with
  | nothing env => rfl
  | elsewhere files journal loggers rest ih =>
    rw [← journal] at hsound hattached hpasses ⊢
    rw [← loggers] at hsound
    rw [← files]
    exact ih hsound hattached hpasses hrs
  | library r rest ih =>
    obtain ⟨hr, hrs⟩ := List.forall_mem_cons.1 hrs
    exact (ih hsound hattached hpasses hrs).trans (appendAll_log _ hsound hattached hpasses hr _)
  | @program env env' r logger level message rs name number text rest ih =>
    obtain ⟨hr, hrs⟩ := List.forall_mem_cons.1 hrs
    -- the decision that the logger keeps is one that its level stands for
    have hsettled := (hsound.make r.logger).settle r.logger r.level.toInt
    rw [emit_eq env name number text] at ih
    exact (ih hsettled hattached hpasses hrs).trans
      (appendAll_log { env with loggers := _ } hsettled hattached hpasses hr rs)

end

/-! ## The file of a set-up -/

theorem exclude_files (env : Environment) (v : Value) : (env.exclude v).1.files = env.files := by
  unfold exclude
  split <;> rfl

theorem attach_loggers (env : Environment) {s : Setup} {flag : Value} {level : Whole}
    (h : (levelUnder flag s.level).level = .ok level) (file : Text) (a : Address) (repeats : Nat) :
    (env.attach s file a repeats flag).1.loggers = env.loggers.forget := by
  simp only [attach, h, log]

/-- A set-up that goes well opens its file for the handler, and loggers decide anew. -/
theorem openJournal_ok_cases {env env' : Environment} {s : Setup} {id : Nat}
    (h : env.openJournal s = (env', .ok id)) :
    env'.loggers.decided = [] ∧
    ∃ f file a, env.openLogFile s = .ok (f, file, a) ∧ f.Alike env'.files ∧
      ∃ h, env'.journal.handler = some h ∧ h.address = a := by
  have hdetached : env.detach.openLogFile s = env.openLogFile s := rfl
  simp only [openJournal, hdetached] at h
  split at h
  · cases h
  · next f file a hopen =>
    split at h
    · cases h
    · next ready hexclude =>
      have hfiles : ready.files = f := by
        have := exclude_files { env.detach with files := f } s.exclude
        rwa [hexclude] at this
      split at h
      · cases h
      · next repeats _ =>
        cases hlevel : (levelUnder (debugFlag s) s.level).level with
        | error e => simp [attach, hlevel] at h
        | ok level =>
          let flagged : Environment :=
            { ready with journal := { ready.journal with debug := some (debugFlag s) } }
          have hloggers := flagged.attach_loggers hlevel file a repeats
          obtain ⟨env₁, id₁, hattach, halike, hhandler⟩ := flagged.attach_ok hlevel file a repeats
          rw [hattach] at h hloggers
          cases h
          rw [show flagged.files = f from hfiles] at halike
          exact ⟨by rw [hloggers]; rfl, f, file, a, hopen, halike, hhandler⟩

/-- What is opened for the log is a file, or takes what is written and keeps nothing of it. -/
theorem find?_of_openLogFile {env : Environment} {s : Setup} {f : Files} {file : Text} {a : Address}
    (h : env.openLogFile s = .ok (f, file, a)) :
    (∃ content, f.tree.find? a = some (.file content)) ∨
      ∃ n, f.tree.find? a = some n ∧ (n = .device ∨ ∃ gives, n = .special gives) := by
  have hopen : env.files.openFile file = .ok (f, a) := by
    simp only [openLogFile, bind, Except.bind] at h
    cases hp : pathText s.file with
    | error e => rw [hp] at h; cases h
    | ok p =>
      rw [hp] at h
      dsimp only at h
      split at h
      · cases h
      · next hopen =>
        cases h
        exact hopen
  obtain ⟨n, hlookup, hnot, hlink⟩ := (Files.openFile_ok hopen).found
  obtain ⟨-, -, -, hn⟩ := Files.lookup_ok hlookup
  cases n with
  | directory => exact absurd rfl hnot
  | file content => exact .inl ⟨content, hn⟩
  | device => exact .inr ⟨_, hn, .inl rfl⟩
  | special gives => exact .inr ⟨_, hn, .inr ⟨gives, rfl⟩⟩
  | link target => exact absurd rfl (hlink target)

end Environment

namespace Journal

open Environment (Makes)

/-- Let a set-up go well, whatever set-ups there were before. Of all the records that the library's
loggers then make, those of at least the journal's level whose logger is no excluded one nor under
one, and which can be written, are added to its file, each once and in order, and nothing else is. A
device is left as it is, and so is what the system makes up. The level is that of debugging if the
set-up's flag or level says so, and otherwise the one it asks for. -/
theorem delivered_after (before : List Call) (c : Call) {env env' : Environment} {id : Nat}
    (hset : (c.environment (State.initial.after before)).openJournal c.setup = (env, .ok id))
    {names : List Text} (hnames : elements c.setup.exclude = .ok (names.map .text))
    {rs : List Record} (hrs : ∀ r ∈ rs, OfLibrary r) (hmakes : Makes env rs env') :
    ∃ h f file data, env.journal.attached = [h] ∧ h.id = id ∧
      c.surroundings.openLogFile c.setup = .ok (f, file, h.address) ∧
      (if c.setup.debug.isTrue || c.setup.level.isDebug then env.journal.level.toInt = debugLevel
        else c.setup.level.level = .ok env.journal.level) ∧
      Utf8.encode ((rs.filter (kept (effectiveLevel env.journal) names)).map (line h)).flatten =
        some data ∧
      ((∃ content, env.files.tree.find? h.address = some (.file content) ∧
          env'.files.tree.find? h.address = some (.file (content ++ data))) ∨
        ∃ n, (n = .device ∨ ∃ gives, n = .special gives) ∧ env.files.tree.find? h.address = some n ∧
          env'.files.tree.find? h.address = some n) ∧
      ∀ a, a ≠ h.address → env'.files.tree.find? a = env.files.tree.find? a := by
  have hleaves := (c.environment (State.initial.after before)).openJournal_leaves c.setup
  rw [hset] at hleaves
  have hwellFormed := hleaves.wellFormed (State.wellFormed_after State.wellFormed_initial before)
  obtain ⟨h, hh, hid⟩ := hleaves.handler
  have hattached : env.journal.attached = [h] := by
    rw [hwellFormed.attached, hh, Option.toList_some]
  obtain ⟨hdecided, f, file, a, hopen, halike, h', hh', rfl⟩ :=
    Environment.openJournal_ok_cases hset
  obtain rfl : h = h' := Option.some.inj (hh.symm.trans hh')
  obtain ⟨items, hitems, hfrom, hhas⟩ := hleaves.excluded
  obtain rfl : items = names.map .text := Except.ok.inj (hitems.symm.trans hnames)
  have htree := hmakes.appends (Loggers.sound_of_decided_nil hdecided _) hattached
    (passes_eq hfrom hhas) hrs
  have hkept : ∀ r ∈ rs.filter (kept (effectiveLevel env.journal) names),
      kept (effectiveLevel env.journal) names r = true := fun r hr => (List.mem_filter.1 hr).2
  refine ⟨h, f, file, _, hattached, hid, hopen, hleaves.level, encode_lines h hkept, ?_,
    fun a ha => ?_⟩
  · have hnode : (∃ content, env.files.tree.find? h.address = some (.file content)) ∨
        ∃ n, env.files.tree.find? h.address = some n ∧ (n = .device ∨ ∃ gives, n = .special gives) := by
      obtain heq | ⟨-, content, -, hcontent⟩ := halike.tree.find?_cases h.address
      · rw [← heq]
        exact Environment.find?_of_openLogFile hopen
      · exact .inl ⟨content, hcontent⟩
    obtain ⟨content, hcontent⟩ | ⟨n, hn, hkeeps⟩ := hnode
    · refine .inl ⟨content, hcontent, ?_⟩
      have hadded := FileTree.find?_appendAll_self hcontent
        ((rs.filter (kept (effectiveLevel env.journal) names)).map fun r => encoded (line h r))
      rw [List.map_map] at hadded
      rw [htree]
      exact hadded
    · rw [htree]
      have hnot : ∀ content, n ≠ .file content := by
        rintro content rfl
        simp at hkeeps
      exact .inr ⟨n, hkeeps, hn, FileTree.find?_appendAll_of_not_file hn hnot _⟩
  · rw [htree]
    refine FileTree.find?_appendAll_of_ne _ fun w hw => ?_
    obtain ⟨r, -, rfl⟩ := List.mem_map.1 hw
    exact ha.symm

/-- A record of a program's operation, at the level of warnings. -/
def Record.ofProgram (logger : Text) : Record :=
  ⟨logger, .number warningLevel, "f", Text.ofString "m"⟩

/-- The environment after a program has made this record. -/
def Record.made (r : Record) (env : Environment) : Environment :=
  (env.emit r.operation (.text r.logger) r.level.value (.text r.message)).1

/-- A program's record of a logger under the library's is added to the file. -/
theorem delivered_to_l :
    let c := Call.ofPath "/l"
    let r := Record.ofProgram (partLogger "tags")
    let env := ((c.environment .initial).openJournal c.setup).1
    ((c.environment .initial).openJournal c.setup).2 = .ok 0 ∧ ∃ h content data,
      Utf8.encode (line h r) = some data ∧
      env.files.tree.find? h.address = some (.file content) ∧
      (r.made env).files.tree.find? h.address = some (.file (content ++ data)) := by
  intro c r env
  have hset : (c.environment .initial).openJournal c.setup = (env, .ok 0) := rfl
  have hr : ∀ r' ∈ [r], OfLibrary r' := by
    intro r' hr'
    obtain rfl := List.mem_singleton.1 hr'
    exact ⟨.inr ⟨Text.ofString "tags", rfl, by decide⟩, by decide⟩
  have hmakes : Environment.Makes env [r] (r.made env) := .program rfl rfl rfl (.nothing _)
  have hnames : elements c.setup.exclude = .ok (([] : List Text).map .text) := rfl
  obtain ⟨h, f, file, data, -, -, hopen, -, hdata, hfile, -⟩ :=
    delivered_after [] c hset hnames hr hmakes
  have haddress : h.address = [Bytes.ofString "l"] := by
    have hl : c.surroundings.openLogFile c.setup = .ok (_, _, [Bytes.ofString "l"]) := rfl
    rw [hl] at hopen
    exact (congrArg (fun opened => opened.2.2) (Except.ok.inj hopen)).symm
  have hkept : [r].filter (kept (effectiveLevel env.journal) []) = [r] := rfl
  rw [hkept, List.map_singleton, List.flatten_singleton] at hdata
  obtain ⟨content, hbefore, hafter⟩ | ⟨n, hkeeps, hn, -⟩ := hfile
  · exact ⟨rfl, h, content, data, hdata, hbefore, hafter⟩
  · rw [haddress] at hn
    cases hn
    simp at hkeeps

/-- Two names under the library's whose records are not added, though nothing is excluded, their
level is the journal's and the message can be written: one with a second dot behind the first,
and one with a surrogate. -/
theorem undelivered :
    let c := Call.ofPath "/l"
    let env := ((c.environment .initial).openJournal c.setup).1
    ((c.environment .initial).openJournal c.setup).2 = .ok 0 ∧
    elements c.setup.exclude = .ok [] ∧ effectiveLevel env.journal = warningLevel ∧
    (∃ content, env.files.tree.find? [Bytes.ofString "l"] = some (.file content)) ∧
    ∀ rest ∈ [dot :: Text.ofString "a", [0xD800]],
      let r := Record.ofProgram (ownLogger ++ dot :: rest)
      r.level.toInt = warningLevel ∧ r.message.hasSurrogate = false ∧
      (r.made env).files.tree.find? [Bytes.ofString "l"] =
        env.files.tree.find? [Bytes.ofString "l"] := by
  intro c env
  refine ⟨rfl, rfl, rfl, ⟨_, rfl⟩, ?_⟩
  decide +kernel

end Journal
end ColorMarkup
