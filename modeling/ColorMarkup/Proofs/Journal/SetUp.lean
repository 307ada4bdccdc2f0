import ColorMarkup.Proofs.Settings.Reachable
/-!
# What setting up leaves

Setting up takes the handler that was set up last away before anything can fail, and puts
a new one in place as its last step but one. So whatever fails, no other handler than the
one set up last is ever in place, its file is open, and the files of all others are closed.
This is an invariant of every run of set-ups, and a file that is closed stays so.

Results:
* `Environment.openJournal_leaves`: all that one set-up can leave of the journal.
* `State.wellFormed_after`: the invariant, along every run.
* `setUp_after`: what the handler, the exclusions, the level and the debug flag are after a
  set-up in any run, whether it goes well or fails, and what becomes of the handler later.
-/
namespace ColorMarkup

namespace Journal

open Environment (Setup)
open Settings (Refusal)

/-! ## Exclusions -/

theorem mem_insert {v w : Value} {items : List Value} (h : w ∈ insert v items) :
    w ∈ items ∨ w = v := by
  unfold insert at h
  split at h
  · exact .inl h
  · simpa using h

theorem subset_insert (v : Value) (items : List Value) : items ⊆ insert v items := by
  unfold insert
  split
  · exact List.Subset.refl items
  · exact List.subset_append_left items [v]

/-- A value that is inserted is there, or an equal one is. -/
theorem exists_mem_insert (v : Value) (items : List Value) :
    ∃ w ∈ insert v items, v = w ∨ v.same w = true := by
  unfold insert
  split
  · next h =>
    obtain ⟨w, hw, hsame⟩ := List.any_eq_true.1 h
    exact ⟨w, hw, .inr hsame⟩
  · exact ⟨v, by simp, .inl rfl⟩

/-- If all values can be items, they are what is there besides those that were. -/
theorem mem_insertAll {items vs all : List Value} (h : insertAll items vs = (all, .ok ())) :
    items ⊆ all ∧ (∀ w ∈ all, w ∈ items ∨ w ∈ vs) ∧
      ∀ v ∈ vs, ∃ w ∈ all, v = w ∨ v.same w = true := by
  induction vs generalizing items with
  | nil =>
    cases h
    exact ⟨List.Subset.refl _, fun w hw => .inl hw, fun v hv => by cases hv⟩
  | cons v vs ih =>
    unfold insertAll at h
    split at h
    · obtain ⟨hsubset, hfrom, hhas⟩ := ih h
      refine ⟨List.Subset.trans (subset_insert v items) hsubset, fun w hw => ?_, fun w hw => ?_⟩
      · obtain hw | hw := hfrom w hw
        · exact (mem_insert hw).imp_right fun heq => List.mem_cons.2 (.inl heq)
        · exact .inr (List.mem_cons_of_mem v hw)
      · obtain rfl | hw := List.mem_cons.1 hw
        · obtain ⟨u, hu, hsame⟩ := exists_mem_insert w items
          exact ⟨u, hsubset hu, hsame⟩
        · exact hhas w hw
    · cases h

/-! ## Handlers -/

namespace State

/-- No handler is in place but the one set up last, whose file is the only one open. -/
structure WellFormed (s : State) : Prop where
  attached : s.attached = s.handler.toList
  isOpen : ∀ id, s.isOpen id = true ↔ ∃ h ∈ s.handler, h.id = id
  closed : ∀ id ∈ s.closed, id < s.opened

theorem wellFormed_initial : WellFormed .initial where
  attached := rfl
  isOpen id := by simp [initial, State.isOpen]
  closed id h := by cases h

theorem release_handler (s : State) : s.release.handler = none := by
  unfold release
  split
  · assumption
  · rfl

theorem release_opened (s : State) : s.release.opened = s.opened := by
  unfold release
  split <;> rfl

theorem WellFormed.release {s : State} (hs : WellFormed s) : WellFormed s.release := by
  unfold State.release
  cases hh : s.handler with
  | none => exact hs
  | some h =>
    have hopen : h.id < s.opened := by
      have := (hs.isOpen h.id).2 ⟨h, hh, rfl⟩
      simp only [State.isOpen, Bool.and_eq_true, decide_eq_true_eq] at this
      exact this.1
    refine ⟨?_, fun id => ?_, fun id hid => ?_⟩
    · simp [hs.attached, hh]
    · -- the only file that was open is the one closed now
      have := hs.isOpen id
      simp only [State.isOpen, hh, Option.mem_some_iff, Bool.and_eq_true, decide_eq_true_eq,
        Bool.not_eq_true', List.contains_eq_mem, decide_eq_false_iff_not] at this ⊢
      constructor
      · rintro ⟨hlt, hnot⟩
        obtain ⟨hne, hnot⟩ := not_or.1 (mt List.mem_cons.2 hnot)
        obtain ⟨_, rfl, hid⟩ := this.1 ⟨hlt, hnot⟩
        exact absurd hid.symm hne
      · rintro ⟨_, hnone, -⟩
        cases hnone
    · obtain rfl | hid := List.mem_cons.1 hid
      · exact hopen
      · exact hs.closed id hid

/-- A new handler is the only one in place if there was none. -/
theorem WellFormed.attach {s : State} (hs : WellFormed s) (hnone : s.handler = none) {h : Handler}
    (hid : h.id = s.opened) : WellFormed (s.attach h) := by
  have hattached : s.attached = [] := by rw [hs.attached, hnone]; rfl
  refine ⟨?_, fun id => ?_, fun id hmem => ?_⟩
  · simp [State.attach, hattached]
  · have hlater : ∀ id, id < s.opened → id ∈ s.closed := by
      intro id hlt
      have hnot := mt (hs.isOpen id).1 (by simp [hnone])
      simpa [State.isOpen, hlt] using hnot
    have hnew : s.opened ∉ s.closed := fun hmem => Nat.lt_irrefl _ (hs.closed _ hmem)
    simp only [State.isOpen, State.attach, Bool.and_eq_true, decide_eq_true_eq, Bool.not_eq_true',
      List.contains_eq_mem, decide_eq_false_iff_not, Option.mem_some_iff, exists_eq_left', hid]
    constructor
    · rintro ⟨hlt, hnot⟩
      obtain hlt | heq := Nat.lt_succ_iff_lt_or_eq.1 hlt
      · exact absurd (hlater id hlt) hnot
      · exact heq.symm
    · rintro rfl
      exact ⟨Nat.lt_succ_self _, hnew⟩
  · exact Nat.lt_succ_of_lt (hs.closed id hmem)

end State

/-! ## One set-up -/

/-- The journal when the handler has been taken away, with these exclusions and debug flag. -/
def State.cleared (s : State) (excluded : List Value) (debug : Option Value) : State :=
  { s.release with excluded := excluded, debug := debug }

/-- All that a set-up can leave of the journal, and its answer: something was refused before
the handler was in place, or behind that, or nothing was. -/
inductive Leaves (s : Setup) (before : State) : State → Except Refusal Nat → Prop where
  | unattached (excluded : List Value) (debug : Option Value) (e : Refusal) :
      Leaves s before (before.cleared excluded debug) (.error e)
  | unsettled (excluded : List Value) (debug : Option Value) (h : Handler) (e : Refusal)
      (hid : h.id = before.opened) :
      Leaves s before ((before.cleared excluded debug).attach h) (.error e)
  | done (items excluded : List Value) (debug : Option Value) (h : Handler) (level : Whole)
      (capturing : Bool) (hid : h.id = before.opened) (hitems : elements s.exclude = .ok items)
      (hexcluded : insertAll [] items = (excluded, .ok ()))
      (hlevel : (Environment.levelUnder (Environment.debugFlag s) s.level).level = .ok level) :
      Leaves s before
        { (before.cleared excluded debug).attach h with level := level, capturing := capturing }
        (.ok h.id)

end Journal

namespace Environment

open Journal (Leaves)
open Settings (Refusal)

theorem attach_leaves {env : Environment} {before : Journal.State} {s : Setup} {items excluded : List Value}
    {debug : Option Value} (hjournal : env.journal = before.cleared excluded debug)
    (hitems : Journal.elements s.exclude = .ok items)
    (hexcluded : Journal.insertAll [] items = (excluded, .ok ()))
    (file : Text) (a : Address) (repeats : Nat) :
    Leaves s before (env.attach s file a repeats (debugFlag s)).1.journal
      (env.attach s file a repeats (debugFlag s)).2 := by
  have hid : env.journal.opened = before.opened := by
    rw [hjournal]
    exact before.release_opened
  unfold attach
  dsimp only
  split
  · rw [hjournal] at hid ⊢
    exact .unsettled _ _ _ _ hid
  · next level hlevel =>
    simp only [log]
    rw [hjournal] at hid ⊢
    exact .done items excluded debug _ level _ hid hitems hexcluded hlevel

theorem openJournal_leaves (env : Environment) (s : Setup) :
    Leaves s env.journal (env.openJournal s).1.journal (env.openJournal s).2 := by
  unfold openJournal
  dsimp only
  split
  · exact .unattached [] _ _
  · next f file a _ =>
    unfold exclude
    cases hitems : Journal.elements s.exclude with
    | error e => exact .unattached [] _ e
    | ok items =>
      cases hexcluded : Journal.insertAll [] items with
      | mk excluded r =>
        have hcleared : Journal.insertAll env.detach.journal.excluded items = (excluded, r) :=
          hexcluded
        dsimp only
        rw [hcleared]
        cases r with
        | error e => exact .unattached excluded _ e
        | ok _ =>
          dsimp only
          cases repeatsOf env.detach.limits (debugFlag s) with
          | error e => exact .unattached excluded _ e
          | ok repeats => exact attach_leaves rfl hitems hexcluded file a repeats

end Environment

namespace Journal

open Environment (Setup)
open Settings (Refusal)

section

variable {s : Setup} {before after : State} {r : Except Refusal Nat}

theorem cleared_wellFormed (hs : before.WellFormed) (excluded : List Value) (debug : Option Value) :
    (before.cleared excluded debug).WellFormed :=
  ⟨hs.release.attached, hs.release.isOpen, hs.release.closed⟩

theorem cleared_attach_wellFormed (hs : before.WellFormed) (excluded : List Value)
    (debug : Option Value) {h : Handler} (hid : h.id = before.opened) :
    ((before.cleared excluded debug).attach h).WellFormed :=
  (cleared_wellFormed hs excluded debug).attach before.release_handler
    (hid.trans before.release_opened.symm)

/-- A set-up keeps the invariant, however far it gets. -/
theorem Leaves.wellFormed (h : Leaves s before after r) (hs : before.WellFormed) :
    after.WellFormed := by
  cases h with
  | unattached excluded debug e => exact cleared_wellFormed hs excluded debug
  | unsettled excluded debug h e hid => exact cleared_attach_wellFormed hs excluded debug hid
  | done items excluded debug h level capturing hid _ _ _ =>
    have hattached := cleared_attach_wellFormed hs excluded debug hid
    exact ⟨hattached.attached, hattached.isOpen, hattached.closed⟩

/-- A set-up closes the file of the handler that was set up last. -/
theorem Leaves.closed (h : Leaves s before after r) : after.closed = before.release.closed := by
  cases h <;> rfl

/-- The handler that a set-up answers with is the one set up last. -/
theorem Leaves.handler {id : Nat} (h : Leaves s before after (.ok id)) :
    ∃ h, after.handler = some h ∧ h.id = id := by
  cases h with
  | done items excluded debug h level capturing hid _ _ _ => exact ⟨h, rfl, rfl⟩

/-- The exclusions that a set-up leaves are the ones it asks for. -/
theorem Leaves.excluded {id : Nat} (h : Leaves s before after (.ok id)) :
    ∃ items, elements s.exclude = .ok items ∧ after.excluded ⊆ items ∧
      ∀ v ∈ items, ∃ w ∈ after.excluded, v = w ∨ v.same w = true := by
  cases h with
  | done items excluded debug h level capturing _ hitems hexcluded _ =>
    obtain ⟨-, hfrom, hhas⟩ := mem_insertAll hexcluded
    exact ⟨items, hitems, fun w hw => (hfrom w hw).resolve_left (by simp), hhas⟩

/-- The level is that of debugging if the debug flag or the level says so, and the one asked
for otherwise. -/
theorem Leaves.level {id : Nat} (h : Leaves s before after (.ok id)) :
    if s.debug.isTrue || s.level.isDebug then after.level.toInt = debugLevel
    else s.level.level = .ok after.level := by
  cases h with
  | done items excluded debug h level capturing _ _ _ hlevel =>
    have hflag : (Environment.debugFlag s).isTrue = (s.debug.isTrue || s.level.isDebug) := by
      unfold Environment.debugFlag
      split
      · next h => rw [h, Bool.true_or]
      · next h => rw [Bool.eq_false_iff.2 h, Bool.false_or, Value.isTrue]
    rw [Environment.levelUnder, hflag] at hlevel
    split
    · next h =>
      rw [if_pos h] at hlevel
      cases hlevel
      rfl
    · next h => rwa [if_neg h] at hlevel

end

/-! ## Runs -/

/-- A set-up, and the environment that it meets, the journal of which is left out. -/
structure Call where
  surroundings : Environment
  setup : Setup

namespace Call

/-- The environment of the call, with its journal. -/
def environment (c : Call) (s : State) : Environment := { c.surroundings with journal := s }

/-- The journal after the call, and its answer. -/
def run (c : Call) (s : State) : State × Except Refusal Nat :=
  let (env, r) := (c.environment s).openJournal c.setup
  (env.journal, r)

theorem run_leaves (c : Call) (s : State) : Leaves c.setup s (c.run s).1 (c.run s).2 :=
  Environment.openJournal_leaves (c.environment s) c.setup

end Call

namespace State

/-- The journal after calls, one after the other. -/
def after (s : State) (cs : List Call) : State := cs.foldl (fun s c => (c.run s).1) s

theorem wellFormed_after {s : State} (hs : s.WellFormed) (cs : List Call) :
    (s.after cs).WellFormed := by
  induction cs generalizing s with
  | nil => exact hs
  | cons c cs ih => exact ih ((c.run_leaves s).wellFormed hs)

end State

/-- A set-up of a file at the level of warnings, in a tree with nothing in it. -/
def Call.ofPath (p : String) : Call :=
  ⟨Environment.bare, .ofFile (.text (Text.ofString p)) (.value (.int warningLevel))⟩

end Journal
end ColorMarkup
