import ColorMarkup.Session
/-!
# Modes do not interfere

A caller makes modes and copies them, runs operations under them, and writes into buffers
under them, in any order. What an act answers depends on the modes that it names only, and it
changes one mode at most. So the answers under one mode are those of a run without the acts on
all others. The exception is what a mode comes from: a copy has the past of the mode it
was copied from, up to that moment, and a new mode has none.

The shared mode is within the reach of every operation, also of one that is given another mode.
That each of them leaves it alone then is shown for them one by one, and all else comes from it.

Results:
* `exists_stores`: an act stores one mode or none, by the modes that it looks up.
* `act_congr`, `act_frame`: what an act depends on, and what it leaves.
* `lineage_run`: the acts in the past of a mode, run by themselves.
* `modes_isolated`: the same with the shared mode and with the order of acts.
-/
namespace ColorMarkup

/-- What a caller does: an event of a session, or an operation into a buffer under one of its
modes. -/
inductive Act where
  | event (e : Event)
  | write (on : Option Text) (op : TargetOperation) (dst : Object) (capacity : Value) (src : Object)
  deriving Repr

/-- What the caller sees of an act: the answer, the buffer behind it if there is one, and the
notices. -/
structure Seen where
  result : Except Error Value
  buffer : Option Object
  notices : List Notice

namespace Operand

/-- The mode that an operand reads. -/
def reads : Operand → List (Option Text)
  | mode on => [on]
  | items _ => []

end Operand

namespace Act

/-- The mode that an operation is on: the one it works under, or looks at, or copies, or makes. -/
def subject? : Act → Option (Option Text)
  | event (.make name _ _) => some (some name)
  | event (.copy _ source) => some source
  | event (.get on) | event (.display on) | event (.run on _) => some on
  | event (.equal _ _) => none
  | write on _ _ _ _ => some on

/-- The modes that are looked up. -/
def reads : Act → List (Option Text)
  | event (.make _ _ _) => []
  | event (.copy _ source) => [source]
  | event (.get on) | event (.display on) | event (.run on _) => [on]
  | event (.equal a b) => a.reads ++ b.reads
  | write on _ _ _ _ => [on]

/-- The name that stands for another mode behind the act. -/
def binds? : Act → Option Text
  | event (.make name _ _) | event (.copy name _) => some name
  | _ => none

/-- The modes that are named. -/
def names (a : Act) : List (Option Text) := a.reads ++ a.binds?.toList.map some

theorem mem_names_of_subject? {a : Act} {on : Option Text} (h : a.subject? = some on) :
    on ∈ a.names := by
  cases a with
  | event e => cases e <;> cases h <;> simp [names, reads, binds?]
  | write => cases h; simp [names, reads]

end Act

namespace Session

def act (s : Session) : Act → Seen × Session
  | .event e =>
    let r := s.step e
    (⟨r.result, none, r.notices⟩, r.session)
  | .write on op dst capacity src =>
    match s.reach on with
    | .error e => (⟨.error e, some dst, []⟩, s)
    | .ok r =>
      let a := Target.writeIn op dst capacity src r
      (⟨a.result.map .bool, some a.dst, a.notices⟩, s.settle on a.mode)

/-- What is seen of each act of a run. -/
def trace (s : Session) : List Act → List (Act × Seen)
  | [] => []
  | a :: acts => (a, (s.act a).1) :: trace (s.act a).2 acts

def after (s : Session) (acts : List Act) : Session := acts.foldl (fun s a => (s.act a).2) s

/-- The name before an act of what a name stands for behind it; a new mode has none. -/
def origin (s : Session) (a : Act) (on : Option Text) : Option (Option Text) :=
  match a with
  | .event (.make name depth direction) =>
    if on = some name ∧ (Mode.ofValues depth direction).isOk then none else some on
  | .event (.copy name source) =>
    if on = some name ∧ (s.mode source).isOk then some source else some on
  | _ => some on

/-- The act is on the mode, or makes its name stand for another one. -/
def Concerns (s : Session) (a : Act) (on : Option Text) : Prop :=
  a.subject? = some on ∨ s.origin a on ≠ some on

instance (s : Session) (a : Act) (on : Option Text) : Decidable (s.Concerns a on) :=
  inferInstanceAs (Decidable (_ ∨ _))

/-- The past of the mode that has a name at the end of a run: the acts that concern it, and
those that concern the mode it was copied from up to the copy, with what is seen of them. In
front is the name that what it comes from has before the run. -/
def lineage (on : Option Text) : Session → List Act → Option (Option Text) × List (Act × Seen)
  | _, [] => (some on, [])
  | s, a :: acts =>
    match lineage on (s.act a).2 acts with
    | (none, past) => (none, past)
    | (some n, past) => (s.origin a n, if s.Concerns a n then (a, (s.act a).1) :: past else past)

/-- The acts in the past of the mode that has a name at the end of a run, with what is seen of
them. -/
def past (on : Option Text) (s : Session) (acts : List Act) : List (Act × Seen) := (lineage on s acts).2

/-! ## One act -/

/-- Stores a mode, if there is one to store. -/
def store (s : Session) : Option (Option Text × Mode) → Session
  | none => s
  | some (on, m) => s.put on m

variable {s t : Session}

theorem mode_congr {on : Option Text} (h : t.find? on = s.find? on) : t.mode on = s.mode on := by
  unfold mode
  rw [h]

theorem operand_congr {o : Operand} (h : ∀ n ∈ o.reads, t.find? n = s.find? n) :
    t.operand o = s.operand o := by
  cases o with
  | mode on => rw [operand, operand, mode_congr (h on List.mem_cons_self)]
  | items vs => rfl

theorem equal_congr {a b : Operand} (h : ∀ n ∈ a.reads ++ b.reads, t.find? n = s.find? n) :
    t.equal a b = s.equal a b := by
  obtain ⟨ha, hb⟩ := List.forall_mem_append.1 h
  rw [equal, equal, operand_congr ha, operand_congr hb]

/-- What an act stores, in a session and in every other one that agrees on the modes that it
looks up. -/
structure Stores (s : Session) (a : Act) (stored : Option (Option Text × Mode)) : Prop where
  /-- It is stored for a name that the act concerns. -/
  concerned : ∀ p ∈ stored, s.Concerns a p.1
  /-- It is stored for a name that stands for another mode now. -/
  renewed : ∀ n, s.origin a n ≠ some n → ∃ m, stored = some (n, m)
  acts : ∀ t : Session, (∀ n ∈ a.reads, t.find? n = s.find? n) → t.act a = ((s.act a).1, t.store stored)

/-- An act under one mode, which stores that one or none, by what it makes of the mode or of the
refusal of its name. -/
theorem stores_of_subject {a : Act} {on : Option Text} (s : Session) (hsubject : a.subject? = some on)
    (hreads : a.reads = [on]) (horigin : ∀ n, s.origin a n = some n)
    (f : Except Error Mode → Seen × Option Mode)
    (hact : ∀ t : Session, t.act a = ((f (t.mode on)).1, t.store ((f (t.mode on)).2.map (on, ·)))) :
    s.Stores a ((f (s.mode on)).2.map (on, ·)) where
  concerned p hp := by
    obtain ⟨m, -, rfl⟩ := Option.map_eq_some_iff.1 hp
    exact .inl hsubject
  renewed n hn := absurd (horigin n) hn
  acts t ht := by
    have hmode : t.mode on = s.mode on := mode_congr (ht on (by rw [hreads]; exact List.mem_cons_self))
    rw [hact t, hact s, hmode]

theorem stores_make (s : Session) (name : Text) (depth direction : Value) :
    ∃ stored, s.Stores (.event (.make name depth direction)) stored := by
  cases hm : Mode.ofValues depth direction with
  | error e =>
    exact ⟨none, {
      concerned := by simp
      renewed := by simp [origin, hm, Except.isOk, Except.toBool]
      acts := fun t _ => by simp [act, step, hm, store] }⟩
  | ok m =>
    refine ⟨some (some name, m), {
      concerned := by simp [Concerns, Act.subject?]
      renewed := fun n hn => ⟨m, ?_⟩
      acts := fun t _ => by simp [act, step, hm, store] }⟩
    by_cases hname : n = some name
    · rw [hname]
    · simp [origin, hname] at hn

theorem stores_copy (s : Session) (name : Text) (source : Option Text) :
    ∃ stored, s.Stores (.event (.copy name source)) stored := by
  have hmode (t : Session) (ht : ∀ n ∈ Act.reads (.event (.copy name source)), t.find? n = s.find? n) :
      t.mode source = s.mode source := mode_congr (ht source List.mem_cons_self)
  cases hm : s.mode source with
  | error e =>
    exact ⟨none, {
      concerned := by simp
      renewed := by simp [origin, hm, Except.isOk, Except.toBool]
      acts := fun t ht => by simp [act, step, hmode t ht, hm, store] }⟩
  | ok m =>
    refine ⟨some (some name, m), {
      concerned := ?_
      renewed := fun n hn => ⟨m, ?_⟩
      acts := fun t ht => by simp [act, step, hmode t ht, hm, store] }⟩
    · by_cases hself : source = some name
      · simp [Concerns, Act.subject?, hself]
      · simp [Concerns, Act.subject?, origin, hm, hself, Except.isOk, Except.toBool]
    · by_cases hname : n = some name
      · rw [hname]
      · simp [origin, hname] at hn

/-- An operation into a buffer leaves what it makes of the mode it is on. -/
theorem act_write (s : Session) (on : Option Text) (op : TargetOperation) (dst : Object)
    (capacity : Value) (src : Object) :
    s.act (.write on op dst capacity src) = match s.mode on with
      | .error e => (⟨.error e, some dst, []⟩, s)
      | .ok m =>
        let a := Target.write op dst capacity src m
        (⟨a.result.map .bool, some a.dst, a.notices⟩, s.put on a.mode) := by
  rw [act, reach_eq]
  cases on with
  | none =>
    simp only [mode, find?, Except.map, Option.map_none, Target.writeIn_shared]
    rfl
  | some name =>
    cases hm : s.mode (some name) with
    | error e => rfl
    | ok m =>
      simp only [Except.map, Option.map_some, Target.writeIn_given]
      rfl

/-- Every act stores a mode or none, by the modes that it looks up. -/
theorem exists_stores (s : Session) (a : Act) : ∃ stored, s.Stores a stored := by
  cases a with
  | event e =>
    cases e with
    | make name depth direction => exact s.stores_make name depth direction
    | copy name source => exact s.stores_copy name source
    | get on =>
      exact ⟨_, stores_of_subject s rfl rfl (fun _ => rfl)
        (fun r => (⟨r.map fun m => .list (modeItems m), none, []⟩, none)) fun t => by
          simp [act, step, look, store]⟩
    | display on =>
      exact ⟨_, stores_of_subject s rfl rfl (fun _ => rfl)
        (fun r => (⟨r.map fun m => .text (Text.ofString m.display), none, []⟩, none)) fun t => by
          simp [act, step, look, store]⟩
    | equal x y =>
      exact ⟨none, {
        concerned := by simp
        renewed := by simp [origin]
        acts := fun t ht => by simp [act, step, equal_congr ht, store] }⟩
    | run on op =>
      refine ⟨_, stores_of_subject s rfl rfl (fun _ => rfl) (fun
        | .error e => (⟨.error e, none, []⟩, none)
        | .ok m => (⟨(op.run m).result, none, (op.run m).notices⟩, some (op.run m).mode)) fun t => ?_⟩
      rw [act, step_run]
      cases hm : t.mode on <;> simp [store]
  | write on op dst capacity src =>
    refine ⟨_, stores_of_subject s rfl rfl (fun _ => rfl) (fun
      | .error e => (⟨.error e, some dst, []⟩, none)
      | .ok m =>
        let r := Target.write op dst capacity src m
        (⟨r.result.map .bool, some r.dst, r.notices⟩, some r.mode)) fun t => ?_⟩
    rw [act_write]
    cases hm : t.mode on <;> simp [store]

theorem find?_store_of_ne {stored : Option (Option Text × Mode)} {n : Option Text}
    (h : ∀ p ∈ stored, p.1 ≠ n) (s : Session) : (s.store stored).find? n = s.find? n := by
  cases stored with
  | none => rfl
  | some p => exact find?_put_of_ne s (h p rfl).symm p.2

/-- An act leaves every mode that it does not concern. -/
theorem act_frame {a : Act} {n : Option Text} (h : ¬ s.Concerns a n) :
    (s.act a).2.find? n = s.find? n := by
  obtain ⟨stored, hstored⟩ := s.exists_stores a
  rw [hstored.acts s fun _ _ => rfl]
  refine find?_store_of_ne (fun p hp hn => h ?_) s
  rw [← hn]
  exact hstored.concerned p hp

/-- In sessions that agree on the modes that an act looks up the same is seen of it. They agree
behind it on every mode on which they did before, and on one that is another one now. -/
theorem act_congr {a : Act} (h : ∀ n ∈ a.reads, t.find? n = s.find? n) :
    (t.act a).1 = (s.act a).1 ∧
      ∀ n, t.find? n = s.find? n ∨ s.origin a n ≠ some n →
        (t.act a).2.find? n = (s.act a).2.find? n := by
  obtain ⟨stored, hstored⟩ := s.exists_stores a
  rw [hstored.acts s fun _ _ => rfl, hstored.acts t h]
  refine ⟨rfl, fun n hn => ?_⟩
  by_cases hput : ∃ m, stored = some (n, m)
  · obtain ⟨m, rfl⟩ := hput
    exact (find?_put_self t n m).trans (find?_put_self s n m).symm
  · have hne : ∀ p ∈ stored, p.1 ≠ n := by
      rintro ⟨_, m⟩ hp rfl
      exact hput ⟨m, hp⟩
    rw [find?_store_of_ne hne, find?_store_of_ne hne]
    exact hn.resolve_right fun h => hput (hstored.renewed n h)

/-- An act on a mode, or that makes its name stand for another one, looks up only what the mode
comes from. -/
theorem origin_of_mem_reads {a : Act} {n r : Option Text} (h : s.Concerns a n) (hr : r ∈ a.reads) :
    s.origin a n = some r := by
  cases a with
  | event e =>
    cases e with
    | make name depth direction => cases hr
    | copy name source =>
      obtain rfl : r = source := List.mem_singleton.1 hr
      by_cases hbound : n = some name ∧ (s.mode r).isOk = true
      · exact if_pos hbound
      · obtain hsubject | horigin := h
        · cases hsubject
          exact if_neg hbound
        · exact absurd (if_neg hbound) horigin
    | get on | display on | run on op =>
      obtain rfl : r = on := List.mem_singleton.1 hr
      exact (h.resolve_right (not_not_intro rfl)).symm
    | equal x y => simp [Concerns, Act.subject?, origin] at h
  | write on op dst capacity src =>
    obtain rfl : r = on := List.mem_singleton.1 hr
    exact (h.resolve_right (not_not_intro rfl)).symm

theorem origin_of_not_binds {a : Act} {n : Option Text} (h : ∀ name ∈ a.binds?, some name ≠ n)
    (s : Session) : s.origin a n = some n := by
  cases a with
  | event e =>
    cases e with
    | make name depth direction => exact if_neg fun hn => h name rfl hn.1.symm
    | copy name source => exact if_neg fun hn => h name rfl hn.1.symm
    | get on | display on | equal x y | run on op => rfl
  | write on op dst capacity src => rfl

/-- An act concerns only modes that it names. -/
theorem not_concerns_of_not_mem {a : Act} {n : Option Text} (h : n ∉ a.names) (s : Session) :
    ¬ s.Concerns a n := by
  rintro (hsubject | horigin)
  · exact h (Act.mem_names_of_subject? hsubject)
  · refine horigin (origin_of_not_binds (fun name hname he => h ?_) s)
    exact List.mem_append_right _ (List.mem_map.2 ⟨name, Option.mem_toList.2 hname, he⟩)

/-! ## The past of a mode -/

/-- The acts in the past of a mode, run by themselves in a session that agrees on what the mode
comes from: the same is seen of them, and the mode is the same in the end. -/
theorem lineage_run (on : Option Text) {acts : List Act}
    (h : ∀ n ∈ (lineage on s acts).1, t.find? n = s.find? n) :
    t.trace ((lineage on s acts).2.map Prod.fst) = (lineage on s acts).2 ∧
      (t.after ((lineage on s acts).2.map Prod.fst)).find? on = (s.after acts).find? on := by
  induction acts generalizing s t with
  | nil => exact ⟨rfl, h on rfl⟩
  | cons a acts ih =>
    have hafter : s.after (a :: acts) = (s.act a).2.after acts := rfl
    rw [hafter]
    rw [lineage] at h ⊢
    have hrest := @ih (s.act a).2
    generalize lineage on (s.act a).2 acts = l at h hrest ⊢
    obtain ⟨start, past⟩ := l
    cases start with
    | none => exact hrest (by simp)
    | some n =>
      simp only [Option.mem_def, Option.some.injEq, forall_eq'] at h hrest ⊢
      by_cases hkeep : s.Concerns a n
      · rw [if_pos hkeep]
        obtain ⟨hseen, hfind⟩ := act_congr fun r hr => h r (origin_of_mem_reads hkeep hr)
        have hnext : (t.act a).2.find? n = (s.act a).2.find? n := by
          refine hfind n ?_
          by_cases horigin : s.origin a n = some n
          · exact .inl (h n horigin)
          · exact .inr horigin
        obtain ⟨htrace, hon⟩ := hrest hnext
        exact ⟨by rw [List.map_cons, trace, hseen, htrace], hon⟩
      · -- the act is left out, and it has left the mode
        rw [if_neg hkeep]
        have horigin : s.origin a n = some n := Classical.not_not.1 fun hn => hkeep (.inr hn)
        exact hrest ((h n horigin).trans (act_frame hkeep).symm)

theorem lineage_sublist (on : Option Text) (s : Session) (acts : List Act) :
    (lineage on s acts).2.Sublist (s.trace acts) := by
  induction acts generalizing s with
  | nil => exact .slnil
  | cons a acts ih =>
    have hrest := ih (s.act a).2
    rw [lineage, trace]
    generalize lineage on (s.act a).2 acts = l at hrest ⊢
    obtain ⟨start, past⟩ := l
    cases start with
    | none => exact hrest.cons _
    | some n =>
      simp only
      split
      · exact hrest.cons_cons _
      · exact hrest.cons _

/-- The past of a mode whose name stands for no other mode in the run: the acts that are on it. -/
theorem lineage_of_not_binds {on : Option Text} {acts : List Act}
    (h : ∀ a ∈ acts, ∀ name ∈ a.binds?, some name ≠ on) (s : Session) :
    lineage on s acts = (some on, (s.trace acts).filter fun p => p.1.subject? = some on) := by
  induction acts generalizing s with
  | nil => rfl
  | cons a acts ih =>
    obtain ⟨ha, hacts⟩ := List.forall_mem_cons.1 h
    have horigin := origin_of_not_binds ha s
    rw [lineage, ih hacts]
    simp only [trace, List.filter_cons, Concerns, horigin, ne_eq, not_true, or_false, decide_eq_true_eq]

/-- The past of a mode at the end of two runs, the second after the first. -/
theorem lineage_append (on : Option Text) (s : Session) (acts more : List Act) :
    lineage on s (acts ++ more) =
      match lineage on (s.after acts) more with
      | (none, past) => (none, past)
      | (some n, past) => ((lineage n s acts).1, (lineage n s acts).2 ++ past) := by
  induction acts generalizing s with
  | nil =>
    have hafter : s.after [] = s := rfl
    rw [hafter, List.nil_append]
    obtain ⟨start, past⟩ := lineage on s more
    cases start <;> rfl
  | cons a acts ih =>
    have hafter : s.after (a :: acts) = (s.act a).2.after acts := rfl
    rw [hafter, List.cons_append, lineage, ih]
    obtain ⟨start, past⟩ := lineage on ((s.act a).2.after acts) more
    cases start with
    | none => rfl
    | some n =>
      simp only [lineage]
      obtain ⟨start, past'⟩ := lineage n (s.act a).2 acts
      cases start with
      | none => rfl
      | some k =>
        simp only
        split <;> rfl

/-- The past of a copy: the past of what was copied, the copy, and the acts on it since. -/
theorem past_copy {s : Session} {acts more : List Act} {name : Text} {source : Option Text}
    (hsource : ((s.after acts).mode source).isOk = true) (hmore : ∀ a ∈ more, name ∉ a.binds?) :
    past (some name) s (acts ++ .event (.copy name source) :: more) =
      past source s acts ++ (.event (.copy name source), ⟨.ok .none, none, []⟩) ::
        (trace ((s.after acts).act (.event (.copy name source))).2 more).filter
          fun p => p.1.subject? = some (some name) := by
  have hbinds : ∀ a ∈ more, ∀ other ∈ a.binds?, some other ≠ some name := by
    rintro a ha other hother heq
    cases heq
    exact hmore a ha hother
  have horigin : (s.after acts).origin (.event (.copy name source)) (some name) = some source :=
    if_pos ⟨rfl, hsource⟩
  have hconcerns : (s.after acts).Concerns (.event (.copy name source)) (some name) := by
    by_cases hself : source = some name
    · exact .inl (congrArg some hself)
    · exact .inr (by simp [horigin, hself])
  have hseen : ((s.after acts).act (.event (.copy name source))).1 = ⟨.ok .none, none, []⟩ := by
    cases hm : (s.after acts).mode source with
    | error e => rw [hm] at hsource; cases hsource
    | ok m => simp [act, step, hm]
  rw [past, lineage_append, lineage, lineage_of_not_binds hbinds]
  simp only [horigin, hconcerns, if_true, hseen]
  rfl

/-! ## Two acts -/

/-- An act that does not name the shared mode neither reads nor changes it. -/
theorem act_withShared {a : Act} (h : none ∉ a.names) (s : Session) (m : Mode) :
    ({ s with shared := m } : Session).act a = ((s.act a).1, { (s.act a).2 with shared := m }) := by
  obtain ⟨stored, hstored⟩ := s.exists_stores a
  rw [hstored.acts s fun _ _ => rfl]
  refine (hstored.acts _ fun n hn => ?_).trans (congrArg (Prod.mk _) ?_)
  · cases n with
    | none => exact absurd (List.mem_append_left _ hn) h
    | some name => rfl
  · cases stored with
    | none => rfl
    | some p =>
      obtain ⟨on, m'⟩ := p
      cases on with
      | none => exact absurd (hstored.concerned _ rfl) (not_concerns_of_not_mem h s)
      | some name => rfl

/-- Acts that name no mode in common see the same in either order. -/
theorem act_act_seen {a b : Act} (h : ∀ n ∈ a.names, n ∉ b.names) (s : Session) :
    ((s.act a).2.act b).1 = (s.act b).1 :=
  (act_congr fun n hn => act_frame
    (not_concerns_of_not_mem (fun ha => h n ha (List.mem_append_left _ hn)) s)).1

/-- Of two acts that name no mode in common the other one does not matter to a mode that it
does not name, wherever it comes. -/
theorem find?_act_act {a b : Act} (h : ∀ n ∈ a.names, n ∉ b.names) (s : Session) {n : Option Text}
    (hn : n ∉ b.names) :
    ((s.act a).2.act b).2.find? n = (s.act a).2.find? n ∧
      ((s.act b).2.act a).2.find? n = (s.act a).2.find? n := by
  refine ⟨act_frame (not_concerns_of_not_mem hn _), ?_⟩
  have hreads : ∀ r ∈ a.reads, (s.act b).2.find? r = s.find? r := fun r hr =>
    act_frame (not_concerns_of_not_mem (h r (List.mem_append_left _ hr)) s)
  exact (act_congr hreads).2 n (.inl (act_frame (not_concerns_of_not_mem hn s)))

/-- Acts that name no mode in common may change places. -/
theorem act_comm {a b : Act} (h : ∀ n ∈ a.names, n ∉ b.names) (s : Session) (n : Option Text) :
    ((s.act a).2.act b).2.find? n = ((s.act b).2.act a).2.find? n := by
  by_cases hn : n ∈ b.names
  · have hback : ∀ n ∈ b.names, n ∉ a.names := fun n hb ha => h n ha hb
    obtain ⟨hba, hab⟩ := find?_act_act hback s (hback n hn)
    exact hab.trans hba.symm
  · obtain ⟨hab, hba⟩ := find?_act_act h s hn
    exact hab.trans hba.symm

end Session

/-- Modes do not interfere. The acts in the past of a mode, run by themselves, are answered as
in the whole run, and leave the mode as the whole run does. If the name stands for no other
mode in the run, the past are the acts on the mode; a copy has before these the past of what
was copied. An act that names other modes neither reads nor changes the shared one, and acts that
name no mode in common may change places. An operation that is given a mode does under it what it
does under the shared mode if it is given none, whatever the shared mode is then, and leaves that. -/
theorem modes_isolated (s : Session) :
    (∀ on acts, (s.past on acts).Sublist (s.trace acts) ∧
      s.trace ((s.past on acts).map Prod.fst) = s.past on acts ∧
      (s.after ((s.past on acts).map Prod.fst)).find? on = (s.after acts).find? on) ∧
    (∀ on acts, (∀ a ∈ acts, ∀ name ∈ a.binds?, some name ≠ on) →
      s.past on acts = (s.trace acts).filter fun p => p.1.subject? = some on) ∧
    (∀ name source acts more, ((s.after acts).mode source).isOk = true →
      (∀ a ∈ more, name ∉ a.binds?) →
      s.past (some name) (acts ++ .event (.copy name source) :: more) =
        s.past source acts ++ (.event (.copy name source), ⟨.ok .none, none, []⟩) ::
          (((s.after acts).act (.event (.copy name source))).2.trace more).filter
            fun p => p.1.subject? = some (some name)) ∧
    (∀ a m, none ∉ a.names →
      ({ s with shared := m } : Session).act a = ((s.act a).1, { (s.act a).2 with shared := m }) ∧
      (s.act a).2.shared = s.shared) ∧
    (∀ a b, (∀ n ∈ a.names, n ∉ b.names) →
      ((s.act a).2.act b).1 = (s.act b).1 ∧ ((s.act b).2.act a).1 = (s.act a).1 ∧
      ∀ n, ((s.act a).2.act b).2.find? n = ((s.act b).2.act a).2.find? n) ∧
    (∀ (op : Operation) m shared,
      op.runIn ⟨none, m⟩ = ⟨(op.run m).result, ⟨none, (op.run m).mode⟩, (op.run m).notices⟩ ∧
      op.runIn ⟨some m, shared⟩ =
        ⟨(op.run m).result, ⟨some (op.run m).mode, shared⟩, (op.run m).notices⟩) ∧
    ∀ op dst capacity src m shared, let a := Target.write op dst capacity src m
      Target.writeIn op dst capacity src ⟨none, m⟩ =
        ⟨a.result, a.dst, ⟨none, a.mode⟩, a.notices⟩ ∧
      Target.writeIn op dst capacity src ⟨some m, shared⟩ =
        ⟨a.result, a.dst, ⟨some a.mode, shared⟩, a.notices⟩ := by
  refine ⟨fun on acts => ⟨Session.lineage_sublist on s acts, Session.lineage_run on fun _ _ => rfl⟩,
    fun on acts h => congrArg Prod.snd (Session.lineage_of_not_binds h s),
    fun name source acts more hsource hmore => Session.past_copy hsource hmore,
    fun a m h => ⟨Session.act_withShared h s m, ?_⟩, fun a b h => ?_,
    fun op m shared => ⟨op.runIn_shared m, op.runIn_given m shared⟩,
    fun op dst capacity src m shared => ⟨Target.writeIn_shared op dst capacity src m,
      Target.writeIn_given op dst capacity src m shared⟩⟩
  · exact Option.some.inj (Session.act_frame (Session.not_concerns_of_not_mem h s))
  · have hback : ∀ n ∈ b.names, n ∉ a.names := fun n hb ha => h n ha hb
    exact ⟨Session.act_act_seen h s, Session.act_act_seen hback s, Session.act_comm h s⟩

/-- A mode is copied in the middle of a run. Of the seven acts, four are the past of the copy:
the making of the first mode, a tag under it, the copy, and a tag written into a buffer under
the copy. -/
theorem modes_isolated_copy :
    let a : Text := Text.ofString "a"
    let b : Text := Text.ofString "b"
    let tag (body : String) : Value := .bytes .constant (Bytes.ofString body)
    let acts : List Act := [
      .event (.make a (.int 24) (.text (Text.ofString "fg"))),
      .event (.run (some a) (.convert .replace (tag "[bg]") .none)),
      .event (.run none (.requestDepth (.int 4))),
      .event (.copy b (some a)),
      .event (.run (some a) (.convert .remove (tag "[fg]") .none)),
      .write (some b) (.convert .replace) (.value (.bytes .array (List.replicate 8 0xFF))) (.int 8)
        (.value (tag "[4-bit]")),
      .event (.run (some a) (.requestDepth (.int 8)))]
    let past := Session.initial.past (some b) acts
    past.length = 4 ∧
    Session.initial.trace (past.map Prod.fst) = past ∧
    (Session.initial.after (past.map Prod.fst)).find? (some b) = some ⟨.four, .background⟩ := by
  intro a b tag acts past
  obtain ⟨-, htrace, hmode⟩ := (modes_isolated Session.initial).1 (some b) acts
  refine ⟨by decide +kernel, htrace, hmode.trans ?_⟩
  decide +kernel

end ColorMarkup
