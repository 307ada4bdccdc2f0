import ColorMarkup.Escape.Builder
import ColorMarkup.Escape.Subject
import ColorMarkup.Target
/-!
# Sessions

A session holds modes: one shared by default, and any number under names. Events make and
copy modes, ask for them, and run operations. An event on a name not in use is refused.

An operation on a named mode is given that mode, and one on the shared mode is given none. In
both cases it has the shared mode within its reach, and each operation looks by itself for the
mode it works under; both modes are stored as it leaves them.

Results:
* `find?_put_self`, `find?_put_of_ne`: storing a mode changes that one only.
* `Operation.runIn_given`: an operation that is given a mode leaves the shared one.
* `step_run_find?`: an operation on one mode leaves every other.
-/
namespace ColorMarkup

inductive Operation where
  | requestDepth (v : Value)
  | requestDirection (v : Value)
  | ofIndex (index direction : Value)
  | ofColor (red green blue direction : Value)
  | ofName (name direction depth : Value)
  | perform (subject : Subject) (depth direction : Value)
  | convert (action : Markup.Action) (text capacity : Value)
  deriving Repr

namespace Operation

/-- What an operation does with the modes within its reach. -/
def runIn (op : Operation) (r : Reach) : Effect Value :=
  match op with
  | requestDepth v => r.call fun m => (m.requestDepth v).map .depth
  | requestDirection v => r.call fun m => (m.requestDirection v).map .direction
  | ofIndex index direction => .ofResult ((Builder.ofIndexIn index direction r).map (.text ·.text)) r
  | ofColor red green blue direction =>
    .ofResult ((Builder.ofColorIn red green blue direction r).map (.text ·.text)) r
  | ofName name direction depth => (Builder.ofNameIn name direction depth r).map Escape.answer
  | perform subject depth direction => r.call (subject.perform depth direction)
  | convert action text capacity => Markup.processValue action text capacity r

/-- What an operation does under a mode. -/
def run (op : Operation) (m : Mode) : Outcome Value := (op.runIn ⟨none, m⟩).outcome

theorem run_eq (op : Operation) (m : Mode) : op.run m = match op with
    | requestDepth v => (m.requestDepth v).map .depth
    | requestDirection v => (m.requestDirection v).map .direction
    | ofIndex index direction =>
      .ofResult ((Builder.ofIndex index direction m).map (.text ·.text)) m
    | ofColor red green blue direction =>
      .ofResult ((Builder.ofColor red green blue direction m).map (.text ·.text)) m
    | ofName name direction depth => (Builder.ofName name direction depth m).map Escape.answer
    | perform subject depth direction => subject.perform depth direction m
    | convert action text capacity => Markup.convertValue action text capacity m := by
  cases op <;> rfl

/-- Without a mode of its own an operation works under the shared one. -/
theorem runIn_shared (op : Operation) (m : Mode) : op.runIn ⟨none, m⟩ = (op.run m).onShared := by
  cases op with
  | requestDepth | requestDirection | ofIndex | ofColor | perform => rfl
  | ofName name direction depth =>
    rw [run, runIn, Builder.ofNameIn_shared]
    rfl
  | convert action text capacity =>
    rw [run, runIn, Markup.processValue_shared]
    rfl

/-- With one it does under that what it does under the shared mode without it, and neither reads
nor changes the shared one. -/
theorem runIn_given (op : Operation) (m shared : Mode) :
    op.runIn ⟨some m, shared⟩ = (op.run m).onGiven shared := by
  rw [run_eq]
  cases op with
  | requestDepth | requestDirection | perform => rfl
  | ofIndex index direction =>
    rw [runIn, Builder.ofIndexIn_given]
    rfl
  | ofColor red green blue direction =>
    rw [runIn, Builder.ofColorIn_given]
    rfl
  | ofName name direction depth =>
    rw [runIn, Builder.ofNameIn_given]
    rfl
  | convert action text capacity =>
    rw [runIn, Markup.processValue_given]

end Operation

/-- The shared mode and the named ones. -/
structure Session where
  shared : Mode
  named : List (Text × Mode)
  deriving Repr

/-- A mode to compare, or a list of values, which equals no mode. -/
inductive Operand where
  | mode (on : Option Text)
  | items (vs : List Value)
  deriving Repr

/-- What happens in a session; `none` names the shared mode. -/
inductive Event where
  | make (name : Text) (depth direction : Value)
  | copy (name : Text) (source : Option Text)
  | get (on : Option Text)
  | display (on : Option Text)
  | equal (a b : Operand)
  | run (on : Option Text) (op : Operation)
  deriving Repr

namespace Session

def initial : Session := ⟨.initial, []⟩

def find? (s : Session) : Option Text → Option Mode
  | none => some s.shared
  | some name => (s.named.find? fun p => p.1 == name).map (·.2)

/-- The mode under a name, or the refusal of a name not in use. -/
def mode (s : Session) (on : Option Text) : Except Error Mode :=
  match s.find? on with
  | some m => .ok m
  | none => .error (.noMode (on.getD []))

/-- Stores a mode under a name, in its old place if the name is in use. -/
def putNamed (name : Text) (m : Mode) : List (Text × Mode) → List (Text × Mode)
  | [] => [(name, m)]
  | p :: rest => if p.1 = name then (name, m) :: rest else p :: putNamed name m rest

def put (s : Session) (on : Option Text) (m : Mode) : Session :=
  match on with
  | none => { s with shared := m }
  | some name => { s with named := putNamed name m s.named }

/-- What is within the reach of an operation on a mode: it is given a named one. -/
def reach (s : Session) : Option Text → Except Error Reach
  | none => .ok ⟨none, s.shared⟩
  | some name => (s.mode (some name)).map fun m => ⟨some m, s.shared⟩

/-- Stores the modes that an operation has left. -/
def settle (s : Session) (on : Option Text) (r : Reach) : Session :=
  let s := s.put none r.shared
  match on, r.given with
  | some name, some m => s.put (some name) m
  | _, _ => s

/-- What an event answers, the session after it, and its notices. -/
structure Reply where
  result : Except Error Value
  session : Session
  notices : List Notice

/-- The depth and direction of a mode as a list. -/
def modeItems (m : Mode) : List Value := [.depth m.depth, .direction m.direction]

/-- The mode or the items that an operand is. -/
def operand (s : Session) : Operand → Except Error (Mode ⊕ List Value)
  | .mode on => (s.mode on).map .inl
  | .items vs => .ok (.inr vs)

/-- Are two operands equal? Modes are by content, lists by items. -/
def equal (s : Session) (a b : Operand) : Except Error Bool := do
  let a ← s.operand a
  let b ← s.operand b
  match a, b with
  | .inl m, .inl n => return m == n
  | .inr xs, .inr ys => return Value.sameItems xs ys
  | _, _ => return false

/-- Answers without changing the session. -/
def look (s : Session) (on : Option Text) (f : Mode → Value) : Reply :=
  ⟨(s.mode on).map f, s, []⟩

def step (s : Session) : Event → Reply
  | .make name depth direction =>
    match Mode.ofValues depth direction with
    | .error e => ⟨.error e, s, []⟩
    | .ok m => ⟨.ok .none, s.put (some name) m, []⟩
  | .copy name source =>
    match s.mode source with
    | .ok m => ⟨.ok .none, s.put (some name) m, []⟩
    | .error e => ⟨.error e, s, []⟩
  | .get on => s.look on fun m => .list (modeItems m)
  | .display on => s.look on fun m => .text (Text.ofString m.display)
  | .equal a b => ⟨(s.equal a b).map .bool, s, []⟩
  | .run on op =>
    match s.reach on with
    | .error e => ⟨.error e, s, []⟩
    | .ok r =>
      let e := op.runIn r
      ⟨e.result, s.settle on e.reach, e.notices⟩

def modes (s : Session) : List (Option Text × Mode) :=
  (none, s.shared) :: s.named.map fun p => (some p.1, p.2)

theorem find?_putNamed_self (name : Text) (m : Mode) (l : List (Text × Mode)) :
    (putNamed name m l).find? (fun p => p.1 == name) = some (name, m) := by
  induction l with
  | nil => simp [putNamed]
  | cons p l ih =>
    unfold putNamed
    split
    · simp
    · next h => rw [List.find?_cons_of_neg (by simpa using h)]; exact ih

theorem find?_putNamed_of_ne {name other : Text} (h : other ≠ name) (m : Mode)
    (l : List (Text × Mode)) :
    (putNamed name m l).find? (fun p => p.1 == other) = l.find? fun p => p.1 == other := by
  induction l with
  | nil => simp [putNamed, Ne.symm h]
  | cons p l ih =>
    unfold putNamed
    split
    · next hp => rw [List.find?_cons_of_neg, List.find?_cons_of_neg] <;> simp [hp, Ne.symm h]
    · by_cases hp : p.1 = other
      · rw [List.find?_cons_of_pos, List.find?_cons_of_pos] <;> simp [hp]
      · rw [List.find?_cons_of_neg, List.find?_cons_of_neg, ih] <;> simp [hp]

theorem find?_put_self (s : Session) (on : Option Text) (m : Mode) :
    (s.put on m).find? on = some m := by
  cases on with
  | none => rfl
  | some name => simp [put, find?, find?_putNamed_self]

theorem find?_put_of_ne (s : Session) {on other : Option Text} (h : other ≠ on) (m : Mode) :
    (s.put on m).find? other = s.find? other := by
  cases on with
  | none => cases other with
    | none => exact absurd rfl h
    | some _ => rfl
  | some name => cases other with
    | none => rfl
    | some o =>
      have ho : o ≠ name := fun e => h (congrArg some e)
      simp [put, find?, find?_putNamed_of_ne ho]

/-- The reach of an operation, which leaves the session if nothing is changed in it. -/
theorem reach_eq (s : Session) (on : Option Text) :
    s.reach on = (s.mode on).map fun m => ⟨on.map fun _ => m, s.shared⟩ := by
  cases on <;> rfl

/-- An operation leaves what it makes of the mode it is on. -/
theorem step_run (s : Session) (on : Option Text) (op : Operation) :
    s.step (.run on op) = match s.mode on with
      | .error e => ⟨.error e, s, []⟩
      | .ok m => ⟨(op.run m).result, s.put on (op.run m).mode, (op.run m).notices⟩ := by
  rw [step, reach_eq]
  cases on with
  | none =>
    simp only [mode, find?, Except.map, Option.map_none, op.runIn_shared]
    rfl
  | some name =>
    cases hm : s.mode (some name) with
    | error e => rfl
    | ok m =>
      simp only [Except.map, Option.map_some, op.runIn_given]
      rfl

theorem step_run_find? (s : Session) {on other : Option Text} (h : other ≠ on) (op : Operation) :
    (s.step (.run on op)).session.find? other = s.find? other := by
  rw [step_run]
  cases s.mode on with
  | error e => rfl
  | ok m => exact find?_put_of_ne s h _

end Session
end ColorMarkup
