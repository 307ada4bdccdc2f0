import ColorMarkup.Markup.Convert
import ColorMarkup.Escape.Strip
/-!
# Writing into a caller's buffer

An operation may write its result, with a terminating zero byte, over the start of a buffer of
the caller's. The buffer must be writable and at least as long as the declared capacity, and
source and result must be shorter than the capacity. Otherwise the answer is no and the buffer
keeps its content; mode changes met before are kept too. The source is read before anything is
written, so it may be the buffer itself.

A buffer may be a view of any layout. Its length counts items, and only a flat one can be
written over: into any other the operation runs, and then writing its result fails.

Results:
* `length_store`: writing keeps the length of a buffer that is long enough.
* `untilNul_store_eq`: what is written reads back up to its terminator.
* `writeIn_given`, `writeIn_shared`: under a mode that is given, and under the shared one.
-/
namespace ColorMarkup

inductive TargetOperation where
  | convert (action : Markup.Action)
  | stripSequences
  deriving DecidableEq, Repr

namespace Target

/-- The content with a result and its terminator over its start. -/
def store (content result : Bytes) : Bytes := result ++ 0 :: content.drop (result.length + 1)

theorem length_store {content result : Bytes} (h : result.length < content.length) :
    (store content result).length = content.length := by
  simp [store]; omega

/-- The terminator ends the result, wherever the result has a zero of its own. -/
theorem untilNul_store_eq (content result : Bytes) :
    (store content result).untilNul = result.untilNul := by
  unfold store Bytes.untilNul
  generalize content.drop (result.length + 1) = rest
  induction result with
  | nil => rfl
  | cons b result ih =>
    rw [List.cons_append, List.takeWhile_cons, List.takeWhile_cons, ih]

end Target

/-- The view with a result and its terminator over its start. -/
def View.overwrite (v : View) (result : Bytes) : Except Error View :=
  match letter? v.format with
  | none => .error (.misuse (.viewFormat v.format))
  | some letter =>
    if v.shape.length = 1 then
      if h : letter = 'B' ∧ result.length < v.content.length then
        .ok (v.withContent (Target.store v.content result) (Target.length_store h.2))
      else .error (.misuse .viewItems)
    else .error (.misuse (if v.shape.isEmpty then .viewNoDimension else .viewDimensions))

namespace Object

/-- Can the object be written over, with room for `capacity` items? -/
def takes (capacity : Int) : Object → Except Error Bool
  | value (.bytes holder b) => .ok (capacity ≤ b.length && holder.isMutable)
  | view v => (view v).length.map fun n : Nat => capacity ≤ n && v.isWritable
  | releasedView => .error (.misuse .released)
  | value _ | other _ _ _ => .ok false

/-- The object with a result and its terminator over its start. -/
def overwrite (result : Bytes) : Object → Except Error Object
  | value (.bytes holder b) => .ok (value (.bytes holder (Target.store b result)))
  | view v => (v.overwrite result).map view
  | releasedView => .error (.misuse .released)
  | o => .ok o

end Object

namespace Target

/-- Runs an operation on bytes. Mirrors the functions that `buffer_operation` adapts. -/
def runIn (op : TargetOperation) (src : Bytes) (capacity : Int) (r : Reach) : Effect Bytes :=
  match op with
  | .convert action => Markup.process action src (.int capacity) r
  | .stripSequences => .ofResult (Sgr.strip src (.int capacity)) r

/-- The answer or the error, the buffer after it, and what the operation left. -/
structure Answer (σ : Type) where
  result : Except Error Bool
  dst : Object
  mode : σ
  notices : List Notice

/-- Is the answer a yes? -/
def Answer.done {σ : Type} (a : Answer σ) : Bool :=
  match a.result with
  | .ok answer => answer
  | .error _ => false

/-- A no in place of an error that is expected. -/
def refused (isExpected : Error → Bool) (e : Error) : Except Error Bool :=
  if isExpected e then .ok false else .error e

/-- The capacity and the source of an operation into a buffer, or else the answer without it. -/
def prepare (dst : Object) (capacity : Value) (src : Object) :
    Except (Except Error Bool) (Int × Bytes) :=
  match capacity.asInt? with
  | none => .error (.ok false)
  | some cap =>
    if src.isNone then .error (.ok false)
    else match dst.takes cap with
    | .error e => .error (.error e)
    | .ok false => .error (.ok false)
    | .ok true => match src.source "src" with
      | .error e => .error (refused Error.isUnreadable e)
      | .ok data => .ok (cap, data)

/-- The answer of an operation into a buffer by the result of it, and the buffer after it. -/
def conclude (dst : Object) : Except Error Bytes → Except Error Bool × Object
  | .error cause => (refused Error.isCapacity cause, dst)
  | .ok result => match dst.overwrite result with
    | .error cause => (.error cause, dst)
    | .ok dst => (.ok true, dst)

/-- Runs an operation from a source into a buffer. Mirrors `buffer_operation_wrapper`. -/
def writeIn (op : TargetOperation) (dst : Object) (capacity : Value) (src : Object) (r : Reach) :
    Answer Reach :=
  match prepare dst capacity src with
  | .error answer => ⟨answer, dst, r, []⟩
  | .ok (cap, data) =>
    let e := runIn op data cap r
    let (answer, dst) := conclude dst e.result
    ⟨answer, dst, e.reach, e.notices⟩

/-- Runs an operation from a source into a buffer, under a mode. -/
def write (op : TargetOperation) (dst : Object) (capacity : Value) (src : Object) (m : Mode) :
    Answer Mode :=
  let a := writeIn op dst capacity src ⟨none, m⟩
  ⟨a.result, a.dst, a.mode.shared, a.notices⟩

def run (op : TargetOperation) (src : Bytes) (capacity : Int) (m : Mode) : Outcome Bytes :=
  (runIn op src capacity ⟨none, m⟩).outcome

theorem Answer.done_iff {σ : Type} (a : Answer σ) : a.done = true ↔ a.result = .ok true := by
  unfold done
  cases a.result <;> simp

theorem runIn_shared (op : TargetOperation) (src : Bytes) (c : Int) (m : Mode) :
    runIn op src c ⟨none, m⟩ = (run op src c m).onShared := by
  cases op <;> rfl

theorem runIn_given (op : TargetOperation) (src : Bytes) (c : Int) (m shared : Mode) :
    runIn op src c ⟨some m, shared⟩ = (run op src c m).onGiven shared := by
  cases op <;> rfl

/-- Without a mode of its own an operation works under the shared one. -/
theorem writeIn_shared (op : TargetOperation) (dst : Object) (capacity : Value) (src : Object)
    (m : Mode) :
    writeIn op dst capacity src ⟨none, m⟩ =
      let a := write op dst capacity src m
      ⟨a.result, a.dst, ⟨none, a.mode⟩, a.notices⟩ := by
  unfold write writeIn
  cases prepare dst capacity src with
  | error answer => rfl
  | ok p => simp only [runIn_shared, Outcome.onShared]

/-- With one it does under that what it does under the shared mode without it. -/
theorem writeIn_given (op : TargetOperation) (dst : Object) (capacity : Value) (src : Object)
    (m shared : Mode) :
    writeIn op dst capacity src ⟨some m, shared⟩ =
      let a := write op dst capacity src m
      ⟨a.result, a.dst, ⟨some a.mode, shared⟩, a.notices⟩ := by
  unfold write writeIn
  cases prepare dst capacity src with
  | error answer => rfl
  | ok p => simp only [runIn_shared, runIn_given, Outcome.onShared, Outcome.onGiven]

end Target
end ColorMarkup
