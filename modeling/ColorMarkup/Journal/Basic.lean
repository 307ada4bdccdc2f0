import ColorMarkup.Files.Tree
import ColorMarkup.Journal.Level
import ColorMarkup.Journal.Logger
import ColorMarkup.Text.Utf8
/-!
# The journal

The state of logging: the level of the library's loggers, the handlers that
write records to files, and the loggers whose records they drop. A record is
written if its logger takes it, is the library's or stands under it, and is not
excluded nor descends from an excluded one. Every handler in place writes it. The one
that was set up last is known besides, so that it can be taken away and its file closed
before another is set up.

Results:
* `effectiveLevel_ne_zero`: a level always applies.
-/
namespace ColorMarkup.Journal

open ColorMarkup.Settings

/-- Where and how records are written. `repeats` says how often the thread and the
operation are named. The name of the file is in bytes if its path was. -/
structure Handler where
  id : Nat
  address : Address
  fileName : Value
  repeats : Nat
  deriving Repr

/-- The state of logging. `level` 0 means none is set; `opened` counts handlers. Records
go to the handlers that are `attached`; `handler` is the one set up last, and the files of
those in `closed` are closed. -/
structure State where
  debug : Option Value
  level : Whole
  handler : Option Handler
  attached : List Handler
  closed : List Nat
  excluded : List Value
  capturing : Bool
  opened : Nat
  deriving Repr

/-- The limits a handler has: the size of a file and the count of older ones. -/
def maxBytes : Nat := 1048576
@[inherit_doc maxBytes] def backupCount : Nat := 1

namespace State

def initial : State := ⟨none, .number 0, none, [], [], [], false, 0⟩

/-- Is the file of the handler with this number open? -/
def isOpen (s : State) (id : Nat) : Bool := id < s.opened && !s.closed.contains id

/-- Takes the handler that was set up last away, and closes its file. -/
def release (s : State) : State :=
  match s.handler with
  | none => s
  | some h => { s with
      handler := none, attached := s.attached.filter (·.id != h.id), closed := h.id :: s.closed }

/-- Puts a handler in place, unless it is there, as the one set up last. -/
def attach (s : State) (h : Handler) : State :=
  { s with
    handler := some h
    attached := if s.attached.any (·.id == h.id) then s.attached else s.attached ++ [h]
    opened := s.opened + 1 }

end State

/-- The level that applies: that of all programs if none is set. -/
def effectiveLevel (s : State) : Int :=
  if s.level.toInt = 0 then warningLevel else s.level.toInt

/-- Does a logger descend from one of this name? -/
def descendsFrom (logger ancestor : Text) : Bool :=
  (ancestor ++ Text.ofString ".").isPrefixOf logger

def excludes (logger : Text) (item : Value) : Bool :=
  item.same (.text logger) || descendsFrom logger item.plain

/-- Does a filter with these items let the records of a logger pass? Mirrors `Filter.filter`. -/
def passes (excluded : List Value) (logger : Text) : Bool := !excluded.any (excludes logger)

def delivers (ls : Loggers) (s : State) (r : Record) : Bool :=
  ls.takes (effectiveLevel s) r.logger r.level.toInt && ls.isOurs r.logger
    && passes s.excluded r.logger

def times (n : Nat) (t : Text) : Text := (List.replicate n t).flatten

/-- The line of a record; process and time are shown by placeholders. -/
def line (h : Handler) (r : Record) : Text :=
  Text.ofString "(PID) (TIME) " ++ times h.repeats (Text.ofString "MainThread: ")
    ++ Text.ofString "[" ++ levelName r.level ++ Text.ofString "] " ++ r.logger
    ++ Text.ofString ": " ++ times h.repeats (Text.ofString (r.operation ++ ": "))
    ++ r.message ++ [0x0A]

/-- The bytes a handler writes for a record. A line with a surrogate cannot be written. -/
def output? (ls : Loggers) (s : State) (h : Handler) (r : Record) : Option Bytes :=
  let l := line h r
  if delivers ls s r && !l.hasSurrogate then Utf8.encode l else none

/-- The bytes written for a record, each with the address of their file. -/
def outputs (ls : Loggers) (s : State) (r : Record) : List (Address × Bytes) :=
  s.attached.filterMap fun h => (output? ls s h r).map (h.address, ·)

/-! ## Exclusions -/

def elements (v : Value) : Except Refusal (List Value) :=
  match v with
  | .list vs => .ok vs
  | .text t => .ok (t.map fun c => .text [c])
  | .bytes _ b => .ok (b.map fun x => .int (x.toNat : Int))
  | .dict es => .ok (es.map fun e => .text e.1)
  | v => .error (.notIterable v)

/-- Can the value be an item of a set? -/
def isHashable : Value → Bool
  | .list _ | .dict _ | .bytes .array _ | .bytes .view _ => false
  | _ => true

/-- The items with one more, unless it is among them. Mirrors `Filter.add`. -/
def insert (v : Value) (items : List Value) : List Value :=
  if items.any v.same then items else items ++ [v]

/-- Adds items up to the first that cannot be one. -/
def insertAll : List Value → List Value → List Value × Except Refusal Unit
  | items, [] => (items, .ok ())
  | items, v :: rest =>
    if isHashable v then insertAll (insert v items) rest else (items, .error (.unhashable v))

/-- The items without one of them. Mirrors `Filter.remove`. -/
def remove (v : Value) (items : List Value) : Except Refusal (List Value) :=
  if !isHashable v then .error (.unhashable v)
  else if items.any v.same then .ok (items.filter fun w => !v.same w) else .error (.noKey v)

/-- The order of listings: texts and bytes by their items, numbers by value. -/
def listedBefore (v w : Value) : Bool :=
  match v, w with
  | .text s, .text t => Text.le s t
  | .bytes _ a, .bytes _ b => Text.le a.toText b.toText
  | v, w => match v.asInt?, w.asInt? with
    | some m, some n => m ≤ n
    | _, _ => true

def listed (items : List Value) : List Value := items.mergeSort listedBefore

/-- A change to exclusions. -/
inductive Edit where
  | add (item : Value)
  | remove (item : Value)
  deriving Repr

def exclusions (v : Value) : Except Refusal (List Value) := do
  let (excluded, r) := insertAll [] (← elements v)
  r
  return excluded

def edit : List Value → List Edit → Except Refusal (List Value)
  | items, [] => .ok items
  | items, .add v :: rest =>
    if isHashable v then edit (insert v items) rest else .error (.unhashable v)
  | items, .remove v :: rest => match remove v items with
    | .ok items => edit items rest
    | .error e => .error e

theorem effectiveLevel_ne_zero (s : State) : effectiveLevel s ≠ 0 := by
  unfold effectiveLevel
  split
  · decide
  · assumption

end ColorMarkup.Journal
