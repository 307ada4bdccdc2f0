import ColorMarkup.Json.Writer
/-!
# Which values can be written

Bytes and directions cannot be written, and neither can lists and objects that hold such a value
anywhere. Everything else can.

Results:
* `refused_eq_none_iff`: writing a value is not stopped exactly if it can be written.
-/
namespace ColorMarkup.Json

mutual

/-- Does the value hold no bytes and no direction? -/
def isWritable : Value → Bool
  | .list vs => areWritable vs
  | .dict es => membersWritable es
  | .bytes _ _ => false
  | .direction _ => false
  | _ => true

@[inherit_doc isWritable]
def areWritable : List Value → Bool
  | [] => true
  | v :: vs => isWritable v && areWritable vs

@[inherit_doc isWritable]
def membersWritable : List (Text × Value) → Bool
  | [] => true
  | (_, v) :: es => isWritable v && membersWritable es

end

theorem Written.andThen_refused (w next : Written) :
    (w.andThen next).refused = none ↔ w.refused = none ∧ next.refused = none := by
  unfold andThen
  split
  · next hv => simp [hv]
  · next hv => simp [hv]

@[simp] theorem Written.all_andThen_refused (t : Text) (next : Written) :
    ((Written.all t).andThen next).refused = next.refused := rfl

mutual

/-- Writing a value is not stopped exactly if it can be written. -/
theorem refused_eq_none_iff (indent level : Nat) (v : Value) :
    (write indent level v).refused = none ↔ isWritable v = true := by
  cases v with
  | list vs =>
    cases vs with
    | nil => simp [write, isWritable, areWritable, Written.all]
    | cons v vs =>
      have hitems := writeItems_refused_iff indent (level + 1) true (v :: vs)
      rw [write, Written.all_andThen_refused, Written.andThen_refused, hitems, isWritable]
      simp [Written.all]
  | dict es =>
    cases es with
    | nil => simp [write, isWritable, membersWritable, Written.all]
    | cons e es =>
      have hmembers := writeMembers_refused_iff indent (level + 1) true (e :: es)
      rw [write, Written.all_andThen_refused, Written.andThen_refused, hmembers, isWritable]
      simp [Written.all]
  | _ => simp [write, writeScalar, isWritable, Written.all]

theorem writeItems_refused_iff (indent level : Nat) (first : Bool) (vs : List Value) :
    (writeItems indent level first vs).refused = none ↔ areWritable vs = true := by
  cases vs with
  | nil => simp [writeItems, areWritable, Written.all]
  | cons v vs =>
    rw [writeItems, Written.all_andThen_refused, Written.andThen_refused,
      refused_eq_none_iff indent level v, writeItems_refused_iff indent level false vs, areWritable,
      Bool.and_eq_true]

theorem writeMembers_refused_iff (indent level : Nat) (first : Bool) (es : List (Text × Value)) :
    (writeMembers indent level first es).refused = none ↔ membersWritable es = true := by
  cases es with
  | nil => simp [writeMembers, membersWritable, Written.all]
  | cons e es =>
    obtain ⟨key, v⟩ := e
    rw [writeMembers, Written.all_andThen_refused, Written.andThen_refused,
      refused_eq_none_iff indent level v, writeMembers_refused_iff indent level false es,
      membersWritable, Bool.and_eq_true]

end

theorem membersWritable_iff (es : List (Text × Value)) :
    membersWritable es = true ↔ ∀ e ∈ es, isWritable e.2 = true := by
  induction es with
  | nil => simp [membersWritable]
  | cons e es ih =>
    rw [membersWritable, Bool.and_eq_true, ih, List.forall_mem_cons]

end ColorMarkup.Json
