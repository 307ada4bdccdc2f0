import ColorMarkup.Value
/-!
# Reading JSON

A reader for the notation of RFC 8259 that also takes `NaN`, `Infinity` and
`-Infinity`. Integers are kept exactly, other numbers become floats. In an
object the last value of a key counts, at the place of the first. A text may
escape lone surrogates; an escaped pair is one character.

Results:
* `joinSurrogates_of_plain`: texts without surrogates are kept as they are.
-/
namespace ColorMarkup.Json

def point (c : Char) : CodePoint := CodePoint.ofChar c

/-- White space between tokens: space, tab, newline, return. -/
def isSpace (c : CodePoint) : Bool :=
  c.val == 0x20 || c.val == 0x09 || c.val == 0x0A || c.val == 0x0D

def skipSpace (t : Text) : Text := t.dropWhile isSpace

/-- The rest of a text after a word at its head. -/
def after? (word : String) (t : Text) : Option Text :=
  let w := Text.ofString word
  if w.isPrefixOf t then some (t.drop w.length) else none

/-! ## Texts -/

/-- Joins each high surrogate with the low one right after it. -/
def joinSurrogates : Text → Text
  | [] => []
  | a :: t =>
    match joinSurrogates t with
    | [] => [a]
    | b :: u =>
      if 0xD800 ≤ a.val ∧ a.val ≤ 0xDBFF ∧ 0xDC00 ≤ b.val ∧ b.val ≤ 0xDFFF then
        match CodePoint.ofNat? (0x10000 + (a.val - 0xD800) * 0x400 + (b.val - 0xDC00)) with
        | some c => c :: u
        | none => a :: b :: u
      else a :: b :: u

def hexValue? (c : CodePoint) : Option Nat :=
  let n := c.val
  if 0x30 ≤ n ∧ n ≤ 0x39 then some (n - 0x30)
  else if 0x41 ≤ n ∧ n ≤ 0x46 then some (n - 0x37)
  else if 0x61 ≤ n ∧ n ≤ 0x66 then some (n - 0x57)
  else none

def unit? (a b c d : CodePoint) : Option CodePoint := do
  let a ← hexValue? a
  let b ← hexValue? b
  let c ← hexValue? c
  let d ← hexValue? d
  CodePoint.ofNat? (((a * 16 + b) * 16 + c) * 16 + d)

/-- The short escapes: the letter after the backslash and what it stands for. -/
def shortEscapes : List (Char × Nat) :=
  [('"', 0x22), ('\\', 0x5C), ('/', 0x2F), ('b', 0x08), ('f', 0x0C), ('n', 0x0A), ('r', 0x0D),
   ('t', 0x09)]

def shortEscape? (c : CodePoint) : Option CodePoint :=
  (shortEscapes.find? fun e => point e.1 == c).bind fun e => CodePoint.ofNat? e.2

/-- The units of a text up to its closing quote, and the rest. -/
def units? : Text → Option (Text × Text)
  | [] => none
  | c :: t =>
    if c = point '"' then some ([], t)
    else if c = point '\\' then
      match t with
      | [] => none
      | e :: u =>
        if e = point 'u' then
          match u with
          | h₁ :: h₂ :: h₃ :: h₄ :: v =>
            match unit? h₁ h₂ h₃ h₄, units? v with
            | some x, some (us, rest) => some (x :: us, rest)
            | _, _ => none
          | _ => none
        else
          match shortEscape? e, units? u with
          | some x, some (us, rest) => some (x :: us, rest)
          | _, _ => none
    else if c.val < 0x20 then none
    else (units? t).map fun (us, rest) => (c :: us, rest)

/-- A text after its opening quote, and the rest. -/
def text? (t : Text) : Option (Text × Text) :=
  (units? t).map fun (us, rest) => (joinSurrogates us, rest)

/-! ## Numbers -/

def isDigit (c : CodePoint) : Bool := 0x30 ≤ c.val && c.val ≤ 0x39

def digits (t : Text) : Text × Text := (t.takeWhile isDigit, t.dropWhile isDigit)

def valueOf (ds : Text) : Nat := ds.foldl (fun v d => v * 10 + (d.val - 0x30)) 0

/-- The whole part of a number, which has no leading zero, and the rest. -/
def whole? : Text → Option (Text × Text)
  | [] => none
  | c :: t =>
    if c = point '0' then some ([c], t)
    else if isDigit c then some (digits (c :: t))
    else none

/-- The digits of a fraction at the head, if there is one, and the rest. -/
def fraction (t : Text) : Option Text × Text :=
  match t with
  | [] => (none, [])
  | c :: u =>
    if c = point '.' then
      match digits u with
      | ([], _) => (none, t)
      | (ds, rest) => (some ds, rest)
    else (none, t)

/-- A sign at the head: is it a minus, and the rest. -/
def sign (t : Text) : Bool × Text :=
  match t with
  | [] => (false, [])
  | c :: u => if c = point '-' then (true, u) else if c = point '+' then (false, u) else (false, t)

/-- The exponent at the head, if there is one, and the rest. -/
def exponent (t : Text) : Option Int × Text :=
  match t with
  | [] => (none, [])
  | c :: u =>
    if c = point 'e' ∨ c = point 'E' then
      let (negative, v) := sign u
      match digits v with
      | ([], _) => (none, t)
      | (ds, rest) =>
        let n : Int := valueOf ds
        (some (if negative then -n else n), rest)
    else (none, t)

/-- The number after its sign, and the rest. -/
def number? (negative : Bool) (t : Text) : Option (Value × Text) :=
  (whole? t).map fun (whole, t) =>
    let (frac, t) := fraction t
    let (exp, t) := exponent t
    let v := match frac, exp with
      | none, none =>
        let n : Int := valueOf whole
        Value.int (if negative then -n else n)
      | _, _ =>
        let ds := frac.getD []
        Value.float (Binary64.ofDecimal negative (valueOf (whole ++ ds)) (exp.getD 0 - ds.length))
    (v, t)

/-! ## Values -/

def words : List (String × Value) :=
  [("null", .none), ("true", .bool true), ("false", .bool false), ("NaN", .float .nan),
   ("Infinity", .float (.infinity false)), ("-Infinity", .float (.infinity true))]

/-- A word or number at the head, and the rest. -/
def scalar? (t : Text) : Option (Value × Text) :=
  match words.findSome? fun (w, v) => (after? w t).map (v, ·) with
  | some r => some r
  | none => match t with
    | [] => none
    | c :: u => if c = point '-' then number? true u else number? false t

/-- Stores a value under a key, at its old place if the key is in use. -/
def put (key : Text) (v : Value) : List (Text × Value) → List (Text × Value)
  | [] => [(key, v)]
  | p :: rest => if p.1 = key then (key, v) :: rest else p :: put key v rest

mutual

/-- The value at the head, and the rest; `fuel` bounds the number of steps. -/
def value? : Nat → Text → Option (Value × Text)
  | 0, _ => none
  | _, [] => none
  | fuel + 1, c :: t =>
    if c = point '"' then (text? t).map fun (s, rest) => (.text s, rest)
    else if c = point '[' then
      match skipSpace t with
      | [] => none
      | d :: u =>
        if d = point ']' then some (.list [], u)
        else (items? fuel (d :: u)).map fun (vs, rest) => (.list vs, rest)
    else if c = point '\x7b' then
      match skipSpace t with
      | [] => none
      | d :: u =>
        if d = point '\x7d' then some (.dict [], u)
        else (members? fuel [] (d :: u)).map fun (es, rest) => (.dict es, rest)
    else scalar? (c :: t)

/-- The items of a list up to its closing bracket. -/
def items? : Nat → Text → Option (List Value × Text)
  | 0, _ => none
  | fuel + 1, t =>
    match value? fuel t with
    | none => none
    | some (v, rest) =>
      match skipSpace rest with
      | [] => none
      | c :: u =>
        if c = point ']' then some ([v], u)
        else if c = point ',' then (items? fuel (skipSpace u)).map fun (vs, r) => (v :: vs, r)
        else none

/-- The members of an object up to its closing brace, after those read before. -/
def members? : Nat → List (Text × Value) → Text → Option (List (Text × Value) × Text)
  | 0, _, _ => none
  | _, _, [] => none
  | fuel + 1, read, c :: t =>
    if c = point '"' then
      match text? t with
      | none => none
      | some (key, rest) =>
        match skipSpace rest with
        | [] => none
        | d :: u =>
          if d = point ':' then
            match value? fuel (skipSpace u) with
            | none => none
            | some (v, rest) =>
              let read := put key v read
              match skipSpace rest with
              | [] => none
              | e :: w =>
                if e = point '\x7d' then some (read, w)
                else if e = point ',' then members? fuel read (skipSpace w)
                else none
          else none
    else none

end

/-! ## Nesting -/

/-- Is some list or object deeper than `limit`? `depth` are open where the text
starts; brackets in a text between quotes do not count. -/
def isDeeper (limit : Nat) : Nat → Bool → Text → Bool
  | _, _, [] => false
  | depth, true, c :: t =>
    if c = point '\\' then
      match t with
      | [] => false
      | _ :: t => isDeeper limit depth true t
    else isDeeper limit depth (c != point '"') t
  | depth, false, c :: t =>
    if c = point '[' ∨ c = point '\x7b' then
      limit ≤ depth || isDeeper limit (depth + 1) false t
    else if c = point ']' ∨ c = point '\x7d' then isDeeper limit (depth - 1) false t
    else isDeeper limit depth (c == point '"') t

/-- Are more than `deepest` lists and objects within one another? -/
def isTooDeep (deepest : Nat) (t : Text) : Bool := isDeeper deepest 0 false t

/-- The value that makes up a whole text. Two steps per code point are enough. -/
def read? (t : Text) : Option Value :=
  match value? (2 * t.length + 2) (skipSpace t) with
  | some (v, rest) => if (skipSpace rest).isEmpty then some v else none
  | none => none

theorem joinSurrogates_of_plain (t : Text) (h : t.hasSurrogate = false) : joinSurrogates t = t := by
  induction t with
  | nil => rfl
  | cons a t ih =>
    have ha : ¬ (0xD800 ≤ a.val ∧ a.val ≤ 0xDFFF) := by
      intro hs
      simp [Text.hasSurrogate, CodePoint.isSurrogate] at h
      omega
    have ht : Text.hasSurrogate t = false := by
      simp [Text.hasSurrogate] at h ⊢
      exact h.2
    unfold joinSurrogates
    rw [ih ht]
    cases t with
    | nil => rfl
    | cons b u => exact if_neg (by omega)

end ColorMarkup.Json
