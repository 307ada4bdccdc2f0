import ColorMarkup.Decimal.Binary64
/-!
# Shortest decimal text of a float

The fewest significant digits that read back as the same float; of two such
decimals of that length the nearer one, a tie to the even digit. Only the two
neighbours of the value on each decimal grid need a look.

Results:
* `readsBack_of_shortest?`: a decimal found for a float reads back as it.
-/
namespace ColorMarkup

/-- The decimal `digits · 10^exponent`. -/
structure Decimal.Scientific where
  digits : Nat
  exponent : Int
  deriving DecidableEq, Repr

namespace Binary64

open Decimal (Scientific)

def readsBack (x : Binary64) (negative : Bool) (d : Scientific) : Bool :=
  ofDecimal negative d.digits d.exponent == x

/-- The least `k` from `start` on, in `fuel` tries, with `num / den < 10^k`. -/
def firstPowerAbove (num den : Nat) : Nat → Int → Int
  | 0, k => k
  | fuel + 1, k =>
    let (p, q) := scaled 1 10 k
    if num * q < den * p then k else firstPowerAbove num den fuel (k + 1)

/-- The place of the decimal point: `10^(k-1) ≤ num / den < 10^k`. -/
def decimalPoint (num den : Nat) : Int :=
  firstPowerAbove num den 4 (binaryExponent num den * 1233 / 4096 - 1)

/-- The neighbours of `num / den` on the grid of `10^exponent`, and which of the
two is nearer. -/
def neighbours (num den : Nat) (exponent : Int) : Scientific × Scientific × Ordering :=
  let (p, q) := scaled 1 10 exponent
  let below := num * q / (den * p)
  let twice := 2 * num * q
  let middle := (2 * below + 1) * (den * p)
  (⟨below, exponent⟩, ⟨below + 1, exponent⟩, compare twice middle)

/-- The decimal on one grid that reads back, the nearer one if both do. -/
def onGrid? (x : Binary64) (negative : Bool) (num den : Nat) (exponent : Int) :
    Option Scientific :=
  let (below, above, order) := neighbours num den exponent
  match readsBack x negative below, readsBack x negative above with
  | true, true =>
    match order with
    | .lt => some below
    | .gt => some above
    | .eq => if below.digits % 2 = 0 then some below else some above
  | true, false => some below
  | false, true => some above
  | false, false => none

/-- The first of `fuel` grids, each ten times finer, with a decimal that reads
back. -/
def firstGrid? (x : Binary64) (negative : Bool) (num den : Nat) :
    Nat → Int → Option Scientific
  | 0, _ => none
  | fuel + 1, exponent =>
    match onGrid? x negative num den exponent with
    | some d => some d
    | none => firstGrid? x negative num den fuel (exponent - 1)

/-- The shortest decimal of a finite nonzero magnitude: 17 digits always suffice. -/
def shortest? (negative : Bool) (mantissa : Nat) (exponent : Int) : Option Scientific :=
  let (num, den) := ratio mantissa exponent
  firstGrid? (finite negative mantissa exponent) negative num den 17 (decimalPoint num den - 1)

theorem readsBack_of_onGrid? {x : Binary64} {neg : Bool} {num den : Nat} {e : Int}
    {d : Scientific} (h : onGrid? x neg num den e = some d) : readsBack x neg d = true := by
  unfold onGrid? at h
  generalize neighbours num den e = nb at h
  obtain ⟨b, a, o⟩ := nb
  dsimp only at h
  split at h
  · split at h
    · cases h; assumption
    · cases h; assumption
    · split at h <;> cases h <;> assumption
  · cases h; assumption
  · cases h; assumption
  · cases h

theorem readsBack_of_firstGrid? {x : Binary64} {neg : Bool} {num den fuel : Nat} {e : Int}
    {d : Scientific} (h : firstGrid? x neg num den fuel e = some d) : readsBack x neg d = true := by
  induction fuel generalizing e with
  | zero => cases h
  | succ n ih =>
    simp only [firstGrid?] at h
    split at h
    · next hd => cases h; exact readsBack_of_onGrid? hd
    · exact ih h

theorem readsBack_of_shortest? {neg : Bool} {m : Nat} {e : Int} {d : Scientific}
    (h : shortest? neg m e = some d) : readsBack (finite neg m e) neg d = true :=
  readsBack_of_firstGrid? h

/-! ## Layout -/

/-- How a float is laid out: positional for decimal points from `leastPoint` to
`greatestPoint`, otherwise with an exponent of at least two digits and a sign. -/
structure Layout where
  leastPoint : Int
  greatestPoint : Int
  exponentDigits : Nat

/-- Positional from `0.0001` up to below `10^16`. -/
def layout : Layout := ⟨-3, 16, 2⟩

def trimZeros (ds : List Char) : List Char := (ds.reverse.dropWhile (· == '0')).reverse

def zeros (n : Nat) : List Char := List.replicate n '0'

def padded (width n : Nat) : List Char :=
  let ds := (toString n).toList
  zeros (width - ds.length) ++ ds

/-- The text of `0.d₁d₂… · 10^point`. -/
def Layout.write (l : Layout) (ds : List Char) (point : Int) : List Char :=
  if l.leastPoint ≤ point ∧ point ≤ l.greatestPoint then
    if point ≤ 0 then '0' :: '.' :: (zeros (-point).toNat ++ ds)
    else
      let n := point.toNat
      if ds.length ≤ n then ds ++ zeros (n - ds.length) ++ ['.', '0']
      else ds.take n ++ '.' :: ds.drop n
  else
    let e := point - 1
    let mantissa := match ds with
      | [] => ['0']
      | [d] => [d]
      | d :: rest => d :: '.' :: rest
    mantissa ++ 'e' :: (if e < 0 then '-' else '+') :: padded l.exponentDigits e.natAbs

/-- The shortest text of a float, with a point or an exponent in every finite one. -/
def text : Binary64 → String
  | nan => "nan"
  | infinity negative => if negative then "-inf" else "inf"
  | finite negative m e =>
    let body :=
      if m = 0 then "0.0"
      else match shortest? negative m e with
        | none => "0.0"
        | some d =>
          let ds := (toString d.digits).toList
          String.ofList (layout.write (trimZeros ds) (d.exponent + ds.length))
    if negative then "-" ++ body else body

/-! ## Reading -/

def takeDigits (cs : List Char) : List Char × List Char := cs.span Char.isDigit

def number (cs : List Char) : Nat := cs.foldl (fun v c => v * 10 + (c.toNat - 0x30)) 0

def ofParts (negative : Bool) (whole fraction : List Char) (exponent : Int) : Binary64 :=
  ofDecimal negative (number (whole ++ fraction)) (exponent - fraction.length)

/-- Reads an exponent `e±digits` that is the whole text. -/
def readExponent? : List Char → Option Int
  | [] => some 0
  | c :: r =>
    if c = 'e' ∨ c = 'E' then
      let (negative, ds) := match r with
        | '-' :: ds => (true, ds)
        | '+' :: ds => (false, ds)
        | ds => (false, ds)
      if ds.isEmpty || !ds.all Char.isDigit then none
      else some (if negative then -(number ds : Int) else number ds)
    else none

/-- A blank around the text of a float. -/
def isBlank (c : Char) : Bool := c = ' ' || (0x09 ≤ c.toNat && c.toNat ≤ 0x0D)

def trimBlanks (cs : List Char) : List Char :=
  ((cs.dropWhile isBlank).reverse.dropWhile isBlank).reverse

/-- The characters without underscores, which may only stand between digits. -/
def joinDigits? : Bool → List Char → Option (List Char)
  | _, [] => some []
  | afterDigit, c :: r =>
    if c = '_' then
      if afterDigit && r.head?.any Char.isDigit then joinDigits? false r else none
    else (joinDigits? c.isDigit r).map (c :: ·)

def readMagnitude? (negative : Bool) (cs : List Char) : Option Binary64 :=
  let (whole, r) := takeDigits cs
  let (fraction, r) := match r with
    | '.' :: r => takeDigits r
    | r => ([], r)
  if whole.isEmpty && fraction.isEmpty then none
  else (readExponent? r).map (ofParts negative whole fraction)

/-- Reads the text of a float: words in any letter case, or a decimal. -/
def read? (s : String) : Option Binary64 :=
  let (negative, cs) := match trimBlanks s.toList with
    | '-' :: cs => (true, cs)
    | '+' :: cs => (false, cs)
    | cs => (false, cs)
  let word := String.ofList (cs.map Char.toLower)
  if word = "inf" ∨ word = "infinity" then some (infinity negative)
  else if word = "nan" then some nan
  else (joinDigits? false cs).bind (readMagnitude? negative)

end Binary64
end ColorMarkup
