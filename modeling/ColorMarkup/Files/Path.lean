import ColorMarkup.Text.Basic
/-!
# Path texts

Paths as texts, with `/` between components: joining, the directory part, the
last component, normal form, and the absolute form under a working directory.
Normal form drops empty and `.` components and lets `..` take back the component
before it; nothing is looked up.

`SplitPath` is a path cut into its root and its components, without the empty
and `.` ones; `..` stays.

Results:
* `dirPart_append_lastPart`: the two parts of a path make up the path.
-/
namespace ColorMarkup.Path

def slash : CodePoint := 0x2F

/-- The component that stays where it is. -/
def here : Text := [0x2E]

/-- The component that goes up. -/
def up : Text := [0x2E, 0x2E]

def isAbsolute (p : Text) : Bool := p.head? == some slash

def dropSlashes (p : Text) : Text := (p.reverse.dropWhile (· == slash)).reverse

def dirPart (p : Text) : Text := (p.reverse.dropWhile (· != slash)).reverse

def lastPart (p : Text) : Text := (p.reverse.takeWhile (· != slash)).reverse

/-- The directory of a path: up to its last slash, without the slashes at the end
unless there is nothing else. -/
def dirname (p : Text) : Text :=
  let d := dirPart p
  if d.all (· == slash) then d else dropSlashes d

/-- One path behind another; an absolute one replaces it. -/
def join (p q : Text) : Text :=
  if isAbsolute q then q
  else if p.isEmpty || p.getLast? == some slash then p ++ q
  else p ++ slash :: q

/-- The components that remain when `..` takes back the one before it; components
are given and kept the last one first. -/
def collapse (rooted : Bool) : List Text → List Text → List Text
  | kept, [] => kept
  | kept, c :: rest =>
    if c.isEmpty || c == here then collapse rooted kept rest
    else if c != up then collapse rooted (c :: kept) rest
    else match kept with
      | [] => collapse rooted (if rooted then [] else [up]) rest
      | k :: above => collapse rooted (if k == up then up :: kept else above) rest

/-- The slashes a path starts with: exactly two are kept, more are one. -/
def root (p : Text) : Text :=
  let n := (p.takeWhile (· == slash)).length
  if n = 0 then [] else if n = 2 then [slash, slash] else [slash]

def normalize (p : Text) : Text :=
  let r := root p
  let cs := (collapse (!r.isEmpty) [] (Text.splitOn slash p)).reverse
  let q := r ++ [slash].intercalate cs
  if q.isEmpty then here else q

/-- The normal form of a path under a working directory. -/
def absolute (workdir p : Text) : Text :=
  normalize (if isAbsolute p then p else join workdir p)

theorem dirPart_append_lastPart (p : Text) : dirPart p ++ lastPart p = p := by
  rw [dirPart, lastPart, ← List.reverse_append, List.takeWhile_append_dropWhile,
    List.reverse_reverse]

end ColorMarkup.Path

namespace ColorMarkup

/-- A path as its root and components. -/
structure SplitPath where
  root : Text
  parts : List Text
  deriving DecidableEq, Repr

namespace SplitPath

def ofText (p : Text) : SplitPath :=
  ⟨Path.root p, (Text.splitOn Path.slash p).filter fun c => !c.isEmpty && c != Path.here⟩

def text (p : SplitPath) : Text :=
  if p.root.isEmpty && p.parts.isEmpty then Path.here
  else p.root ++ [Path.slash].intercalate p.parts

/-- The paths above, the nearest first. -/
def parents (p : SplitPath) : List SplitPath :=
  (List.range p.parts.length).reverse.map fun n => ⟨p.root, p.parts.take n⟩

/-- The path with its first component replaced by a path. -/
def withFirst (p : SplitPath) (first : Text) : SplitPath :=
  let q := ofText first
  ⟨q.root, q.parts ++ p.parts.tail⟩

end SplitPath
end ColorMarkup
