import ColorMarkup.Files.Path
import ColorMarkup.Files.Tree
import ColorMarkup.Text.Utf8
/-!
# Following paths

A path is followed name by name, from the root or from the working directory: every name on
the way must be that of a directory which may be searched, `.` stays and `..` goes up. Where a
name is that of a link, the names that the link stands for are followed in its place, so many
times at most. There may be nothing under the last name. A slash at the end asks for a
directory. Names are bytes; a path that has none, or that holds a zero byte, leads nowhere.

A walk has as many legs as it meets links, and one more. A leg is followed in a tree as if there
were no links.

Results:
* `walk_of_scan`: a walk that meets no link is a leg.
-/
namespace ColorMarkup

/-- A path as the names that are followed from an address, and whether a slash ends it. -/
structure Route where
  base : Address
  names : List Bytes
  endsInSlash : Bool
  deriving DecidableEq, Repr

namespace Route

def slash : UInt8 := 0x2F

def pieces : Bytes → List Bytes
  | [] => [[]]
  | c :: t =>
    if c = slash then [] :: pieces t
    else match pieces t with
      | [] => [[c]]
      | piece :: rest => (c :: piece) :: rest

/-- The longest name and path that can be followed. -/
def maxName : Nat := 255
@[inherit_doc maxName] def maxPath : Nat := 4095

/-- So many links are followed for a path. -/
def maxLinks : Nat := 40

def namesOf (b : Bytes) : List Bytes := (pieces b).filter fun n => !n.isEmpty

def isDirectoryPath (b : Bytes) : Bool := b.getLast? == some slash

def isAbsolute (b : Bytes) : Bool := b.head? == some slash

def here : Bytes := [0x2E]

def up : Bytes := [0x2E, 0x2E]

/-- The names that the target of a link stands for. A slash at the end of it asks to stay in a
directory. -/
def steps (target : Bytes) : List Bytes :=
  namesOf target ++ if isDirectoryPath target then [here] else []

end Route

/-- A tree, and the directory that paths without a leading slash start from. -/
structure Files where
  tree : FileTree
  workdir : Text
  deriving DecidableEq, Repr

/-- Where a leg of a walk ends: at an address, or at a link in a directory with other names
behind it. -/
inductive Stop where
  | arrived (a : Address)
  | link (dir : Address) (target : Bytes) (rest : List Bytes)
  deriving DecidableEq, Repr

namespace Files

/-- The address of the working directory. -/
def start (f : Files) : Address := Route.namesOf ((Utf8.encode f.workdir).getD [])

def route (f : Files) (p : Text) : Except FileError Route :=
  match Utf8.encode p with
  | none => .error .unencodable
  | some b =>
    if b.contains 0 then .error .embeddedNul
    else if b.isEmpty then .error .notFound
    else if Route.maxPath < b.length then .error .nameTooLong
    else
      .ok ⟨if Path.isAbsolute p then [] else f.start, Route.namesOf b, Route.isDirectoryPath b⟩

/-- One name down from an address that must be a directory, and one that may be searched. -/
def enter (t : FileTree) (a : Address) (name : Bytes) : Except FileError Address :=
  match t.find? a with
  | none => .error .notFound
  | some .directory =>
    if !(t.access a).search then .error .notAllowed
    else if name = Route.here then .ok a
    else if name = Route.up then .ok a.dropLast
    else if Route.maxName < name.length then .error .nameTooLong
    else .ok (a ++ [name])
  | some _ => .error .notDirectory

/-- Follows names up to the first link. There may be nothing under the last name. -/
def scan (t : FileTree) : Address → List Bytes → Except FileError Stop
  | a, [] => .ok (.arrived a)
  | a, name :: rest =>
    match enter t a name with
    | .error e => .error e
    | .ok b => match t.find? b with
      | none => if rest.isEmpty then .ok (.arrived b) else .error .notFound
      | some (.link target) => .ok (.link a target rest)
      | some _ => scan t b rest

/-- Where the names of a link's target are followed from. -/
def jump (dir : Address) (target : Bytes) : Address := if Route.isAbsolute target then [] else dir

/-- Goes on behind a leg that ends at a link. -/
def goOn (next : Address → List Bytes → Except FileError Address) :
    Except FileError Stop → Except FileError Address
  | .error e => .error e
  | .ok (.arrived b) => .ok b
  | .ok (.link dir target rest) => next (jump dir target) (Route.steps target ++ rest)

/-- Follows names, and with them at most so many links. -/
def walk (t : FileTree) : Nat → Address → List Bytes → Except FileError Address
  | 0, a, names => goOn (fun _ _ => .error .tooManyLinks) (scan t a names)
  | links + 1, a, names => goOn (walk t links) (scan t a names)

/-- The address at the end of a route, where there may be nothing. -/
def resolve (f : Files) (r : Route) : Except FileError Address :=
  walk f.tree Route.maxLinks r.base r.names

/-- What is at the end of a path, and its address. -/
def lookup (f : Files) (p : Text) : Except FileError (Address × Node) := do
  let r ← f.route p
  let a ← f.resolve r
  match f.tree.find? a with
  | none => throw .notFound
  | some .directory => return (a, .directory)
  | some node => if r.endsInSlash then throw .notDirectory else return (a, node)

def exists? (f : Files) (p : Text) : Bool := (f.lookup p).isOk

def isFile (f : Files) (p : Text) : Bool :=
  match f.lookup p with
  | .ok (_, node) => node.isRegular
  | .error _ => false

def isDirectory (f : Files) (p : Text) : Bool :=
  match f.lookup p with
  | .ok (_, .directory) => true
  | _ => false

def read (f : Files) (p : Text) : Except FileError Bytes :=
  match f.lookup p with
  | .error e => .error e
  | .ok (a, node) =>
    if !(f.tree.access a).read then .error .notAllowed
    else match node with
      | .directory => .error .isDirectory
      | .file content => .ok content
      | .special gives => .ok gives
      | .device | .link _ => .ok []

theorem walk_of_scan {t : FileTree} {a b : Address} {names : List Bytes}
    (h : scan t a names = .ok (.arrived b)) (links : Nat) : walk t links a names = .ok b := by
  cases links <;> rw [walk, h, goOn]

end Files
end ColorMarkup
