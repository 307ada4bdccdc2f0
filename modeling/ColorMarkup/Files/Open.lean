import ColorMarkup.Files.Walk
/-!
# Opening files and making directories

A file is opened for writing at the end of its path, links being followed there as anywhere else,
and is made if there is nothing. Making a directory needs a name that nothing has, not even a
link. What is there must be one the user may write; what is made needs a directory above that is,
and that has room.
-/
namespace ColorMarkup.Files

/-- The address that the last name of a path has, a link under it not being followed; none for
`.`, `..` and the root, which are always directories. -/
def place (f : Files) (p : Text) : Except FileError (Option Address) := do
  let r ← f.route p
  match r.names.getLast? with
  | none => return none
  | some name =>
    let dir ← f.resolve { r with names := r.names.dropLast }
    let a ← enter f.tree dir name
    return if name = Route.here ∨ name = Route.up then none else some a

/-- Opens what is at an address for writing, making a file if there is nothing. -/
def openAt (f : Files) (a : Address) : Except FileError (Files × Address) :=
  match f.tree.find? a with
  | some .directory => .error .isDirectory
  | some _ => if (f.tree.access a).write then .ok (f, a) else .error .notAllowed
  | none => (f.tree.make a (.file [])).map fun t => ({ f with tree := t }, a)

/-- Opens a file for writing, making it if there is none: the files and the file's address. -/
def openFile (f : Files) (p : Text) : Except FileError (Files × Address) := do
  let r ← f.route p
  if r.endsInSlash then
    let _ ← f.place p
    throw .isDirectory
  f.openAt (← f.resolve r)

def makeDirectory (f : Files) (p : Text) : Except FileError Files := do
  match ← f.place p with
  | none => throw .alreadyExists
  | some a =>
    if (f.tree.find? a).isSome then throw .alreadyExists
    return { f with tree := ← f.tree.make a .directory }

/-- Makes a directory unless it is there. -/
def ensureDirectory (f : Files) (p : Text) : Files × Except FileError Unit :=
  match f.makeDirectory p with
  | .ok f => (f, .ok ())
  | .error e => if f.isDirectory p then (f, .ok ()) else (f, .error e)

/-- A path as the directory above and its last component, slashes at the end of
the path set aside. -/
def splitLast (p : Text) : Text × Text :=
  if (Path.lastPart p).isEmpty then
    let q := Path.dirname p
    (Path.dirname q, Path.lastPart q)
  else (Path.dirname p, Path.lastPart p)

/-- Makes a directory and those above it that are missing; `fuel` bounds their
number. Directories made before a failure stay. -/
def makeDirectoriesFrom : Nat → Files → Text → Files × Except FileError Unit
  | 0, f, p => f.ensureDirectory p
  | fuel + 1, f, p =>
    let (above, last) := splitLast p
    if above.isEmpty || last.isEmpty || f.exists? above then f.ensureDirectory p
    else
      match makeDirectoriesFrom fuel f above with
      | (f, .error e) => if e = .alreadyExists then finish f p last else (f, .error e)
      | (f, .ok ()) => finish f p last
where
  /-- Makes the last directory; `.` needs none. -/
  finish (f : Files) (p last : Text) : Files × Except FileError Unit :=
    if last = Path.here then (f, .ok ()) else f.ensureDirectory p

def makeDirectories (f : Files) (p : Text) : Files × Except FileError Unit :=
  makeDirectoriesFrom p.length f p

end ColorMarkup.Files
