import ColorMarkup.Text.Basic
/-!
# A tree of files

Directories, files, devices and symbolic links at addresses, an address being the names from
the root down. Beside them stands what the user of the program may do with what is at an
address. That is what counts for this user in the end, however it comes about.

Reading and writing again give the same bytes for a file only. A device takes what is written
and gives nothing. What the system makes up is like a file to whoever asks, but what it gives is
its own.

Results:
* `find?_put_self`, `find?_put_of_ne`: writing at an address changes that one
  only.
-/
namespace ColorMarkup

/-- Why a path cannot be used. -/
inductive FileError where
  | notFound
  | notDirectory
  | isDirectory
  | alreadyExists
  | nameTooLong
  | tooManyLinks
  | notAllowed
  | noSpace
  | unencodable
  | embeddedNul
  deriving DecidableEq, Repr

namespace FileError

def label : FileError → String
  | notFound => "FileNotFoundError"
  | notDirectory => "NotADirectoryError"
  | isDirectory => "IsADirectoryError"
  | alreadyExists => "FileExistsError"
  | notAllowed => "PermissionError"
  | nameTooLong | tooManyLinks | noSpace => "OSError"
  | unencodable => "UnicodeEncodeError"
  | embeddedNul => "ValueError"

/-- Does the error say that there is nothing at the path? -/
def isAbsence : FileError → Bool
  | notFound | notDirectory | tooManyLinks | unencodable | embeddedNul => true
  | isDirectory | alreadyExists | nameTooLong | notAllowed | noSpace => false

end FileError

/-- What is at an address. -/
inductive Node where
  | directory
  | file (content : Bytes)
  /-- Takes whatever is written and gives nothing. -/
  | device
  /-- Takes whatever is written and gives what the system makes up. -/
  | special (gives : Bytes)
  /-- Stands for another path. -/
  | link (target : Bytes)
  deriving DecidableEq, Repr

namespace Node

/-- Does it count as a regular file? -/
def isRegular : Node → Bool
  | file _ | special _ => true
  | directory | device | link _ => false

end Node

/-- What the user may do with what is at an address, and how many bytes there is room for, if
that is limited: for the content of a file that is written anew, or in a directory for anything
new. -/
structure Access where
  read : Bool := true
  write : Bool := true
  search : Bool := true
  room : Option Nat := none
  deriving DecidableEq, Repr

/-- What of a content there is room for. -/
def Access.fit (access : Access) (content : Bytes) : Bytes :=
  match access.room with
  | none => content
  | some n => content.take n

/-- The names from the root down. -/
abbrev Address := List Bytes

/-- Nodes by address, and what may be done with them; where nothing is said that is everything.
The root is always a directory. -/
structure FileTree where
  nodes : List (Address × Node)
  guards : List (Address × Access)
  deriving DecidableEq, Repr

namespace FileTree

/-- A tree with nothing forbidden. -/
def ofNodes (nodes : List (Address × Node)) : FileTree := ⟨nodes, []⟩

def empty : FileTree := ofNodes []

def find? (t : FileTree) (a : Address) : Option Node :=
  if a = [] then some .directory else (t.nodes.find? fun p => p.1 == a).map (·.2)

def access (t : FileTree) (a : Address) : Access := (t.guards.lookup a).getD {}

def put (t : FileTree) (a : Address) (n : Node) : FileTree :=
  { t with nodes := (a, n) :: t.nodes.filter fun p => p.1 != a }

/-- Puts something new at an address, if the directory above may be written and has room. -/
def make (t : FileTree) (a : Address) (n : Node) : Except FileError FileTree :=
  let above := t.access a.dropLast
  if !above.write then .error .notAllowed
  else if above.room = some 0 then .error .noSpace
  else .ok (t.put a n)

/-- Adds bytes at the end of the file at an address. -/
def append (t : FileTree) (a : Address) (b : Bytes) : FileTree :=
  match t.find? a with
  | some (.file content) => t.put a (.file (content ++ b))
  | _ => t

/-- Adds bytes at the end of files, one after the other. -/
def appendAll (t : FileTree) (ws : List (Address × Bytes)) : FileTree :=
  ws.foldl (fun t w => t.append w.1 w.2) t

/-- Gives the file at an address another content, as far as there is room, making it if there is
none. -/
def overwrite (t : FileTree) (a : Address) (b : Bytes) : FileTree :=
  match t.find? a with
  | none | some (.file _) => t.put a (.file ((t.access a).fit b))
  | some _ => t

theorem find?_put_self (t : FileTree) {a : Address} (h : a ≠ []) (n : Node) :
    (t.put a n).find? a = some n := by
  simp [find?, put, h]

theorem find?_put_of_ne (t : FileTree) {a b : Address} (h : b ≠ a) (n : Node) :
    (t.put a n).find? b = t.find? b := by
  by_cases hb : b = []
  · simp [find?, hb]
  · simp only [find?, hb, if_false, put]
    congr 1
    rw [List.find?_cons_of_neg (by simpa using Ne.symm h)]
    induction t.nodes with
    | nil => rfl
    | cons p l ih =>
      by_cases hp : p.1 = a
      · rw [List.filter_cons_of_neg (by simpa using hp), ih,
          List.find?_cons_of_neg (by simp [hp, Ne.symm h])]
      · rw [List.filter_cons_of_pos (by simpa using hp)]
        by_cases hq : p.1 = b
        · rw [List.find?_cons_of_pos (by simpa using hq),
            List.find?_cons_of_pos (by simpa using hq)]
        · rw [List.find?_cons_of_neg (by simpa using hq),
            List.find?_cons_of_neg (by simpa using hq), ih]

end FileTree
end ColorMarkup
