import ColorMarkup.Environment
/-!
# Writable paths

A path may start with `~` or `~user`, which stands for a home directory. A path
is writable if there is a regular file that the user may write, or if there is nothing and the
nearest thing above is a directory that the user may write. Empty and `.` components do not
count.

Results:
* `withHome_of_no_tilde`: a path without a leading tilde is kept.
-/
namespace ColorMarkup.Environment

open Settings (Refusal)

def tilde : CodePoint := 0x7E

/-- The home directory of a user by name; without a name it is that of the user who runs the
program, if no variable says. -/
def homeOf? (env : Environment) (user : Text) : Except Refusal (Option Text) :=
  if user.isEmpty then .ok (env.home <|> env.ownHome)
  else match Utf8.encode user with
    | none => .error (.file .unencodable)
    | some b =>
      if b.contains 0 then .error (.file .embeddedNul)
      else .ok ((env.accounts.find? fun p => p.1 == user).map (·.2))

/-- The path with a home directory put in; one of an unknown user is kept. -/
def withHome (env : Environment) (p : Text) : Except Refusal Text :=
  if p.head? != some tilde then .ok p
  else
    let first := p.takeWhile (· != Path.slash)
    match env.homeOf? (first.drop 1) with
    | .error e => .error e
    | .ok none => .ok p
    | .ok (some home) =>
      let q := Path.dropSlashes home ++ p.drop first.length
      .ok (if q.isEmpty then [Path.slash] else q)

/-- The path with a home directory put in; an unknown one is refused. -/
def withHomePath (env : Environment) (p : SplitPath) : Except Refusal SplitPath :=
  match p.parts with
  | first :: _ =>
    if p.root.isEmpty && first.head? == some tilde then
      match env.withHome first with
      | .error e => .error e
      | .ok home =>
        if home.head? == some tilde then .error .noHome else .ok (p.withFirst home)
    else .ok p
  | [] => .ok p

/-- Is the first of these paths that leads anywhere a directory which may be written? -/
def nearestIsWritable (f : Files) : List SplitPath → Bool
  | [] => false
  | p :: above => match f.lookup p.text with
    | .ok (a, node) => node == .directory && (f.tree.access a).write
    | .error e => e.isAbsence && nearestIsWritable f above

/-- Can a file be written at the path? Mirrors `is_writable` behind the home directory. -/
def probe (f : Files) (p : SplitPath) : Bool :=
  match f.lookup p.text with
  | .ok (a, node) => node.isRegular && (f.tree.access a).write
  | .error e => e.isAbsence && nearestIsWritable f p.parents

/-- Can a file be written at the path, which may start with a home directory? Mirrors
`is_writable`. -/
def canWrite (env : Environment) (p : Text) : Except Refusal Bool :=
  (env.withHomePath (SplitPath.ofText p)).map (probe env.files)

/-- Can a file be written at a path of any type? -/
def canWriteValue (env : Environment) (path : Value) : Except Refusal Bool :=
  match path with
  | .text p => env.canWrite p
  | v => .error (.notPath v)

end ColorMarkup.Environment
