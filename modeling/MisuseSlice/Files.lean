import MisuseSlice.Text.Path
import MisuseSlice.Text.Utf8

/-!
Files, as far as an analysis needs them: looking at, listing, reading and writing them. The operations are
a record over a monad, so that the same commands work on the files of a machine and on a tree of files that
is a plain value.
-/
namespace MisuseSlice

open Text (Bytes)

/-- What a path leads to. -/
inductive FileKind where
  | file | directory
  deriving DecidableEq, Repr

/-- Why an operation on a path fails. -/
inductive FileError where
  | missing | notDirectory | isDirectory
  /-- Another cause, in the words of the machine. -/
  | other (reason : String)
  deriving DecidableEq, Repr

/-- The wording of a cause. -/
def FileError.message : FileError → String
  | missing => "no such file or directory"
  | notDirectory => "not a directory"
  | isDirectory => "is a directory"
  | other reason => reason

/-- A failed operation on a path. -/
structure FileFailure where
  action : String
  path : String
  error : FileError
  deriving DecidableEq, Repr

/-- The wording of a failure. -/
def FileFailure.message (f : FileFailure) : String := f.action ++ " " ++ f.path ++ ": " ++ f.error.message

/-- The operations on files. -/
structure FileAccess (m : Type → Type) where
  status : String → m (Except FileError FileKind)
  /-- The names in a directory, in order. -/
  list : String → m (Except FileError (List (String × FileKind)))
  read : String → m (Except FileError Bytes)
  /-- Makes a file, or replaces what it holds. -/
  write : String → Bytes → m (Except FileError Unit)

namespace FileAccess

variable {m : Type → Type} [Monad m]

/-- What a path leads to. -/
def stat (fs : FileAccess m) (path : String) : m (Except FileFailure FileKind) := do
  match ← fs.status path with
  | .ok k => pure (.ok k)
  | .error e => pure (.error ⟨"stat", path, e⟩)

/-- The names in a directory, in order. -/
def names (fs : FileAccess m) (path : String) : m (Except FileFailure (List (String × FileKind))) := do
  match ← fs.list path with
  | .ok ns => pure (.ok ns)
  | .error e => pure (.error ⟨"open", path, e⟩)

/-- What a file holds. A directory can be opened, but not read. -/
def contents (fs : FileAccess m) (path : String) : m (Except FileFailure Bytes) := do
  match ← fs.read path with
  | .ok bs => pure (.ok bs)
  | .error .isDirectory => pure (.error ⟨"read", path, .isDirectory⟩)
  | .error e => pure (.error ⟨"open", path, e⟩)

/-- Writes a file. -/
def save (fs : FileAccess m) (path : String) (bs : Bytes) : m (Except FileFailure Unit) := do
  match ← fs.write path bs with
  | .ok u => pure (.ok u)
  | .error e => pure (.error ⟨"open", path, e⟩)

end FileAccess

/-- A tree of files under one directory: what each file holds, and further directories, by the names on
the way to them. -/
structure FileTree where
  files : List (List String × Bytes) := []
  directories : List (List String) := []
  deriving Inhabited

namespace FileTree

/-- What a chain of names leads to. A file makes the directories above it. -/
def kind? (t : FileTree) (names : List String) : Option FileKind :=
  if t.files.any (·.1 == names) then some .file
  else if names.isEmpty || (t.files.map (·.1) ++ t.directories).any (names.isPrefixOf ·) then some .directory
  else none

/-- Follows elements of a path from a place in the tree. -/
def follow (t : FileTree) (place : List String) : List String → Except FileError (List String)
  | [] => .ok place
  | e :: rest =>
    match t.kind? place with
    | some .directory =>
      if e == "" || e == "." then t.follow place rest
      else if e == ".." then t.follow place.dropLast rest
      else if (t.kind? (place ++ [e])).isSome then t.follow (place ++ [e]) rest
      else .error .missing
    | some .file => .error .notDirectory
    | none => .error .missing

/-- The place that a path leads to. The tree has no place for absolute paths. -/
def place (t : FileTree) (path : String) : Except FileError (List String) :=
  if path == "" || Text.Path.isAbsolute path then .error .missing else t.follow [] (Text.pieces path '/')

/-- What a path leads to. -/
def status (t : FileTree) (path : String) : Except FileError FileKind :=
  match t.place path with
  | .error e => .error e
  | .ok p => (t.kind? p).elim (.error .missing) .ok

/-- The names in a directory, in order. -/
def list (t : FileTree) (path : String) : Except FileError (List (String × FileKind)) :=
  match t.place path with
  | .error e => .error e
  | .ok p =>
    if t.kind? p == some .file then .error .notDirectory
    else
      let below := (t.files.map (·.1) ++ t.directories).filterMap fun q =>
        if p.isPrefixOf q then (q.drop p.length).head? else none
      .ok ((Text.sort (Text.distinct below)).map fun n => (n, (t.kind? (p ++ [n])).getD .directory))

/-- What a file holds. -/
def read (t : FileTree) (path : String) : Except FileError Bytes :=
  match t.place path with
  | .error e => .error e
  | .ok p =>
    match t.files.find? (·.1 == p) with
    | some (_, bs) => .ok bs
    | none => .error .isDirectory

/-- Makes a file in a directory that is there, or replaces what it holds. -/
def write (t : FileTree) (path : String) (bs : Bytes) : Except FileError FileTree :=
  if path == "" || Text.Path.isAbsolute path then .error .missing
  else
    let elements := Text.pieces path '/'
    match t.follow [] elements.dropLast, elements.getLast? with
    | .ok p, some name =>
      let q := if name == "" || name == "." then p else if name == ".." then p.dropLast else p ++ [name]
      if t.kind? p == some .file then .error .notDirectory
      else if t.kind? q == some .directory then .error .isDirectory
      else .ok { t with files := t.files.filter (·.1 != q) ++ [(q, bs)] }
    | .error e, _ => .error e
    | _, none => .error .missing

/-- A tree with a file or, where there are no bytes, a directory at a path. -/
def add (t : FileTree) (path : String) (bytes : Option Bytes) : FileTree :=
  let names := (Text.pieces path '/').filter (· != "")
  match bytes with
  | some bs => { t with files := t.files ++ [(names, bs)] }
  | none => { t with directories := t.directories ++ [names] }

/-- The operations on a tree of files. -/
def access : FileAccess (StateM FileTree) where
  status path := do pure ((← get).status path)
  list path := do pure ((← get).list path)
  read path := do pure ((← get).read path)
  write path bs := do
    match (← get).write path bs with
    | .ok t =>
      set t
      pure (.ok ())
    | .error e => pure (.error e)

end FileTree

end MisuseSlice
