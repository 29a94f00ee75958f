import CellForth.Fault

/-!
# Source files by name

`Files` is any way to open a file by its name. A `SourceTree` is one: a directory given by its
entries, in which a name is walked from left to right, part by part between slashes. A part is
looked up in the directory reached so far; a regular file has no parts below it. A name that
leaves the directory, or starts at the root, finds nothing.

A missing file is an ordinary fault that names the file. Every other obstacle is a fault of
the outside world.
-/

namespace CellForth

/-- A way to open files: the content of a name, or why it cannot be had. -/
abbrev Files := String → Except Fault (List UInt8)

/-- What keeps a file from being read. -/
inductive Obstacle where
  | missing
  | notDirectory
  | isDirectory
  | nameTooLong
  | nulInName
  deriving DecidableEq

/-- The fault that an obstacle gives for a name. -/
def Obstacle.fault (name : String) : Obstacle → Fault
  | .missing => ⟨.fileNotFound, name⟩
  | .notDirectory => ⟨.io, "Not a directory (os error 20)"⟩
  | .isDirectory => ⟨.io, "Is a directory (os error 21)"⟩
  | .nameTooLong => ⟨.io, "File name too long (os error 36)"⟩
  | .nulInName => ⟨.io, "file name contained an unexpected NUL byte"⟩

/-- A directory: for each path its content, or nothing for a directory without entries. -/
structure SourceTree where
  entries : List (List String × Option (List UInt8))

namespace SourceTree

/-- Where a walk stands. -/
inductive Place where
  | file (content : List UInt8)
  | directory (path : List String)
  | outside

/-- The parts of a name. -/
def parts (name : String) : List String := name.splitOn "/"

/-- A tree from the names of its files and of its empty directories. -/
def ofNames (entries : List (String × Option (List UInt8))) : SourceTree :=
  ⟨entries.map fun (name, content) => (parts name, content)⟩

/-- What a path leads to: an entry, or a directory on the way to one. -/
def place? (t : SourceTree) (path : List String) : Option Place :=
  match t.entries.find? (·.1 = path) with
  | some (_, some content) => some (.file content)
  | some (_, none) => some (.directory path)
  | none => if t.entries.any (path.isPrefixOf ·.1) then some (.directory path) else none

/-- The longest part of a name, in bytes. -/
def partLimit : Nat := 255

/-- The longest name, in bytes. -/
def nameLimit : Nat := 4095

/-- Looks up a part of a name in a directory. -/
def lookUp (t : SourceTree) (path : List String) (part : String) : Except Obstacle Place :=
  if part.utf8ByteSize > partLimit then .error .nameTooLong
  else match t.place? (path ++ [part]) with
    | some place => .ok place
    | none => .error .missing

/-- One part of a walk. An empty part and a single dot stay, and two dots go up. -/
def step (t : SourceTree) : Place → String → Except Obstacle Place
  | .file _, _ => .error .notDirectory
  | .directory path, part =>
    if part = "" ∨ part = "." then .ok (.directory path)
    else if part = ".." then
      .ok (if path = [] then .outside else .directory path.dropLast)
    else t.lookUp path part
  | .outside, part =>
    if part = "" ∨ part = "." ∨ part = ".." then .ok .outside
    else if part.utf8ByteSize > partLimit then .error .nameTooLong
    else .error .missing

/-- Walks a name to its end. -/
def walk (t : SourceTree) (name : String) : Except Obstacle Place :=
  if name.contains '\x00' then .error .nulInName
  else if name.isEmpty then .error .missing
  else if name.utf8ByteSize > nameLimit then .error .nameTooLong
  else
    let start := if name.startsWith "/" then .outside else .directory []
    (parts name).foldlM t.step start

/-- The content of a file. -/
def read (t : SourceTree) (name : String) : Except Obstacle (List UInt8) := do
  match ← t.walk name with
  | .file content => pure content
  | _ => throw .isDirectory

/-- The files of a tree. -/
def files (t : SourceTree) : Files := fun name =>
  (t.read name).mapError (Obstacle.fault name)

end SourceTree

end CellForth
