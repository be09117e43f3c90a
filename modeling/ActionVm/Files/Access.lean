import ActionVm.Files.Grants
import ActionVm.Table

/-!
# Access to files

The files that a host offers to scripts: a table of its own, or a file tree within grants.

* `Files`: the files on offer;
* `Files.has`, `Files.readBytes`, `Files.readText`, `Files.writeBytes`, `Files.writeText`: what the
  host does with a file;
* `Files.existing`: a reading of a file that has to exist.
-/

namespace ActionVm

/-- The files that a host offers to scripts. -/
inductive Files where
  /-- Files by name, without directories. -/
  | table (files : Table (List UInt8))
  | tree (t : FileTree) (grants : Grants)

namespace Files

/-- No files at all. -/
def empty : Files := .table .empty

/-- The file tree, if the files are in one. -/
def tree? : Files → Option FileTree
  | table _ => none
  | tree t _ => some t

/-- What a script is told of a trouble with a path. -/
def scriptError (path : String) : FileTrouble → ScriptError
  | .missing => .fileNotFound path
  | trouble => .fileTrouble path trouble.message

/-- The answer of a file tree as a script sees it. -/
def answer {α : Type} (path : String) : Except FileTrouble α → Except ScriptError α :=
  Except.mapError (scriptError path)

/-- The grant for an access covers a path. -/
def require (t : FileTree) (grants : Grants) (access : Access) (path : String) :
    Except ScriptError Unit :=
  if t.permits (grants.grant access) path then .ok () else .error (.permissionDenied access path)

/-- A file that may be read has the path. -/
def has (f : Files) (path : String) : Bool :=
  match f with
  | table files => files.contains path
  | tree t grants => t.permits grants.read path && t.isFile path

/-- The bytes of a file. -/
def readBytes (f : Files) (path : String) : Except ScriptError (List UInt8) :=
  match f with
  | table files =>
    match files.get? path with
    | some bytes => .ok bytes
    | none => .error (.fileNotFound path)
  | tree t grants => do
    require t grants .read path
    answer path (t.read path)

/-- What is said of bytes that are no text. -/
def noText (f : Files) (fault : Utf8.Fault) : String :=
  match f with
  | table _ => fault.message
  | tree .. => "stream did not contain valid UTF-8"

/-- The text of a file. -/
def readText (f : Files) (path : String) : Except ScriptError String := do
  match Utf8.check (← f.readBytes path) with
  | .ok text => return text
  | .error fault => throw (.fileTrouble path (f.noText fault))

/-- The files after one has got the given bytes. -/
def writeBytes (f : Files) (path : String) (bytes : List UInt8) : Except ScriptError Files :=
  match f with
  | table files => .ok (.table (files.insert path bytes))
  | tree t grants => do
    require t grants .write path
    return .tree (← answer path (t.write path bytes)) grants

/-- The files after one has got the given text. -/
def writeText (f : Files) (path text : String) : Except ScriptError Files :=
  f.writeBytes path (Utf8.encode text)

/-- A reading of a file that has to exist. -/
def existing {α : Type} (f : Files) (path : String) (read : Except ScriptError α) :
    Except ScriptError α :=
  if f.has path then read else .error (.fileNotFound path)

end Files

end ActionVm
