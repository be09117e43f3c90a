import ActionVm.Host.Arguments

/-!
# Files for scripts

The methods of the script object for files.

* `File.name`: the name of a method;
* **`File.call`**: what a method answers.
-/

namespace ActionVm.Host.File

/-- The name of a method. -/
def name : FileMethod → String
  | .fileExists => "exists"
  | .read => "read"
  | .write => "write"
  | .readByteArray => "readByteArray"
  | .writeByteArray => "writeByteArray"

/-- All methods in the order of their definition. -/
def all : List FileMethod := [.fileExists, .read, .write, .readByteArray, .writeByteArray]

/-- What is done with the files of the worker. -/
def change (f : Files → Except ScriptError Files) : Exec Unit := do
  let files ← Exec.ofExcept (f (← Exec.worker Worker.files))
  Exec.setWorker ({ · with files := files })

/-- What a method answers. -/
def call (m : FileMethod) (args : List Value) : Exec Value := do
  let expect (n : Nat) := Host.expect (name m) (.exactly n) args
  match m with
  | .fileExists =>
    expect 1
    let path ← textArgument args 0
    return .boolean ((← Exec.worker Worker.files).has path)
  | .read =>
    expect 1
    let path ← textArgument args 0
    let files ← Exec.worker Worker.files
    return .string (← Exec.ofExcept (files.existing path (files.readText path)))
  | .write =>
    expect 2
    let path ← textArgument args 0
    let text ← textArgument args 1
    change (·.writeText path text)
    return .undefined
  | .readByteArray =>
    expect 1
    let path ← textArgument args 0
    let files ← Exec.worker Worker.files
    let bytes ← Exec.ofExcept (files.existing path (files.readBytes path))
    let b ← Exec.change (·.addBuffer (.ofList bytes))
    freshObject (.byteArray b)
  | .writeByteArray =>
    expect 2
    let path ← textArgument args 0
    let b ← bufferArgument (name m) args 1
    let bytes ← Exec.ask fun s => (s.buffer b).toList
    change (·.writeBytes path bytes)
    return .undefined

end ActionVm.Host.File
