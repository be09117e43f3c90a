import ActionVm.CommandLine.Outcome

/-!
# The program

Reads the files below the working directory and those that the command line names, and does what
`CommandLine.outcome?` says: writes its texts and the files that have changed.
-/

namespace ActionVm.CommandLine

/-- The names of a place whose path is given. -/
def placeOf (path : String) : Location := (path.splitOn "/").filter (· ≠ "")

/-- What stands at a directory entry and below. A link stands for the place to which it leads. -/
partial def nodesOf (entry : IO.FS.DirEntry) : IO (List (Location × Node)) := do
  let place := placeOf entry.path.toString
  match (← entry.path.symlinkMetadata).type with
  | .dir =>
    let inner ← (← entry.path.readDir).toList.mapM nodesOf
    return (place, .directory) :: inner.flatten
  | .symlink => return [(place, .link (← IO.FS.realPath entry.path).toString)]
  | _ => return [(place, .file (← IO.FS.readBinFile entry.path).toList)]

/-- The place and the bytes of a file that a word names, if it does. -/
def namedFile (word : String) : IO (List (Location × Node)) := do
  try
    let path ← IO.FS.realPath word
    return [(placeOf path.toString, .file (← IO.FS.readBinFile path).toList)]
  catch _ => return []

/-- The files below the working directory and those that words name. -/
def snapshot (words : List String) : IO FileTree := do
  let here ← IO.currentDir
  let working := placeOf here.toString
  let named ← words.mapM namedFile
  let below ← (← here.readDir).toList.mapM fun entry => do
    try nodesOf entry catch _ => return []
  let start := FileTree.putDirectory ⟨[], working⟩ working
  return (named.flatten ++ below.flatten).foldl (fun t (place, node) =>
    (t.putDirectory place.dropLast).put place node) start

/-- Writes the files that have changed. -/
def writeBack (before after : FileTree) : IO Unit := do
  for (place, node) in after.nodes do
    let .file bytes := node | continue
    match before.node? place with
    | some (.file old) => if old ≠ bytes then write place bytes
    | _ => write place bytes
where
  write (place : Location) (bytes : List UInt8) : IO Unit :=
    IO.FS.writeBinFile ("/" ++ "/".intercalate place) ⟨bytes.toArray⟩

/-- How many steps a run may take: more than ever end. -/
def stepLimit : Nat := 1 <<< 60

end ActionVm.CommandLine

open ActionVm.CommandLine in
/-- Does what the command line asks for. -/
def main (words : List String) : IO UInt32 := do
  let files ← snapshot words
  match outcome? stepLimit files words with
  | none =>
    IO.eprintln "Error: the run does not end"
    return 1
  | some o =>
    IO.print o.output
    IO.eprint o.report
    writeBack files o.files
    return o.code.toUInt32
