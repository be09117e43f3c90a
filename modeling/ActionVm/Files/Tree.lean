import ActionVm.Files.Path

/-!
# File trees

Directories, files and links, and how a path finds its way among them.

* `FileTree`, `FileTree.ofList?`: what stands at which place;
* `FileTrouble`: why a path leads nowhere;
* `FileTree.walk`: the place to which steps lead;
* `FileTree.realPlace`, `FileTree.find`: the place to which a path leads;
* `FileTree.read`, `FileTree.write`: the bytes of files;
* `FileTree.destination`: the place that is written to when a path is.
-/

namespace ActionVm

/-- What stands at a place. -/
inductive Node where
  | directory
  | file (bytes : List UInt8)
  /-- A link, which stands for the path that its text spells. -/
  | link (target : String)

/-- Places and what stands there, and the directory in which relative paths start. The root is
always a directory. -/
structure FileTree where
  nodes : List (Location × Node)
  working : Location

/-- Why a path leads nowhere. -/
inductive FileTrouble where
  | missing
  | notDirectory
  | isDirectory
  | nameTooLong
  | tooManyLinks
  /-- A path with a zero character, which the system does not take at all. -/
  | zeroInName
  deriving DecidableEq, Repr

/-- What the system says of a trouble. -/
def FileTrouble.message : FileTrouble → String
  | missing => "No such file or directory (os error 2)"
  | notDirectory => "Not a directory (os error 20)"
  | isDirectory => "Is a directory (os error 21)"
  | nameTooLong => "File name too long (os error 36)"
  | tooManyLinks => "Too many levels of symbolic links (os error 40)"
  | zeroInName => "file name contained an unexpected NUL byte"

namespace FileTree

/-- What stands at a place. -/
def node? (t : FileTree) (l : Location) : Option Node :=
  if l = [] then some .directory else (t.nodes.find? (·.1 = l)).map (·.2)

/-- A directory stands at the place. -/
def isDirectory (t : FileTree) (l : Location) : Bool :=
  match t.node? l with
  | some .directory => true
  | _ => false

/-- The tree with something else at a place. -/
def put (t : FileTree) (l : Location) (n : Node) : FileTree :=
  { t with nodes := (l, n) :: t.nodes.filter (·.1 ≠ l) }

/-- The tree with a directory at a place and all the way to it. -/
def putDirectory (t : FileTree) (l : Location) : FileTree :=
  (List.range l.length).foldl (fun t n =>
    let l := l.take (n + 1)
    if (t.node? l).isSome then t else t.put l .directory) t

/-- The place that names between slashes lead to, from a place on. -/
def below (start : Location) (names : String) : Location :=
  start ++ (names.splitOn "/").filter (· ≠ "")

/-- The tree of the given nodes, each with its names from the working directory on. Directories come
with all the way to them, and anything else needs a free place in a directory. -/
def ofList? (working : Location) (nodes : List (String × Node)) : Option FileTree :=
  nodes.foldlM (fun t (names, n) =>
    let place := below working names
    match n with
    | .directory => some (t.putDirectory place)
    | n =>
      if t.isDirectory place.dropLast && (t.node? place).isNone then some (t.put place n)
      else none) (putDirectory ⟨[], working⟩ working)

/-! ## Finding places -/

/-- How many links a path may lead through. -/
def linkLimit : Nat := 40

/-- The longest name, in bytes. -/
def nameLimit : Nat := 255

/-- The longest path that is opened, in bytes. -/
def pathLimit : Nat := 4095

/-- The steps of a link, which start where the link stands. -/
def linkSteps (target : String) : List Piece := (Path.ofText target).steps

/-- The place to which steps from `at` lead through at most `links` links, and the number of links
left. -/
def walk (t : FileTree) (links : Nat) (at_ : Location) (steps : List Piece) :
    Except FileTrouble (Location × Nat) :=
  match steps with
  | [] => .ok (at_, links)
  | .root :: rest => t.walk links [] rest
  | step :: rest =>
    if !t.isDirectory at_ then .error .notDirectory
    else match step with
      | .root | .here => t.walk links at_ rest
      | .up => t.walk links at_.dropLast rest
      | .name n =>
        if nameLimit < n.utf8ByteSize then .error .nameTooLong
        else match t.node? (at_ ++ [n]) with
          | none => .error .missing
          | some (.link target) =>
            match links with
            | 0 => .error .tooManyLinks
            | links + 1 => t.walk links at_ (linkSteps target ++ rest)
          | some _ => t.walk links (at_ ++ [n]) rest
termination_by (links, steps.length)

/-- A walk uses up links only. -/
theorem walk_links_le {t : FileTree} {links left : Nat} {l place : Location} {steps : List Piece}
    (h : t.walk links l steps = .ok (place, left)) : left ≤ links := by
  fun_induction walk t links l steps <;> simp_all
  omega

/-- The text is one that the system takes for a path. -/
def check (path : String) : Except FileTrouble Unit :=
  if path.contains '\x00' then .error .zeroInName
  else if path.isEmpty then .error .missing
  else .ok ()

/-- The text is one that the system takes for a path that is opened. -/
def checkOpening (path : String) : Except FileTrouble Unit := do
  check path
  if pathLimit < path.utf8ByteSize then throw .nameTooLong

/-- The place to which steps lead from the working directory. -/
def findSteps (t : FileTree) (steps : List Piece) : Except FileTrouble Location :=
  (t.walk linkLimit t.working steps).map (·.1)

/-- The place to which a path leads, however long it is. -/
def realPlace (t : FileTree) (path : String) : Except FileTrouble Location := do
  check path
  t.findSteps (Path.ofText path).steps

/-- The place to which a path leads when it is opened. -/
def find (t : FileTree) (path : String) : Except FileTrouble Location := do
  checkOpening path
  t.findSteps (Path.ofText path).steps

/-! ## Reading and writing -/

/-- The bytes of the file to which a path leads. -/
def read (t : FileTree) (path : String) : Except FileTrouble (List UInt8) := do
  match t.node? (← t.find path) with
  | some (.file bytes) => return bytes
  | some .directory => throw .isDirectory
  | some (.link _) | none => throw .missing

/-- A file stands where the path leads. -/
def isFile (t : FileTree) (path : String) : Bool := (t.read path).isOk

/-- The place that is written to through a path that starts at `at`: that of a file, or a free place
in a directory. Links are followed even if what they stand for is free. -/
def destinationFrom (t : FileTree) (links : Nat) (at_ : Location) (path : Path) :
    Except FileTrouble Location :=
  match path.pieces.getLast? with
  | none => .error .missing
  | some (.name n) =>
    match _ : t.walk links at_ path.pieces.dropLast with
    | .error e => .error e
    | .ok (directory, left) =>
      if !t.isDirectory directory then .error .notDirectory
      else if path.slashAtEnd then .error .isDirectory
      else if nameLimit < n.utf8ByteSize then .error .nameTooLong
      else match t.node? (directory ++ [n]) with
        | none | some (.file _) => .ok (directory ++ [n])
        | some .directory => .error .isDirectory
        | some (.link target) =>
          if 0 < left then t.destinationFrom (left - 1) directory (Path.ofText target)
          else .error .tooManyLinks
  | some _ =>
    match t.walk links at_ path.steps with
    | .error e => .error e
    | .ok _ => .error .isDirectory
termination_by links
decreasing_by
  have := walk_links_le ‹t.walk _ _ _ = _›
  omega

/-- The place that is written to when a path is. -/
def destination (t : FileTree) (path : String) : Except FileTrouble Location := do
  checkOpening path
  t.destinationFrom linkLimit t.working (Path.ofText path)

/-- The tree in which the file of a path has the given bytes. -/
def write (t : FileTree) (path : String) (bytes : List UInt8) : Except FileTrouble FileTree := do
  return t.put (← t.destination path) (.file bytes)

end FileTree

end ActionVm
