import ActionVm.Error
import ActionVm.Files.Tree

/-!
# Grants

Which files a script may read and write.

* `Grant`: nothing, everything, or what lies below some roots;
* `FileTree.resolve`: the spelling by which a path is compared with a root;
* **`FileTree.permits`**: a grant covers a path.
-/

namespace ActionVm

/-- What a script may do something with. -/
inductive Grant where
  | nothing
  | everything
  /-- What the roots lead to, and all below. -/
  | within (roots : List String)
  deriving DecidableEq, Repr

namespace Grant

/-- The grant of a list of roots: no list grants nothing, and an empty one everything. -/
def ofRoots? : Option (List String) → Grant
  | none => nothing
  | some [] => everything
  | some roots => within roots

/-- The roots of a grant, in the form that `ofRoots?` takes. -/
def roots? : Grant → Option (List String)
  | nothing => none
  | everything => some []
  | within roots => some roots

end Grant

/-- What a script may read, and what it may write. -/
structure Grants where
  read : Grant
  write : Grant
  deriving DecidableEq, Repr

namespace Grants

/-- The grants of nothing. -/
def none : Grants := ⟨.nothing, .nothing⟩

/-- The grants of everything. -/
def all : Grants := ⟨.everything, .everything⟩

/-- The grant for an access. -/
def grant (g : Grants) : Access → Grant
  | .read => g.read
  | .write => g.write

end Grants

namespace FileTree

/-- The spelling by which a path is compared with a root: that of the place to which it leads; or
of a place in the directory before its last name; or else its own. A path of one name has no
directory before its name. -/
def resolve (t : FileTree) (path : String) : List Piece :=
  match t.realPlace path with
  | .ok place => Path.ofLocation place
  | .error _ =>
    let components := (Path.ofText path).components
    match components.getLast? with
    | some (.name n) =>
      if components.length = 1 then components
      else match t.findSteps components.dropLast with
        | .ok directory => Path.ofLocation (directory ++ [n])
        | .error _ => components
    | _ => components

/-- A grant covers a path. -/
def permits (t : FileTree) (g : Grant) (path : String) : Bool :=
  match g with
  | .nothing => false
  | .everything => true
  | .within roots =>
    let spelling := t.resolve path
    roots.any fun root => (t.resolve root).isPrefixOf spelling

end FileTree

end ActionVm
