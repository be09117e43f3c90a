/-!
# Paths

Paths as they are written, and places as they are found.

* `Location`: a place, as the names that lead to it from the root;
* `Piece`, `Path`, `Path.ofText`: a written path;
* `Path.steps`: the steps that a path asks for;
* `Path.components`: a path without the pieces that lead nowhere.
-/

namespace ActionVm

/-- A place in a file tree: the names that lead to it from the root. -/
abbrev Location := List String

/-- A piece of a path. -/
inductive Piece where
  | root
  /-- The piece of one point. -/
  | here
  /-- The piece of two points. -/
  | up
  | name (s : String)
  deriving DecidableEq, Repr

/-- A written path. -/
structure Path where
  pieces : List Piece
  /-- A slash follows the last piece. -/
  slashAtEnd : Bool
  deriving DecidableEq, Repr

namespace Path

/-- The piece of a text between slashes. -/
def pieceOf (s : String) : Piece :=
  if s = "." then .here else if s = ".." then .up else .name s

/-- The path that a text spells. -/
def ofText (s : String) : Path :=
  let texts := (s.splitOn "/").filter (· ≠ "")
  let start := if s.startsWith "/" then [Piece.root] else []
  ⟨start ++ texts.map pieceOf, !texts.isEmpty && s.endsWith "/"⟩

/-- The steps that a path asks for. A slash at its end asks for a directory. -/
def steps (p : Path) : List Piece := if p.slashAtEnd then p.pieces ++ [.here] else p.pieces

/-- The pieces of a path but for those that stay where they are. One at its start is kept. -/
def components (p : Path) : List Piece :=
  match p.pieces with
  | [] => []
  | first :: rest => first :: rest.filter (· ≠ .here)

/-- The components that spell a place. -/
def ofLocation (l : Location) : List Piece := .root :: l.map .name

end Path

end ActionVm
