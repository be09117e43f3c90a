import ActionVm.Text.Utf8

/-!
# Faults in TOML documents

What is said of a document that does not say what it should.

* `Span`, `Located`: stretches of a document, and what stands there;
* `Fault`: what is wrong, and where;
* **`Fault.text`**: the lines that show a fault to the author of the document.
-/

namespace ActionVm.Toml

/-- A stretch of a document, as the number of characters that are left of the document where it
starts, and where it is over. -/
structure Span where
  left : Nat
  after : Nat
  deriving DecidableEq, Repr

/-- What stands in a stretch of a document. -/
structure Located (α : Type) where
  span : Span
  content : α

/-- Something that a document says in a way in which it should not. -/
structure Fault where
  span : Span
  message : String
  deriving DecidableEq, Repr

namespace Fault

/-- A character so many times. -/
def row (c : Char) (n : Nat) : String := String.ofList (List.replicate n c)

/-- The size of characters in bytes. -/
def size (cs : List Char) : Nat := (String.ofList cs).utf8ByteSize

/-- The lines that show a fault in a document: its place, the line where it starts with a mark below
the stretch as far as it goes on there, and what is wrong. -/
def text (source : String) (f : Fault) : String :=
  let cs := source.toList
  let start := cs.length - f.span.left
  let before := cs.take start
  let line := toString (before.count '\n' + 1)
  let column := (before.reverse.takeWhile (· ≠ '\n')).length
  let content := (cs.drop (start - column)).takeWhile (· ≠ '\n')
  let stretch := (cs.drop start).take (f.span.left - f.span.after)
  let marks := max 1 (min (size stretch) (size content - column))
  let margin := row ' ' (line.length + 1) ++ "|"
  s!"TOML parse error at line {line}, column {column + 1}\n" ++ margin ++ "\n" ++
    line ++ " | " ++ String.ofList content ++ "\n" ++
    margin ++ row ' ' (column + 1) ++ row '^' marks ++ "\n" ++ f.message ++ "\n"

end Fault

end ActionVm.Toml
