import ActionVm.Toml.Fault

/-!
# Scans

Readings of text from the front, for the grammar of TOML.

* `Scan`: a reading, which fails or leaves the rest of the text;
* `Scan.peek`, `Scan.skip`, `Scan.run`: the next character, an expected one, and a run;
* `Scan.located`: what a reading finds, with the stretch that it passes;
* `Scan.blanks`, `Scan.gap`, `Scan.lineEnd`: what stands between the parts of a document;
* `separated`: items up to a closing character.
-/

namespace ActionVm.Toml

/-- A reading of text from the front. -/
abbrev Scan := StateT (List Char) Option

/-- A character that stands for itself: neither a control character, the tab excepted, nor DEL. -/
def isPlain (c : Char) : Bool := c = '\t' || (' ' ≤ c && c ≠ '\x7f')

/-- A blank inside a line. -/
def isBlank (c : Char) : Bool := c = ' ' || c = '\t'

/-- What follows blanks, line ends and comments. In a comment, a character that may not stand
there ends the gap. -/
def afterGap (comment : Bool) : List Char → List Char
  | [] => []
  | '\r' :: '\n' :: rest => afterGap false rest
  | c :: rest =>
    if c = '\n' then afterGap false rest
    else if comment then (if isPlain c then afterGap true rest else c :: rest)
    else if isBlank c then afterGap false rest
    else if c = '#' then afterGap true rest
    else c :: rest

namespace Scan

/-- No reading. -/
def fail {α : Type} : Scan α := StateT.lift none

/-- The next character, if one is left. It is not passed. -/
def peek : Scan (Option Char) := return (← get).head?

/-- Passes the next characters if they are the given ones. -/
def skip? (word : List Char) : Scan Bool := modifyGet fun cs =>
  if word.isPrefixOf cs then (true, cs.drop word.length) else (false, cs)

/-- Passes a character that has to be the next one. -/
def skip (c : Char) : Scan Unit := do
  if !(← skip? [c]) then fail

/-- The longest run of characters of a kind. -/
def run (kind : Char → Bool) : Scan (List Char) :=
  modifyGet fun cs => (cs.takeWhile kind, cs.dropWhile kind)

/-- What a reading finds, with the stretch that it passes. -/
def located {α : Type} (x : Scan α) : Scan (Located α) := do
  let left := (← get).length
  let a ← x
  return ⟨⟨left, (← get).length⟩, a⟩

/-- Passes blanks. -/
def blanks : Scan Unit := modify (·.dropWhile isBlank)

/-- Passes blanks, line ends and comments. -/
def gap : Scan Unit := modify (afterGap false)

/-- Passes the rest of a line, in which only a comment may stand. -/
def lineEnd : Scan Unit := do
  blanks
  if (← peek) = some '#' then
    let _ ← run isPlain
  match ← get with
  | [] => return
  | '\n' :: rest | '\r' :: '\n' :: rest => set rest
  | _ => fail

/-- The items up to a closing character, with a comma after each but perhaps the last, and gaps
around them. -/
def separatedFrom {α : Type} (item : Scan α) (close : Char) : Nat → Scan (List α)
  | 0 => fail
  | fuel + 1 => do
    gap
    if ← skip? [close] then return []
    let first ← item
    gap
    if ← skip? [','] then return first :: (← separatedFrom item close fuel)
    skip close
    return [first]

/-- The items up to a closing character. Each takes a character at least, so there are no more of
them than characters. -/
def separated {α : Type} (item : Scan α) (close : Char) : Scan (List α) := do
  separatedFrom item close ((← get).length + 1)

end Scan

end ActionVm.Toml
