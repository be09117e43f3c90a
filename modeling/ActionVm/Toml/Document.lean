import ActionVm.Toml.Scalar
import ActionVm.Toml.Text

/-!
# TOML documents

The grammar of TOML documents, and the table that a document describes.

* `Scan.key`, `Scan.value`: a dotted key and a value;
* `Statement`, `Scan.statements`: the statements of a document in order;
* **`parse?`**: the fields of the table that a document describes, if it is a document.
-/

namespace ActionVm.Toml

/-- A statement of a document. -/
inductive Statement where
  /-- A header, which opens a table. -/
  | table (header : Located Key)
  /-- A header that adds an element to an array of tables. -/
  | element (header : Located Key)
  | assign (key : Key) (item : Located Item)

/-- How deep arrays and tables between braces may stand inside each other. -/
def nestingLimit : Nat := 80

/-- How many parts a dotted key may have. -/
def partLimit : Nat := 80

namespace Scan

/-- The characters of keys without quotes. -/
def isKeyChar (c : Char) : Bool := c.isAlphanum || c = '_' || c = '-'

/-- A part of a dotted key. -/
def keyPart : Scan String := do
  match ← lineText? with
  | some s => return s
  | none =>
    let cs ← run isKeyChar
    if cs.isEmpty then fail
    return .ofList cs

/-- A dotted key of at most `n` parts. -/
def keyFrom : (n : Nat) → Scan Key
  | 0 => fail
  | n + 1 => do
    let part ← located keyPart
    blanks
    if ← skip? ['.'] then
      blanks
      return part :: (← keyFrom n)
    return [part]

/-- A dotted key and the blanks after it. -/
def key : Scan Key := keyFrom partLimit

/-- A key and its value, with `space` around what divides them. -/
def assignment (space : Scan Unit) (value : Scan Item) : Scan (Key × Located Item) := do
  let key ← key
  space
  skip '='
  space
  return (key, ← located value)

/-- A value, in which arrays and tables stand inside each other at most so deep. -/
def value (depth : Nat) : Scan Item := do
  match ← text? with
  | some s => return .text s
  | none =>
    match depth with
    | 0 => scalar
    | depth + 1 =>
      if ← skip? ['['] then return .array false (← separated (located (value depth)) ']')
      else if ← skip? ['\x7b'] then
        let members ← separated (assignment gap (value depth)) '\x7d'
        let fields ← StateT.lift (members.foldlM (fun (fields : Fields) (key, item) =>
          fields.assign key item) [])
        return .table .braces fields
      else scalar

/-- A key between the brackets of a header. -/
def header (opening closing : List Char) : Scan Key := do
  let _ ← skip? opening
  blanks
  let key ← key
  if !(← skip? closing) then fail
  return key

/-- A statement, which ends with its line. -/
def statement : Scan Statement := do
  let s ← match ← get with
    | '[' :: '[' :: _ => Statement.element <$> located (header ['[', '['] [']', ']'])
    | '[' :: _ => Statement.table <$> located (header ['['] [']'])
    | _ => do
      let (key, item) ← assignment blanks (value nestingLimit)
      pure (Statement.assign key item)
  lineEnd
  return s

/-- The statements up to the end of the text, at most as many as the fuel. -/
def statementsFrom : Nat → Scan (List Statement)
  | 0 => fail
  | fuel + 1 => do
    gap
    if (← peek).isNone then return []
    let s ← statement
    return s :: (← statementsFrom fuel)

/-- The statements of a document. Each takes a character at least. -/
def statements : Scan (List Statement) := do statementsFrom ((← get).length + 1)

end Scan

/-- The table that statements describe, one after the other, with the key of the last header. -/
def Statement.apply (state : Key × Fields) (s : Statement) : Option (Key × Fields) :=
  let (current, fields) := state
  match s with
  | table header => (fields.openTable header).map (header.content, ·)
  | element header => (fields.openElement header).map (header.content, ·)
  | assign key item =>
    (fields.within current fun fields => fields.assign key item).map (current, ·)

/-- A text without the mark of its byte order. -/
def withoutMark : List Char → List Char
  | '\ufeff' :: rest => rest
  | cs => cs

/-- The fields of the table that a document describes, if the text is a document. -/
def parse? (source : String) : Option Fields := do
  let (statements, _) ← Scan.statements (withoutMark source.toList)
  let (_, fields) ← statements.foldlM Statement.apply ([], [])
  return fields

end ActionVm.Toml
