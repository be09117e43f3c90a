import ActionVm.Decimal.Notation
import ActionVm.Text.Hexadecimal

/-!
# JSON documents

* `Json`: documents, whose numbers are integers or floating-point bit patterns;
* `Json.quote`: a text as a JSON string;
* **`Json.pretty`**: a document over several lines, indented by two spaces.
-/

namespace ActionVm

/-- A JSON document. -/
inductive Json where
  | null
  | bool (b : Bool)
  | int (i : Int)
  | single (bits : UInt32)
  | double (bits : UInt64)
  | string (s : String)
  | array (items : List Json)
  | object (fields : List (String × Json))

namespace Json

/-- One character of a JSON string. -/
def escape (c : Char) : String :=
  if c = '"' then "\\\""
  else if c = '\\' then "\\\\"
  else if c = '\x08' then "\\b"
  else if c = '\x0C' then "\\f"
  else if c = '\n' then "\\n"
  else if c = '\r' then "\\r"
  else if c = '\t' then "\\t"
  else if c.toNat < 0x20 then
    "\\u" ++ Text.paddedHex 4 c.toNat
  else c.toString

/-- A text as a JSON string. -/
def quote (s : String) : String := "\"" ++ String.join (s.toList.map escape) ++ "\""

/-- Numbers in documents: exponents that are not negative have a sign. -/
def layout (first last : Int) : Layout := ⟨some (first, last), true, true, true, "", .even⟩

/-- A number in a document; what is not finite is `null`. -/
def number (f : Format) (layout : Layout) (bits : Nat) : String :=
  match f.decode bits with
  | .finite b => (Reading.finite b).write f layout
  | _ => "null"

/-- The start of a line at the given depth. -/
def newline (depth : Nat) : String := "\n" ++ String.ofList (List.replicate (2 * depth) ' ')

/-- Written members between brackets, each on a line of its own. -/
def enclosed (opening closing : String) (depth : Nat) (members : List String) : String :=
  match members with
  | [] => opening ++ closing
  | members =>
    opening ++ newline (depth + 1) ++ ("," ++ newline (depth + 1)).intercalate members ++
      newline depth ++ closing

mutual

/-- A document whose first line is already indented to the given depth. -/
def write (depth : Nat) : Json → String
  | null => "null"
  | bool b => toString b
  | int i => toString i
  | single bits => number .single (layout (-6) 12) bits.toNat
  | double bits => number .double (layout (-5) 15) bits.toNat
  | string s => quote s
  | array items => enclosed "[" "]" depth (writeItems (depth + 1) items)
  | object fields => enclosed "\x7b" "\x7d" depth (writeFields (depth + 1) fields)

/-- The items of an array. -/
def writeItems (depth : Nat) : List Json → List String
  | [] => []
  | item :: rest => write depth item :: writeItems depth rest

/-- The fields of an object. -/
def writeFields (depth : Nat) : List (String × Json) → List String
  | [] => []
  | (name, value) :: rest => (quote name ++ ": " ++ write depth value) :: writeFields depth rest

end

/-- A document over several lines. -/
def pretty (j : Json) : String := write 0 j

end Json

end ActionVm
