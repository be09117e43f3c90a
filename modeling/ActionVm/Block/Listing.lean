import ActionVm.Action
import ActionVm.Decimal.Notation
import ActionVm.Reader
import ActionVm.Text.Quoted

/-!
# Listings

A block as text: one line for each record, in order, with the records of a body after the record
that carries it and indented under it.

* `PushValue.listing`: a pushed value;
* `recordLine`: the line of a record;
* **`listing`**: the text of a block.
-/

namespace ActionVm

/-- Texts between brackets, with commas. -/
def bracketed (texts : List String) : String := "[" ++ ", ".intercalate texts ++ "]"

/-- A pushed value in a listing. -/
def PushValue.listing : PushValue → String
  | .string s => "Str(" ++ Text.quote s ++ ")"
  | .float bits => "Float(" ++ singleListing bits ++ ")"
  | .null => "Null"
  | .undefined => "Undefined"
  | .register r => s!"Register({r})"
  | .boolean b => s!"Boolean({b})"
  | .double bits => "Double(" ++ doubleListing bits ++ ")"
  | .integer i => s!"Integer({i})"
  | .constant index => s!"Constant({index})"

/-- A number with its sign, also if it is not negative. -/
def signed (i : Int) : String := if i < 0 then toString i else "+" ++ toString i

/-- A byte offset in upper-case hexadecimal, with at least four digits. Offsets before the block
show as 64-bit words. -/
def offsetText (i : Int) : String :=
  DecodeError.hex 4 (if i < 0 then i + 0x10000000000000000 else i).toNat

/-- What follows the name of an action on its line, for a record that ends at `finish`. -/
def Action.details (finish : Nat) : Action → String
  | push values => " " ++ bracketed (values.map PushValue.listing)
  | jump offset | branchIf offset =>
    " " ++ signed offset.toInt ++ " -> " ++ offsetText (finish + offset.toInt)
  | constantPool entries => " " ++ bracketed (entries.map Text.quote)
  | storeRegister register => s!" r{register}"
  | _ => ""

/-- The line of a record inside `depth` bodies. -/
def recordLine (depth : Nat) (r : Record) : String :=
  String.ofList (List.replicate (2 * depth) ' ') ++ offsetText r.offset ++ " " ++ r.action.name ++
    r.action.details r.finish

mutual

/-- The lines of the body that an action carries. -/
def bodyLines (depth : Nat) : Action → List String
  | .withObject body => blockLines depth body
  | .defineFunction _ _ body => blockLines depth body
  | .defineFunction2 _ _ _ _ body => blockLines depth body
  | _ => []

/-- The lines of a block inside `depth` bodies. -/
def blockLines (depth : Nat) : Block → List String
  | ⟨records, _⟩ => recordsLines depth records

/-- The lines of records inside `depth` bodies. -/
def recordsLines (depth : Nat) : List Record → List String
  | [] => []
  | ⟨offset, size, action⟩ :: rest =>
    recordLine depth ⟨offset, size, action⟩ :: (bodyLines (depth + 1) action ++
      recordsLines depth rest)

end

/-- The text of a block, one line for each record. -/
def listing (b : Block) : String := String.join ((blockLines 0 b).map (· ++ "\n"))

end ActionVm
