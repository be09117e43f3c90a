import ActionVm.Decimal.Notation
import ActionVm.Text.Quoted
import ActionVm.Toml.Item

/-!
# Expected items

Items read as what a program expects them to be.

* `Item.description`: what an item is called where something else was expected;
* `Item.misfits`: the numbers of an item that do not fit;
* `Located.mismatch`: the fault of an item that is something else;
* `boolean`, `text`, `texts`, `ignored`: readings of items.
-/

namespace ActionVm.Toml

/-- Numbers in descriptions: always positional, with a point. -/
def describedNumber : Layout := ⟨none, true, false, true, "inf", .larger⟩

/-- What an integer is called: outside 64 bits, by its width too. -/
def describedInteger (n : Int) : String :=
  let width :=
    if -0x8000000000000000 ≤ n && n < 0x10000000000000000 then ""
    else if n < Int.pow 2 127 then " as i128" else " as u128"
  "integer `" ++ toString n ++ "`" ++ width

/-- What is said of a number that does not fit. -/
def misfitText (whole : Bool) : String :=
  if whole then "integer number overflowed" else "floating-point number overflowed"

/-- What an item is called where something else was expected. -/
def Item.description : Item → String
  | text s => "string " ++ Text.quote s
  | integer n => describedInteger n
  | float x => "floating point `" ++ (Reading.ofFloat x).write .double describedNumber ++ "`"
  | misfit whole => misfitText whole
  | boolean b => "boolean `" ++ toString b ++ "`"
  | array .. => "sequence"
  | moment _ | table .. => "map"

/-- The numbers of an item that do not fit, in order, where the item stands in the given stretch. -/
def Item.misfits (span : Span) : Item → List Fault
  | misfit whole => [⟨span, misfitText whole⟩]
  | array _ items => items.attach.flatMap fun ⟨e, _⟩ => e.content.misfits e.span
  | table _ fields => fields.attach.flatMap fun ⟨e, _⟩ => e.2.content.misfits e.2.span
  | _ => []
termination_by item => sizeOf item
decreasing_by
  · have := List.sizeOf_lt_of_mem ‹e ∈ items›
    cases e
    simp_all
    omega
  · have := List.sizeOf_lt_of_mem ‹e ∈ fields›
    obtain ⟨_, _, _⟩ := e
    simp_all
    omega

/-- The fault of an item that is not what was expected. -/
def Located.mismatch (item : Located Item) (expected : String) : Fault :=
  ⟨item.span, match item.content with
    | .misfit whole => misfitText whole
    | found => s!"invalid type: {found.description}, expected {expected}"⟩

/-- A truth value. -/
def boolean (item : Located Item) : Except Fault Bool :=
  match item.content with
  | .boolean b => .ok b
  | _ => .error (item.mismatch "a boolean")

/-- A text. -/
def text (item : Located Item) : Except Fault String :=
  match item.content with
  | .text s => .ok s
  | _ => .error (item.mismatch "a string")

/-- The texts of an array that holds nothing else. -/
def texts (item : Located Item) : Except Fault (List String) :=
  match item.content with
  | .array _ items => items.mapM text
  | _ => .error (item.mismatch "a sequence")

/-- An item without a meaning. Its numbers have to fit all the same. -/
def ignored (item : Located Item) : Except Fault Unit :=
  match item.content.misfits item.span with
  | [] => .ok ()
  | fault :: _ => .error fault

end ActionVm.Toml
