import ActionVm.Toml.Fault

/-!
# Items of a TOML document

What stands under the keys of a TOML document, and how a statement adds to it.

* `Origin`, `Item`, `Fields`: items, among them tables with the way in which they came to be;
* `Key`: a dotted key;
* `Fields.assign`: a value put under a dotted key;
* `Fields.openTable`, `Fields.openElement`: a table made by a header, and an element added by a
  header of an array of tables;
* `Fields.within`: a change of the table that a header has opened.

An addition that the format forbids has no result. No key is given twice, a table has one header
at most, and what stands between braces is not added to.
-/

namespace ActionVm.Toml

/-- The way in which a table came to be. -/
inductive Origin where
  /-- By a header of its own. -/
  | header
  /-- On the way of a header to a table inside it. -/
  | passing
  /-- On the way of a dotted key. -/
  | dotted
  /-- Between braces. -/
  | braces
  deriving DecidableEq, Repr

/-- An item under a key. -/
inductive Item where
  | text (s : String)
  | integer (n : Int)
  | float (x : Float)
  /-- A number that does not fit: an integer, or a float. -/
  | misfit (whole : Bool)
  | boolean (b : Bool)
  /-- A date, a time of day, or both, as it is written. -/
  | moment (s : String)
  /-- An array. The elements of a growing one are tables, made by headers. -/
  | array (grows : Bool) (items : List (Located Item))
  | table (origin : Origin) (fields : List (String × Located Item))

/-- The keys of a table in ascending order, and what stands under them. -/
abbrev Fields := List (String × Located Item)

/-- The parts of a dotted key. -/
abbrev Key := List (Located String)

namespace Fields

/-- The fields after the item under a key has been changed, or made where there is none. -/
def alter (key : String) (change : Option (Located Item) → Option (Located Item)) :
    Fields → Option Fields
  | [] => (change none).map fun item => [(key, item)]
  | (k, item) :: rest =>
    if k = key then (change (some item)).map fun item => (k, item) :: rest
    else if key < k then (change none).map fun new => (key, new) :: (k, item) :: rest
    else (alter key change rest).map ((k, item) :: ·)

/-- The item after its table has been changed: that of the item itself, the last one of a growing
array, or a new one that stands where the key does. A dotted key goes neither into a table that has
a header nor, as any other key, into one between braces. -/
def inside (dotted : Bool) (place : Span) (change : Origin → Fields → Option Fields) :
    Option (Located Item) → Option (Located Item)
  | none =>
    let origin := if dotted then Origin.dotted else .passing
    (change origin []).map fun fields => ⟨place, .table origin fields⟩
  | some ⟨span, .table origin fields⟩ =>
    if origin = .braces || (dotted && origin = .header) then none
    else (change origin fields).map fun fields => ⟨span, .table origin fields⟩
  | some ⟨span, .array true items⟩ =>
    match items.getLast? with
    | some ⟨last, .table origin fields⟩ =>
      (change origin fields).map fun fields =>
        ⟨span, .array true (items.dropLast ++ [⟨last, .table origin fields⟩])⟩
    | _ => none
  | some _ => none

/-- The fields with a new key. -/
def add (key : String) (item : Located Item) (fields : Fields) : Option Fields :=
  fields.alter key fun
    | none => some item
    | some _ => none

/-- The fields with an item under a dotted key. The last table on its way has to come from dotted
keys alone, where `origin` is that of the fields. -/
def put (item : Located Item) : Key → Origin → Fields → Option Fields
  | [], _, _ => none
  | [part], origin, fields =>
    if origin = .dotted then fields.add part.content item else none
  | part :: rest, _, fields => fields.alter part.content (inside true part.span (put item rest))

/-- The fields with an item under the key of a statement in their own table. -/
def assign (key : Key) (item : Located Item) (fields : Fields) : Option Fields :=
  match key with
  | [part] => fields.add part.content item
  | key => put item key .dotted fields

/-- The fields after the table has been changed to which a header leads. -/
def within (key : Key) (change : Fields → Option Fields) (fields : Fields) : Option Fields :=
  match key with
  | [] => change fields
  | part :: rest =>
    fields.alter part.content (inside false part.span fun _ => within rest change)

/-- The fields after a header has opened a table. -/
def openTable (header : Located Key) (fields : Fields) : Option Fields :=
  match header.content.getLast? with
  | none => none
  | some part => fields.within header.content.dropLast fun fields =>
    fields.alter part.content fun
      | none => some ⟨header.span, .table .header []⟩
      | some ⟨_, .table .passing inner⟩ => some ⟨header.span, .table .header inner⟩
      | some _ => none

/-- The fields after a header has added an element to an array of tables. -/
def openElement (header : Located Key) (fields : Fields) : Option Fields :=
  let element : Located Item := ⟨header.span, .table .header []⟩
  match header.content.getLast? with
  | none => none
  | some part => fields.within header.content.dropLast fun fields =>
    fields.alter part.content fun
      | none => some ⟨header.span, .array true [element]⟩
      | some ⟨span, .array true items⟩ => some ⟨span, .array true (items ++ [element])⟩
      | some _ => none

end Fields

end ActionVm.Toml
