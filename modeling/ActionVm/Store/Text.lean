import ActionVm.Store
import ActionVm.Text.Utf8

/-!
# The text of a value

* `Store.joinLimit`: how deep arrays are joined;
* **`Store.text`**: the text that a value converts to;
* `Store.inspect`: a value as it is shown to a developer.
-/

namespace ActionVm.Store

/-- How many arrays may be joined inside each other. -/
def joinLimit : Nat := 256

/-- The text of a value inside the arrays `joining`, with room for `room` more. An array joins its
elements with commas, except inside itself or where there is no room, where it is empty. -/
def textWithin (s : Store) (joining : List ObjectId) (room : Nat) (v : Value) : String :=
  match v with
  | .undefined => "undefined"
  | .null => "null"
  | .boolean b => toString b
  | .integer i => toString i.toInt
  | .number x => numberText x
  | .string t => t
  | .object o =>
    match (s.object o).payload with
    | .function _ => "[type Function]"
    | .buffer b => Utf8.repair (s.buffer b).toList
    | .domain _ => "[object Domain]"
    | .plain =>
      if (s.object o).isArray then
        match room with
        | 0 => ""
        | room + 1 =>
          if joining.contains o then ""
          else ",".intercalate ((s.arrayValues o).map fun v =>
            if v.isNullish then "" else s.textWithin (o :: joining) room v)
      else "[object Object]"

/-- The text that a value converts to. -/
def text (s : Store) (v : Value) : String := s.textWithin [] joinLimit v

/-- A value as it is shown to a developer: texts are quoted, and objects show their class and the
names of their members. -/
def inspect (s : Store) : Value → String
  | .string t => Text.quote t
  | .object o =>
    let object := s.object o
    "ScriptObject \x7b class: " ++ Text.quote object.className ++ ", properties: [" ++
      ", ".intercalate (object.properties.names.map Text.quote) ++ "] \x7d"
  | v => s.text v

end ActionVm.Store
