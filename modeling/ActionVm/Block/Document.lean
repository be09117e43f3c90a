import ActionVm.Action
import ActionVm.Json

/-!
# Blocks as documents

A block as a JSON document. An action without operands is its name, and any other an object with
its name as the only field.

* `PushValue.document`: a pushed value;
* **`blockDocument`**: a block.
-/

namespace ActionVm

/-- An object with one field. -/
def Json.tagged (name : String) (value : Json) : Json := .object [(name, value)]

/-- A list of texts as a document. -/
def Json.strings (texts : List String) : Json := .array (texts.map .string)

/-- A pushed value as a document. -/
def PushValue.document : PushValue → Json
  | .string s => .tagged "Str" (.string s)
  | .float bits => .tagged "Float" (.single bits)
  | .null => .string "Null"
  | .undefined => .string "Undefined"
  | .register r => .tagged "Register" (.int r.toNat)
  | .boolean b => .tagged "Boolean" (.bool b)
  | .double bits => .tagged "Double" (.double bits)
  | .integer i => .tagged "Integer" (.int i.toInt)
  | .constant index => .tagged "Constant" (.int index.toNat)

/-- A number that may be missing. -/
def Json.optional (n : Option Nat) : Json := (n.map fun n => Json.int n).getD .null

/-- A parameter as a document. -/
def RegisterParam.document (p : RegisterParam) : Json :=
  .object [("register", .optional (p.register.map UInt8.toNat)), ("name", .string p.name)]

mutual

/-- An action as a document. -/
def actionDocument : Action → Json
  | .op o => .string (Code.op o).name
  | .gotoFrame frame => .tagged "GotoFrame" (.int frame.toNat)
  | .gotoFrame2 play sceneBias =>
    .tagged "GotoFrame2" (.object [("play", .bool play),
      ("scene_bias", .optional (sceneBias.map UInt16.toNat))])
  | .goToLabel label => .tagged "GoToLabel" (.string label)
  | .getUrl url target =>
    .tagged "GetUrl" (.object [("url", .string url), ("target", .string target)])
  | .getUrl2 flags => .tagged "GetUrl2" (.object [("flags", .int flags.toNat)])
  | .push values => .tagged "Push" (.array (values.map PushValue.document))
  | .storeRegister register => .tagged "StoreRegister" (.int register.toNat)
  | .constantPool entries => .tagged "ConstantPool" (.strings entries)
  | .jump offset => .tagged "Jump" (.int offset.toInt)
  | .branchIf offset => .tagged "If" (.int offset.toInt)
  | .withObject body => .tagged "With" (blockDocument body)
  | .defineFunction name params body =>
    .tagged "DefineFunction" (.object [("name", .string name), ("params", .strings params),
      ("body", blockDocument body)])
  | .defineFunction2 name registerCount flags params body =>
    .tagged "DefineFunction2" (.object [("name", .string name),
      ("register_count", .int registerCount.toNat), ("flags", .int flags.bits.toNat),
      ("params", .array (params.map RegisterParam.document)), ("body", blockDocument body)])
  | .notImplemented code length =>
    .tagged "NotImplemented" (.object [("code", .int code.toNat), ("length", .int length.toNat)])

/-- A block as a document. -/
def blockDocument : Block → Json
  | ⟨records, byteLength⟩ =>
    .object [("records", .array (recordsDocument records)), ("byte_len", .int byteLength)]

/-- Records as documents. -/
def recordsDocument : List Record → List Json
  | [] => []
  | ⟨offset, size, action⟩ :: rest =>
    .object [("offset", .int offset), ("size", .int size), ("action", actionDocument action)] ::
      recordsDocument rest

end

end ActionVm
