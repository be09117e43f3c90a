import ActionVm.Action
import ActionVm.Word
import ActionVm.Text.Utf8

/-!
# Encoding blocks

The bytes of action streams, described step by step. Steps may also describe streams that no
decoder accepts.

* `Step`: a step of a description, with the steps of its body;
* `encodeValue`, `encodeRecord`: the bytes of a pushed value and of a record;
* `pushOperands`, `poolOperands`, `functionOperands`, `function2Operands`: the bytes of operands;
* **`encode`**: the bytes of a description, without a terminator;
* **`encodeStream`**: the bytes of a description, with a terminator.
-/

namespace ActionVm

/-- A step in the description of an action stream. -/
inductive Step where
  /-- The byte of an action code and nothing else. -/
  | action (code : Code)
  /-- A record with the given operand bytes, which codes below `80` leave out. -/
  | record (code : UInt8) (payload : List UInt8)
  | raw (bytes : List UInt8)
  | push (values : List PushValue)
  | jump (offset : Int16)
  | branchIf (offset : Int16)
  | storeRegister (register : UInt8)
  | constantPool (entries : List String)
  | defineFunction (name : String) (params : List String) (body : List Step)
  | defineFunction2 (name : String) (registerCount : UInt8) (flags : PreloadFlags)
      (params : List (UInt8 × String)) (body : List Step)
  | withObject (body : List Step)

/-- The bytes of a string, which a zero byte ends. -/
def encodeString (s : String) : List UInt8 := Utf8.encode s ++ [0]

/-- The bytes of a number of members, modulo `2 ^ 16`. -/
def encodeCount (n : Nat) : List UInt8 := Word.le16 (UInt16.ofNat n)

/-- The bytes of a pushed value. Constants below 256 take the short form. -/
def encodeValue : PushValue → List UInt8
  | .string s => 0 :: encodeString s
  | .float bits => 1 :: Word.le32 bits
  | .null => [2]
  | .undefined => [3]
  | .register r => [4, r]
  | .boolean b => [5, if b then 1 else 0]
  | .double bits => 6 :: (Word.le32 (Word.high bits) ++ Word.le32 (Word.low bits))
  | .integer i => 7 :: Word.le32 i.toUInt32
  | .constant index =>
    if index < 256 then [8, index.toUInt8] else 9 :: Word.le16 index

/-- The bytes of a record with the given operand bytes. -/
def encodeRecord (code : UInt8) (payload : List UInt8) : List UInt8 :=
  if Code.hasLength code then code :: (encodeCount payload.length ++ payload) else [code]

/-- The bytes of a record of the given form. -/
def encodeForm (f : Form) (payload : List UInt8) : List UInt8 :=
  encodeRecord (Code.form f).byte payload

/-- The operand bytes of pushed values. -/
def pushOperands (values : List PushValue) : List UInt8 := values.flatMap encodeValue

/-- The operand bytes of a constant pool. -/
def poolOperands (entries : List String) : List UInt8 :=
  encodeCount entries.length ++ entries.flatMap encodeString

/-- The operand bytes of a function whose parameters have names only. -/
def functionOperands (name : String) (params : List String) (bodySize : Nat) : List UInt8 :=
  encodeString name ++ encodeCount params.length ++ params.flatMap encodeString ++
    encodeCount bodySize

/-- The bytes of a parameter with its register, which is zero for none. -/
def encodeParam : UInt8 × String → List UInt8
  | (register, name) => register :: encodeString name

/-- The operand bytes of a function whose parameters may be in registers. -/
def function2Operands (name : String) (registerCount : UInt8) (flags : PreloadFlags)
    (params : List (UInt8 × String)) (bodySize : Nat) : List UInt8 :=
  encodeString name ++ encodeCount params.length ++ [registerCount] ++ Word.le16 flags.bits ++
    params.flatMap encodeParam ++ encodeCount bodySize

mutual

/-- The bytes of a step. -/
def encodeStep : Step → List UInt8
  | .action code => [code.byte]
  | .record code payload => encodeRecord code payload
  | .raw bytes => bytes
  | .push values => encodeForm .push (pushOperands values)
  | .jump offset => encodeForm .jump (Word.le16 offset.toUInt16)
  | .branchIf offset => encodeForm .branchIf (Word.le16 offset.toUInt16)
  | .storeRegister register => encodeForm .storeRegister [register]
  | .constantPool entries => encodeForm .constantPool (poolOperands entries)
  | .defineFunction name params body =>
    let bytes := encode body
    encodeForm .defineFunction (functionOperands name params bytes.length) ++ bytes
  | .defineFunction2 name registerCount flags params body =>
    let bytes := encode body
    encodeForm .defineFunction2
      (function2Operands name registerCount flags params bytes.length) ++ bytes
  | .withObject body =>
    let bytes := encode body
    encodeForm .withObject (encodeCount bytes.length) ++ bytes

/-- The bytes of a description, without a terminator. -/
def encode : List Step → List UInt8
  | [] => []
  | step :: rest => encodeStep step ++ encode rest

end

/-- The bytes of a description, with a terminator. -/
def encodeStream (steps : List Step) : List UInt8 := encode steps ++ [0]

end ActionVm
