/-!
# Action codes

Every action starts with a byte that says what it is. Codes from `80` on are followed by a 16-bit
length and that many bytes of operands.

* `Op`: actions that are executed without operands of their own;
* `Form`: actions with operands;
* `Unsupported`: actions that are known by name only;
* `Code`: the three together, with `Code.byte`, `Code.name` and `Code.ofByte?`;
* **`Code.ofByte?_eq_some_iff`**: a code is read from its own byte and from no other.
-/

namespace ActionVm

/-- Actions without operands. What they work on is on the stack. -/
inductive Op where
  | nextFrame
  | previousFrame
  | play
  | stop
  | toggleQuality
  | stopSounds
  | add
  | subtract
  | multiply
  | divide
  | equals
  | less
  | and
  | or
  | not
  | stringEquals
  | stringLength
  | stringExtract
  | pop
  | toInteger
  | getVariable
  | setVariable
  | stringAdd
  | getProperty
  | setProperty
  | cloneSprite
  | removeSprite
  | trace
  | stringLess
  | throwValue
  | cast
  | implement
  | mbStringLength
  | charToAscii
  | asciiToChar
  | getTime
  | mbStringExtract
  | mbCharToAscii
  | mbAsciiToChar
  | delete
  | delete2
  | defineLocal
  | callFunction
  | returnValue
  | modulo
  | newObject
  | defineLocal2
  | initArray
  | initObject
  | typeOf
  | enumerate
  | add2
  | less2
  | equals2
  | toNumber
  | toString
  | pushDuplicate
  | stackSwap
  | getMember
  | setMember
  | increment
  | decrement
  | callMethod
  | newMethod
  | instanceOf
  | enumerate2
  | bitAnd
  | bitOr
  | bitXor
  | bitLShift
  | bitRShift
  | bitURShift
  | strictEquals
  | greater
  | stringGreater
  | extendClass
  | call
  deriving DecidableEq, Repr

/-- Actions with operands. -/
inductive Form where
  | gotoFrame
  | getUrl
  | storeRegister
  | constantPool
  | goToLabel
  | defineFunction2
  | withObject
  | push
  | jump
  | getUrl2
  | defineFunction
  | branchIf
  | gotoFrame2
  deriving DecidableEq, Repr

/-- Actions that have a code and a name but are skipped. -/
inductive Unsupported where
  | setTarget2
  | startDrag
  | endDrag
  | randomNumber
  | targetPath
  | waitForFrame
  | setTarget
  | waitForFrame2
  | tryBlock
  deriving DecidableEq, Repr

/-- The byte and the name of an action without operands. -/
def Op.entry : Op → UInt8 × String
  | .nextFrame => (0x04, "NextFrame")
  | .previousFrame => (0x05, "PreviousFrame")
  | .play => (0x06, "Play")
  | .stop => (0x07, "Stop")
  | .toggleQuality => (0x08, "ToggleQuality")
  | .stopSounds => (0x09, "StopSounds")
  | .add => (0x0A, "Add")
  | .subtract => (0x0B, "Subtract")
  | .multiply => (0x0C, "Multiply")
  | .divide => (0x0D, "Divide")
  | .equals => (0x0E, "Equals")
  | .less => (0x0F, "Less")
  | .and => (0x10, "And")
  | .or => (0x11, "Or")
  | .not => (0x12, "Not")
  | .stringEquals => (0x13, "StringEquals")
  | .stringLength => (0x14, "StringLength")
  | .stringExtract => (0x15, "StringExtract")
  | .pop => (0x17, "Pop")
  | .toInteger => (0x18, "ToInteger")
  | .getVariable => (0x1C, "GetVariable")
  | .setVariable => (0x1D, "SetVariable")
  | .stringAdd => (0x21, "StringAdd")
  | .getProperty => (0x22, "GetProperty")
  | .setProperty => (0x23, "SetProperty")
  | .cloneSprite => (0x24, "CloneSprite")
  | .removeSprite => (0x25, "RemoveSprite")
  | .trace => (0x26, "Trace")
  | .stringLess => (0x29, "StringLess")
  | .throwValue => (0x2A, "Throw")
  | .cast => (0x2B, "CastOp")
  | .implement => (0x2C, "ImplementsOp")
  | .mbStringLength => (0x31, "MbStringLength")
  | .charToAscii => (0x32, "CharToAscii")
  | .asciiToChar => (0x33, "AsciiToChar")
  | .getTime => (0x34, "GetTime")
  | .mbStringExtract => (0x35, "MbStringExtract")
  | .mbCharToAscii => (0x36, "MbCharToAscii")
  | .mbAsciiToChar => (0x37, "MbAsciiToChar")
  | .delete => (0x3A, "Delete")
  | .delete2 => (0x3B, "Delete2")
  | .defineLocal => (0x3C, "DefineLocal")
  | .callFunction => (0x3D, "CallFunction")
  | .returnValue => (0x3E, "Return")
  | .modulo => (0x3F, "Modulo")
  | .newObject => (0x40, "NewObject")
  | .defineLocal2 => (0x41, "DefineLocal2")
  | .initArray => (0x42, "InitArray")
  | .initObject => (0x43, "InitObject")
  | .typeOf => (0x44, "TypeOf")
  | .enumerate => (0x46, "Enumerate")
  | .add2 => (0x47, "Add2")
  | .less2 => (0x48, "Less2")
  | .equals2 => (0x49, "Equals2")
  | .toNumber => (0x4A, "ToNumber")
  | .toString => (0x4B, "ToString")
  | .pushDuplicate => (0x4C, "PushDuplicate")
  | .stackSwap => (0x4D, "StackSwap")
  | .getMember => (0x4E, "GetMember")
  | .setMember => (0x4F, "SetMember")
  | .increment => (0x50, "Increment")
  | .decrement => (0x51, "Decrement")
  | .callMethod => (0x52, "CallMethod")
  | .newMethod => (0x53, "NewMethod")
  | .instanceOf => (0x54, "InstanceOf")
  | .enumerate2 => (0x55, "Enumerate2")
  | .bitAnd => (0x60, "BitAnd")
  | .bitOr => (0x61, "BitOr")
  | .bitXor => (0x62, "BitXor")
  | .bitLShift => (0x63, "BitLShift")
  | .bitRShift => (0x64, "BitRShift")
  | .bitURShift => (0x65, "BitURShift")
  | .strictEquals => (0x66, "StrictEquals")
  | .greater => (0x67, "Greater")
  | .stringGreater => (0x68, "StringGreater")
  | .extendClass => (0x69, "Extends")
  | .call => (0x9E, "Call")

/-- The byte and the name of an action with operands. -/
def Form.entry : Form → UInt8 × String
  | .gotoFrame => (0x81, "GotoFrame")
  | .getUrl => (0x83, "GetUrl")
  | .storeRegister => (0x87, "StoreRegister")
  | .constantPool => (0x88, "ConstantPool")
  | .goToLabel => (0x8C, "GoToLabel")
  | .defineFunction2 => (0x8E, "DefineFunction2")
  | .withObject => (0x94, "With")
  | .push => (0x96, "Push")
  | .jump => (0x99, "Jump")
  | .getUrl2 => (0x9A, "GetUrl2")
  | .defineFunction => (0x9B, "DefineFunction")
  | .branchIf => (0x9D, "If")
  | .gotoFrame2 => (0x9F, "GotoFrame2")

/-- The byte and the name of a skipped action. -/
def Unsupported.entry : Unsupported → UInt8 × String
  | .setTarget2 => (0x20, "SetTarget2")
  | .startDrag => (0x27, "StartDrag")
  | .endDrag => (0x28, "EndDrag")
  | .randomNumber => (0x30, "RandomNumber")
  | .targetPath => (0x45, "TargetPath")
  | .waitForFrame => (0x8A, "WaitForFrame")
  | .setTarget => (0x8B, "SetTarget")
  | .waitForFrame2 => (0x8D, "WaitForFrame2")
  | .tryBlock => (0x8F, "Try")

/-- All actions without operands. -/
def Op.all : List Op :=
  [.nextFrame, .previousFrame, .play, .stop, .toggleQuality, .stopSounds, .add, .subtract,
   .multiply, .divide, .equals, .less, .and, .or, .not, .stringEquals, .stringLength,
   .stringExtract, .pop, .toInteger, .getVariable, .setVariable, .stringAdd, .getProperty,
   .setProperty, .cloneSprite, .removeSprite, .trace, .stringLess, .throwValue, .cast, .implement,
   .mbStringLength, .charToAscii, .asciiToChar, .getTime, .mbStringExtract, .mbCharToAscii,
   .mbAsciiToChar, .delete, .delete2, .defineLocal, .callFunction, .returnValue, .modulo,
   .newObject, .defineLocal2, .initArray, .initObject, .typeOf, .enumerate, .add2, .less2,
   .equals2, .toNumber, .toString, .pushDuplicate, .stackSwap, .getMember, .setMember, .increment,
   .decrement, .callMethod, .newMethod, .instanceOf, .enumerate2, .bitAnd, .bitOr, .bitXor,
   .bitLShift, .bitRShift, .bitURShift, .strictEquals, .greater, .stringGreater, .extendClass,
   .call]

/-- All actions with operands. -/
def Form.all : List Form :=
  [.gotoFrame, .getUrl, .storeRegister, .constantPool, .goToLabel, .defineFunction2, .withObject,
   .push, .jump, .getUrl2, .defineFunction, .branchIf, .gotoFrame2]

/-- All skipped actions. -/
def Unsupported.all : List Unsupported :=
  [.setTarget2, .startDrag, .endDrag, .randomNumber, .targetPath, .waitForFrame, .setTarget,
   .waitForFrame2, .tryBlock]

/-- A known action code. -/
inductive Code where
  | op (o : Op)
  | form (f : Form)
  | unsupported (u : Unsupported)
  deriving DecidableEq, Repr

namespace Code

/-- The byte and the name of a code. -/
def entry : Code → UInt8 × String
  | op o => o.entry
  | form f => f.entry
  | unsupported u => u.entry

/-- The byte of a code. -/
def byte (c : Code) : UInt8 := c.entry.1

/-- The name of a code. -/
def name (c : Code) : String := c.entry.2

/-- All codes. -/
def all : List Code := Op.all.map op ++ Form.all.map form ++ Unsupported.all.map unsupported

/-- The code of a byte. -/
def ofByte? (b : UInt8) : Option Code := all.find? (·.byte == b)

/-- A code with this byte is followed by a 16-bit length. -/
def hasLength (b : UInt8) : Bool := 0x80 ≤ b

theorem mem_all (c : Code) : c ∈ all := by
  rcases c with o | f | u
  · cases o <;> decide
  · cases f <;> decide
  · cases u <;> decide

theorem ofByte?_byte (c : Code) : ofByte? c.byte = some c := by
  rcases c with o | f | u
  · cases o <;> rfl
  · cases f <;> rfl
  · cases u <;> rfl

theorem ofByte?_eq_some_iff {b : UInt8} {c : Code} : ofByte? b = some c ↔ c.byte = b := by
  constructor
  · intro h
    simpa using List.find?_some h
  · rintro rfl
    exact ofByte?_byte c

end Code

end ActionVm
