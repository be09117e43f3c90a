import ActionVm.Action
import ActionVm.Reader

/-!
# Decoding blocks

A record is a code byte, for codes from `80` on a 16-bit length and that many operand bytes, and
for the three actions with a body a body of the size that the operands give. Operands are read
from a span of exactly the declared length, so the records after it are found whether or not the
action is known.

* `Operands`: what the operand bytes tell, with `readOperands`;
* `readLength`, `readBody`, `readAction`, `readRecord`: the parts of a record;
* `readRecords`: records up to the end of a span;
* **`decodeActions`**: a stream, which a zero byte ends;
* **`decodeBody`**: a body, in which zero bytes are skipped.
-/

namespace ActionVm

/-- The deepest nesting of bodies that is decoded. -/
def maxNesting : Nat := 64

/-- What the operands of a record tell: the action, or the size of the body that follows and the
action that it completes. -/
inductive Operands where
  | complete (action : Action)
  | enclosing (size : UInt16) (action : Block → Action)

/-- A pushed value after its type byte `tag`, which stands at `place`. -/
def readPushValue (tag : UInt8) (place : Nat) : Read PushValue :=
  match tag with
  | 0 => return .string (← Read.cstr)
  | 1 => return .float (← Read.u32)
  | 2 => return .null
  | 3 => return .undefined
  | 4 => return .register (← Read.u8)
  | 5 => return .boolean ((← Read.u8) != 0)
  | 6 => return .double (← Read.f64)
  | 7 => return .integer (← Read.i32)
  | 8 => return .constant (← Read.u8).toUInt16
  | 9 => return .constant (← Read.u16)
  | _ => throw (.invalidPushType tag place)

/-- The pushed values `done`, latest first, then those of at most `n` more reads up to the end of
the span. -/
def readPushValuesAfter (done : List PushValue) : Nat → Read (List PushValue)
  | 0 => return done.reverse
  | n + 1 => do
    let r ← get
    if r.isEmpty then return done.reverse
    let tag ← Read.u8
    let value ← readPushValue tag r.place
    readPushValuesAfter (value :: done) n

/-- Pushed values up to the end of the span. Each takes a byte at least. -/
def readPushValues : Read (List PushValue) := do
  readPushValuesAfter [] (← get).remaining

/-- A parameter with its register; register zero stands for none. -/
def readRegisterParam : Read RegisterParam := do
  let register ← Read.u8
  let name ← Read.cstr
  return ⟨if register = 0 then none else some register, name⟩

/-- The operands of an action. -/
def readForm : Form → Read Operands
  | .gotoFrame => return .complete (.gotoFrame (← Read.u16))
  | .getUrl => do
    let url ← Read.cstr
    let target ← Read.cstr
    return .complete (.getUrl url target)
  | .storeRegister => return .complete (.storeRegister (← Read.u8))
  | .constantPool => do
    let count ← Read.u16
    return .complete (.constantPool (← Read.times Read.cstr count.toNat))
  | .goToLabel => return .complete (.goToLabel (← Read.cstr))
  | .push => return .complete (.push (← readPushValues))
  | .jump => return .complete (.jump (← Read.i16))
  | .branchIf => return .complete (.branchIf (← Read.i16))
  | .getUrl2 => return .complete (.getUrl2 (← Read.u8))
  | .gotoFrame2 => do
    let flags ← Read.u8
    let play := flags.toNat.testBit 0
    if flags.toNat.testBit 1 then return .complete (.gotoFrame2 play (some (← Read.u16)))
    else return .complete (.gotoFrame2 play none)
  | .withObject => return .enclosing (← Read.u16) .withObject
  | .defineFunction => do
    let name ← Read.cstr
    let count ← Read.u16
    let params ← Read.times Read.cstr count.toNat
    return .enclosing (← Read.u16) (.defineFunction name params)
  | .defineFunction2 => do
    let name ← Read.cstr
    let count ← Read.u16
    let registerCount ← Read.u8
    let flags ← Read.u16
    let params ← Read.times readRegisterParam count.toNat
    return .enclosing (← Read.u16) (.defineFunction2 name registerCount ⟨flags⟩ params)

/-- The operands of a record with the given code byte and length. -/
def readOperands (code : UInt8) (length : UInt16) : Read Operands :=
  match Code.ofByte? code with
  | some (.op o) => return .complete (.op o)
  | some (.form f) => readForm f
  | some (.unsupported _) | none => return .complete (.notImplemented code length)

/-- What the operands of a record tell, read from their own span. -/
def operandsOf (code : UInt8) (length : UInt16) (span : Reader) : Except DecodeError Operands :=
  (readOperands code length).run.run span |>.1

/-- The length field of a record whose code byte is just read. -/
def readLength (code : UInt8) : Read UInt16 := if Code.hasLength code then Read.u16 else return 0

/-- The next `size` bytes as a span that belongs to the record that starts at `start`. -/
def readSpan (code : UInt8) (start size : Nat) : Read Reader := do
  let r ← get
  if hasAtLeast size r.rest then Read.sub size
  else throw (.truncated code start size r.remaining)

/-- The action that operands tell, with the body that follows them. `body` decodes a body, and is
missing where no further nesting is allowed. -/
def readBody (body : Option (Reader → Except DecodeError Block)) (code : UInt8) (start : Nat) :
    Operands → Read Action
  | .complete action => return action
  | .enclosing size action =>
    match body with
    | none => throw (.nestingTooDeep start maxNesting)
    | some body => do
      let span ← readSpan code start size.toNat
      return action (← liftM (body span))

/-- The action of the record that starts at `start`, whose code byte is just read. -/
def readAction (body : Option (Reader → Except DecodeError Block)) (code : UInt8) (start : Nat) :
    Read Action := do
  let length ← readLength code
  let span ← readSpan code start length.toNat
  readBody body code start (← liftM (operandsOf code length span))

/-- A record, or `none` for a zero byte. -/
def readRecord (body : Option (Reader → Except DecodeError Block)) : Read (Option Record) := do
  let r ← get
  let code ← Read.u8
  if code = 0 then return none
  let action ← readAction body code r.place
  return some ⟨r.position, (← get).position - r.position, action⟩

/-- The records `done`, latest first, then those of at most `n` more reads up to the end of the
span; with `skipZeros`, a zero byte does not end them. The place where they end comes with them. -/
def readRecordsAfter (body : Option (Reader → Except DecodeError Block)) (skipZeros : Bool)
    (done : List Record) : Nat → Read Block
  | 0 => return ⟨done.reverse, (← get).position⟩
  | n + 1 => do
    let r ← get
    if r.isEmpty then return ⟨done.reverse, r.position⟩
    match ← readRecord body with
    | some record => readRecordsAfter body skipZeros (record :: done) n
    | none =>
      if skipZeros then readRecordsAfter body skipZeros done n
      else return ⟨done.reverse, r.position⟩

/-- Records up to the end of the span, or to a zero byte unless it is skipped. Each record takes a
byte at least. -/
def readRecords (body : Option (Reader → Except DecodeError Block)) (skipZeros : Bool) :
    Read Block := do
  readRecordsAfter body skipZeros [] (← get).remaining

/-- The decoder of bodies inside which bodies may nest `depth` deep. -/
def bodyDecoder : Nat → Reader → Except DecodeError Block
  | 0, span => (readRecords none true).run.run span |>.1
  | depth + 1, span => (readRecords (some (bodyDecoder depth)) true).run.run span |>.1

/-- A record outside any body. -/
def readTopRecord : Read (Option Record) := readRecord (some (bodyDecoder (maxNesting - 1)))

/-- The records of a stream, up to its end or to a zero byte. -/
def readStream : Read Block := readRecords (some (bodyDecoder (maxNesting - 1))) false

/-- The block of a stream of records, up to its end or to a zero byte. -/
def decodeActions (bytes : List UInt8) : Except DecodeError Block :=
  readStream.run.run (.ofBytes bytes) |>.1

/-- The block of a body, which spans all the bytes. -/
def decodeBody (bytes : List UInt8) : Except DecodeError Block :=
  bodyDecoder maxNesting (.ofBytes bytes)

end ActionVm
