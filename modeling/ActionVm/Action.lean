import ActionVm.Code

/-!
# Actions

Decoded actions and the blocks they form.

* `PushValue`, `PreloadFlags`, `RegisterParam`: operands;
* `Placed`, `BlockOf`: members at their places in an encoded span;
* `Action`, `Record`, `Block`: actions, whose bodies are blocks of actions;
* `Action.code`, `Action.name`, `Action.body?`: what is common to all actions.
-/

namespace ActionVm

/-- A pushed value. Numbers are kept as bit patterns, as they are encoded. -/
inductive PushValue where
  | string (s : String)
  | float (bits : UInt32)
  | null
  | undefined
  | register (r : UInt8)
  | boolean (b : Bool)
  | double (bits : UInt64)
  | integer (i : Int32)
  | constant (index : UInt16)
  deriving DecidableEq, Repr

/-- Which well-known values a function finds in registers, and which it does not get at all. -/
structure PreloadFlags where
  bits : UInt16
  deriving DecidableEq, Repr

namespace PreloadFlags

/-- Bit `k` of the flag word. -/
def bit (f : PreloadFlags) (k : Nat) : Bool := f.bits.toNat.testBit k

/-- There is no `this`. -/
def suppressThis (f : PreloadFlags) : Bool := f.bit 1

/-- There is no `arguments`. -/
def suppressArguments (f : PreloadFlags) : Bool := f.bit 3

/-- There is no `super`. -/
def suppressSuper (f : PreloadFlags) : Bool := f.bit 5

/-- A register holds `this`. -/
def preloadThis (f : PreloadFlags) : Bool := f.bit 0 && !f.suppressThis

/-- A register holds `arguments`. -/
def preloadArguments (f : PreloadFlags) : Bool := f.bit 2 && !f.suppressArguments

/-- A register holds `super`. -/
def preloadSuper (f : PreloadFlags) : Bool := f.bit 4 && !f.suppressSuper

/-- A register holds the root clip. -/
def preloadRoot (f : PreloadFlags) : Bool := f.bit 6

/-- A register holds the parent clip. -/
def preloadParent (f : PreloadFlags) : Bool := f.bit 7

/-- A register holds the global object. -/
def preloadGlobal (f : PreloadFlags) : Bool := f.bit 8

end PreloadFlags

/-- A parameter that is bound to a register, or else by its name. -/
structure RegisterParam where
  register : Option UInt8
  name : String
  deriving DecidableEq, Repr

/-- A member of a block and the bytes it takes there. -/
structure Placed (α : Type) where
  /-- The number of bytes of the block before it. -/
  offset : Nat
  /-- The number of bytes it takes, with the body that belongs to it. -/
  size : Nat
  action : α

/-- Members in the order of their places. -/
structure BlockOf (α : Type) where
  records : List (Placed α)
  /-- The number of bytes of the block, without a terminator. -/
  byteLength : Nat

/-- A decoded action. -/
inductive Action where
  | op (o : Op)
  | gotoFrame (frame : UInt16)
  | gotoFrame2 (play : Bool) (sceneBias : Option UInt16)
  | goToLabel (label : String)
  | getUrl (url target : String)
  | getUrl2 (flags : UInt8)
  | push (values : List PushValue)
  | storeRegister (register : UInt8)
  | constantPool (entries : List String)
  | jump (offset : Int16)
  | branchIf (offset : Int16)
  | withObject (body : BlockOf Action)
  | defineFunction (name : String) (params : List String) (body : BlockOf Action)
  | defineFunction2 (name : String) (registerCount : UInt8) (flags : PreloadFlags)
      (params : List RegisterParam) (body : BlockOf Action)
  /-- A record that is skipped: its code is unknown or unsupported. -/
  | notImplemented (code : UInt8) (length : UInt16)

/-- An action at its place in a block. -/
abbrev Record := Placed Action

/-- A sequence of actions decoded from one span of bytes. -/
abbrev Block := BlockOf Action

namespace Placed

/-- The offset of the first byte after it. -/
def finish {α : Type} (p : Placed α) : Nat := p.offset + p.size

end Placed

namespace Action

/-- The byte of an action's code. -/
def code : Action → UInt8
  | op o => (Code.op o).byte
  | gotoFrame .. => (Code.form .gotoFrame).byte
  | gotoFrame2 .. => (Code.form .gotoFrame2).byte
  | goToLabel .. => (Code.form .goToLabel).byte
  | getUrl .. => (Code.form .getUrl).byte
  | getUrl2 .. => (Code.form .getUrl2).byte
  | push .. => (Code.form .push).byte
  | storeRegister .. => (Code.form .storeRegister).byte
  | constantPool .. => (Code.form .constantPool).byte
  | jump .. => (Code.form .jump).byte
  | branchIf .. => (Code.form .branchIf).byte
  | withObject .. => (Code.form .withObject).byte
  | defineFunction .. => (Code.form .defineFunction).byte
  | defineFunction2 .. => (Code.form .defineFunction2).byte
  | notImplemented code _ => code

/-- The name of an action, `Unknown` if its code has none. -/
def name (a : Action) : String := ((Code.ofByte? a.code).map Code.name).getD "Unknown"

/-- The body that an action carries. -/
def body? : Action → Option Block
  | withObject body => some body
  | defineFunction _ _ body => some body
  | defineFunction2 _ _ _ _ body => some body
  | _ => none

end Action

instance : Inhabited Action := ⟨.op .stop⟩
instance : Inhabited Record := ⟨⟨0, 1, default⟩⟩
instance : Inhabited Block := ⟨⟨[], 0⟩⟩

end ActionVm
