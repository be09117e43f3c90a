import ActionVm.Block.Decoding

/-!
# Tags

The containers in which action streams come.

* `InitActions`: the actions of a sprite that run once;
* `Read.answer`: what a read answers on an input;
* `ButtonConditions`, `ButtonEntry`: what a button reacts to, and how;
* `decodeInitActions`, `decodeExports`, **`decodeButton`**: the containers of given bytes.
-/

namespace ActionVm

/-- The actions of a sprite that run when it first appears. -/
structure InitActions where
  sprite : UInt16
  actions : Block

/-- The transitions and the key that a button entry reacts to. -/
structure ButtonConditions where
  bits : UInt16
  deriving DecidableEq, Repr

namespace ButtonConditions

/-- One of the transitions in `mask` is among the nine that the entry may react to. -/
def meets (c : ButtonConditions) (mask : UInt16) : Bool := c.bits &&& mask &&& 0x01FF != 0

/-- The key of the entry, zero for none. -/
def key (c : ButtonConditions) : UInt8 := (c.bits >>> 9).toUInt8

end ButtonConditions

/-- What a button does when one of its conditions is met. -/
structure ButtonEntry where
  /-- The number of bytes to the next entry, zero for the last one. -/
  size : UInt16
  conditions : ButtonConditions
  actions : Block

namespace ButtonEntry

/-- The number of bytes of an entry before its actions. -/
def headerSize : Nat := 4

/-- No entry follows. -/
def isLast (e : ButtonEntry) : Bool := e.size == 0

end ButtonEntry

/-- What a read answers on an input. -/
def Read.answer {α : Type} (read : Read α) (bytes : List UInt8) : Except DecodeError α :=
  read.run.run (.ofBytes bytes) |>.1

/-- The init actions of given bytes: the sprite, then a stream. -/
def decodeInitActions : List UInt8 → Except DecodeError InitActions :=
  Read.answer do
    let sprite ← Read.u16
    return ⟨sprite, ← readStream⟩

/-- A character and its exported name. -/
def readExport : Read (UInt16 × String) := do
  let id ← Read.u16
  return (id, ← Read.cstr)

/-- The exported names of given bytes: their number, then the names. -/
def decodeExports : List UInt8 → Except DecodeError (List (UInt16 × String)) :=
  Read.answer do
    let count ← Read.u16
    Read.times readExport count.toNat

/-- A button entry. The last one has no size of its own and takes all that is left. -/
def readButtonEntry : Read ButtonEntry := do
  let start := (← get).place
  let size ← Read.u16
  let conditions ← Read.u16
  let length ←
    if size = 0 then pure (← get).remaining
    else if size.toNat < ButtonEntry.headerSize then throw (.invalidConditionSize size start)
    else pure (size.toNat - ButtonEntry.headerSize)
  let span ← Read.sub length
  return ⟨size, ⟨conditions⟩, ← liftM (readStream.run.run span |>.1)⟩

/-- The entries `done`, latest first, then those of at most `n` more reads up to the last one or to
the end of the input. -/
def readButtonEntriesAfter (done : List ButtonEntry) : Nat → Read (List ButtonEntry)
  | 0 => return done.reverse
  | n + 1 => do
    if (← get).isEmpty then return done.reverse
    let entry ← readButtonEntry
    if entry.isLast then return (entry :: done).reverse
    readButtonEntriesAfter (entry :: done) n

/-- The entries of a button. Each takes a byte at least. -/
def decodeButton : List UInt8 → Except DecodeError (List ButtonEntry) :=
  Read.answer do
    readButtonEntriesAfter [] (← get).remaining

end ActionVm
