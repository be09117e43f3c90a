import ActionVm.Value
import ActionVm.Word

/-!
# Byte buffers

Buffers of a fixed length that are read and written as bytes and as aligned 32-bit slots. A slot is
four consecutive bytes, low byte first.

* `Buffer`: the words of a buffer;
* `Buffer.get?`, `Buffer.set?`: single bytes;
* `Buffer.read?`, `Buffer.write?`, `Buffer.toList`: spans of bytes, all or nothing;
* `Buffer.slot?`, `Buffer.setSlot?`, `Buffer.compareAndSwap?`: slots.
-/

namespace ActionVm

/-- A buffer of a fixed number of bytes. Words that were never written are zero and need not be
stored. -/
structure Buffer where
  words : Array UInt32
  length : Nat
  deriving Inhabited

namespace Buffer

/-- The buffer of `n` zero bytes. -/
def zeros (n : Nat) : Buffer := ⟨#[], n⟩

/-- The words of a list of bytes, of which the last may be incomplete. -/
def wordsOf : List UInt8 → List UInt32
  | a :: b :: c :: d :: rest => Word.of32 a b c d :: wordsOf rest
  | [a, b, c] => [Word.of32 a b c 0]
  | [a, b] => [Word.of32 a b 0 0]
  | [a] => [Word.of32 a 0 0 0]
  | [] => []

/-- The buffer of the given bytes. -/
def ofList (bytes : List UInt8) : Buffer := ⟨(wordsOf bytes).toArray, bytes.length⟩

/-- The word with the given index. -/
def word (b : Buffer) (index : Nat) : UInt32 := b.words.getD index 0

/-- The buffer in which the word with the given index is `w`. -/
def setWord (b : Buffer) (index : Nat) (w : UInt32) : Buffer :=
  let words := b.words
  let words := words ++ Array.replicate (index + 1 - words.size) 0
  ⟨words.setIfInBounds index w, b.length⟩

/-! ## Bytes -/

/-- The byte at an index, without a check against the length. -/
def byteAt (b : Buffer) (index : Nat) : UInt8 := Word.byte (b.word (index / 4)).toNat (index % 4)

/-- The byte at an index. -/
def get? (b : Buffer) (index : Nat) : Option UInt8 :=
  if index < b.length then some (b.byteAt index) else none

/-- The word in which byte `k`, counted from the lowest, is `value`. -/
def withByte (w : UInt32) (k : Nat) (value : UInt8) : UInt32 :=
  match k with
  | 0 => Word.of32 value (Word.byte w.toNat 1) (Word.byte w.toNat 2) (Word.byte w.toNat 3)
  | 1 => Word.of32 (Word.byte w.toNat 0) value (Word.byte w.toNat 2) (Word.byte w.toNat 3)
  | 2 => Word.of32 (Word.byte w.toNat 0) (Word.byte w.toNat 1) value (Word.byte w.toNat 3)
  | _ => Word.of32 (Word.byte w.toNat 0) (Word.byte w.toNat 1) (Word.byte w.toNat 2) value

/-- The buffer with another byte at an index. -/
def setByte (b : Buffer) (index : Nat) (value : UInt8) : Buffer :=
  b.setWord (index / 4) (withByte (b.word (index / 4)) (index % 4) value)

/-- The buffer with another byte at an index that it has. -/
def set? (b : Buffer) (index : Nat) (value : UInt8) : Option Buffer :=
  if index < b.length then some (b.setByte index value) else none

/-! ## Spans -/

/-- The buffer has the `size` bytes from `start` on. -/
def covers (b : Buffer) (start size : Nat) : Bool := start + size ≤ b.length

/-- The `size` bytes from `start` on, if the buffer has them all. -/
def read? (b : Buffer) (start size : Nat) : Option (List UInt8) :=
  if b.covers start size then some ((List.range' start size).map b.byteAt) else none

/-- The buffer with other bytes from `start` on, without a check against the length. -/
def setBytes (b : Buffer) (start : Nat) : List UInt8 → Buffer
  | [] => b
  | value :: rest => (b.setByte start value).setBytes (start + 1) rest

/-- The buffer with other bytes from `start` on, if it has a place for all of them. -/
def write? (b : Buffer) (start : Nat) (bytes : List UInt8) : Option Buffer :=
  if b.covers start bytes.length then some (b.setBytes start bytes) else none

/-- All bytes of a buffer. -/
def toList (b : Buffer) : List UInt8 := (List.range b.length).map b.byteAt

/-! ## Slots -/

/-- The address is that of a slot: a multiple of four, with four bytes from it on. -/
def hasSlot (b : Buffer) (address : Nat) : Bool := address % 4 = 0 && b.covers address 4

/-- The number in a slot. -/
def slot? (b : Buffer) (address : Nat) : Option Int32 :=
  if b.hasSlot address then some (b.word (address / 4)).toInt32 else none

/-- The buffer with another number in a slot. -/
def setSlot? (b : Buffer) (address : Nat) (value : Int32) : Option Buffer :=
  if b.hasSlot address then some (b.setWord (address / 4) value.toUInt32) else none

/-- The number in a slot, and the buffer in which it is replaced if it is the expected one. -/
def compareAndSwap? (b : Buffer) (address : Nat) (expected new : Int32) :
    Option (Int32 × Buffer) :=
  if b.hasSlot address then
    let old := (b.word (address / 4)).toInt32
    some (old, if old = expected then b.setWord (address / 4) new.toUInt32 else b)
  else none

end Buffer

end ActionVm
