import ActionVm.Word
import ActionVm.Text.Hexadecimal
import ActionVm.Text.Utf8

/-!
# Reading bytes

A reader stands inside a span of bytes and knows where that span starts in the whole input, so that
errors name places of the whole input.

* `DecodeError`, `DecodeError.message`: what can be wrong with encoded actions;
* `Reader`, `Reader.position`, `Reader.place`: a place inside a span, counted from the span's start
  and from the input's;
* `Read`: a read, which answers or fails, and moves the reader in either case;
* `Read.take` and the words, strings and sub-spans built from it.
-/

namespace ActionVm

/-- What can be wrong with encoded actions. Offsets count from the start of the input. -/
inductive DecodeError where
  /-- A read asked for more bytes than its span has left. -/
  | unexpectedEnd (offset needed available : Nat)
  /-- A record declares more bytes than follow it. -/
  | truncated (code : UInt8) (offset declared available : Nat)
  /-- No zero byte ends the string that starts at `offset`. -/
  | unterminatedString (offset : Nat)
  /-- A pushed value has an unknown type. -/
  | invalidPushType (tag : UInt8) (offset : Nat)
  /-- A button condition is declared shorter than its own header. -/
  | invalidConditionSize (size : UInt16) (offset : Nat)
  /-- The record at `offset` would nest its body deeper than `limit`. -/
  | nestingTooDeep (offset limit : Nat)
  deriving DecidableEq, Repr

namespace DecodeError

/-- A number in upper-case hexadecimal with at least `width` digits. -/
def hex (width n : Nat) : String :=
  (Text.paddedHex width n).map Char.toUpper

/-- What is said of a decoding error. -/
def message : DecodeError → String
  | unexpectedEnd offset needed available =>
    s!"Unexpected end of bytecode at offset {offset}: needed {needed} bytes, {available} available"
  | truncated code offset declared available =>
    "Truncated action 0x" ++ hex 2 code.toNat ++
      s!" at offset {offset}: declared {declared} bytes, {available} available"
  | unterminatedString offset => s!"Unterminated string at offset {offset}"
  | invalidPushType tag offset => s!"Invalid push value type {tag} at offset {offset}"
  | invalidConditionSize size offset =>
    s!"Invalid button condition size {size} at offset {offset}"
  | nestingTooDeep offset limit =>
    s!"Action bodies nested deeper than {limit} at offset {offset}"

end DecodeError

/-- The list has at least `n` members. -/
def hasAtLeast {α : Type} : Nat → List α → Bool
  | 0, _ => true
  | _ + 1, [] => false
  | n + 1, _ :: rest => hasAtLeast n rest

theorem hasAtLeast_iff {α : Type} {n : Nat} {l : List α} :
    hasAtLeast n l = true ↔ n ≤ l.length := by
  fun_induction hasAtLeast n l <;> simp_all

/-- A place inside a span of bytes. -/
structure Reader where
  /-- The bytes of the span that are left. -/
  rest : List UInt8
  /-- The number of bytes of the span before this place. -/
  position : Nat
  /-- Where the span starts in the input. -/
  base : Nat
  deriving DecidableEq, Repr

namespace Reader

/-- The start of an input. -/
def ofBytes (bytes : List UInt8) : Reader := ⟨bytes, 0, 0⟩

/-- The place in the input. -/
def place (r : Reader) : Nat := r.base + r.position

/-- The number of bytes left. -/
def remaining (r : Reader) : Nat := r.rest.length

/-- Every byte of the span is consumed. -/
def isEmpty (r : Reader) : Bool := r.rest.isEmpty

/-- The reader `n` bytes on. -/
def skip (n : Nat) (r : Reader) : Reader := ⟨r.rest.drop n, r.position + n, r.base⟩

/-- A reader over exactly the next `n` bytes. -/
def sub (n : Nat) (r : Reader) : Reader := ⟨r.rest.take n, 0, r.place⟩

end Reader

/-- A read: an answer or an error, and the reader afterwards. -/
abbrev Read (α : Type) := ExceptT DecodeError (StateM Reader) α

namespace Read

/-- The bytes left are at least `n`. -/
def need (n : Nat) : Read Unit := do
  let r ← get
  if hasAtLeast n r.rest then pure () else throw (.unexpectedEnd r.place n r.remaining)

/-- The next `n` bytes. -/
def take (n : Nat) : Read (List UInt8) := do
  need n
  let r ← get
  set (r.skip n)
  return r.rest.take n

/-- The next byte. -/
def u8 : Read UInt8 := do
  match ← take 1 with
  | [a] => return a
  | _ => return 0

/-- The next 16-bit word. -/
def u16 : Read UInt16 := do
  match ← take 2 with
  | [a, b] => return Word.of16 a b
  | _ => return 0

/-- The next 16-bit word as a signed number. -/
def i16 : Read Int16 := return (← u16).toInt16

/-- The next 32-bit word. It is also how a single-precision number is stored. -/
def u32 : Read UInt32 := do
  match ← take 4 with
  | [a, b, c, d] => return Word.of32 a b c d
  | _ => return 0

/-- The next 32-bit word as a signed number. -/
def i32 : Read Int32 := return (← u32).toInt32

/-- The next double-precision number: its high word comes first. -/
def f64 : Read UInt64 := do
  let high ← u32
  let low ← u32
  return Word.of64 high low

/-- The next string, up to a zero byte. Bytes that are no text are repaired. -/
def cstr : Read String := do
  let r ← get
  let text := r.rest.takeWhile (· ≠ 0)
  if (r.rest.drop text.length).isEmpty then throw (.unterminatedString r.place)
  set (r.skip (text.length + 1))
  return Utf8.repair text

/-- A reader over exactly the next `n` bytes. -/
def sub (n : Nat) : Read Reader := do
  let r ← get
  need n
  set (r.skip n)
  return r.sub n

/-- The answers `done`, latest first, then those of a read repeated `n` times. -/
def timesAfter {α : Type} (read : Read α) (done : List α) : Nat → Read (List α)
  | 0 => return done.reverse
  | n + 1 => do timesAfter read ((← read) :: done) n

/-- A read repeated `n` times. -/
def times {α : Type} (read : Read α) (n : Nat) : Read (List α) := timesAfter read [] n

end Read

end ActionVm
