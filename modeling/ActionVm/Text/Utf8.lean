/-!
# UTF-8

Bytes as text. A reader of bytes that need not be valid text has to say where the trouble is and
how far it reaches; both follow from one scan of a piece at a time.

* `encode`: the bytes of a text;
* `trail`, `scan`: what a lead byte asks for, and the piece that starts at it;
* `repair`: every broken piece becomes one replacement character;
* `check`: the text, or the first broken piece and its place.
-/

namespace ActionVm.Utf8

/-- The bytes of a text. -/
def encode (s : String) : List UInt8 := s.toList.flatMap String.utf8EncodeChar

/-- How many bytes follow a lead byte, and the range of the first of them. Bytes that lead nothing
give `none`. The ranges leave out over-long forms, surrogates and values past `10FFFF`. -/
def trail (lead : UInt8) : Option (Nat × UInt8 × UInt8) :=
  if lead < 0x80 then some (0, 0, 0)
  else if lead < 0xC2 then none
  else if lead < 0xE0 then some (1, 0x80, 0xBF)
  else if lead = 0xE0 then some (2, 0xA0, 0xBF)
  else if lead = 0xED then some (2, 0x80, 0x9F)
  else if lead < 0xF0 then some (2, 0x80, 0xBF)
  else if lead = 0xF0 then some (3, 0x90, 0xBF)
  else if lead < 0xF4 then some (3, 0x80, 0xBF)
  else if lead = 0xF4 then some (3, 0x80, 0x8F)
  else none

/-- What stands at the start of a byte sequence, not counting the lead byte. -/
inductive Piece where
  /-- A character with `more` bytes after its lead byte. -/
  | scalar (c : Char) (more : Nat)
  /-- A broken piece with `more` bytes after its lead byte; `cut` when the input ends inside it. -/
  | broken (more : Nat) (cut : Bool)

/-- The number of bytes of the piece after its lead byte. -/
def Piece.more : Piece → Nat
  | .scalar _ n => n
  | .broken n _ => n

/-- The bytes that continue a character are `80` to `BF`. -/
def continues (b : UInt8) : Bool := 0x80 ≤ b && b ≤ 0xBF

/-- The value that the low six bits of `b` add to `acc`. -/
def extend (acc : Nat) (b : UInt8) : Nat := acc * 64 + b.toNat % 64

/-- The piece that starts at `lead`. A broken piece is the longest start of a character, and a
byte that starts none is broken alone. -/
def scan (lead : UInt8) (rest : List UInt8) : Piece :=
  match trail lead with
  | none => .broken 0 false
  | some (0, _, _) => .scalar (Char.ofNat lead.toNat) 0
  | some (n + 1, low, high) =>
    match rest with
    | [] => .broken 0 true
    | b :: rest =>
      if b < low || high < b then .broken 0 false
      else match n with
        | 0 => .scalar (Char.ofNat (extend (lead.toNat % 32) b)) 1
        | 1 => match rest with
          | [] => .broken 1 true
          | c :: _ =>
            if continues c then .scalar (Char.ofNat (extend (extend (lead.toNat % 16) b) c)) 2
            else .broken 1 false
        | _ => match rest with
          | [] => .broken 1 true
          | c :: rest =>
            if !continues c then .broken 1 false
            else match rest with
              | [] => .broken 2 true
              | d :: _ =>
                if continues d then
                  .scalar (Char.ofNat (extend (extend (extend (lead.toNat % 8) b) c) d)) 3
                else .broken 2 false

/-- The characters `done`, latest first, then those of a byte sequence, with `U+FFFD` for every
broken piece. -/
def repairAfter (done : List Char) : List UInt8 → List Char
  | [] => done.reverse
  | b :: rest =>
    match scan b rest with
    | .scalar c n => repairAfter (c :: done) (rest.drop n)
    | .broken n _ => repairAfter ('\uFFFD' :: done) (rest.drop n)
termination_by bytes => bytes.length
decreasing_by all_goals simp only [List.length_drop, List.length_cons]; omega

/-- The text of a byte sequence, with `U+FFFD` for every broken piece. -/
def repair (bytes : List UInt8) : String := String.ofList (repairAfter [] bytes)

/-- Where a byte sequence stops being text. -/
structure Fault where
  /-- The number of bytes before it. -/
  start : Nat
  /-- The number of broken bytes, or `none` if the input ends inside a character. -/
  width : Option Nat
  deriving DecidableEq, Repr

/-- The characters `done`, latest first, then those of a byte sequence that starts at `position`, or
its first fault. -/
def checkAfter (done : List Char) (position : Nat) : List UInt8 → Except Fault (List Char)
  | [] => .ok done.reverse
  | b :: rest =>
    match scan b rest with
    | .scalar c n => checkAfter (c :: done) (position + 1 + n) (rest.drop n)
    | .broken n cut => .error ⟨position, if cut then none else some (n + 1)⟩
termination_by bytes => bytes.length
decreasing_by simp only [List.length_drop, List.length_cons]; omega

/-- The text of a byte sequence, or its first fault. -/
def check (bytes : List UInt8) : Except Fault String := (checkAfter [] 0 bytes).map String.ofList

/-- What is said of a fault. -/
def Fault.message : Fault → String
  | ⟨start, some width⟩ => s!"invalid utf-8 sequence of {width} bytes from index {start}"
  | ⟨start, none⟩ => s!"incomplete utf-8 byte sequence from index {start}"

end ActionVm.Utf8
