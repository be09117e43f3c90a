import ActionVm.Decimal.Binary
import ActionVm.Text.Blank
import ActionVm.Text.Hexadecimal

/-!
# Reading numbers

The grammars in which numbers are written by scripts.

* `decimal?`: digits with a point and an exponent, rounded to the nearest double;
* `plainNumber?`: `decimal?` or one of the words for infinity and NaN;
* `hexadecimal?`: a signed hexadecimal integer of 64 bits;
* `number`: the number that a text converts to;
* `index?`: a 64-bit index.
-/

namespace ActionVm.Text

/-- The value of a list of decimal digits. -/
def digitsValue (ds : List Char) : Nat :=
  ds.foldl (fun n c => n * 10 + (c.toNat - '0'.toNat)) 0

/-- An optional sign: whether it is a minus, and what follows it. -/
def splitSign : List Char → Bool × List Char
  | '-' :: rest => (true, rest)
  | '+' :: rest => (false, rest)
  | rest => (false, rest)

/-- The exponent part of a number, from its letter to the end. -/
def exponent? : List Char → Option Int
  | [] => some 0
  | c :: rest =>
    let (minus, digits) := splitSign rest
    if (c = 'e' || c = 'E') && !digits.isEmpty && digits.all Char.isDigit then
      some (if minus then -(digitsValue digits : Int) else digitsValue digits)
    else none

/-- The double nearest to `m · 10 ^ e`. Far outside the range of doubles the power is not worked
out. -/
def scaled (m : Nat) (e : Int) : Float :=
  let lead := ((toString m).length : Int) + e
  if m = 0 || lead < -400 then 0
  else if 400 < lead then 1 / 0
  else Float.ofScientific m (e < 0) e.natAbs

/-- A number without a sign: digits with at most one point among or beside them, and at most one
exponent. -/
def unsignedDecimal? (cs : List Char) : Option Float :=
  let whole := cs.takeWhile Char.isDigit
  let rest := cs.dropWhile Char.isDigit
  let (fraction, rest) := match rest with
    | '.' :: rest => (rest.takeWhile Char.isDigit, rest.dropWhile Char.isDigit)
    | rest => ([], rest)
  if whole.isEmpty && fraction.isEmpty then none
  else (exponent? rest).map fun e => scaled (digitsValue (whole ++ fraction)) (e - fraction.length)

/-- A number with an optional sign. -/
def decimal? (cs : List Char) : Option Float :=
  let (minus, rest) := splitSign cs
  (unsignedDecimal? rest).map fun x => if minus then -x else x

/-- The words for numbers that have no digits, in lower case. -/
def numberWord? (cs : List Char) : Option Float :=
  match String.ofList (cs.map Char.toLower) with
  | "inf" | "infinity" => some (1 / 0)
  | "nan" => some (0 / 0)
  | _ => none

/-- A number with an optional sign, or a word for infinity or NaN in any case. -/
def plainNumber? (s : String) : Option Float :=
  let (minus, rest) := splitSign s.toList
  (unsignedDecimal? rest <|> numberWord? rest).map fun x => if minus then -x else x

/-- A hexadecimal integer with an optional sign that 64 bits can hold. -/
def hexadecimal? (cs : List Char) : Option Int :=
  let (minus, digits) := splitSign cs
  if digits.isEmpty then none
  else match digits.foldlM (fun (n : Nat) c => (hexValue? c).map (n * 16 + ·)) 0 with
    | none => none
    | some n =>
      let i : Int := if minus then -(n : Int) else n
      if -0x8000000000000000 ≤ i && i < 0x8000000000000000 then some i else none

/-- The characters of decimal numbers. -/
def isNumberChar (c : Char) : Bool :=
  c.isDigit || c = '.' || c = 'e' || c = 'E' || c = '+' || c = '-'

/-- The number that a text converts to: blanks at the ends do not count, and what is no number is
NaN. -/
def number (s : String) : Float :=
  let nan : Float := 0 / 0
  match trimChars s.toList with
  | [] => nan
  | '0' :: 'x' :: hex | '0' :: 'X' :: hex => ((hexadecimal? hex).map Float.ofInt).getD nan
  | cs =>
    match String.ofList cs with
    | "Infinity" | "+Infinity" => 1 / 0
    | "-Infinity" => -(1 / 0)
    | _ => if cs.all isNumberChar then (decimal? cs).getD nan else nan

/-- The index that a text names: decimal digits after an optional plus, below `2 ^ 64`. -/
def index? (s : String) : Option Nat :=
  let digits := match s.toList with
    | '+' :: rest => rest
    | cs => cs
  if digits.isEmpty || !digits.all Char.isDigit then none
  else
    let n := digitsValue digits
    if n < 0x10000000000000000 then some n else none

end ActionVm.Text
