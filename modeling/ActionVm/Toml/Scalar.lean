import ActionVm.Decimal.Reading
import ActionVm.Toml.Item
import ActionVm.Toml.Scan

/-!
# Scalars in TOML

Values that stand without quotes: booleans, numbers and moments.

* `digits?`: digits in groups;
* `integer?`, `float?`: numbers;
* `date?`, `time?`, `moment?`: dates and times of day, which have to exist;
* `scalar?`: the value of a word;
* `Scan.scalar`: a value without quotes.
-/

namespace ActionVm.Toml

/-! ## Numbers -/

/-- The digits of a text in which single underscores may stand between them. Whether a digit has
just come is `seen`. -/
def groupedDigits? (kind : Char → Bool) (seen : Bool) : List Char → Option (List Char)
  | [] => if seen then some [] else none
  | c :: rest =>
    if c = '_' then (if seen then groupedDigits? kind false rest else none)
    else if kind c then (groupedDigits? kind true rest).map (c :: ·)
    else none

/-- The digits of a text, of which there is one at least. -/
def digits? (kind : Char → Bool) (cs : List Char) : Option (List Char) :=
  groupedDigits? kind false cs

/-- The digits before the point of a decimal number: no zero stands before others. -/
def wholeDigits? (cs : List Char) : Option (List Char) :=
  if cs.head? = some '0' && cs.length ≠ 1 then none else digits? Char.isDigit cs

/-- The value of digits to a base. -/
def baseValue (base : Nat) (digits : List Char) : Nat :=
  digits.foldl (fun n c => n * base + (Text.hexValue? c).getD 0) 0

/-- The digits of a base. -/
def isDigitOf (base : Nat) (c : Char) : Bool := (Text.hexValue? c).any (· < base)

/-- The integer of a word. -/
def integer? (cs : List Char) : Option Int :=
  let based (base : Nat) (cs : List Char) : Option Int :=
    (digits? (isDigitOf base) cs).map fun ds => baseValue base ds
  match cs with
  | '0' :: 'x' :: rest => based 16 rest
  | '0' :: 'o' :: rest => based 8 rest
  | '0' :: 'b' :: rest => based 2 rest
  | cs =>
    let (minus, rest) := Text.splitSign cs
    (wholeDigits? rest).map fun ds =>
      if minus then -(Text.digitsValue ds : Int) else Text.digitsValue ds

/-- The signed digits of an exponent, after its letter. -/
def exponentDigits? (cs : List Char) : Option (List Char) :=
  match cs with
  | '-' :: rest => (digits? Char.isDigit rest).map ('-' :: ·)
  | '+' :: rest => digits? Char.isDigit rest
  | rest => digits? Char.isDigit rest

/-- The float of a word without a sign. -/
def unsignedFloat? (cs : List Char) : Option Float :=
  match String.ofList cs with
  | "inf" => some (1 / 0)
  | "nan" => some (0 / 0)
  | _ => do
    let isExponent (c : Char) := c = 'e' || c = 'E'
    let mantissa := cs.takeWhile (!isExponent ·)
    let exponent ← match cs.dropWhile (!isExponent ·) with
      | [] => some []
      | _ :: rest => (exponentDigits? rest).map ('e' :: ·)
    let whole ← wholeDigits? (mantissa.takeWhile (· ≠ '.'))
    let fraction ← match mantissa.dropWhile (· ≠ '.') with
      | [] => some []
      | _ :: rest => (digits? Char.isDigit rest).map ('.' :: ·)
    Text.unsignedDecimal? (whole ++ fraction ++ exponent)

/-- The float of a word. -/
def float? (cs : List Char) : Option Float :=
  let (minus, rest) := Text.splitSign cs
  (unsignedFloat? rest).map fun x => if minus then -x else x

/-! ## Moments -/

/-- A number of two digits at the front. -/
def twoDigits? : List Char → Option (Nat × List Char)
  | a :: b :: rest => if a.isDigit && b.isDigit then some (Text.digitsValue [a, b], rest) else none
  | _ => none

/-- The days of a month. -/
def daysIn (year month : Nat) : Nat :=
  if month = 2 then
    if year % 4 = 0 && (year % 100 ≠ 0 || year % 400 = 0) then 29 else 28
  else if month = 4 || month = 6 || month = 9 || month = 11 then 30
  else 31

/-- What follows a date. -/
def date? (cs : List Char) : Option (List Char) := do
  let (century, rest) ← twoDigits? cs
  let (year, rest) ← twoDigits? rest
  let '-' :: rest := rest | none
  let (month, rest) ← twoDigits? rest
  let '-' :: rest := rest | none
  let (day, rest) ← twoDigits? rest
  if 1 ≤ month && month ≤ 12 && 1 ≤ day && day ≤ daysIn (century * 100 + year) month then rest
  else none

/-- What follows hours and minutes. -/
def minutes? (cs : List Char) : Option (List Char) := do
  let (hour, rest) ← twoDigits? cs
  let ':' :: rest := rest | none
  let (minute, rest) ← twoDigits? rest
  if hour < 24 && minute < 60 then rest else none

/-- What follows a time of day. Its seconds may be left out, and one may be a leap second. -/
def time? (cs : List Char) : Option (List Char) := do
  match ← minutes? cs with
  | ':' :: rest =>
    let (second, rest) ← twoDigits? rest
    if 60 < second then none
    else match rest with
      | '.' :: rest => if rest.head?.any Char.isDigit then rest.dropWhile Char.isDigit else none
      | rest => rest
  | rest => rest

/-- The text is empty or the distance of a time of day from the universal one. -/
def isOffset : List Char → Bool
  | [] | ['Z'] | ['z'] => true
  | c :: rest => (c = '+' || c = '-') && minutes? rest = some []

/-- The moment of a word: a date, a time of day, or both with an offset or without. -/
def moment? (cs : List Char) : Option String :=
  let known := match date? cs with
    | some [] => true
    | some (c :: rest) => (c = 'T' || c = 't' || c = ' ') && (time? rest).any isOffset
    | none => time? cs = some []
  if known then some (.ofList cs) else none

/-! ## Words -/

/-- The value of a word. An integer fits into 128 bits, with a sign or without, and a float that is
written with digits into the finite ones. -/
def scalar? (cs : List Char) : Option Item :=
  match String.ofList cs with
  | "true" => some (.boolean true)
  | "false" => some (.boolean false)
  | _ =>
    match integer? cs with
    | some n => some (if -Int.pow 2 127 ≤ n && n < Int.pow 2 128 then .integer n else .misfit true)
    | none =>
      match float? cs with
      | some x => some (if x.isInf && cs.any Char.isDigit then .misfit false else .float x)
      | none => (moment? cs).map .moment

/-- The characters of words. -/
def isWordChar (c : Char) : Bool :=
  c.isAlphanum || c = '+' || c = '-' || c = '_' || c = '.' || c = ':'

/-- A value without quotes. One blank may stand between a date and a time of day. -/
def Scan.scalar : Scan Item := do
  let word ← Scan.run isWordChar
  let word ← match ← get with
    | ' ' :: c :: _ =>
      if date? word = some [] && c.isDigit then do
        let _ ← Scan.skip? [' ']
        pure (word ++ ' ' :: (← Scan.run isWordChar))
      else pure word
    | _ => pure word
  StateT.lift (scalar? word)

end ActionVm.Toml
