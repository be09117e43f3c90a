/-!
# Hexadecimal

* `hexDigits`, `paddedHex`: numbers in lower-case hexadecimal;
* `hexValue?`: the value of a digit;
* `hexOfBytes`, `bytesOfHex`: bytes as pairs of digits.
-/

namespace ActionVm.Text

/-- A number in lower-case hexadecimal, without leading zeros. -/
def hexDigits (n : Nat) : String := String.ofList (Nat.toDigits 16 n)

/-- A number in lower-case hexadecimal with at least `width` digits. -/
def paddedHex (width n : Nat) : String :=
  let digits := Nat.toDigits 16 n
  String.ofList (List.replicate (width - digits.length) '0' ++ digits)

/-- The value of a hexadecimal digit. -/
def hexValue? (c : Char) : Option Nat :=
  if '0' ≤ c && c ≤ '9' then some (c.toNat - '0'.toNat)
  else if 'a' ≤ c && c ≤ 'f' then some (c.toNat - 'a'.toNat + 10)
  else if 'A' ≤ c && c ≤ 'F' then some (c.toNat - 'A'.toNat + 10)
  else none

/-- Bytes as pairs of lower-case digits. -/
def hexOfBytes (bytes : List UInt8) : String :=
  String.ofList (bytes.flatMap fun b => (paddedHex 2 b.toNat).toList)

/-- The bytes `done`, latest first, and those of pairs of digits, up to where there are none. -/
def bytesAfter (done : List UInt8) : List Char → List UInt8
  | a :: b :: rest =>
    match hexValue? a, hexValue? b with
    | some x, some y => bytesAfter (UInt8.ofNat (x * 16 + y) :: done) rest
    | _, _ => done.reverse
  | _ => done.reverse

/-- The bytes of pairs of digits. -/
def bytesOfHex (s : String) : List UInt8 := bytesAfter [] s.toList

end ActionVm.Text
