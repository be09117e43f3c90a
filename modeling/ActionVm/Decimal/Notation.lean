import ActionVm.Decimal.Shortest

/-!
# Number notation

How a number is written once its digits are known.

* `Layout`: the choices that a kind of text makes;
* `Decimal.write`: a decimal under a layout;
* `Reading.write`: any number under a layout;
* `numberText`: the text that scripts see;
* `singleListing`, `doubleListing`: the text in listings.
-/

namespace ActionVm

/-- How numbers are written: positional from `10 ^ first` to below `10 ^ (last + 1)`, and with an
exponent elsewhere. -/
structure Layout where
  /-- The exponents of the leading digit that are written positionally, or `none` for all. -/
  positional : Option (Int × Int)
  /-- Whole numbers keep a point and a zero. -/
  keepsPoint : Bool
  /-- Exponents that are not negative have a sign. -/
  plusSign : Bool
  /-- Negative zero has a sign. -/
  zeroSign : Bool
  /-- What stands for an infinite number, before its sign. -/
  infinity : String
  /-- What is taken when two decimals are equally near. -/
  tie : Tie

namespace Decimal

/-- A row of `n` zeros. -/
def zeros (n : Nat) : String := String.ofList (List.replicate n '0')

/-- A positive decimal without an exponent. -/
def writePositional (keepsPoint : Bool) (digits : String) (exponent : Int) : String :=
  let tail := if keepsPoint then ".0" else ""
  let before := (digits.length : Int) + exponent
  if 0 ≤ exponent then digits ++ zeros exponent.toNat ++ tail
  else if 0 < before then
    String.ofList (digits.toList.take before.toNat) ++ "." ++
      String.ofList (digits.toList.drop before.toNat)
  else "0." ++ zeros (-before).toNat ++ digits

/-- A positive decimal with an exponent. -/
def writeScientific (plusSign : Bool) (digits : String) (lead : Int) : String :=
  let mantissa := match digits.toList with
    | [] => ""
    | [d] => d.toString
    | d :: rest => d.toString ++ "." ++ String.ofList rest
  let sign := if lead < 0 then "-" else if plusSign then "+" else ""
  mantissa ++ "e" ++ sign ++ toString lead.natAbs

/-- A positive decimal under a layout. -/
def write (layout : Layout) (d : Decimal) : String :=
  let digits := toString d.coefficient
  let lead := (digits.length : Int) + d.exponent - 1
  let plain := match layout.positional with
    | none => true
    | some (first, last) => first ≤ lead && lead ≤ last
  if plain then writePositional layout.keepsPoint digits d.exponent
  else writeScientific layout.plusSign digits lead

end Decimal

/-- A number of the format `f` under a layout. -/
def Reading.write (f : Format) (layout : Layout) : Reading → String
  | .nan => "NaN"
  | .infinite negative => (if negative then "-" else "") ++ layout.infinity
  | .finite b =>
    if b.mantissa = 0 then
      (if b.negative && layout.zeroSign then "-" else "") ++
        (if layout.keepsPoint then "0.0" else "0")
    else (if b.negative then "-" else "") ++ (shortest f layout.tie b).write layout

/-- Numbers as scripts see them: always positional, whole numbers without a point, and zero without
a sign. -/
def Layout.script : Layout := ⟨none, false, false, false, "Infinity", .larger⟩

/-- Numbers in listings: positional from `10 ^ -4` to below `10 ^ 16`, always with a point or an
exponent. -/
def Layout.listing : Layout := ⟨some (-4, 15), true, false, true, "inf", .larger⟩

/-- The text of a number that scripts see. -/
def numberText (x : Float) : String := (Reading.ofFloat x).write .double .script

/-- The text of the 32-bit pattern `bits` in listings. -/
def singleListing (bits : UInt32) : String :=
  (Format.single.decode bits.toNat).write .single .listing

/-- The text of the 64-bit pattern `bits` in listings. -/
def doubleListing (bits : UInt64) : String :=
  (Format.double.decode bits.toNat).write .double .listing

end ActionVm
