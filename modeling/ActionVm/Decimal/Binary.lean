/-!
# Binary numbers

What a floating-point bit pattern denotes, as exact integers.

* `Format`, `single`, `double`: the widths of the fields of a bit pattern;
* `Binary`: a signed number `mantissa · 2 ^ exponent`;
* `Reading`, `decode`: the number of a bit pattern, or why it has none;
* `Binary.truncated`: the integer part;
* `Binary.toFloat`: the double of a number that has one.
-/

namespace ActionVm

/-- The widths of the fraction and of the exponent in a bit pattern. -/
structure Format where
  fractionBits : Nat
  exponentBits : Nat

namespace Format

/-- The 32-bit format. -/
def single : Format := ⟨23, 8⟩

/-- The 64-bit format. -/
def double : Format := ⟨52, 11⟩

/-- The largest value of the exponent field, kept for infinities and NaN. -/
def topField (f : Format) : Nat := 1 <<< f.exponentBits - 1

/-- The exponent of the last bit of the smallest numbers. -/
def leastExponent (f : Format) : Int :=
  2 - (1 <<< (f.exponentBits - 1) : Nat) - (f.fractionBits : Nat)

end Format

/-- The number `mantissa · 2 ^ exponent`, with a sign that zero has too. -/
structure Binary where
  negative : Bool
  mantissa : Nat
  exponent : Int
  deriving DecidableEq, Repr

/-- What a bit pattern denotes. -/
inductive Reading where
  | nan
  | infinite (negative : Bool)
  | finite (value : Binary)
  deriving DecidableEq, Repr

/-- What the bit pattern `bits` denotes in the format `f`. -/
def Format.decode (f : Format) (bits : Nat) : Reading :=
  let fraction := bits % 1 <<< f.fractionBits
  let field := bits >>> f.fractionBits % 1 <<< f.exponentBits
  let negative := bits >>> (f.fractionBits + f.exponentBits) % 2 == 1
  if field = f.topField then
    if fraction = 0 then .infinite negative else .nan
  else if field = 0 then .finite ⟨negative, fraction, f.leastExponent⟩
  else .finite ⟨negative, 1 <<< f.fractionBits + fraction, f.leastExponent + field - 1⟩

/-- What a double denotes. -/
def Reading.ofFloat (x : Float) : Reading := Format.double.decode x.toBits.toNat

namespace Binary

/-- The number cut off after the point, without its sign. -/
def wholePart (b : Binary) : Nat :=
  match b.exponent with
  | .ofNat k => b.mantissa <<< k
  | .negSucc k => b.mantissa >>> (k + 1)

/-- The number cut off after the point. -/
def truncated (b : Binary) : Int := if b.negative then -(b.wholePart : Int) else b.wholePart

/-- The number is an integer. -/
def isWhole (b : Binary) : Bool :=
  match b.exponent with
  | .ofNat _ => true
  | .negSucc k => b.mantissa % 1 <<< (k + 1) == 0

/-- The bit pattern of a number that the format `f` has. -/
def bits (f : Format) (b : Binary) : Nat :=
  let sign := if b.negative then 1 <<< (f.fractionBits + f.exponentBits) else 0
  if b.mantissa = 0 then sign
  else
    let exponent := max (b.exponent + b.mantissa.log2 - f.fractionBits) f.leastExponent
    let shift := b.exponent - exponent
    let mantissa := b.mantissa <<< shift.toNat >>> (-shift).toNat
    if mantissa < 1 <<< f.fractionBits then sign + mantissa
    else sign + (exponent - f.leastExponent).toNat <<< f.fractionBits + mantissa

/-- The double of a number that has one. -/
def toFloat (b : Binary) : Float := Float.ofBits (UInt64.ofNat (b.bits .double))

end Binary

namespace Reading

/-- The double that a reading in a narrower format denotes. -/
def toFloat : Reading → Float
  | .nan => Float.ofBits 0x7FF8000000000000
  | .infinite false => Float.ofBits 0x7FF0000000000000
  | .infinite true => Float.ofBits 0xFFF0000000000000
  | .finite b => b.toFloat

end Reading

end ActionVm
