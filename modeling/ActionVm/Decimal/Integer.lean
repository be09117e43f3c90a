import ActionVm.Decimal.Binary

/-!
# Integer conversions

* `truncate`: the integer part of a number, as a number;
* `toCount`: the integer part of a number, between zero and the largest 64-bit count;
* `remainder`: what is left of a division whose quotient is cut off;
* `toInt32`: the integer part of a number, modulo `2 ^ 32`.
-/

namespace ActionVm

/-- The integer part of a number, with its sign. -/
def truncate (x : Float) : Float :=
  match Reading.ofFloat x with
  | .finite b =>
    if b.isWhole then x else Binary.toFloat ⟨b.negative, b.wholePart, 0⟩
  | _ => x

/-- The largest count of 64 bits. -/
def topCount : Nat := 0xFFFFFFFFFFFFFFFF

/-- The integer part of a number as a count of 64 bits. Negative numbers and NaN give zero, and
larger numbers the largest count. -/
def toCount (x : Float) : Nat :=
  match Reading.ofFloat x with
  | .finite b => if b.negative then 0 else min b.wholePart topCount
  | .infinite false => topCount
  | _ => 0

/-- What is left of `x` after the largest multiple of `y` towards zero, exactly. It has the sign of
`x`. -/
def remainder (x y : Float) : Float :=
  match Reading.ofFloat x, Reading.ofFloat y with
  | .finite a, .finite b =>
    if b.mantissa = 0 then 0 / 0
    else
      let e := min a.exponent b.exponent
      let m := a.mantissa <<< (a.exponent - e).toNat
      let n := b.mantissa <<< (b.exponent - e).toNat
      Binary.toFloat ⟨a.negative, m % n, e⟩
  | .finite _, .infinite _ => x
  | _, _ => 0 / 0

/-- The integer part of a number, modulo `2 ^ 32` and between `-2 ^ 31` and `2 ^ 31 - 1`. NaN and
the infinities give zero. A remainder below zero is moved up before it is cut to 32 bits. -/
def toInt32 (x : Float) : Int32 :=
  if x.isFinite then
    let r := remainder (truncate x) 4294967296
    (if r < 0 then r + 4294967296 else r).toUInt32.toInt32
  else 0

end ActionVm
