import ActionVm.Decimal.Binary

/-!
# Shortest decimals

The decimal with the fewest digits that reads back as a given binary number, and of those the
nearest one.

* `Decimal`: a number `coefficient · 10 ^ exponent`;
* `Tie`: what is taken when two decimals are equally near;
* `Span`: a binary number between the ends of the reals that round to it;
* **`shortest`**: the first decimal grid, coarsest first, that meets the span.
-/

namespace ActionVm

/-- The number `coefficient · 10 ^ exponent`. -/
structure Decimal where
  coefficient : Nat
  exponent : Int
  deriving DecidableEq, Repr

/-- What is taken when two decimals are equally near. -/
inductive Tie where
  | larger
  | even
  deriving DecidableEq, Repr

/-- A number `value / unit` and the numbers that round to it, from `low / unit` to `high / unit`,
with the ends if `closed`. -/
structure Span where
  low : Nat
  value : Nat
  high : Nat
  unit : Nat
  closed : Bool

namespace Span

/-- The span of a positive number of the format `f`. The number below a power of two is at half
the distance, unless it is one of the smallest. -/
def ofBinary (f : Format) (b : Binary) : Span :=
  let up := 1 <<< (b.exponent - 2).toNat
  let unit := 1 <<< (2 - b.exponent).toNat
  let below := if b.mantissa = 1 <<< f.fractionBits && b.exponent != f.leastExponent then 1 else 2
  ⟨(4 * b.mantissa - below) * up, 4 * b.mantissa * up, (4 * b.mantissa + 2) * up, unit,
    b.mantissa % 2 == 0⟩

/-- The number `c · 10 ^ k` rounds to the number of the span. -/
def holds (s : Span) (c : Nat) (k : Int) : Bool :=
  let x := c * Nat.pow 10 k.toNat * s.unit
  let scale := Nat.pow 10 (-k).toNat
  if s.closed then s.low * scale ≤ x && x ≤ s.high * scale
  else s.low * scale < x && x < s.high * scale

/-- The number of the span is at least `10 ^ k`. -/
def reaches (s : Span) (k : Int) : Bool :=
  Nat.pow 10 k.toNat * s.unit ≤ s.value * Nat.pow 10 (-k).toNat

/-- The number of digits before the point, negative for zeros after it: the number lies from
`10 ^ (p - 1)` to below `10 ^ p`. The logarithm to base two tells it up to one. -/
def magnitude (s : Span) : Int :=
  let guess := ((s.value.log2 : Int) - s.unit.log2) * 30103 / 100000 + 1
  if s.reaches guess then guess + 1
  else if s.reaches (guess - 1) then guess
  else guess - 1

/-- The decimal nearest to the number among the multiples of `10 ^ k` that round to it. -/
def nearest? (s : Span) (tie : Tie) (k : Int) : Option Nat :=
  let grid := Nat.pow 10 k.toNat * s.unit
  let value := s.value * Nat.pow 10 (-k).toNat
  let c := value / grid
  match s.holds c k, s.holds (c + 1) k with
  | false, false => none
  | true, false => some c
  | false, true => some (c + 1)
  | true, true =>
    let twice := 2 * (value % grid)
    if twice < grid then some c
    else if grid < twice then some (c + 1)
    else match tie with
      | .larger => some (c + 1)
      | .even => some (if c % 2 = 0 then c else c + 1)

end Span

/-- The decimal without trailing zeros in its coefficient. -/
def Decimal.stripped (d : Decimal) : Decimal :=
  if h : d.coefficient ≠ 0 ∧ d.coefficient % 10 = 0 then
    Decimal.stripped ⟨d.coefficient / 10, d.exponent + 1⟩
  else d
termination_by d.coefficient
decreasing_by exact Nat.div_lt_self (Nat.pos_of_ne_zero h.1) (by decide)

/-- The decimal with the fewest digits that reads back as the positive number `b` of the format
`f`. Seventeen digits always do. -/
def shortest (f : Format) (tie : Tie) (b : Binary) : Decimal :=
  let span := Span.ofBinary f b
  let magnitude := span.magnitude
  let grids := (List.range 17).map fun (i : Nat) => magnitude - (i + 1 : Nat)
  match grids.findSome? fun k => (span.nearest? tie k).map fun c => Decimal.mk c k with
  | some d => d.stripped
  | none => ⟨span.value / span.unit, 0⟩

end ActionVm
