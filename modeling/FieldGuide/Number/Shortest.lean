import FieldGuide.Number.Decimal

/-!
# Shortest decimals

This module chooses the decimal a positive double is printed as: of all decimals
that round to it, one with the fewest digits, and of those the nearest.
-/

namespace FieldGuide.Shortest

/-- The reals that round to one double, with the double itself between them, all
over one denominator. The ends belong to the interval when `closed` is set. -/
structure Interval where
  lower : Nat
  value : Nat
  upper : Nat
  denominator : Nat
  closed : Bool
  deriving Repr

/-- The reals that round to a size. The distance to the next smaller double is
half of that to the next larger one at the bottom of a binade. Rounding to the
even significand closes the interval of an even one. -/
def Interval.ofSize (size : Size) : Interval :=
  let below := if size.significand = twoTo 52 ∧ size.shift ≠ 0 then 1 else 2
  { lower := (4 * size.significand - below) * twoTo size.shift
    value := 4 * size.significand * twoTo size.shift
    upper := (4 * size.significand + 2) * twoTo size.shift
    denominator := 4 * twoTo 1074
    closed := size.significand % 2 = 0 }

namespace Interval

/-- Scales an interval so that the grid of multiples of `10 ^ exponent` becomes
the grid of whole numbers. -/
def onGrid (interval : Interval) (exponent : Int) : Interval :=
  let up := tenTo (-exponent).toNat
  { lower := interval.lower * up
    value := interval.value * up
    upper := interval.upper * up
    denominator := interval.denominator * tenTo exponent.toNat
    closed := interval.closed }

/-- Whether a whole number lies in the interval. -/
def contains (interval : Interval) (candidate : Nat) : Bool :=
  let point := candidate * interval.denominator
  if interval.closed then interval.lower ≤ point && point ≤ interval.upper
  else interval.lower < point && point < interval.upper

/-- The whole number of the interval nearest to its value, if it has one. Only
the two neighbours of the value can be nearest; a tie goes to the even one. -/
def nearest? (interval : Interval) : Option Nat :=
  let below := interval.value / interval.denominator
  match interval.contains below, interval.contains (below + 1) with
  | false, false => none
  | true, false => some below
  | false, true => some (below + 1)
  | true, true => some (roundHalfEven interval.value interval.denominator)

end Interval

/-- The decimal exponents that a printed double can end at, coarsest first. -/
def gridExponents : List Int :=
  (List.range 640).map fun (step : Nat) => 310 - (step : Int)

/-- The shortest decimal of a size, as a coefficient and an exponent of ten. The
first grid with a point in the interval is the coarsest one, which leaves the
fewest digits. -/
def decimal (size : Size) : Nat × Int :=
  if size.significand = 0 then (0, 0)
  else
    let interval := Interval.ofSize size
    let found := gridExponents.findSome? fun exponent =>
      (interval.onGrid exponent).nearest?.map fun coefficient => (coefficient, exponent)
    found.getD (0, 0)

end FieldGuide.Shortest
