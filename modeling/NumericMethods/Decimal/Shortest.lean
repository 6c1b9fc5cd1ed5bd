/-
  NumericMethods/Decimal/Shortest.lean
  ====================================
  **The shortest decimal that reads back to a given binary number.**

  A positive binary floating point number `m * 2 ^ q` is what a whole interval of real
  numbers rounds to.  The decimal chosen for it lies on the coarsest grid of multiples of
  a power of ten that has a point in that interval, hence has the fewest digits; of the
  points of that grid it is the one nearest to the number, and of two equally near ones
  the larger.

  All comparisons are made in exact arithmetic on natural numbers, after both sides are
  cleared of their denominators.
-/
import NumericMethods.Decimal

namespace NumericMethods.Decimal

/-- The number `significand * 2 ^ exponent`, and whether the gap below it is half the gap
    above it, as it is at a power of two. -/
structure Dyadic where
  significand : Nat
  exponent : Int
  narrowBelow : Bool
deriving DecidableEq, Repr

namespace Dyadic

/-- The lower end of the rounding interval, in quarters of the last binary place. -/
def lowQuarters (x : Dyadic) : Nat :=
  4 * x.significand - if x.narrowBelow then 1 else 2

/-- The upper end of the rounding interval, in quarters of the last binary place. -/
def highQuarters (x : Dyadic) : Nat := 4 * x.significand + 2

/-- What a quarter of the last binary place is multiplied by, to be compared with
    multiples of `gridUnit`. -/
def quarterUnit (x : Dyadic) (k : Int) : Nat :=
  Nat.pow 2 (x.exponent - 2).toNat * Nat.pow 10 (-k).toNat

/-- What a multiple of `10 ^ k` is multiplied by, to be compared with multiples of
    `quarterUnit`. -/
def gridUnit (x : Dyadic) (k : Int) : Nat :=
  Nat.pow 10 k.toNat * Nat.pow 2 (2 - x.exponent).toNat

/-- Whether `d * 10 ^ k` rounds to the number.  The ends of the interval do if the
    significand is even. -/
def admits (x : Dyadic) (k : Int) (d : Nat) : Bool :=
  let low := x.lowQuarters * x.quarterUnit k
  let high := x.highQuarters * x.quarterUnit k
  let point := d * x.gridUnit k
  if x.significand % 2 = 0 then low ≤ point && point ≤ high
  else low < point && point < high

/-- The multiple of `10 ^ k` nearest to the number among the two that enclose it and round
    to it. -/
def onGrid? (x : Dyadic) (k : Int) : Option Decimal :=
  let value := 4 * x.significand * x.quarterUnit k
  let unit := x.gridUnit k
  let below := value / unit
  match x.admits k below, x.admits k (below + 1) with
  | true, true =>
    if value - below * unit < (below + 1) * unit - value then some ⟨below, k⟩
    else some ⟨below + 1, k⟩
  | true, false => some ⟨below, k⟩
  | false, true => some ⟨below + 1, k⟩
  | false, false => none

/-- A power of ten above the number, at most a factor of a thousand above it. -/
def topExponent (x : Dyadic) : Int :=
  (x.exponent + Nat.log2 x.significand + 1) * 30103 / 100000 + 1

/-- The grids that are tried, from coarse to fine.  The one seventeen digits below the
    leading digit always has a point in the interval. -/
def grids (x : Dyadic) : List Int :=
  (List.range 22).map fun i => x.topExponent - (i : Nat)

/-- The shortest decimal that rounds to the number, the nearest of those. -/
def shortest (x : Dyadic) : Decimal :=
  (x.grids.findSome? x.onGrid?).getD ⟨0, 0⟩

end Dyadic

end NumericMethods.Decimal
