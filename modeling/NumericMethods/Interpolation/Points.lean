/-
  NumericMethods/Interpolation/Points.lean
  ========================================
  **Data points: when they are admitted, and their order.**

  Points are admitted if there are as many ordinates as abscissae, if there are enough of
  them, and if no two abscissae are equal, and they are tested in this order.  Equal
  abscissae are looked for next to each other after sorting.
-/
import NumericMethods.NumericError

namespace NumericMethods.Points

variable {α : Type} [Scalar α]

/-- Whether two neighbours in a list are equal. -/
def hasEqualNeighbours : List α → Bool
  | x :: y :: rest => x == y || hasEqualNeighbours (y :: rest)
  | _ => false

/-- Numbers in the total order. -/
def sorted (xs : List α) : List α := xs.mergeSort Scalar.totalLe

/-- Checks points of which there must be at least `least`. -/
def check (xs ys : List α) (least : Nat) : Except (NumericError α) Unit :=
  if xs.length ≠ ys.length then .error (.linear (.pointCount xs.length ys.length))
  else if xs.length < least then .error (.invalid (.tooFewPoints least))
  else if hasEqualNeighbours (sorted xs) then .error (.invalid .duplicateAbscissae)
  else .ok ()

/-- The points in the order of their abscissae. -/
def byAbscissa (xs ys : List α) : List (α × α) :=
  (xs.zip ys).mergeSort fun p q => Scalar.totalLe p.1 q.1

end NumericMethods.Points
