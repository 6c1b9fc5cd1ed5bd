/-
  NumericMethods/Interpolation.lean
  =================================
  **Interpolants through data points.**

  The three forms of the interpolating polynomial and the splines, as one type: each can be
  evaluated anywhere, has a text, and is judged by its largest error at the data points.
-/
import NumericMethods.Interpolation.Polynomial
import NumericMethods.Interpolation.Spline

namespace NumericMethods

variable {α : Type} [Scalar α]

/-- An interpolant of one of the methods. -/
inductive Interpolant (α : Type) where
  | vandermonde (p : VandermondeForm α)
  | newton (p : NewtonForm α)
  | lagrange (p : LagrangeForm α)
  | spline (p : Spline α)

/-- The ways to interpolate. -/
inductive InterpolationMethod where
  | vandermonde
  | dividedDifferences
  | lagrange
  | spline (kind : SplineKind)
deriving DecidableEq, Repr

namespace InterpolationMethod

/-- The ways to interpolate, in their order. -/
def all : List InterpolationMethod :=
  [.vandermonde, .dividedDifferences, .lagrange, .spline .linear, .spline .cubic]

/-- The method in the list of all methods. -/
def method : InterpolationMethod → Method
  | .vandermonde => .vandermonde
  | .dividedDifferences => .dividedDifferences
  | .lagrange => .lagrange
  | .spline kind => kind.method

/-- A method as a way to interpolate, if it is one. -/
def ofMethod? (m : Method) : Option InterpolationMethod := all.find? (·.method = m)

/-- The interpolant through given points. -/
def interpolate (m : InterpolationMethod) (xs ys : List α) :
    Except (NumericError α) (Interpolant α) :=
  match m with
  | .vandermonde => (VandermondeForm.ofPoints xs ys).map .vandermonde
  | .dividedDifferences => (NewtonForm.ofPoints xs ys).map .newton
  | .lagrange => (LagrangeForm.ofPoints xs ys).map .lagrange
  | .spline kind => (Spline.ofPoints kind xs ys).map .spline

end InterpolationMethod

namespace Interpolant

/-- The method that an interpolant comes from. -/
def method : Interpolant α → Method
  | .vandermonde _ => .vandermonde
  | .newton _ => .dividedDifferences
  | .lagrange _ => .lagrange
  | .spline p => p.kind.method

/-- The value at `x`. -/
def evaluate : Interpolant α → α → α
  | .vandermonde p => p.evaluate
  | .newton p => p.evaluate
  | .lagrange p => p.evaluate
  | .spline p => p.evaluate

/-- The text of an interpolant. -/
def text : Interpolant α → String
  | .vandermonde p => p.text
  | .newton p => p.text
  | .lagrange p => p.text
  | .spline p => p.text

/-- The largest error at the data points. -/
def maxNodeResidual (p : Interpolant α) (xs ys : List α) : α :=
  (List.zipWith (fun x y => Scalar.abs (p.evaluate x - y)) xs ys).foldl Scalar.larger 0

end Interpolant

end NumericMethods
