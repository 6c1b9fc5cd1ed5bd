/-
  NumericMethods/Method.lean
  ==========================
  **The methods and their families.**

  Methods are compared with each other only within a family.  Their order is the order of
  declaration; it decides between runs that are otherwise equally good.
-/

namespace NumericMethods

/-- What a method computes. -/
inductive Family where
  | rootFinding
  | interpolation
  | linearSystem
deriving DecidableEq, Repr

/-- The methods, in their order. -/
inductive Method where
  | bisection
  | falsePosition
  | fixedPoint
  | newton
  | multipleRoots
  | secant
  | vandermonde
  | dividedDifferences
  | lagrange
  | linearSpline
  | cubicSpline
  | jacobi
  | gaussSeidel
  | sor
deriving DecidableEq, Repr

namespace Method

/-- All methods, in their order. -/
def all : List Method :=
  [bisection, falsePosition, fixedPoint, newton, multipleRoots, secant, vandermonde,
    dividedDifferences, lagrange, linearSpline, cubicSpline, jacobi, gaussSeidel, sor]

/-- The family a method belongs to. -/
def family : Method → Family
  | bisection | falsePosition | fixedPoint | newton | multipleRoots | secant => .rootFinding
  | vandermonde | dividedDifferences | lagrange | linearSpline | cubicSpline =>
    .interpolation
  | jacobi | gaussSeidel | sor => .linearSystem

/-- The name a method is shown under. -/
def name : Method → String
  | bisection => "Bisection"
  | falsePosition => "False position"
  | fixedPoint => "Fixed point"
  | newton => "Newton"
  | multipleRoots => "Multiple roots"
  | secant => "Secant"
  | vandermonde => "Vandermonde"
  | dividedDifferences => "Newton divided differences"
  | lagrange => "Lagrange"
  | linearSpline => "Linear spline"
  | cubicSpline => "Cubic spline"
  | jacobi => "Jacobi"
  | gaussSeidel => "Gauss-Seidel"
  | sor => "SOR"

/-- The place of a method in the order. -/
def rank : Method → Nat
  | bisection => 0
  | falsePosition => 1
  | fixedPoint => 2
  | newton => 3
  | multipleRoots => 4
  | secant => 5
  | vandermonde => 6
  | dividedDifferences => 7
  | lagrange => 8
  | linearSpline => 9
  | cubicSpline => 10
  | jacobi => 11
  | gaussSeidel => 12
  | sor => 13

/-- The method shown under a name. -/
def ofName? (name : String) : Option Method := all.find? (·.name = name)

end Method

end NumericMethods
