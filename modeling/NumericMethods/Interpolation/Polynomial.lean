/-
  NumericMethods/Interpolation/Polynomial.lean
  ============================================
  **The interpolating polynomial in three forms.**

  Through points with different abscissae passes one polynomial of least degree.  It is
  found as the solution of the system of Vandermonde, in the nested form of Newton with
  divided differences as coefficients, and as a combination of the basis polynomials of
  Lagrange.  None of them asks for sorted points.
-/
import NumericMethods.DenseMatrix.Factorization
import NumericMethods.Interpolation.Notation
import NumericMethods.Interpolation.Points

namespace NumericMethods

variable {α : Type} [Scalar α]

/-- The value of a polynomial with ascending coefficients. -/
def horner (ascending : List α) (x : α) : α :=
  ascending.foldr (fun c value => value * x + c) 0

/-! ### The system of Vandermonde -/

/-- The system of a polynomial in powers of `x`, and its solution. -/
structure VandermondeForm (α : Type) where
  matrix : List (List α)
  values : List α
  coefficients : List α

namespace VandermondeForm

/-- The powers of the abscissae; row `i` holds those of abscissa `i`. -/
def powers {n : Nat} (xs : Vector α n) : DenseMatrix α n n :=
  DenseMatrix.ofFn fun i j => Scalar.natPow (xs.get i) j

/-- The interpolating polynomial by its system of equations. -/
def ofPoints (xs ys : List α) : Except (NumericError α) (VandermondeForm α) := do
  Points.check xs ys 1
  let M := powers ⟨xs.toArray, rfl⟩
  match DenseMatrix.vectorOfLength? xs.toArray.size ys with
  | none => throw (.linear (.rightHandSide ys.length xs.length))
  | some b =>
    let a ← (M.solve b).mapError (NumericError.ofSystem .vandermonde)
    return ⟨M.toRows, ys, a.toList⟩

/-- The value of the polynomial. -/
def evaluate (p : VandermondeForm α) (x : α) : α := horner p.coefficients x

/-- The text of the polynomial. -/
def text (p : VandermondeForm α) : String := Written.descendingPolynomial p.coefficients

end VandermondeForm

/-! ### Divided differences -/

/-- The nested form: the table of divided differences, its diagonal, and the nodes. -/
structure NewtonForm (α : Type) where
  table : List (List α)
  coefficients : List α
  nodes : List α

namespace NewtonForm

/-- The divided differences of order `order`, from those of the order below. -/
def nextColumn (nodes : List α) (order : Nat) (column : List α) : List α :=
  List.zipWith (· / ·) (List.zipWith (· - ·) column.tail column)
    (List.zipWith (· - ·) (nodes.drop order) nodes)

/-- The columns of the table from a given one on, `count` of them. -/
def columnsFrom (nodes : List α) : (count order : Nat) → (column : List α) → List (List α)
  | 0, _, _ => []
  | count + 1, order, column =>
    column :: columnsFrom nodes count (order + 1) (nextColumn nodes (order + 1) column)

/-- The columns of the table; column `j` holds the differences of order `j`. -/
def columns (nodes values : List α) : List (List α) :=
  columnsFrom nodes nodes.length 0 values

/-- Row `i` of the table: the differences that end at node `i`, and zeros. -/
def tableRow (columns : List (List α)) (i : Nat) : List α :=
  columns.mapIdx fun j column => if j ≤ i then column.getD (i - j) 0 else 0

/-- The interpolating polynomial by divided differences. -/
def ofPoints (xs ys : List α) : Except (NumericError α) (NewtonForm α) := do
  Points.check xs ys 1
  let columns := columns xs ys
  return ⟨(List.range xs.length).map (tableRow columns), columns.map fun c => c.headD 0, xs⟩

/-- The names of the columns of the table. -/
def columnNames (p : NewtonForm α) : List String :=
  (List.range p.nodes.length).map fun j => if j = 0 then "f[0]" else Written.ordinal j

/-- The value of a nested form. -/
def nested : (coefficients nodes : List α) → (x : α) → α
  | [], _, _ => 0
  | [c], _, _ => c
  | c :: cs, [], x => nested cs [] x + c
  | c :: cs, node :: nodes, x => nested cs nodes x * (x - node) + c

/-- The value of the polynomial. -/
def evaluate (p : NewtonForm α) (x : α) : α := nested p.coefficients p.nodes x

/-- The text of the terms after the first one; `factors` is the product of the linear
    factors of the term before. -/
def termTexts (factors : String) : (coefficients nodes : List α) → String
  | c :: cs, node :: nodes =>
    let factors := factors ++ Written.linearFactor node
    Written.sign c ++ "(" ++ Written.magnitude c ++ ")" ++ factors ++
      termTexts factors cs nodes
  | _, _ => ""

/-- The text of the polynomial. -/
def text (p : NewtonForm α) : String :=
  match p.coefficients with
  | [] => ""
  | c :: cs => Written.number c ++ termTexts "" cs p.nodes

end NewtonForm

/-! ### The basis of Lagrange -/

/-- The combination of basis polynomials: their texts in two notations, and the ascending
    coefficients of the sum. -/
structure LagrangeForm (α : Type) where
  basis : List String
  texBasis : List String
  coefficients : List α
  nodes : List α
  values : List α

namespace LagrangeForm

/-- The difference of two coefficient lists, where the second may be shorter. -/
def minus : List α → List α → List α
  | a :: as, b :: bs => (a - b) :: minus as bs
  | as, [] => as
  | [], _ => []

/-- The product of a polynomial with ascending coefficients and `x - node`. -/
def timesLinear (p : List α) (node : α) : List α :=
  minus (0 :: p.map (0 + ·)) (p.map (· * node))

/-- The nodes other than the one at index `k`. -/
def others (nodes : List α) (k : Nat) : List α := nodes.eraseIdx k

/-- The denominator of basis polynomial `k`, whose node is `x`. -/
def denominator (x : α) (others : List α) : α :=
  others.foldl (fun product node => product * (x - node)) 1

/-- The ascending coefficients of the numerator of a basis polynomial. -/
def numerator (others : List α) : List α := others.foldl timesLinear [1]

/-- The text of the numerator of a basis polynomial. -/
def numeratorText (others : List α) : String := String.join (others.map Written.linearFactor)

/-- The text of a basis polynomial. -/
def basisText (x : α) (others : List α) : String :=
  if others.isEmpty then "1"
  else "(" ++ numeratorText others ++ ")/(" ++ Written.number (denominator x others) ++ ")"

/-- The text of a basis polynomial in TeX notation. -/
def texText (x : α) (others : List α) : String :=
  if others.isEmpty then "1"
  else "\\frac\x7b" ++ numeratorText others ++ "\x7d\x7b" ++
    Written.number (denominator x others) ++ "\x7d"

/-- Adds `value` times a basis polynomial to a sum of polynomials. -/
def addTerm (sum : List α) (x value : α) (others : List α) : List α :=
  let d := denominator x others
  List.zipWith (fun c t => c + t * value / d) sum (numerator others)

/-- Each node with its value and the other nodes. -/
def terms (nodes values : List α) : List (α × α × List α) :=
  (nodes.zip values).mapIdx fun k (x, value) => (x, value, others nodes k)

/-- The interpolating polynomial by basis polynomials. -/
def ofPoints (xs ys : List α) : Except (NumericError α) (LagrangeForm α) := do
  Points.check xs ys 1
  let terms := terms xs ys
  return {
    basis := terms.map fun (x, _, others) => basisText x others
    texBasis := terms.map fun (x, _, others) => texText x others
    coefficients := terms.foldl (fun sum (x, value, others) => addTerm sum x value others)
      (List.replicate xs.length 0)
    nodes := xs
    values := ys }

/-- The value of `value` times the basis polynomial of the node `node`, at `x`. -/
def termAt (x node value : α) (others : List α) : α :=
  others.foldl (fun term other => term * ((x - other) / (node - other))) value

/-- The value of the polynomial. -/
def evaluate (p : LagrangeForm α) (x : α) : α :=
  (terms p.nodes p.values).foldl
    (fun sum (node, value, others) => sum + termAt x node value others) 0

/-- The text of the polynomial. -/
def text (p : LagrangeForm α) : String :=
  String.intercalate " + "
    (List.zipWith (fun l y => l ++ "*" ++ Written.factor y) p.basis p.values)

/-- The text of the polynomial in TeX notation. -/
def texPolynomial (p : LagrangeForm α) : String :=
  String.intercalate " + "
    (List.zipWith (fun l y => l ++ " \\cdot " ++ Written.factor y) p.texBasis p.values)

end LagrangeForm

end NumericMethods
