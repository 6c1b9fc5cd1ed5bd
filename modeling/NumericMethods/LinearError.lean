/-
  NumericMethods/LinearError.lean
  ===============================
  **What can be wrong with a matrix, a vector or a linear system.**
-/
import NumericMethods.Scalar

namespace NumericMethods

/-- The failures of linear algebra: shapes that do not fit, and a matrix without a usable
    pivot in some column. -/
inductive LinearError (α : Type) where
  | noRows
  | noColumns
  | raggedRow (index length expected : Nat)
  | notSquare (rows columns : Nat)
  | notFactorable (rows columns : Nat)
  | rightHandSide (length expected : Nat)
  | vectorProduct (rows columns length : Nat)
  | matrixProduct (rows columns rows' columns' : Nat)
  | pointCount (abscissae ordinates : Nat)
  | singular (column : Nat) (pivot : α)
deriving DecidableEq, Repr

namespace LinearError

variable {α : Type}

/-- The shape `rows x columns` as text. -/
def shapeText (rows columns : Nat) : String := toString rows ++ "x" ++ toString columns

/-- The wording of a shape that does not fit. -/
def mismatch (reason : String) : String := "dimension mismatch: " ++ reason

def message [Scalar α] : LinearError α → String
  | .noRows => mismatch "matrix has no rows"
  | .noColumns => mismatch "matrix has no columns"
  | .raggedRow i len n =>
    mismatch ("row " ++ toString i ++ " has " ++ toString len ++ " entries, expected " ++
      toString n)
  | .notSquare m n =>
    mismatch ("matrix is " ++ shapeText m n ++ ", expected a square matrix")
  | .notFactorable m n =>
    mismatch ("LU needs a non-empty square matrix, got " ++ shapeText m n)
  | .rightHandSide len n =>
    mismatch ("right-hand side has length " ++ toString len ++ ", expected " ++ toString n)
  | .vectorProduct m n len =>
    mismatch ("cannot multiply " ++ shapeText m n ++ " matrix by vector of length " ++
      toString len)
  | .matrixProduct m n m' n' =>
    mismatch ("cannot multiply " ++ shapeText m n ++ " matrix by " ++ shapeText m' n' ++
      " matrix")
  | .pointCount xs ys =>
    mismatch (toString xs ++ " x-coordinates but " ++ toString ys ++ " y-coordinates")
  | .singular column pivot =>
    "matrix is singular: pivot " ++ Scalar.scientific pivot ++ " in column " ++
      toString column

end LinearError

end NumericMethods
