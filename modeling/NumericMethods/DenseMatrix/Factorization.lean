/-
  NumericMethods/DenseMatrix/Factorization.lean
  =============================================
  **Triangular factorization with partial pivoting.**

  A square matrix `A` is balanced first: its columns and then its rows are multiplied by
  powers of two that bring their largest entries close to one.  The balanced matrix is
  eliminated column by column, with the largest entry of the column as the pivot, and both
  triangular factors share one matrix: the multipliers below the diagonal, the upper
  triangle on and above it.

  The scales are folded back into every result, so that the factors, the solutions and the
  determinant are those of `A`.
-/
import NumericMethods.DenseMatrix

namespace NumericMethods

open DenseMatrix

variable {α : Type} [Scalar α] {n : Nat}

/-- A factored matrix: the two triangles in one matrix, the row of the matrix that ended
    up in each place, the number of exchanges, and the scales. -/
structure Factorization (α : Type) (n : Nat) where
  compact : DenseMatrix α n n
  origin : Vector (Fin n) n
  exchanges : Nat
  rowScale : Vector α n
  columnScale : Vector α n

namespace Factorization

/-! ### Balancing -/

/-- The scale of each column. -/
def columnScales (A : DenseMatrix α n n) : Vector α n :=
  Vector.ofFn fun j => Scalar.balance (Scalar.peakMagnitude (A.column j).toList)

/-- The scale of each row, after the columns are scaled. -/
def rowScales (A : DenseMatrix α n n) (columnScale : Vector α n) : Vector α n :=
  A.map fun row => Scalar.balance (Scalar.largestMagnitude (products row columnScale))

/-- The balanced matrix. -/
def balanced (A : DenseMatrix α n n) (rowScale columnScale : Vector α n) : DenseMatrix α n n :=
  ofFn fun i j => rowScale.get i * A.entry i j * columnScale.get j

/-- The magnitude that a pivot must exceed. -/
def threshold (S : DenseMatrix α n n) : α :=
  Scalar.ofNat n * Scalar.epsilon * Scalar.peakMagnitude S.entries

/-! ### Elimination -/

/-- The state of the elimination. -/
structure Stage (α : Type) (n : Nat) where
  compact : DenseMatrix α n n
  origin : Vector (Fin n) n
  exchanges : Nat

/-- The row, from the diagonal down, with the largest entry in column `k`, and that entry.
    Of equally large entries the first one is taken; entries that are all zero give the
    diagonal row and zero. -/
def pivotOf (S : DenseMatrix α n n) (k : Fin n) : Fin n × α :=
  ((List.finRange n).filter (k ≤ ·)).foldl
    (fun best i =>
      if Scalar.abs best.2 < Scalar.abs (S.entry i k) then (i, S.entry i k) else best)
    (k, 0)

/-- Exchanges row `k` with the row of the pivot. -/
def exchange (s : Stage α n) (k pivotRow : Fin n) : Stage α n :=
  if pivotRow = k then s
  else
    { compact := s.compact.swap pivotRow k pivotRow.isLt k.isLt
      origin := s.origin.swap pivotRow k pivotRow.isLt k.isLt
      exchanges := s.exchanges + 1 }

/-- Subtracts multiples of row `k` from the rows below it and stores the multipliers in
    column `k`. -/
def clearBelow (S : DenseMatrix α n n) (k : Fin n) : DenseMatrix α n n :=
  ofFn fun i j =>
    if k < i then
      let factor := S.entry i k / S.entry k k
      if j = k then factor
      else if k < j then S.entry i j - factor * S.entry k j
      else S.entry i j
    else S.entry i j

/-- Eliminates the columns from `k` on. -/
def eliminateFrom (tolerance : α) (k : Nat) (s : Stage α n) :
    Except (LinearError α) (Stage α n) :=
  if h : k < n then
    let pivot := pivotOf s.compact ⟨k, h⟩
    if Scalar.abs pivot.2 ≤ tolerance then .error (.singular k pivot.2)
    else
      let t := exchange s ⟨k, h⟩ pivot.1
      eliminateFrom tolerance (k + 1) { t with compact := clearBelow t.compact ⟨k, h⟩ }
  else .ok s
termination_by n - k

/-- The factorization with given scales. -/
def withScales (A : DenseMatrix α n n) (rowScale columnScale : Vector α n) :
    Except (LinearError α) (Factorization α n) :=
  let S := balanced A rowScale columnScale
  match eliminateFrom (threshold S) 0 ⟨S, Vector.ofFn id, 0⟩ with
  | .ok s => .ok ⟨s.compact, s.origin, s.exchanges, rowScale, columnScale⟩
  | .error e => .error e

/-- The factorization of a matrix that is not empty and has a usable pivot in every
    column. -/
def ofMatrix (A : DenseMatrix α n n) : Except (LinearError α) (Factorization α n) :=
  if n = 0 then .error (.notFactorable n n)
  else
    let columnScale := columnScales A
    withScales A (rowScales A columnScale) columnScale

/-! ### The factors -/

/-- The scale of the row that ended up in place `i`. -/
def placedScale (F : Factorization α n) (i : Fin n) : α := F.rowScale.get (F.origin.get i)

/-- The lower factor, with ones on the diagonal. -/
def lower (F : Factorization α n) : DenseMatrix α n n :=
  ofFn fun i j =>
    if j < i then F.compact.entry i j * F.placedScale j / F.placedScale i
    else if i = j then 1
    else 0

/-- The upper factor. -/
def upper (F : Factorization α n) : DenseMatrix α n n :=
  ofFn fun i j =>
    if i ≤ j then F.compact.entry i j / (F.placedScale i * F.columnScale.get j) else 0

/-- The permutation that sends the rows of the matrix to their places. -/
def permutation (F : Factorization α n) : DenseMatrix α n n :=
  ofFn fun i j => if F.origin.get i = j then 1 else 0

/-- The determinant of the matrix. -/
def determinant (F : Factorization α n) : α :=
  let sign : α := if F.exchanges % 2 = 0 then 1 else -1
  let scales := Scalar.product (F.rowScale.toList ++ F.columnScale.toList)
  sign * Scalar.product F.compact.diagonal.toList / scales

/-! ### Solving -/

/-- The terms of row `i` of the compact matrix times `y`, in the columns that `p`
    selects. -/
def rowTerms (F : Factorization α n) (y : Vector α n) (i : Fin n) (p : Fin n → Bool) :
    List α :=
  ((List.finRange n).filter p).map fun j => F.compact.entry i j * y.get j

/-- Solves equation `i` of the lower triangle, the unknowns before it being known. -/
def forwardStep (F : Factorization α n) (y : Vector α n) (i : Fin n) : Vector α n :=
  y.set i (y.get i - Scalar.total (F.rowTerms y i fun j => decide (j < i))) i.isLt

/-- Solves equation `i` of the upper triangle, the unknowns after it being known. -/
def backwardStep (F : Factorization α n) (i : Fin n) (z : Vector α n) : Vector α n :=
  z.set i ((z.get i - Scalar.total (F.rowTerms z i fun j => decide (i < j))) /
    F.compact.entry i i) i.isLt

/-- Solves the system of the lower triangle, from the first unknown down. -/
def forward (F : Factorization α n) (y : Vector α n) : Vector α n :=
  (List.finRange n).foldl F.forwardStep y

/-- Solves the system of the upper triangle, from the last unknown up. -/
def backward (F : Factorization α n) (z : Vector α n) : Vector α n :=
  (List.finRange n).foldr F.backwardStep z

/-- The solution of `A x = b`. -/
def solve (F : Factorization α n) (b : Vector α n) : Vector α n :=
  let y := Vector.ofFn fun i => b.get (F.origin.get i) * F.placedScale i
  let z := F.backward (F.forward y)
  Vector.ofFn fun i => z.get i * F.columnScale.get i

/-- The solution of `A x = b` for a list of fitting length. -/
def solveList (F : Factorization α n) (b : List α) : Except (LinearError α) (List α) :=
  match vectorOfLength? n b with
  | some v => .ok (F.solve v).toList
  | none => .error (.rightHandSide b.length n)

/-- A unit vector. -/
def unitVector (j : Fin n) : Vector α n := Vector.ofFn fun i => if i = j then 1 else 0

/-- The inverse, column by column. -/
def inverse (F : Factorization α n) : DenseMatrix α n n :=
  let columns := Vector.ofFn fun j => F.solve (unitVector j)
  ofFn fun i j => (columns.get j).get i

end Factorization

namespace DenseMatrix

/-- The inverse of a matrix. -/
def invert (A : DenseMatrix α n n) : Except (LinearError α) (DenseMatrix α n n) :=
  match Factorization.ofMatrix A with
  | .ok F => .ok F.inverse
  | .error e => .error e

/-- The solution of a system. -/
def solve (A : DenseMatrix α n n) (b : Vector α n) : Except (LinearError α) (Vector α n) :=
  match Factorization.ofMatrix A with
  | .ok F => .ok (F.solve b)
  | .error e => .error e

/-- The square form of a matrix that is to be factored. -/
def Shaped.factorable (s : Shaped α) : Except (LinearError α) (Square α) :=
  match s.square? with
  | some q => .ok q
  | none => .error (.notFactorable s.rows s.columns)

/-- The solution of a system, with all shapes checked. -/
def Shaped.solveList (s : Shaped α) (b : List α) : Except (LinearError α) (List α) := do
  let q ← s.factorable
  let F ← Factorization.ofMatrix q.matrix
  F.solveList b

/-- The inverse of a matrix, if it is square. -/
def Shaped.invert (s : Shaped α) : Except (LinearError α) (Square α) := do
  let q ← s.factorable
  let B ← q.matrix.invert
  return ⟨q.size, B⟩

end DenseMatrix

end NumericMethods
