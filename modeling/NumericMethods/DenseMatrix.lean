/-
  NumericMethods/DenseMatrix.lean
  ===============================
  **Dense matrices and vectors.**

  A matrix is a vector of rows of one length, and its shape is part of its type.  Matrices
  that come from outside are lists of rows; `DenseMatrix.ofRows` checks their shape.  The order
  in which a product adds its terms is fixed, because floating point sums depend on it.
-/
import NumericMethods.LinearError

namespace NumericMethods

/-- A matrix of `m` rows and `n` columns. -/
abbrev DenseMatrix (α : Type) (m n : Nat) := Vector (Vector α n) m

namespace DenseMatrix

variable {α : Type} {m n k : Nat}

/-! ### Entries -/

/-- The matrix with given entries. -/
def ofFn (f : Fin m → Fin n → α) : DenseMatrix α m n :=
  Vector.ofFn fun i => Vector.ofFn fun j => f i j

/-- The entry in a row and a column. -/
def entry (A : DenseMatrix α m n) (i : Fin m) (j : Fin n) : α := A[i][j]

/-- A column. -/
def column (A : DenseMatrix α m n) (j : Fin n) : Vector α m := A.map fun row => row[j]

/-- The entries of all rows, one row after the other. -/
def entries (A : DenseMatrix α m n) : List α := A.toList.flatMap Vector.toList

/-- The rows as lists. -/
def toRows (A : DenseMatrix α m n) : List (List α) := A.toList.map Vector.toList

@[simp] theorem entry_ofFn (f : Fin m → Fin n → α) (i : Fin m) (j : Fin n) :
    (ofFn f).entry i j = f i j := by
  simp [entry, ofFn]

/-! ### Matrices from rows -/

/-- A matrix of any shape. -/
structure Shaped (α : Type) where
  rows : Nat
  columns : Nat
  matrix : DenseMatrix α rows columns

/-- Checks that all rows have length `n`; `i` is the index of the first of them. -/
def rowsOf (n i : Nat) : List (List α) → Except (LinearError α) (List (Vector α n))
  | [] => .ok []
  | r :: rs =>
    if h : r.length = n then
      match rowsOf n (i + 1) rs with
      | .ok vs => .ok (⟨r.toArray, by simpa using h⟩ :: vs)
      | .error e => .error e
    else .error (.raggedRow i r.length n)

/-- The matrix with the given rows, which have one length and are not empty. -/
def ofRows (rows : List (List α)) : Except (LinearError α) (Shaped α) :=
  match rows with
  | [] => .error .noRows
  | r :: rs =>
    if r.isEmpty then .error .noColumns
    else
      match rowsOf r.length 0 (r :: rs) with
      | .ok vs => .ok ⟨vs.length, r.length, ⟨vs.toArray, by simp⟩⟩
      | .error e => .error e

/-- A square matrix of any size. -/
structure Square (α : Type) where
  size : Nat
  matrix : DenseMatrix α size size

/-- A matrix as a square one, if it is. -/
def Shaped.square? (s : Shaped α) : Option (Square α) :=
  if h : s.columns = s.rows then some ⟨s.rows, s.matrix.map fun row => row.cast h⟩ else none

/-- The square matrix with the given rows. -/
def squareOfRows (rows : List (List α)) : Except (LinearError α) (Square α) :=
  match ofRows rows with
  | .error e => .error e
  | .ok s =>
    match s.square? with
    | some q => .ok q
    | none => .error (.notSquare s.rows s.columns)

/-- A list as a vector of a given length. -/
def vectorOfLength? (n : Nat) (xs : List α) : Option (Vector α n) :=
  if h : xs.length = n then some ⟨xs.toArray, by simpa using h⟩ else none

/-! ### Arithmetic -/

variable [Scalar α]

/-- The sum of two vectors. -/
def addVec (u v : Vector α n) : Vector α n := Vector.zipWith (· + ·) u v

/-- The difference of two vectors. -/
def subVec (u v : Vector α n) : Vector α n := Vector.zipWith (· - ·) u v

/-- A vector times a number. -/
def scaleVec (v : Vector α n) (c : α) : Vector α n := v.map (· * c)

/-- The largest magnitude of a vector. -/
def normInf (v : Vector α n) : α := Scalar.largestMagnitude v.toList

/-- The products of the entries of two vectors. -/
def products (u v : Vector α n) : List α := (Vector.zipWith (· * ·) u v).toList

/-- The product of a matrix and a vector. -/
def mulVec (A : DenseMatrix α m n) (v : Vector α n) : Vector α m :=
  A.map fun row => Scalar.accumulated (products row v)

/-- The product of two matrices.  If all their dimensions exceed five, the sums start at
    zero, and no entry is minus zero. -/
def mul (A : DenseMatrix α m k) (B : DenseMatrix α k n) : DenseMatrix α m n :=
  let columns := Vector.ofFn fun j => B.column j
  let sum := if 5 < m ∧ 5 < k ∧ 5 < n then fun xs => xs.foldl (· + ·) 0
    else Scalar.accumulated
  ofFn fun i j => sum (products A[i] columns[j])

/-- The sum of two matrices. -/
def add (A B : DenseMatrix α m n) : DenseMatrix α m n := ofFn fun i j => A.entry i j + B.entry i j

/-- The difference of two matrices. -/
def sub (A B : DenseMatrix α m n) : DenseMatrix α m n := ofFn fun i j => A.entry i j - B.entry i j

/-- A matrix times a number. -/
def scale (A : DenseMatrix α m n) (c : α) : DenseMatrix α m n := ofFn fun i j => A.entry i j * c

/-- A matrix with its signs changed. -/
def negate (A : DenseMatrix α m n) : DenseMatrix α m n := ofFn fun i j => -A.entry i j

/-! ### Parts of a matrix -/

/-- The diagonal, and zero elsewhere. -/
def diagonalPart (A : DenseMatrix α m n) : DenseMatrix α m n :=
  ofFn fun i j => if i.val = j.val then A.entry i j else 0

/-- The entries below the diagonal, and zero elsewhere. -/
def lowerPart (A : DenseMatrix α m n) : DenseMatrix α m n :=
  ofFn fun i j => if j.val < i.val then A.entry i j else 0

/-- The entries above the diagonal, and zero elsewhere. -/
def upperPart (A : DenseMatrix α m n) : DenseMatrix α m n :=
  ofFn fun i j => if i.val < j.val then A.entry i j else 0

/-- The diagonal of a square matrix. -/
def diagonal (A : DenseMatrix α n n) : Vector α n := Vector.ofFn fun i => A.entry i i

/-! ### Products with checked shapes -/

/-- The product of a matrix and a list of numbers of fitting length. -/
def Shaped.mulList (A : Shaped α) (xs : List α) : Except (LinearError α) (List α) :=
  match vectorOfLength? A.columns xs with
  | some v => .ok (A.matrix.mulVec v).toList
  | none => .error (.vectorProduct A.rows A.columns xs.length)

/-- The product of two matrices of fitting shapes. -/
def Shaped.mul (A B : Shaped α) : Except (LinearError α) (Shaped α) :=
  if h : B.rows = A.columns then
    .ok ⟨A.rows, B.columns, A.matrix.mul (B.matrix.cast h)⟩
  else .error (.matrixProduct A.rows A.columns B.rows B.columns)

end DenseMatrix

end NumericMethods
