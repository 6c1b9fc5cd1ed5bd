/-
  NumericMethods/Stationary.lean
  ==============================
  **Stationary iterations for linear systems.**

  The system `A x = b` is split by the parts of `A = D - L - U`, the diagonal and the two
  triangles with changed signs, and every method becomes an affine map `x ↦ T x + C`:

    * Jacobi: `T = D⁻¹ (L + U)` and `C = D⁻¹ b`;
    * successive over-relaxation: `T = (D - w L)⁻¹ ((1 - w) D + w U)` and
      `C = w (D - w L)⁻¹ b`; the method of Gauss and Seidel has `w = 1`.

  The map is applied until the largest change of a component is below the tolerance.
-/
import NumericMethods.Control
import NumericMethods.DenseMatrix.Factorization
import NumericMethods.Trace

namespace NumericMethods

open DenseMatrix

variable {α : Type} [Scalar α] {n : Nat}

/-- The stationary methods. -/
inductive Stationary (α : Type) where
  | jacobi
  | gaussSeidel
  | sor (w : α)
deriving DecidableEq, Repr

/-- An affine map of vectors. -/
structure AffineMap (α : Type) (n : Nat) where
  matrix : DenseMatrix α n n
  offset : Vector α n

/-- The value of an affine map. -/
def AffineMap.apply (g : AffineMap α n) (x : Vector α n) : Vector α n :=
  addVec (g.matrix.mulVec x) g.offset

/-- A solution: the last vector of the run, the map that was iterated, and the trace. -/
structure StationarySolution (α : Type) where
  size : Nat
  map : AffineMap α size
  x : Vector α size
  trace : Trace (VectorRow α)

namespace Stationary

/-- The method in the list of all methods. -/
def method : Stationary α → Method
  | .jacobi => .jacobi
  | .gaussSeidel => .gaussSeidel
  | .sor _ => .sor

/-- The method with its parameter, as text. -/
def text : Stationary α → String
  | .jacobi => "Jacobi"
  | .gaussSeidel => "GaussSeidel"
  | .sor w => "SOR(w = " ++ Scalar.text w ++ ")"

/-- The relaxation factor; the method of Jacobi has none. -/
def relaxation? : Stationary α → Option α
  | .jacobi => none
  | .gaussSeidel => some 1
  | .sor w => some w

/-- Whether the relaxation factor, if there is one, lies between zero and two. -/
def isAdmitted (s : Stationary α) : Bool :=
  match s.relaxation? with
  | none => true
  | some w => decide (0 ≤ w) && decide (w ≤ Scalar.ofNat 2)

/-! ### The map -/

/-- The map of the method of Jacobi. -/
def jacobiMap (A : DenseMatrix α n n) (b : Vector α n) :
    Except (LinearError α) (AffineMap α n) := do
  let inverse ← A.diagonalPart.invert
  return ⟨inverse.mul (A.lowerPart.negate.add A.upperPart.negate), inverse.mulVec b⟩

/-- The map of over-relaxation with factor `w`. -/
def relaxedMap (w : α) (A : DenseMatrix α n n) (b : Vector α n) :
    Except (LinearError α) (AffineMap α n) := do
  let D := A.diagonalPart
  let L := A.lowerPart.negate
  let U := A.upperPart.negate
  let inverse ← (D.sub (L.scale w)).invert
  return ⟨inverse.mul ((D.scale (1 - w)).add (U.scale w)), scaleVec (inverse.mulVec b) w⟩

/-- The map of a method for the system of `A` and `b`. -/
def affineMap (s : Stationary α) (A : DenseMatrix α n n) (b : Vector α n) :
    Except (NumericError α) (AffineMap α n) :=
  let map :=
    match s.relaxation? with
    | none => jacobiMap A b
    | some w => relaxedMap w A b
  map.mapError (NumericError.ofSystem s.method)

/-- The map for a matrix of any shape: only a square matrix can be split. -/
def affineMapOf (s : Stationary α) (A : Shaped α) (b : List α) :
    Except (NumericError α) ((size : Nat) × AffineMap α size) := do
  let q ← liftLinear A.factorable
  match vectorOfLength? q.size b with
  | some b => return ⟨q.size, ← s.affineMap q.matrix b⟩
  | none => throw (.linear (.vectorProduct q.size q.size b.length))

/-! ### The iteration -/

/-- The state of a run. -/
structure State (α : Type) (n : Nat) where
  index : Nat
  x : Vector α n
  error : α

/-- The row that shows a state. -/
def State.row (s : State α n) : VectorRow α := ⟨s.index, s.x.toList, s.error⟩

/-- The next state. -/
def step (g : AffineMap α n) (c : Control α) (s : State α n) :
    Except (NumericError α) (State α n) := do
  let next := g.apply s.x
  let error ← liftDomain (c.measure (normInf (subVec next s.x)) (normInf next))
  return ⟨s.index + 1, next, error⟩

/-- The process of iterating a map. -/
def process (g : AffineMap α n) (c : Control α) : Process α (State α n) where
  step := step g c
  error s := s.error
  exact _ := false

/-- The run from a vector, as a solution. -/
def iterate (s : Stationary α) (g : AffineMap α n) (x₀ : Vector α n) (c : Control α) :
    Except (NumericError α) (StationarySolution α) := do
  let s₀ : State α n := ⟨0, x₀, Control.initialError⟩
  let states ← (process g c).run c c.maxIterations s₀
  return ⟨n, g, (states.getLastD s₀).x, ⟨s.method, states.map State.row⟩⟩

/-- Solves a square system whose shapes fit. -/
def solveSquare (s : Stationary α) (A : DenseMatrix α n n) (b x₀ : Vector α n)
    (c : Control α) : Except (NumericError α) (StationarySolution α) :=
  if !s.isAdmitted then .error (.invalid .relaxation)
  else if A.diagonal.toList.any (· == 0) then .error (.invalid .zeroDiagonal)
  else do
    let g ← s.affineMap A b
    s.iterate g x₀ c

/-- Solves the system with the given rows and right-hand side from the vector `x₀`. -/
def solve (s : Stationary α) (rows : List (List α)) (b x₀ : List α) (c : Control α) :
    Except (NumericError α) (StationarySolution α) := do
  let A ← liftLinear (ofRows rows)
  match A.square? with
  | none => throw (.invalid .dimensions)
  | some A =>
    match vectorOfLength? A.size b, vectorOfLength? A.size x₀ with
    | some b, some x₀ => s.solveSquare A.matrix b x₀ c
    | _, _ => throw (.invalid .dimensions)

end Stationary

/-- The largest magnitude of a component of `A x - b`. -/
def residual (rows : List (List α)) (x b : List α) : Except (NumericError α) α := do
  let A ← liftLinear (ofRows rows)
  let product ← liftLinear (A.mulList x)
  if product.length = b.length then
    return Scalar.largestMagnitude (List.zipWith (· - ·) product b)
  else throw (.invalid .dimensions)

end NumericMethods
