/-
  NumericMethods/Interpolation/Spline.lean
  ========================================
  **Linear splines and natural cubic splines.**

  A spline is a polynomial on every interval between neighbouring knots.  The coefficients
  of all pieces, highest power first, are the unknowns of one linear system:

    * every piece passes through the points at both ends of its interval;
    * in the cubic case neighbouring pieces agree in the first and in the second derivative
      at the knot they share, and the second derivative vanishes at both ends.

  The system is solved in the distance from the first knot, where the powers of far away
  knots stay apart, and the solution is expanded in powers of `x` to be shown.
-/
import NumericMethods.DenseMatrix.Factorization
import NumericMethods.Interpolation.Notation
import NumericMethods.Interpolation.Points

namespace NumericMethods

variable {α : Type} [Scalar α]

/-! ### Pieces -/

/-- A polynomial on an interval, by its coefficients in powers of `x - origin`, highest
    power first. -/
structure SplinePiece (α : Type) where
  low : α
  high : α
  origin : α
  shifted : List α
deriving DecidableEq, Repr

namespace SplinePiece

/-- The further coefficients of a polynomial times `x - origin` plus `c`, after the
    coefficient `previous`. -/
def shiftedTail (origin c previous : α) : List α → List α
  | [] => [0 - origin * previous + c]
  | g :: gs => (g - origin * previous) :: shiftedTail origin c g gs

/-- The coefficients of a polynomial times `x - origin` plus `c`, highest power first. -/
def timesShifted (origin : α) (gs : List α) (c : α) : List α :=
  match gs with
  | [] => [0 + c]
  | g :: gs => g :: shiftedTail origin c g gs

/-- The coefficients in powers of `x`, highest power first. -/
def coefficients (p : SplinePiece α) : List α := p.shifted.foldl (timesShifted p.origin) []

/-- The text of the polynomial. -/
def text (p : SplinePiece α) : String :=
  match p.coefficients with
  | [m, c] => Written.line m c
  | [a, b, c, d] => Written.cubic a b c d
  | _ => ""

/-- The value at `x`. -/
def evaluate (p : SplinePiece α) (x : α) : α :=
  p.shifted.foldl (fun value c => value * (x - p.origin) + c) 0

/-- The coefficients of the derivative in the distance `t`, by Horner's rule; `cs` are
    the coefficients from a power down. -/
def derivativeFrom (t value : α) : List α → α
  | c :: d :: cs => derivativeFrom t (value * t + c * Scalar.ofNat (cs.length + 1)) (d :: cs)
  | _ => value

/-- The derivative at `x`. -/
def derivative (p : SplinePiece α) (x : α) : α := derivativeFrom (x - p.origin) 0 p.shifted

/-- The second derivative in the distance `t`, by Horner's rule. -/
def secondDerivativeFrom (t value : α) : List α → α
  | c :: d :: e :: cs =>
    let power := cs.length + 2
    secondDerivativeFrom t (value * t + c * Scalar.ofNat (power * (power - 1)))
      (d :: e :: cs)
  | _ => value

/-- The second derivative at `x`. -/
def secondDerivative (p : SplinePiece α) (x : α) : α :=
  secondDerivativeFrom (x - p.origin) 0 p.shifted

/-- Whether `x` lies in the interval. -/
def contains (p : SplinePiece α) (x : α) : Bool := decide (p.low ≤ x) && decide (x ≤ p.high)

end SplinePiece

/-! ### The system -/

/-- The two kinds of splines. -/
inductive SplineKind where
  | linear
  | cubic
deriving DecidableEq, Repr

/-- An equation for the coefficients of all pieces: the factor of each coefficient, by the
    piece and the place in it, and the right-hand side. -/
structure SplineEquation (α : Type) where
  factor : (piece place : Nat) → α
  value : α

namespace SplineKind

/-- The number of coefficients of a piece. -/
def order : SplineKind → Nat
  | linear => 2
  | cubic => 4

/-- The method in the list of all methods. -/
def method : SplineKind → Method
  | linear => .linearSpline
  | cubic => .cubicSpline

/-- The piece takes the value `y` at `t`. -/
def passes (order piece : Nat) (t y : α) : SplineEquation α where
  factor i place := if i = piece then Scalar.natPow t (order - 1 - place) else 0
  value := y

/-- The factors of the slope of a cubic at `t`, times `s`. -/
def slopeFactor (s t : α) (place : Nat) : α :=
  match place with
  | 0 => s * Scalar.ofNat 3 * Scalar.natPow t 2
  | 1 => s * Scalar.ofNat 2 * t
  | 2 => s
  | _ => 0

/-- The factors of the second derivative of a cubic at `t`, times `s`. -/
def bendFactor (s t : α) (place : Nat) : α :=
  match place with
  | 0 => s * Scalar.ofNat 6 * t
  | 1 => s * Scalar.ofNat 2
  | _ => 0

/-- The pieces before and after a joint agree in what `factor` measures. -/
def agrees (factor : (sign : α) → (place : Nat) → α) (joint : Nat) : SplineEquation α where
  factor i place :=
    if i = joint then factor 1 place
    else if i = joint + 1 then factor (-1) place
    else 0
  value := 0

/-- The second derivative of a piece vanishes at `t`. -/
def straight (piece : Nat) (t : α) : SplineEquation α where
  factor i place := if i = piece then bendFactor 1 t place else 0
  value := 0

/-- Every piece passes through its left point, then every piece through its right one. -/
def passing (order s : Nat) (ts ys : Vector α (s + 1)) : List (SplineEquation α) :=
  (List.finRange s).map (fun i : Fin s => passes order i ts[i.castSucc] ys[i.castSucc]) ++
    (List.finRange s).map fun i : Fin s => passes order i ts[i.succ] ys[i.succ]

/-- The equations of the joints of cubic pieces and of the two ends. -/
def smooth (s : Nat) (ts : Vector α (s + 2)) : List (SplineEquation α) :=
  let joint (factor : α → α → Nat → α) (i : Fin s) : SplineEquation α :=
    agrees (fun sign => factor sign ts[i.succ.castSucc]) i
  (List.finRange s).map (joint slopeFactor) ++ (List.finRange s).map (joint bendFactor) ++
    [straight 0 ts[0], straight s ts[s + 1]]

/-- The equations of a spline with `s + 1` pieces. -/
def equations (kind : SplineKind) (s : Nat) (ts ys : Vector α (s + 2)) :
    List (SplineEquation α) :=
  match kind with
  | linear => passing 2 (s + 1) ts ys
  | cubic => passing 4 (s + 1) ts ys ++ smooth s ts

theorem length_equations (kind : SplineKind) (s : Nat) (ts ys : Vector α (s + 2)) :
    (kind.equations s ts ys).length = kind.order * (s + 1) := by
  cases kind <;> simp [equations, passing, smooth, order] <;> omega

/-- An equation as a row: the factors of the first piece, then those of the second, and so
    on. -/
def row (order pieces : Nat) (e : SplineEquation α) : Vector α (order * pieces) :=
  Vector.ofFn fun j => e.factor (j / order) (j % order)

/-- The matrix of a spline. -/
def matrix (kind : SplineKind) (s : Nat) (ts ys : Vector α (s + 2)) :
    DenseMatrix α (kind.order * (s + 1)) (kind.order * (s + 1)) :=
  ⟨((kind.equations s ts ys).map (row kind.order (s + 1))).toArray, by
    simp [length_equations]⟩

/-- The right-hand side of a spline. -/
def rightSide (kind : SplineKind) (s : Nat) (ts ys : Vector α (s + 2)) :
    Vector α (kind.order * (s + 1)) :=
  ⟨((kind.equations s ts ys).map SplineEquation.value).toArray, by
    simp [length_equations]⟩

end SplineKind

/-! ### Splines -/

/-- A spline: its kind, the system written in `x`, and the pieces from left to right. -/
structure Spline (α : Type) where
  kind : SplineKind
  matrix : List (List α)
  values : List α
  pieces : List (SplinePiece α)
  pieces_ne_nil : pieces ≠ []

namespace Spline

/-- Cuts a list into lists of length `k`. -/
def chunks (k : Nat) : (count : Nat) → List α → List (List α)
  | 0, _ => []
  | count + 1, xs => xs.take k :: chunks k count (xs.drop k)

/-- The intervals between neighbours. -/
def intervals (xs : List α) : List (α × α) := xs.zip xs.tail

/-- The pieces with given knots and coefficients in the distance from `origin`. -/
def piecesOf (origin : α) (knots : List α) (solution : List (List α)) :
    List (SplinePiece α) :=
  List.zipWith (fun (low, high) cs => ⟨low, high, origin, cs⟩) (intervals knots) solution

/-- Knots measured from an origin. -/
def measuredFrom {m : Nat} (origin : α) (xs : Vector α m) : Vector α m := xs.map (· - origin)

/-- The spline through `s + 2` sorted points. -/
def throughSorted (kind : SplineKind) (s : Nat) (xs ys : Vector α (s + 2)) :
    Except (NumericError α) (Spline α) := do
  let origin := xs[0]
  let ts := measuredFrom origin xs
  let solution ← ((kind.matrix s ts ys).solve (kind.rightSide s ts ys)).mapError
    (NumericError.ofSystem kind.method)
  let pieces := piecesOf origin xs.toList (chunks kind.order (s + 1) solution.toList)
  let shown := measuredFrom 0 xs
  if h : pieces ≠ [] then
    return ⟨kind, (kind.matrix s shown ys).toRows, (kind.rightSide s shown ys).toList,
      pieces, h⟩
  else throw (.invalid (.tooFewPoints 2))

/-- The spline through points in any order. -/
def ofPoints (kind : SplineKind) (xs ys : List α) : Except (NumericError α) (Spline α) := do
  Points.check xs ys 2
  let points := Points.byAbscissa xs ys
  match h : points with
  | p :: q :: rest =>
    throughSorted kind rest.length ⟨(points.map Prod.fst).toArray, by simp [h]⟩
      ⟨(points.map Prod.snd).toArray, by simp [h]⟩
  | _ => throw (.invalid (.tooFewPoints 2))

/-- The piece for `x`: the first one that ends at `x` or to the right of it, and the last
    one if there is none. -/
def pieceAt (p : Spline α) (x : α) : SplinePiece α :=
  (p.pieces.find? fun piece => decide (x ≤ piece.high)).getD
    (p.pieces.getLast p.pieces_ne_nil)

/-- The value at `x`. -/
def evaluate (p : Spline α) (x : α) : α := (p.pieceAt x).evaluate x

/-- The derivative at `x`. -/
def derivative (p : Spline α) (x : α) : α := (p.pieceAt x).derivative x

/-- The second derivative at `x`. -/
def secondDerivative (p : Spline α) (x : α) : α := (p.pieceAt x).secondDerivative x

/-- The text of a piece with its interval. -/
def pieceText (p : SplinePiece α) : String :=
  "[" ++ Written.number p.low ++ ", " ++ Written.number p.high ++ "]: " ++ p.text

/-- The text of a spline, a line for each piece. -/
def text (p : Spline α) : String := String.intercalate "\n" (p.pieces.map pieceText)

end Spline

end NumericMethods
