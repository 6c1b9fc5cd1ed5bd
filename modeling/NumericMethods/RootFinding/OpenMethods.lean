/-
  NumericMethods/RootFinding/OpenMethods.lean
  ===========================================
  **Root finders that move a point until it settles.**

  Fixed point iteration, the method of Newton, its variant for multiple roots and the secant
  method keep no bracket.  The first three compute the next point from the last one; the
  secant method uses the last two, and both of its seeds are rows of its trace.
-/
import NumericMethods.Formula.Simplify
import NumericMethods.RootFinding.Solution

namespace NumericMethods

variable {α : Type} [Scalar α]

/-! ### Methods that look at one point -/

namespace OnePoint

/-- A method and its update: the next point, given the point and the value there. -/
structure Rule (α : Type) where
  method : Method
  next : (x fx : α) → Except (NumericError α) α

/-- The next point is the value of `g`. -/
def fixedPointRule (g : Formula α) : Rule α where
  method := .fixedPoint
  next x _ := liftDomain (g.eval x)

/-- The next point is where the tangent crosses zero. -/
def newtonRule (derivative : Formula α) : Rule α where
  method := .newton
  next x fx := do
    let dfx ← liftDomain (derivative.eval x)
    if dfx == 0 then throw .zeroDerivative else return x - fx / dfx

/-- The next point is the one of Newton's method for the quotient of the function and its
    derivative, which has simple roots only. -/
def multipleRule (derivative second : Formula α) : Rule α where
  method := .multipleRoots
  next x fx := do
    let dfx ← liftDomain (derivative.eval x)
    let d2fx ← liftDomain (second.eval x)
    let denominator := dfx * dfx - fx * d2fx
    if denominator == 0 then throw .zeroDenominator
    else return x - fx * dfx / denominator

/-- The row after a given one. -/
def step (rule : Rule α) (f : Formula α) (c : Control α) (r : PointRow α) :
    Except (NumericError α) (PointRow α) := do
  let next ← rule.next r.point r.value
  let error ← liftDomain (c.stepError next r.point)
  let value ← liftDomain (f.eval next)
  return ⟨r.index + 1, next, value, error⟩

/-- The process of a method; its states are the rows of the trace. -/
def process (rule : Rule α) (f : Formula α) (c : Control α) : Process α (PointRow α) where
  step := step rule f c
  error r := r.error
  exact r := r.value == 0

/-- Finds a root from a seed. -/
def find (rule : Rule α) (f : Formula α) (seed : α) (c : Control α) :
    Except (NumericError α) (RootSolution α (PointRow α)) := do
  let value ← liftDomain (f.eval seed)
  if value == 0 then return .immediate seed
  else
    let r : PointRow α := ⟨0, seed, value, Control.initialError⟩
    let rows ← (process rule f c).run c c.maxIterations r
    return ⟨(rows.getLastD r).point, some ⟨rule.method, rows⟩⟩

end OnePoint

/-- Fixed point iteration with `g`.  The formula `f` tells when a root is met exactly. -/
def fixedPoint (f g : Formula α) (seed : α) (c : Control α) :
    Except (NumericError α) (RootSolution α (PointRow α)) :=
  OnePoint.find (OnePoint.fixedPointRule g) f seed c

/-- The method of Newton. -/
def newton (f : Formula α) (seed : α) (c : Control α) :
    Except (NumericError α) (RootSolution α (PointRow α)) :=
  OnePoint.find (OnePoint.newtonRule f.differentiate) f seed c

/-- The method of Newton for roots of any multiplicity. -/
def multipleRoots (f : Formula α) (seed : α) (c : Control α) :
    Except (NumericError α) (RootSolution α (PointRow α)) :=
  OnePoint.find
    (OnePoint.multipleRule f.differentiate f.differentiate.differentiate) f seed c

/-! ### The secant method -/

namespace Secant

/-- The last two rows of a run. -/
structure State (α : Type) where
  previous : PointRow α
  current : PointRow α

/-- The point where the chord through the last two points crosses zero. -/
def next (s : State α) : Except (NumericError α) α :=
  let p := s.previous
  let q := s.current
  if q.value == p.value then .error .zeroDenominator
  else .ok (q.point - q.value * (q.point - p.point) / (q.value - p.value))

/-- The next state. -/
def step (f : Formula α) (c : Control α) (s : State α) :
    Except (NumericError α) (State α) := do
  let x ← next s
  let error ← liftDomain (c.stepError x s.current.point)
  let value ← liftDomain (f.eval x)
  return ⟨s.current, ⟨s.current.index + 1, x, value, error⟩⟩

/-- The process of the secant method. -/
def process (f : Formula α) (c : Control α) : Process α (State α) where
  step := step f c
  error s := s.current.error
  exact s := s.current.value == 0

end Secant

/-- The secant method.  The second seed counts as the first iteration. -/
def secant (f : Formula α) (x₀ x₁ : α) (c : Control α) :
    Except (NumericError α) (RootSolution α (PointRow α)) := do
  let f₀ ← liftDomain (f.eval x₀)
  let f₁ ← liftDomain (f.eval x₁)
  if f₀ == 0 then return .immediate x₀
  else if f₁ == 0 then return .immediate x₁
  else
    let r₀ : PointRow α := ⟨0, x₀, f₀, Control.initialError⟩
    let r₁ : PointRow α := ⟨1, x₁, f₁, Control.initialError⟩
    let states ← (Secant.process f c).run c (c.maxIterations - 1) ⟨r₀, r₁⟩
    let rows := r₀ :: states.map Secant.State.current
    return ⟨(rows.getLastD r₁).point, some ⟨.secant, rows⟩⟩

end NumericMethods
