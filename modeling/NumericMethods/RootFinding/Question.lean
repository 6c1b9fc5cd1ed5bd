/-
  NumericMethods/RootFinding/Question.lean
  ========================================
  **Root finding problems stated as text.**

  A question names a method and gives the formulas and numbers it needs as texts; a number
  may be any constant formula.  Its answer is a root with the run that led to it, or the
  first failure: the numbers are read first, then the formulas.
-/
import NumericMethods.RootFinding.Bracketing
import NumericMethods.RootFinding.OpenMethods

namespace NumericMethods

variable {α : Type} [Scalar α]

/-- A number stated as text. -/
def readNumber (text : String) : Except (NumericError α) α :=
  liftRead (Formula.readConstant text)

/-- A formula stated as text. -/
def readFormula (text : String) : Except (NumericError α) (Formula α) :=
  liftRead (Formula.read text)

/-- A method with the texts of its inputs. -/
inductive RootQuestion where
  | bisection (a b f : String)
  | falsePosition (a b f : String)
  | fixedPoint (seed f g : String)
  | newton (seed f : String)
  | multipleRoots (seed f : String)
  | secant (seed₀ seed₁ f : String)
deriving DecidableEq, Repr

/-- A solution of either kind of method. -/
inductive RootAnswer (α : Type) where
  | bracketing (s : RootSolution α (BracketRow α))
  | moving (s : RootSolution α (PointRow α))
deriving DecidableEq, Repr

namespace RootAnswer

/-- The root. -/
def root : RootAnswer α → α
  | .bracketing s => s.root
  | .moving s => s.root

/-- The number of steps. -/
def iterations : RootAnswer α → Nat
  | .bracketing s => s.iterations
  | .moving s => s.iterations

/-- The error of the last step. -/
def finalError : RootAnswer α → α
  | .bracketing s => s.finalError
  | .moving s => s.finalError

/-- The header and the rows of the trace, if there is one. -/
def records? : RootAnswer α → Option (List (List String))
  | .bracketing s => s.trace.map Trace.records
  | .moving s => s.trace.map Trace.records

/-- The trace as a table. -/
def table? : RootAnswer α → Option String
  | .bracketing s => s.trace.map Trace.table
  | .moving s => s.trace.map Trace.table

/-- The trace as a table under the name of its method. -/
def traceText? : RootAnswer α → Option String
  | .bracketing s => s.trace.map Trace.text
  | .moving s => s.trace.map Trace.text

/-- The index of the last row. -/
def lastIndex? : RootAnswer α → Option Nat
  | .bracketing s => s.trace.bind Trace.lastIndex?
  | .moving s => s.trace.bind Trace.lastIndex?

end RootAnswer

namespace RootQuestion

/-- The method of a question. -/
def method : RootQuestion → Method
  | .bisection _ _ _ => .bisection
  | .falsePosition _ _ _ => .falsePosition
  | .fixedPoint _ _ _ => .fixedPoint
  | .newton _ _ => .newton
  | .multipleRoots _ _ => .multipleRoots
  | .secant _ _ _ => .secant

/-- The answer to a question. -/
def answer (c : Control α) : RootQuestion → Except (NumericError α) (RootAnswer α)
  | .bisection a b f => do
    let a ← readNumber a
    let b ← readNumber b
    let f ← readFormula f
    return .bracketing (← NumericMethods.bisection f a b c)
  | .falsePosition a b f => do
    let a ← readNumber a
    let b ← readNumber b
    let f ← readFormula f
    return .bracketing (← NumericMethods.falsePosition f a b c)
  | .fixedPoint seed f g => do
    let seed ← readNumber seed
    let f ← readFormula f
    let g ← readFormula g
    return .moving (← NumericMethods.fixedPoint f g seed c)
  | .newton seed f => do
    let seed ← readNumber seed
    let f ← readFormula f
    return .moving (← NumericMethods.newton f seed c)
  | .multipleRoots seed f => do
    let seed ← readNumber seed
    let f ← readFormula f
    return .moving (← NumericMethods.multipleRoots f seed c)
  | .secant seed₀ seed₁ f => do
    let x₀ ← readNumber seed₀
    let x₁ ← readNumber seed₁
    let f ← readFormula f
    return .moving (← NumericMethods.secant f x₀ x₁ c)

end RootQuestion

end NumericMethods
