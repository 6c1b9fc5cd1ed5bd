/-
  NumericMethods/NumericError.lean
  ================================
  **Every way in which a numerical method can fail, and the wording of each.**
-/
import NumericMethods.Formula.Eval
import NumericMethods.LinearError
import NumericMethods.Method

namespace NumericMethods

variable {α : Type}

/-- The reasons for which a problem is turned down before it is solved. -/
inductive Invalid (α : Type) where
  | bracketOrder
  | noSignChange (a b : α)
  | dimensions
  | relaxation
  | zeroDiagonal
  | singularSystem (method : Method)
  | tooFewPoints (least : Nat)
  | duplicateAbscissae
deriving DecidableEq, Repr

def Invalid.message [Scalar α] : Invalid α → String
  | .bracketOrder => "a must be less than b"
  | .noSignChange a b =>
    "[" ++ Scalar.text a ++ ", " ++ Scalar.text b ++ "] is not a valid interval"
  | .dimensions => "Invalid dimensions"
  | .relaxation => "W must be between 0 and 2"
  | .zeroDiagonal => "A contains zeros in its diagonal"
  | .singularSystem method => "The " ++ method.name ++ " system is singular"
  | .tooFewPoints least => "at least " ++ toString least ++ " points are required"
  | .duplicateAbscissae => "duplicate x-coordinates"

/-- The failures of the methods. -/
inductive NumericError (α : Type) where
  | read (e : ReadError)
  | domain (e : DomainError α)
  | linear (e : LinearError α)
  | zeroDerivative
  | zeroDenominator
  | noConvergence (iterations : Nat)
  | invalid (reason : Invalid α)
deriving DecidableEq, Repr

namespace NumericError

def message [Scalar α] : NumericError α → String
  | .read e => e.message
  | .domain e => e.message
  | .linear e => e.message
  | .zeroDerivative => "Derivative is zero"
  | .zeroDenominator => "Division by zero"
  | .noConvergence n => "Method failed in " ++ toString n ++ " iterations"
  | .invalid reason => reason.message

/-- The failure of a method whose own system of equations could not be solved.  That the
    system is singular is a failure of the method. -/
def ofSystem (method : Method) : LinearError α → NumericError α
  | .singular _ _ => .invalid (.singularSystem method)
  | e => .linear e

end NumericError

/-! ### Lifting the failures of the parts -/

/-- A result whose failure is one of evaluation. -/
def liftDomain {τ : Type} (r : Except (DomainError α) τ) : Except (NumericError α) τ :=
  r.mapError .domain

/-- A result whose failure is one of reading. -/
def liftRead {τ : Type} (r : Except ReadError τ) : Except (NumericError α) τ :=
  r.mapError .read

/-- A result whose failure is one of linear algebra. -/
def liftLinear {τ : Type} (r : Except (LinearError α) τ) : Except (NumericError α) τ :=
  r.mapError .linear

end NumericMethods
