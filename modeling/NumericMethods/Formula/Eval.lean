/-
  NumericMethods/Formula/Eval.lean
  ================================
  **The value of a formula at a point.**

  Evaluation either gives a finite number or says why there is none: a division by zero, an
  operation outside its domain, or a value that is not finite.  Operands are evaluated from
  left to right, and the first failure is the answer.
-/
import NumericMethods.Formula.Reader

namespace NumericMethods

/-- The reasons why a formula has no value at a point, and a step no relative error. -/
inductive DomainError (α : Type) where
  | divisionByZero (point : α)
  | undefinedPower (base exponent point : α)
  | undefinedFunction (f : Elementary) (argument point : α)
  | nonFinite (point : α)
  | relativeErrorAtZero
deriving DecidableEq, Repr

namespace DomainError

variable {α : Type} [Scalar α]

def message : DomainError α → String
  | .divisionByZero p => "division by zero at x = " ++ Scalar.text p
  | .undefinedPower b e p =>
    Scalar.text b ++ " ^ " ++ Scalar.text e ++ " is undefined at x = " ++ Scalar.text p
  | .undefinedFunction f v p =>
    f.name ++ "(" ++ Scalar.text v ++ ") is undefined at x = " ++ Scalar.text p
  | .nonFinite p => "non-finite value while evaluating at x = " ++ Scalar.text p
  | .relativeErrorAtZero => "relative error is undefined: the new approximation is zero"

end DomainError

variable {α : Type} [Scalar α]

namespace Elementary

/-- Whether a function is undefined at an argument. -/
def undefinedAt (f : Elementary) (v : α) : Bool :=
  match f with
  | .ln => decide (v ≤ 0)
  | .sqrt => decide (v < 0)
  | .asin => decide (1 < Scalar.abs v)
  | .acos => decide (1 < Scalar.abs v)
  | _ => false

/-- The value of a function at an argument; `point` is the point that a failure is
    reported at. -/
def evalAt (f : Elementary) (v point : α) : Except (DomainError α) α :=
  if f.undefinedAt v then .error (.undefinedFunction f v point)
  else .ok (Scalar.elementary f v)

end Elementary

namespace Formula

/-- A value, if it is finite. -/
def finite (point value : α) : Except (DomainError α) α :=
  if Scalar.isFinite value then .ok value else .error (.nonFinite point)

/-- A quotient, unless the denominator is zero. -/
def quotient (point numerator denominator : α) : Except (DomainError α) α :=
  if denominator == 0 then .error (.divisionByZero point) else .ok (numerator / denominator)

/-- A power, where it is defined.  A negative power of zero is a division by zero. -/
def powerAt (point base exponent : α) : Except (DomainError α) α :=
  if base == 0 && decide (exponent < 0) then .error (.divisionByZero point)
  else
    match Scalar.power base exponent with
    | some v => .ok v
    | none => .error (.undefinedPower base exponent point)

/-- The value of a formula where its variable has the value `p`. -/
def eval (p : α) : Formula α → Except (DomainError α) α
  | .var _ => finite p p
  | .const v => finite p v
  | .add l r => do finite p ((← l.eval p) + (← r.eval p))
  | .sub l r => do finite p ((← l.eval p) - (← r.eval p))
  | .mul l r => do finite p ((← l.eval p) * (← r.eval p))
  | .div l r => do
    let n ← l.eval p
    let d ← r.eval p
    finite p (← quotient p n d)
  | .pow l r => do
    let b ← l.eval p
    let e ← r.eval p
    finite p (← powerAt p b e)
  | .neg u => do finite p (-(← u.eval p))
  | .apply f u => do
    let v ← u.eval p
    finite p (← f.evalAt v p)

/-- Reads a text as a formula without variables and gives its value. -/
def readConstant (input : String) : Except ReadError α :=
  match read input with
  | .error e => .error e
  | .ok e =>
    if e.isConstant then
      match e.eval (0 : α) with
      | .ok v => .ok v
      | .error _ => .error (.notConstant (Text.trimmed input))
    else .error (.notConstant (Text.trimmed input))

end Formula

end NumericMethods
