/-
  NumericMethods/Control.lean
  ===========================
  **When an iteration stops.**

  An iteration ends when the error of its last step is below the tolerance, and is given up
  when the budget of steps is used up.  The error of a step is its size, or in relative mode
  its size divided by the magnitude of the new approximation.

  `Process.run` is the one loop behind every iterative method: it steps a state until the
  error is below the tolerance or the state is exact, and keeps all states it went through.
-/
import NumericMethods.NumericError

namespace NumericMethods

variable {α : Type} [Scalar α]

/-- The tolerance, the largest number of steps, and whether errors are relative. -/
structure Control (α : Type) where
  tolerance : α
  maxIterations : Nat
  relative : Bool
deriving DecidableEq, Repr

namespace Control

/-- The error of a state that no step has led to. -/
def initialError : α := Scalar.ofNat 100

/-- The control that is used where nothing else is said. -/
def standard : Control α := ⟨Scalar.ofDecimal 1 (-7), 100, false⟩

/-- The error of a step of a given size to an approximation of a given magnitude. -/
def measure (c : Control α) (size magnitude : α) : Except (DomainError α) α :=
  if c.relative then
    if magnitude == 0 then .error .relativeErrorAtZero else .ok (size / magnitude)
  else .ok size

/-- The error of a step between two numbers. -/
def stepError (c : Control α) (new old : α) : Except (DomainError α) α :=
  c.measure (Scalar.abs (new - old)) (Scalar.abs new)

/-- Whether an error is below the tolerance. -/
def isMet (c : Control α) (error : α) : Bool := decide (error < c.tolerance)

end Control

/-- An iterative process: its step, the error of a state, and the states that need no
    further step whatever their error. -/
structure Process (α σ : Type) where
  step : σ → Except (NumericError α) σ
  error : σ → α
  exact : σ → Bool

namespace Process

variable {σ : Type}

/-- Whether a state ends the process. -/
def isDone (p : Process α σ) (c : Control α) (s : σ) : Bool :=
  c.isMet (p.error s) || p.exact s

/-- The states from `s` to the first one that ends the process, if it is reached within
    `budget` steps. -/
def run (p : Process α σ) (c : Control α) (budget : Nat) (s : σ) :
    Except (NumericError α) (List σ) :=
  if p.isDone c s then .ok [s]
  else
    match budget with
    | 0 => .error (.noConvergence c.maxIterations)
    | budget + 1 =>
      match p.step s with
      | .error e => .error e
      | .ok s' =>
        match p.run c budget s' with
        | .error e => .error e
        | .ok states => .ok (s :: states)

end Process

end NumericMethods
