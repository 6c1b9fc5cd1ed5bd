/-
  NumericMethods/RootFinding/Solution.lean
  ========================================
  **A root, and the run that led to it.**

  A root that is found before the first step has no trace: it took no iterations, and its
  error is zero.
-/
import NumericMethods.Control
import NumericMethods.Trace

namespace NumericMethods

/-- A root and, unless it was found at once, the trace of the run. -/
structure RootSolution (α ρ : Type) where
  root : α
  trace : Option (Trace ρ)
deriving DecidableEq, Repr

namespace RootSolution

variable {α ρ : Type}

/-- The solution that needed no run. -/
def immediate (root : α) : RootSolution α ρ := ⟨root, none⟩

/-- The number of steps of the run. -/
def iterations (s : RootSolution α ρ) : Nat :=
  match s.trace with
  | none => 0
  | some t => t.iterations

/-- The error of the last step. -/
def finalError [Scalar α] [TraceRow ρ α] (s : RootSolution α ρ) : α :=
  (s.trace.bind Trace.finalError?).getD 0

end RootSolution

end NumericMethods
