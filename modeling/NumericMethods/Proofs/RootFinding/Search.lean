/-
  NumericMethods/Proofs/RootFinding/Search.lean
  =============================================
  **What the six root finders search, as one type.**

  A search names its method and has the formulas and numbers that the method needs.
  Theorems about all root finders are stated for a search; `RootAnswer.rows?` shows the
  traces of both families as rows of one kind, which leave out the ends of a bracket.

  The questions of the library, whose formulas and numbers are texts, are read as searches
  that are then carried out (`RootQuestion.answer_eq`).
-/
import Mathlib
import NumericMethods.RootFinding.Question

namespace NumericMethods

variable {α : Type} [Scalar α]

/-- A method with the formulas and numbers that it needs. -/
inductive RootSearch (α : Type) where
  | bisection (f : Formula α) (a b : α)
  | falsePosition (f : Formula α) (a b : α)
  | fixedPoint (f g : Formula α) (seed : α)
  | newton (f : Formula α) (seed : α)
  | multipleRoots (f : Formula α) (seed : α)
  | secant (f : Formula α) (x₀ x₁ : α)

namespace RootSearch

/-- The answer of the method. -/
def answer (c : Control α) : RootSearch α → Except (NumericError α) (RootAnswer α)
  | bisection f a b => return .bracketing (← NumericMethods.bisection f a b c)
  | falsePosition f a b => return .bracketing (← NumericMethods.falsePosition f a b c)
  | fixedPoint f g seed => return .moving (← NumericMethods.fixedPoint f g seed c)
  | newton f seed => return .moving (← NumericMethods.newton f seed c)
  | multipleRoots f seed => return .moving (← NumericMethods.multipleRoots f seed c)
  | secant f x₀ x₁ => return .moving (← NumericMethods.secant f x₀ x₁ c)

/-- The formula whose root is sought. -/
def formula : RootSearch α → Formula α
  | bisection f _ _ | falsePosition f _ _ | fixedPoint f _ _ | newton f _
  | multipleRoots f _ | secant f _ _ => f

/-- The number of rows that no step has led to. -/
def seeds : RootSearch α → ℕ
  | secant _ _ _ => 2
  | _ => 1

/-- The largest number of rows after row 0.  The second seed of the secant method is one of
    them, whatever the budget. -/
def rowBudget (c : Control α) : RootSearch α → ℕ
  | secant _ _ _ => max c.maxIterations 1
  | _ => c.maxIterations

end RootSearch

/-- The row of a bracketing method without the ends of the bracket. -/
def BracketRow.pointRow (r : BracketRow α) : PointRow α := ⟨r.index, r.mid, r.value, r.error⟩

/-- The rows of the trace, if there is one. -/
def RootAnswer.rows? : RootAnswer α → Option (List (PointRow α))
  | .bracketing s => s.trace.map fun t => t.rows.map BracketRow.pointRow
  | .moving s => s.trace.map Trace.rows

/-- The search that a question asks for. -/
def RootQuestion.search : RootQuestion → Except (NumericError α) (RootSearch α)
  | .bisection a b f => do
    let a ← readNumber a
    let b ← readNumber b
    return .bisection (← readFormula f) a b
  | .falsePosition a b f => do
    let a ← readNumber a
    let b ← readNumber b
    return .falsePosition (← readFormula f) a b
  | .fixedPoint seed f g => do
    let seed ← readNumber seed
    let f ← readFormula f
    return .fixedPoint f (← readFormula g) seed
  | .newton seed f => do
    let seed ← readNumber seed
    return .newton (← readFormula f) seed
  | .multipleRoots seed f => do
    let seed ← readNumber seed
    return .multipleRoots (← readFormula f) seed
  | .secant seed₀ seed₁ f => do
    let x₀ ← readNumber seed₀
    let x₁ ← readNumber seed₁
    return .secant (← readFormula f) x₀ x₁

/-- A question is answered by reading its search and carrying that out. -/
theorem RootQuestion.answer_eq (c : Control α) (q : RootQuestion) :
    q.answer c = q.search >>= RootSearch.answer c := by
  cases q <;> simp only [answer, search, bind_assoc, pure_bind] <;> rfl

end NumericMethods
