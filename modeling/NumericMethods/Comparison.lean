/-
  NumericMethods/Comparison.lean
  ==============================
  **Comparing the methods of a family on one problem.**

  Every method that applies is run.  The runs that converged are ranked: iterative methods
  by the number of their steps and then by their last error, interpolants by their largest
  error at the data points, and equally good runs by the order of the methods.  Failed runs
  are reported and never ranked.
-/
import NumericMethods.Interpolation
import NumericMethods.RootFinding.Question
import NumericMethods.Stationary

namespace NumericMethods

variable {α : Type}

/-- A run that converged: its steps, its error, and its result as text. -/
structure ConvergedRun (α : Type) where
  method : Method
  iterations : Nat
  score : α
  result : String
deriving DecidableEq, Repr

/-- What is reported of a method. -/
inductive MethodReport (α : Type) where
  | converged (run : ConvergedRun α)
  | failed (method : Method) (reason : NumericError α)
deriving DecidableEq, Repr

namespace MethodReport

/-- The method of a report. -/
def method : MethodReport α → Method
  | .converged run => run.method
  | .failed method _ => method

/-- The run of a report, if it converged. -/
def run? : MethodReport α → Option (ConvergedRun α)
  | .converged run => some run
  | .failed _ _ => none

end MethodReport

/-- The reports of all methods of a family that apply. -/
structure Comparison (α : Type) where
  family : Family
  reports : List (MethodReport α)

namespace Comparison

variable [Scalar α]

/-! ### Ranking -/

/-- Whether a score comes before another one, or is as good and `tie` decides. -/
def scoreBefore (s t : α) (tie : Bool) : Bool :=
  Scalar.totalLe s t && (!Scalar.totalLe t s || tie)

/-- Whether a run is ranked before another one, or at the same place. -/
def precedes (family : Family) (r s : ConvergedRun α) : Bool :=
  let byScore := scoreBefore r.score s.score (decide (r.method.rank ≤ s.method.rank))
  match family with
  | .interpolation => byScore
  | _ =>
    decide (r.iterations < s.iterations) || (decide (r.iterations = s.iterations) && byScore)

/-- The runs that converged, best first. -/
def ranked (c : Comparison α) : List (ConvergedRun α) :=
  (c.reports.filterMap MethodReport.run?).mergeSort (precedes c.family)

/-- The best run. -/
def best? (c : Comparison α) : Option (ConvergedRun α) := c.ranked.head?

/-! ### Text -/

/-- What the score of a family is. -/
def scoreName : Family → String
  | .interpolation => "max residual"
  | _ => "error"

/-- A report as a row of the table. -/
def reportCells : MethodReport α → List String
  | .converged run =>
    [run.method.name, toString run.iterations, Scalar.scientific run.score, run.result]
  | .failed method reason => [method.name, "-", "-", reason.message]

/-- The reports as a table. -/
def table (c : Comparison α) : String :=
  Text.Table.render
    (["method", "iterations", scoreName c.family, "result"] :: c.reports.map reportCells)

/-- The title of a comparison within a family. -/
def title : Family → String
  | .rootFinding => "Root finding comparison"
  | .interpolation => "Interpolation comparison"
  | .linearSystem => "Linear system comparison"

/-- The line that names the best method. -/
def verdict (c : Comparison α) : String :=
  match c.best? with
  | some run => "best method: " ++ run.method.name
  | none => "no method converged"

end Comparison

variable [Scalar α]

/-! ### Root finding -/

/-- The inputs of root finders; a method applies if its inputs are there. -/
structure RootProblem (α : Type) where
  f : Formula α
  g : Option (Formula α)
  bracket : Option (α × α)
  x₀ : Option α
  x₁ : Option α

/-- The report of a root finder. -/
def rootReport {ρ : Type} [TraceRow ρ α] (method : Method)
    (result : Except (NumericError α) (RootSolution α ρ)) : MethodReport α :=
  match result with
  | .ok s => .converged ⟨method, s.iterations, s.finalError, Scalar.text s.root⟩
  | .error e => .failed method e

namespace RootProblem

/-- The reports of the methods that need a bracket. -/
def bracketReports (p : RootProblem α) (c : Control α) : List (MethodReport α) :=
  match p.bracket with
  | none => []
  | some (a, b) =>
    [rootReport .bisection (bisection p.f a b c),
      rootReport .falsePosition (falsePosition p.f a b c)]

/-- The reports of the methods that start from a seed. -/
def seedReports (p : RootProblem α) (c : Control α) : List (MethodReport α) :=
  match p.x₀ with
  | none => []
  | some x₀ =>
    (p.g.map fun g => rootReport .fixedPoint (fixedPoint p.f g x₀ c)).toList ++
      [rootReport .newton (newton p.f x₀ c),
        rootReport .multipleRoots (multipleRoots p.f x₀ c)] ++
      (p.x₁.map fun x₁ => rootReport .secant (secant p.f x₀ x₁ c)).toList

end RootProblem

/-- The comparison of all root finders that apply. -/
def Comparison.ofRootProblem (p : RootProblem α) (c : Control α) : Comparison α :=
  ⟨.rootFinding, p.bracketReports c ++ p.seedReports c⟩

/-- The inputs of root finders as texts. -/
structure RootTexts where
  f : String
  g : Option String
  bracket : Option (String × String)
  x₀ : Option String
  x₁ : Option String
deriving DecidableEq, Repr

namespace RootTexts

/-- Reads an optional text. -/
def readOptional {τ : Type} (read : String → Except (NumericError α) τ)
    (text : Option String) : Except (NumericError α) (Option τ) :=
  match text with
  | none => .ok none
  | some s => (read s).map some

/-- Reads the two ends of a bracket. -/
def readBracket (bracket : Option (String × String)) :
    Except (NumericError α) (Option (α × α)) :=
  match bracket with
  | none => .ok none
  | some (a, b) => do
    let a ← readNumber a
    let b ← readNumber b
    return some (a, b)

/-- The problem that the texts state. -/
def problem (t : RootTexts) : Except (NumericError α) (RootProblem α) := do
  let f ← readFormula t.f
  let g ← readOptional readFormula t.g
  let bracket ← readBracket t.bracket
  let x₀ ← readOptional readNumber t.x₀
  let x₁ ← readOptional readNumber t.x₁
  return ⟨f, g, bracket, x₀, x₁⟩

/-- The question that the texts put to a method, if it is a root finder.  A text that is
    missing counts as empty. -/
def question? (t : RootTexts) (method : Method) : Option RootQuestion :=
  let a := (t.bracket.map Prod.fst).getD ""
  let b := (t.bracket.map Prod.snd).getD ""
  let x₀ := t.x₀.getD ""
  match method with
  | .bisection => some (.bisection a b t.f)
  | .falsePosition => some (.falsePosition a b t.f)
  | .fixedPoint => some (.fixedPoint x₀ t.f (t.g.getD ""))
  | .newton => some (.newton x₀ t.f)
  | .multipleRoots => some (.multipleRoots x₀ t.f)
  | .secant => some (.secant x₀ (t.x₁.getD "") t.f)
  | _ => none

end RootTexts

/-! ### Linear systems -/

/-- The report of a stationary method. -/
def linearReport (s : Stationary α)
    (result : Except (NumericError α) (StationarySolution α)) : MethodReport α :=
  match result with
  | .ok solution =>
    .converged ⟨s.method, solution.trace.iterations,
      solution.trace.finalError?.getD Control.initialError, vectorText solution.x.toList⟩
  | .error e => .failed s.method e

/-- The comparison of the stationary methods, over-relaxation with factor `w`. -/
def Comparison.ofSystem (rows : List (List α)) (b x₀ : List α) (w : α)
    (c : Control α) : Comparison α :=
  let methods : List (Stationary α) := [.jacobi, .gaussSeidel, .sor w]
  ⟨.linearSystem, methods.map fun s => linearReport s (s.solve rows b x₀ c)⟩

/-! ### Interpolation -/

/-- The report of an interpolant. -/
def interpolationReport (m : InterpolationMethod) (xs ys : List α) : MethodReport α :=
  match m.interpolate xs ys with
  | .ok p => .converged ⟨m.method, 0, p.maxNodeResidual xs ys, p.text⟩
  | .error e => .failed m.method e

/-- The comparison of all interpolants through the points. -/
def Comparison.ofPoints (xs ys : List α) : Comparison α :=
  ⟨.interpolation, InterpolationMethod.all.map fun m => interpolationReport m xs ys⟩

end NumericMethods
