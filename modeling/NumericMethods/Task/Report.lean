/-
  NumericMethods/Task/Report.lean
  ===============================
  **Running tasks, and what is reported of them.**

  A report has a title, says whether the task succeeded, and shows the result with all that
  led to it.  The trace of an iterative run is kept as records, to be saved.
-/
import NumericMethods.Task
import NumericMethods.Text.Records

namespace NumericMethods

variable {α : Type} [Scalar α]

/-- The report of a task. -/
structure Report where
  title : String
  converged : Bool
  body : String
  trace : Option (List (List String))
deriving DecidableEq, Repr

/-- Numbers in rows as a table, with an optional header. -/
def matrixTable (rows : List (List α)) (header : Option (List String)) : String :=
  Text.Table.render (header.toList ++ rows.map fun row => row.map Scalar.text)

namespace Report

/-- The report of a task that failed. -/
def failed (title reason : String) : Report := ⟨title, false, "Failed: " ++ reason, none⟩

/-- A report as text. -/
def text (r : Report) : String := "=== " ++ r.title ++ " ===\n" ++ r.body

/-- The report of a result or of its failure. -/
def ofResult {τ : Type} (title : String) (result : Except (NumericError α) τ)
    (report : τ → Report) : Report :=
  match result with
  | .ok value => report value
  | .error e => failed title e.message

/-! ### Root finding -/

/-- The text of a root and its run. -/
def rootBody (a : RootAnswer α) : String :=
  let head := "root = " ++ Scalar.text a.root ++ "\niterations = " ++ toString a.iterations
  match a.table? with
  | some table => head ++ "\n" ++ table
  | none => head

/-- Runs a root finder. -/
def ofRootTask (method : Method) (t : RootTask α) : Report :=
  match t.texts.question? method with
  | none => failed method.name (method.name ++ " is not a root finding method")
  | some question =>
    ofResult method.name (question.answer t.control) fun a =>
      ⟨method.name, true, rootBody a, a.records?⟩

/-! ### Interpolation -/

/-- How an interpolant was found, as text. -/
def interpolantDetails : Interpolant α → String
  | .vandermonde p =>
    "Vandermonde matrix:\n" ++ matrixTable p.matrix none ++ "\ncoefficients = " ++
      vectorText p.coefficients
  | .newton p =>
    "Divided differences:\n" ++ matrixTable p.table (some p.columnNames) ++
      "\ncoefficients = " ++ vectorText p.coefficients
  | .lagrange p =>
    String.intercalate "\n"
      (p.basis.mapIdx fun k term => "L" ++ toString k ++ "(x) = " ++ term) ++
      "\nLaTeX: " ++ p.texPolynomial
  | .spline p =>
    "System matrix:\n" ++ matrixTable p.matrix none ++ "\nright-hand side = " ++
      vectorText p.values

/-- Runs an interpolation. -/
def ofPointsTask (method : Method) (t : PointsTask α) : Report :=
  match InterpolationMethod.ofMethod? method with
  | none => failed method.name (method.name ++ " is not an interpolation method")
  | some m =>
    ofResult method.name (m.interpolate t.xs t.ys) fun p =>
      ⟨method.name, true, interpolantDetails p ++ "\n" ++ p.text, none⟩

/-! ### Linear systems -/

/-- The stationary method of a task; a missing relaxation factor is one. -/
def stationary? (method : Method) (w : Option α) : Option (Stationary α) :=
  match method with
  | .jacobi => some .jacobi
  | .gaussSeidel => some .gaussSeidel
  | .sor => some (.sor (w.getD 1))
  | _ => none

/-- The text of a solution and its run. -/
def linearBody (s : StationarySolution α) : String :=
  "x = " ++ vectorText s.x.toList ++ "\niterations = " ++ toString s.trace.iterations ++
    "\nT:\n" ++ matrixTable s.map.matrix.toRows none ++ "\nC = " ++
    vectorText s.map.offset.toList ++ "\n" ++ s.trace.table

/-- Runs a stationary method. -/
def ofLinearTask (method : Method) (t : LinearTask α) : Report :=
  match stationary? method t.w with
  | none => failed method.name (method.name ++ " is not a linear system method")
  | some s =>
    ofResult method.name (s.solve t.rows t.b t.x₀ t.control) fun solution =>
      ⟨method.name, true, linearBody solution, some solution.trace.records⟩

/-! ### Comparisons -/

/-- The report of a comparison. -/
def ofComparison (c : Comparison α) : Report :=
  ⟨Comparison.title c.family, c.best?.isSome, c.table ++ "\n" ++ c.verdict, none⟩

end Report

/-- Runs a task. -/
def Task.report : Task α → Report
  | .root method t => Report.ofRootTask method t
  | .interpolation method t => Report.ofPointsTask method t
  | .linear method t => Report.ofLinearTask method t
  | .compareRoots t =>
    Report.ofResult (Comparison.title .rootFinding) t.texts.problem fun p =>
      Report.ofComparison (Comparison.ofRootProblem p t.control)
  | .compareInterpolation t => Report.ofComparison (Comparison.ofPoints t.xs t.ys)
  | .compareLinear t =>
    Report.ofComparison (Comparison.ofSystem t.rows t.b t.x₀ (t.w.getD 1) t.control)

/-! ### Whole documents -/

/-- What running a document leaves behind: the exit code, what is written to the two
    output channels, the files with their contents, and whether there is a log file. -/
structure Session where
  code : Nat
  output : String
  errors : String
  files : List (String × String)
  logFile : Bool
deriving DecidableEq, Repr

namespace Session

/-- The session of a document that could not be read. -/
def refused (e : Task.TaskError) : Session := ⟨1, "", e.message ++ "\n", [], false⟩

/-- The name of the file with the trace of the task of a number. -/
def traceFileName (number : Nat) (r : Report) : String :=
  toString number ++ "_" ++
    String.ofList (r.title.toList.map fun c => if c = ' ' then '_' else c) ++ ".csv"

/-- The file with the trace of a report, if it has one. -/
def traceFile? (number : Nat) (r : Report) : Option (String × String) :=
  r.trace.bind fun records =>
    match Text.Records.text records with
    | .ok content => some (traceFileName number r, content)
    | .error _ => none

/-- The session of a document. -/
def ofDocument (d : TaskDocument α) : Session :=
  let reports := d.tasks.map Task.report
  { code := 0
    output := String.join (reports.map fun r => r.text ++ "\n\n")
    errors := ""
    files :=
      if d.settings.saveTraces then
        (reports.mapIdx fun n r => traceFile? (n + 1) r).filterMap id
      else []
    logFile := d.settings.logFile }

/-- The session of a text. -/
def ofText (α : Type) [Scalar α] (text : String) : Session :=
  match (TaskDocument.read text : Except Task.TaskError (TaskDocument α)) with
  | .ok d => ofDocument d
  | .error e => refused e

end Session

end NumericMethods
