/-
  NumericMethods/Task.lean
  ========================
  **Tasks: what the sections of a document ask for.**

  The title of a section names a method or a comparison, and its entries hold the inputs.
  A missing key or an unreadable value is found when the task is built; whatever goes wrong
  later is part of the report.
-/
import NumericMethods.Comparison
import NumericMethods.Task.Values

namespace NumericMethods

variable {α : Type} [Scalar α]

/-- The texts and the control of a root finding task. -/
structure RootTask (α : Type) where
  texts : RootTexts
  control : Control α

/-- The points of an interpolation task. -/
structure PointsTask (α : Type) where
  xs : List α
  ys : List α

/-- The system, the first vector, the relaxation factor and the control of a linear task. -/
structure LinearTask (α : Type) where
  rows : List (List α)
  b : List α
  x₀ : List α
  w : Option α
  control : Control α

/-- A task. -/
inductive Task (α : Type) where
  | root (method : Method) (task : RootTask α)
  | interpolation (method : Method) (task : PointsTask α)
  | linear (method : Method) (task : LinearTask α)
  | compareRoots (task : RootTask α)
  | compareInterpolation (task : PointsTask α)
  | compareLinear (task : LinearTask α)

/-- The settings of a run of a document. -/
structure Settings where
  level : Task.Level
  logFile : Bool
  saveTraces : Bool
deriving DecidableEq, Repr

/-- A document: its settings and its tasks, in order. -/
structure TaskDocument (α : Type) where
  settings : Settings
  tasks : List (Task α)

namespace Task

/-! ### From sections to tasks -/

/-- The method that a title names. -/
def methodOfTitle? (title : String) : Option Method :=
  match title with
  | "bisection" => some .bisection
  | "false_position" => some .falsePosition
  | "fixed_point" => some .fixedPoint
  | "newton" => some .newton
  | "multiple_roots" => some .multipleRoots
  | "secant" => some .secant
  | "vandermonde" => some .vandermonde
  | "newton_interpolation" => some .dividedDifferences
  | "newton_divided_differences" => some .dividedDifferences
  | "lagrange" => some .lagrange
  | "linear_spline" => some .linearSpline
  | "cubic_spline" => some .cubicSpline
  | "jacobi" => some .jacobi
  | "gauss_seidel" => some .gaussSeidel
  | "sor" => some .sor
  | _ => none

/-- Checks that keys are there. -/
def requireAll (s : Section) : List String → Except TaskError Unit
  | [] => .ok ()
  | key :: keys =>
    match s.required key with
    | .ok _ => requireAll s keys
    | .error e => .error e

/-- The two ends of a bracket, if both are there. -/
def bracketOf (s : Section) : Option (String × String) :=
  match s.get? "a", s.get? "b" with
  | some a, some b => some (a, b)
  | _, _ => none

/-- A root finding task for a method that needs the given keys beside the formula. -/
def rootTask (s : Section) (keys : List String) : Except TaskError (RootTask α) := do
  requireAll s keys
  let f ← s.required "fx"
  let control ← s.control
  return ⟨⟨f, s.get? "gx", bracketOf s, s.get? "x0", s.get? "x1"⟩, control⟩

/-- An interpolation task. -/
def pointsTask (s : Section) : Except TaskError (PointsTask α) := do
  requireAll s ["x", "y"]
  let xs ← s.vector "x"
  let ys ← s.vector "y"
  return ⟨xs.getD [], ys.getD []⟩

/-- A linear task, for a method that needs a relaxation factor or not.  A missing first
    vector is zero. -/
def linearTask (s : Section) (needsFactor : Bool) : Except TaskError (LinearTask α) := do
  requireAll s (if needsFactor then ["A", "b", "w"] else ["A", "b"])
  let b := (← s.vector "b").getD []
  let x₀ := (← s.vector "x0").getD (List.replicate b.length 0)
  let rows := (← s.matrix "A").getD []
  let w ← s.number "w"
  let control ← s.control
  return ⟨rows, b, x₀, w, control⟩

/-- The keys that a root finder needs beside the formula. -/
def rootKeys : Method → List String
  | .bisection => ["a", "b"]
  | .falsePosition => ["a", "b"]
  | .fixedPoint => ["gx", "x0"]
  | .newton => ["x0"]
  | .multipleRoots => ["x0"]
  | .secant => ["x0", "x1"]
  | _ => []

/-- The task of a section for a single method. -/
def ofMethod (s : Section) (method : Method) : Except TaskError (Task α) :=
  match method.family with
  | .rootFinding => (rootTask s (rootKeys method)).map (.root method)
  | .interpolation => (pointsTask s).map (.interpolation method)
  | .linearSystem => (linearTask s (method = .sor)).map (.linear method)

/-- The task of a section. -/
def ofSection (s : Section) : Except TaskError (Task α) :=
  match s.title with
  | "compare_roots" => (rootTask s []).map .compareRoots
  | "compare_interpolation" => (pointsTask s).map .compareInterpolation
  | "compare_linear" => (linearTask s true).map .compareLinear
  | title =>
    match methodOfTitle? title with
    | some method => ofMethod s method
    | none => .error (.unknownTask title)

/-- The title of the report of a task. -/
def title : Task α → String
  | .root method _ => method.name
  | .interpolation method _ => method.name
  | .linear method _ => method.name
  | .compareRoots _ => Comparison.title .rootFinding
  | .compareInterpolation _ => Comparison.title .interpolation
  | .compareLinear _ => Comparison.title .linearSystem

end Task

namespace Settings

/-- The settings of a document that says nothing about them. -/
def standard : Settings := ⟨.info, false, false⟩

/-- Reads the name of a level as a value. -/
def levelValue (text : String) : Except Task.ValueFault Task.Level :=
  (Task.Level.ofName text).mapError .unknownLevel

/-- The settings of a section. -/
def ofSection (s : Task.Section) : Except Task.TaskError Settings := do
  let level ← s.readValue levelValue "loglevel"
  let logFile ← s.flag "log_file"
  let saveTraces ← s.flag "save_traces"
  return ⟨level.getD standard.level, logFile.getD false, saveTraces.getD false⟩

end Settings

namespace TaskDocument

/-- Adds a section to a document.  Later settings replace earlier ones. -/
def addSection (d : TaskDocument α) (s : Task.Section) :
    Except Task.TaskError (TaskDocument α) :=
  if s.title = "settings" then
    (Settings.ofSection s).map fun settings => { d with settings := settings }
  else (Task.ofSection s).map fun task => { d with tasks := d.tasks ++ [task] }

/-- Adds sections to a document. -/
def addSections (d : TaskDocument α) :
    List Task.Section → Except Task.TaskError (TaskDocument α)
  | [] => .ok d
  | s :: rest =>
    match d.addSection s with
    | .ok d => d.addSections rest
    | .error e => .error e

/-- Reads a document. -/
def read (text : String) : Except Task.TaskError (TaskDocument α) :=
  match Task.readSections text with
  | .ok sections => (⟨Settings.standard, []⟩ : TaskDocument α).addSections sections
  | .error e => .error e

end TaskDocument

end NumericMethods
