/-
  NumericMethods/Proofs/Task/Inputs.lean
  ======================================
  **A task that was built runs on the entries of its section.**

  Every title demands that certain keys are there and that certain entries, if they are
  there, can be read (`Demand`).  A section has a fault if its title is unknown or its
  demand is not met, and a fault is reported under the title or the key (`IsFault`).

  Building is a sequence of lookups, each of which gives what the section holds or a fault
  of the section (`Gives`).  So a task that was built holds the entries of its section, and
  all of those that the title demands; what a running task takes in place of an absent
  input is then never used, and the method is one of its family
  (`built_task_runs_on_entries`).  The only inputs that are not entries are the zeros of a
  first vector that is not given.
-/
import Mathlib
import NumericMethods.Proofs.NumericError
import NumericMethods.Proofs.Task.NumberList
import NumericMethods.Task.Report

namespace NumericMethods.Task

/-! ### What a title demands -/

/-- What the text of an entry is read as. -/
inductive ValueKind where
  | number
  | count
  | flag
  | list
  | rows
deriving DecidableEq, Repr

/-- Whether the text can be read, and the fault if it cannot. -/
def ValueKind.check (α : Type) [Scalar α] (kind : ValueKind) (text : String) :
    Except ValueFault Unit :=
  match kind with
  | .number => (numberValue text : Except ValueFault α).map fun _ => ()
  | .count => (NumericMethods.Task.count text.toList).map fun _ => ()
  | .flag => (flagValue text).map fun _ => ()
  | .list => (vectorValue text : Except ValueFault (List α)).map fun _ => ()
  | .rows => (matrixValue text : Except ValueFault (List (List α))).map fun _ => ()

/-- The keys that must be there, and what is read as a value if it is there. -/
structure Demand where
  required : List String
  values : List (String × ValueKind)

namespace Demand

/-- The control of an iteration. -/
def controlValues : List (String × ValueKind) :=
  [("tol", .number), ("niter", .count), ("relative", .flag)]

/-- Root finding, with the keys that the method needs beside the formula. -/
def root (keys : List String) : Demand := ⟨keys ++ ["fx"], controlValues⟩

/-- Interpolation. -/
def points : Demand := ⟨["x", "y"], [("x", .list), ("y", .list)]⟩

/-- Linear systems, with the keys that the method needs beside the system. -/
def linear (keys : List String) : Demand :=
  ⟨["A", "b"] ++ keys,
    [("A", .rows), ("b", .list), ("x0", .list), ("w", .number)] ++ controlValues⟩

/-- The demand of a title, if it is one of a task. -/
def ofTitle? (title : String) : Option Demand :=
  match title with
  | "bisection" | "false_position" => some (root ["a", "b"])
  | "fixed_point" => some (root ["gx", "x0"])
  | "newton" | "multiple_roots" => some (root ["x0"])
  | "secant" => some (root ["x0", "x1"])
  | "compare_roots" => some (root [])
  | "vandermonde" | "newton_interpolation" | "newton_divided_differences" | "lagrange"
  | "linear_spline" | "cubic_spline" | "compare_interpolation" => some points
  | "jacobi" | "gauss_seidel" => some (linear [])
  | "sor" | "compare_linear" => some (linear ["w"])
  | _ => none

end Demand

section Faults

variable (α : Type) [Scalar α]

/-- The entry can be read, if it is there. -/
def Section.Reads (s : Section) (key : String) (kind : ValueKind) : Prop :=
  ∀ text, s.get? key = some text → kind.check α text = .ok ()

/-- The section has all that is demanded. -/
structure Section.Meets (s : Section) (d : Demand) : Prop where
  required : ∀ key ∈ d.required, ∃ text, s.get? key = some text
  readable : ∀ entry ∈ d.values, s.Reads α entry.1 entry.2

/-- What is wrong with a section: its title is unknown, a key is missing, or the text under
    a key cannot be read. -/
inductive IsFault (s : Section) : TaskError → Prop
  | unknownTitle (htitle : Demand.ofTitle? s.title = none) : IsFault s (.unknownTask s.title)
  | missing {d key} (hd : Demand.ofTitle? s.title = some d) (hkey : key ∈ d.required)
      (hget : s.get? key = none) : IsFault s (.missingKey s.title key)
  | unreadable {d key kind text fault} (hd : Demand.ofTitle? s.title = some d)
      (hkey : (key, kind) ∈ d.values) (hget : s.get? key = some text)
      (hcheck : kind.check α text = .error fault) : IsFault s (.invalidValue s.title key fault)

end Faults

/-! ### What a task takes from its section -/

section Entries

variable {α : Type} [Scalar α]

/-- The texts and the control of a root finding task are those of the section. -/
structure IsRootTaskOf (s : Section) (t : RootTask α) : Prop where
  formula : s.get? "fx" = some t.texts.f
  map : t.texts.g = s.get? "gx"
  bracket : ∀ a b, t.texts.bracket = some (a, b) ↔ s.get? "a" = some a ∧ s.get? "b" = some b
  seed₀ : t.texts.x₀ = s.get? "x0"
  seed₁ : t.texts.x₁ = s.get? "x1"
  control : s.control = .ok t.control

/-- The points of an interpolation task are those of the section. -/
structure IsPointsTaskOf (s : Section) (t : PointsTask α) : Prop where
  xs : s.vector "x" = .ok (some t.xs)
  ys : s.vector "y" = .ok (some t.ys)

/-- The system of a linear task is that of the section; a first vector that is not there is
    zero. -/
structure IsLinearTaskOf (s : Section) (t : LinearTask α) : Prop where
  rows : s.matrix "A" = .ok (some t.rows)
  b : s.vector "b" = .ok (some t.b)
  x₀ : s.vector "x0" = .ok (some t.x₀) ∨
    s.get? "x0" = none ∧ t.x₀ = List.replicate t.b.length 0
  w : s.number "w" = .ok t.w
  control : s.control = .ok t.control

end Entries

/-! ### What a task hands to its method -/

/-- A method with its inputs, or a comparison with its inputs. -/
inductive EngineCall (α : Type) where
  | root (question : RootQuestion) (control : Control α)
  | interpolation (method : InterpolationMethod) (xs ys : List α)
  | linear (method : Stationary α) (rows : List (List α)) (b x₀ : List α) (control : Control α)
  | compareRoots (texts : RootTexts) (control : Control α)
  | compareInterpolation (xs ys : List α)
  | compareLinear (rows : List (List α)) (b x₀ : List α) (w : α) (control : Control α)

/-- The texts of a question, each with the key it belongs to. -/
def questionEntries : RootQuestion → List (String × String)
  | .bisection a b f | .falsePosition a b f => [("a", a), ("b", b), ("fx", f)]
  | .fixedPoint seed f g => [("x0", seed), ("fx", f), ("gx", g)]
  | .newton seed f | .multipleRoots seed f => [("x0", seed), ("fx", f)]
  | .secant seed₀ seed₁ f => [("x0", seed₀), ("x1", seed₁), ("fx", f)]

section Calls

variable {α : Type} [Scalar α]

namespace EngineCall

/-- The report of what the method returns. -/
def report : EngineCall α → Report
  | .root question control =>
    Report.ofResult question.method.name (question.answer control) fun a =>
      ⟨question.method.name, true, Report.rootBody a, a.records?⟩
  | .interpolation m xs ys =>
    Report.ofResult m.method.name (m.interpolate xs ys) fun p =>
      ⟨m.method.name, true, Report.interpolantDetails p ++ "\n" ++ p.text, none⟩
  | .linear m rows b x₀ control =>
    Report.ofResult m.method.name (m.solve rows b x₀ control) fun solution =>
      ⟨m.method.name, true, Report.linearBody solution, some solution.trace.records⟩
  | .compareRoots texts control =>
    Report.ofResult (Comparison.title .rootFinding) texts.problem fun p =>
      Report.ofComparison (Comparison.ofRootProblem p control)
  | .compareInterpolation xs ys => Report.ofComparison (Comparison.ofPoints xs ys)
  | .compareLinear rows b x₀ w control =>
    Report.ofComparison (Comparison.ofSystem rows b x₀ w control)

/-- The method or comparison is that of the title, and its inputs are the entries. -/
def IsFrom (s : Section) : EngineCall α → Prop
  | .root question control =>
    methodOfTitle? s.title = some question.method ∧
      (∀ entry ∈ questionEntries question, s.get? entry.1 = some entry.2) ∧
      s.control = .ok control
  | .interpolation m xs ys =>
    methodOfTitle? s.title = some m.method ∧ IsPointsTaskOf s ⟨xs, ys⟩
  | .linear m rows b x₀ control =>
    methodOfTitle? s.title = some m.method ∧
      ∃ w, IsLinearTaskOf s ⟨rows, b, x₀, w, control⟩ ∧ ∀ v, m = .sor v → w = some v
  | .compareRoots texts control => s.title = "compare_roots" ∧ IsRootTaskOf s ⟨texts, control⟩
  | .compareInterpolation xs ys =>
    s.title = "compare_interpolation" ∧ IsPointsTaskOf s ⟨xs, ys⟩
  | .compareLinear rows b x₀ w control =>
    s.title = "compare_linear" ∧ IsLinearTaskOf s ⟨rows, b, x₀, some w, control⟩

end EngineCall

/-- The method of a task belongs to the family that the task is for. -/
def IsInFamily : Task α → Prop
  | .root method _ => method.family = .rootFinding
  | .interpolation method _ => method.family = .interpolation
  | .linear method _ => method.family = .linearSystem
  | .compareRoots _ | .compareInterpolation _ | .compareLinear _ => True

/-- What a running task hands over, unless it finds its method to be of another family. -/
def call? : Task α → Option (EngineCall α)
  | .root method t => (t.texts.question? method).map fun question => .root question t.control
  | .interpolation method t =>
    (InterpolationMethod.ofMethod? method).map fun m => .interpolation m t.xs t.ys
  | .linear method t =>
    (Report.stationary? method t.w).map fun m => .linear m t.rows t.b t.x₀ t.control
  | .compareRoots t => some (.compareRoots t.texts t.control)
  | .compareInterpolation t => some (.compareInterpolation t.xs t.ys)
  | .compareLinear t => some (.compareLinear t.rows t.b t.x₀ (t.w.getD 1) t.control)

theorem method_of_question {texts : RootTexts} {method : Method} {question : RootQuestion}
    (h : texts.question? method = some question) : question.method = method := by
  cases method <;> cases h <;> rfl

theorem method_of_interpolation {method : Method} {m : InterpolationMethod}
    (h : InterpolationMethod.ofMethod? method = some m) : m.method = method := by
  simpa using List.find?_some h

theorem method_of_stationary {method : Method} {w : Option α} {m : Stationary α}
    (h : Report.stationary? method w = some m) : m.method = method := by
  cases method <;> cases h <;> rfl

/-- A task that hands over a call reports what comes back. -/
theorem report_of_call {task : Task α} {call : EngineCall α} (h : task.call? = some call) :
    task.report = call.report := by
  cases task with
  | root method t =>
    obtain ⟨question, hquestion, rfl⟩ := Option.map_eq_some_iff.1 h
    obtain rfl := method_of_question hquestion
    rw [report, Report.ofRootTask, hquestion]
    rfl
  | interpolation method t =>
    obtain ⟨m, hm, rfl⟩ := Option.map_eq_some_iff.1 h
    obtain rfl := method_of_interpolation hm
    rw [report, Report.ofPointsTask, hm]
    rfl
  | linear method t =>
    obtain ⟨m, hm, rfl⟩ := Option.map_eq_some_iff.1 h
    obtain rfl := method_of_stationary hm
    rw [report, Report.ofLinearTask, hm]
    rfl
  | compareRoots t | compareInterpolation t | compareLinear t =>
    cases h
    rfl

end Calls

/-! ### Outcomes -/

section Outcomes

variable {τ υ : Type} {fault : TaskError → Prop} {good : τ → Prop} {x : Except TaskError τ}

/-- The outcome is a value that is good, or a fault. -/
def Gives (fault : TaskError → Prop) (x : Except TaskError τ) (good : τ → Prop) : Prop :=
  match x with
  | .ok v => good v
  | .error e => fault e

theorem Gives.bind {k : τ → Except TaskError υ} {good' : υ → Prop} (hx : Gives fault x good)
    (hk : ∀ v, good v → Gives fault (k v) good') : Gives fault (x >>= k) good' := by
  cases x with
  | ok v => exact hk v hx
  | error e => exact hx

theorem Gives.imp {good' : τ → Prop} (hx : Gives fault x good) (h : ∀ v, good v → good' v) :
    Gives fault x good' := by
  cases x with
  | ok v => exact h v hx
  | error e => exact hx

theorem Gives.map {f : τ → υ} {good' : υ → Prop} (hx : Gives fault x good)
    (hf : ∀ v, good v → good' (f v)) : Gives fault (x.map f) good' := by
  cases x with
  | ok v => exact hf v hx
  | error e => exact hx

theorem Gives.self (hx : Gives fault x good) : Gives fault x fun v => x = .ok v ∧ good v := by
  cases x with
  | ok v => exact ⟨rfl, hx⟩
  | error e => exact hx

end Outcomes

/-! ### Looking up and reading entries -/

section Lookups

variable {α : Type} [Scalar α] {τ : Type} {s : Section} {d : Demand} {key : String}

theorem gives_required (hd : Demand.ofTitle? s.title = some d) (hkey : key ∈ d.required) :
    Gives (IsFault α s) (s.required key) fun text => s.get? key = some text := by
  rw [Section.required]
  split
  · assumption
  · rename_i hget
    exact .missing hd hkey hget

theorem gives_requireAll (hd : Demand.ofTitle? s.title = some d) {keys : List String}
    (hkeys : ∀ key ∈ keys, key ∈ d.required) :
    Gives (IsFault α s) (requireAll s keys) fun _ =>
      ∀ key ∈ keys, ∃ text, s.get? key = some text := by
  induction keys with
  | nil => exact List.forall_mem_nil _
  | cons key keys ih =>
    obtain ⟨hkey, hkeys⟩ := List.forall_mem_cons.1 hkeys
    have hfirst := gives_required (α := α) hd hkey
    rw [requireAll]
    cases hrequired : s.required key with
    | error e =>
      rw [hrequired] at hfirst
      exact hfirst
    | ok text =>
      rw [hrequired] at hfirst
      exact (ih hkeys).imp fun _ hrest => List.forall_mem_cons.2 ⟨⟨text, hfirst⟩, hrest⟩

theorem gives_readValue (hd : Demand.ofTitle? s.title = some d)
    {read : String → Except ValueFault τ} {kind : ValueKind} (hkey : (key, kind) ∈ d.values)
    (hcheck : ∀ text, kind.check α text = (read text).map fun _ => ()) :
    Gives (IsFault α s) (s.readValue read key) fun v =>
      s.readValue read key = .ok v ∧ s.Reads α key kind := by
  apply Gives.self
  cases hget : s.get? key with
  | none =>
    have hnone : s.readValue read key = .ok none := by rw [Section.readValue, hget]
    rw [hnone]
    intro text htext
    rw [hget] at htext
    cases htext
  | some text =>
    have htext := hcheck text
    cases hread : read text with
    | ok v =>
      rw [Section.readValue_of_ok hget hread]
      intro text' htext'
      rw [hget] at htext'
      cases htext'
      rw [htext, hread]
      rfl
    | error fault =>
      rw [Section.readValue_of_error hget hread]
      refine .unreadable hd hkey hget ?_
      rw [htext, hread]
      rfl

theorem gives_control (hd : Demand.ofTitle? s.title = some d)
    (hvalues : ∀ entry ∈ Demand.controlValues, entry ∈ d.values) :
    Gives (IsFault α s) (s.control : Except TaskError (Control α)) fun c =>
      s.control = .ok c ∧ ∀ entry ∈ Demand.controlValues, s.Reads α entry.1 entry.2 := by
  have htol := gives_readValue (α := α) hd (hvalues _ (.head _)) fun _ => rfl
  have hniter := gives_readValue (α := α) hd (hvalues _ (.tail _ (.head _))) fun _ => rfl
  have hrelative :=
    gives_readValue (α := α) hd (hvalues _ (.tail _ (.tail _ (.head _)))) fun _ => rfl
  apply Gives.self
  refine htol.bind fun tolerance htol => hniter.bind fun niter hniter =>
    hrelative.bind fun relative hrelative => ?_
  rintro _ (_ | ⟨_, _ | ⟨_, _ | ⟨_, ⟨⟩⟩⟩⟩)
  · exact htol.2
  · exact hniter.2
  · exact hrelative.2

/-- An entry that is there and was read has a value. -/
theorem exists_of_readValue {read : String → Except ValueFault τ} {v : Option τ}
    (hkey : ∃ text, s.get? key = some text) (h : s.readValue read key = .ok v) :
    ∃ w, v = some w := by
  obtain ⟨text, hget⟩ := hkey
  cases hread : read text with
  | ok w =>
    rw [Section.readValue_of_ok hget hread] at h
    cases h
    exact ⟨w, rfl⟩
  | error fault =>
    rw [Section.readValue_of_error hget hread] at h
    cases h

end Lookups

/-! ### Building tasks -/

section Building

variable {α : Type} [Scalar α] {s : Section}

theorem bracketOf_eq_some_iff {a b : String} :
    bracketOf s = some (a, b) ↔ s.get? "a" = some a ∧ s.get? "b" = some b := by
  rw [bracketOf]
  cases s.get? "a" <;> cases s.get? "b" <;> simp

theorem gives_rootTask {keys : List String} (hd : Demand.ofTitle? s.title = some (.root keys)) :
    Gives (IsFault α s) (rootTask s keys) fun t : RootTask α =>
      s.Meets α (.root keys) ∧ IsRootTaskOf s t := by
  have hkeys := gives_requireAll (α := α) hd fun key hkey => List.mem_append_left _ hkey
  have hf := gives_required (α := α) hd (List.mem_append_right keys (List.mem_singleton_self "fx"))
  refine hkeys.bind fun _ hkeys => hf.bind fun f hf =>
    (gives_control hd fun _ h => h).bind fun control hcontrol => ?_
  refine ⟨⟨?_, hcontrol.2⟩, ⟨hf, rfl, fun a b => bracketOf_eq_some_iff, rfl, rfl, hcontrol.1⟩⟩
  intro key hkey
  rcases List.mem_append.1 hkey with hkey | hkey
  · exact hkeys key hkey
  · rw [List.mem_singleton.1 hkey]
    exact ⟨f, hf⟩

theorem gives_pointsTask (hd : Demand.ofTitle? s.title = some .points) :
    Gives (IsFault α s) (pointsTask s) fun t : PointsTask α =>
      s.Meets α .points ∧ IsPointsTaskOf s t := by
  have hkeys := gives_requireAll (α := α) hd fun _ hkey => hkey
  have hxs := gives_readValue (α := α) hd (.head _) fun _ => rfl
  have hys := gives_readValue (α := α) hd (.tail _ (.head _)) fun _ => rfl
  refine hkeys.bind fun _ hkeys => hxs.bind fun xs hxs => hys.bind fun ys hys => ?_
  obtain ⟨xs, rfl⟩ := exists_of_readValue (hkeys _ (.head _)) hxs.1
  obtain ⟨ys, rfl⟩ := exists_of_readValue (hkeys _ (.tail _ (.head _))) hys.1
  refine ⟨⟨hkeys, ?_⟩, ⟨hxs.1, hys.1⟩⟩
  rintro _ (_ | ⟨_, _ | ⟨_, ⟨⟩⟩⟩)
  · exact hxs.2
  · exact hys.2

/-- The keys that a linear task needs beside the system. -/
def factorKeys (needsFactor : Bool) : List String := if needsFactor then ["w"] else []

theorem isFirstVector {b : List α} {v : Option (List α)} (h : s.vector "x0" = .ok v) :
    s.vector "x0" = .ok (some (v.getD (List.replicate b.length 0))) ∨
      s.get? "x0" = none ∧
        v.getD (List.replicate b.length 0) = List.replicate b.length (0 : α) := by
  cases v with
  | some x₀ => exact .inl h
  | none =>
    refine .inr ⟨Option.eq_none_iff_forall_ne_some.2 fun text hget => ?_, rfl⟩
    obtain ⟨x₀, ⟨⟩⟩ := exists_of_readValue ⟨text, hget⟩ h

theorem gives_linearTask {needsFactor : Bool}
    (hd : Demand.ofTitle? s.title = some (.linear (factorKeys needsFactor))) :
    Gives (IsFault α s) (linearTask s needsFactor) fun t : LinearTask α =>
      s.Meets α (.linear (factorKeys needsFactor)) ∧ IsLinearTaskOf s t := by
  -- the keys that are checked are those of the demand, for either kind of method
  have hlist : (if needsFactor then ["A", "b", "w"] else ["A", "b"]) =
      (Demand.linear (factorKeys needsFactor)).required := by
    cases needsFactor <;> rfl
  have hkeys := gives_requireAll (α := α) hd fun _ hkey => hkey
  have hb := gives_readValue (α := α) hd (.tail _ (.head _)) fun _ => rfl
  have hx₀ := gives_readValue (α := α) hd (.tail _ (.tail _ (.head _))) fun _ => rfl
  have hrows := gives_readValue (α := α) hd (.head _) fun _ => rfl
  have hw := gives_readValue (α := α) hd (.tail _ (.tail _ (.tail _ (.head _)))) fun _ => rfl
  have hcontrol := gives_control (α := α) hd fun _ h => List.mem_append_right _ h
  rw [← hlist] at hkeys
  refine hkeys.bind fun _ hkeys => hb.bind fun b hb => hx₀.bind fun x₀ hx₀ =>
    hrows.bind fun rows hrows => hw.bind fun w hw => hcontrol.bind fun control hcontrol => ?_
  rw [hlist] at hkeys
  obtain ⟨b, rfl⟩ := exists_of_readValue (hkeys _ (.tail _ (.head _))) hb.1
  obtain ⟨rows, rfl⟩ := exists_of_readValue (hkeys _ (.head _)) hrows.1
  refine ⟨⟨hkeys, ?_⟩, ⟨hrows.1, hb.1, isFirstVector hx₀.1, hw.1, hcontrol.1⟩⟩
  rintro _ (_ | ⟨_, _ | ⟨_, _ | ⟨_, _ | ⟨_, hentry⟩⟩⟩⟩)
  · exact hrows.2
  · exact hb.2
  · exact hx₀.2
  · exact hw.2
  · exact hcontrol.2 _ hentry

/-! ### Handing over -/

/-- A bracketing method is asked with the bracket of the section. -/
theorem exists_bracket {t : RootTask α} (ht : IsRootTaskOf s t)
    (hkeys : ∀ key ∈ ["a", "b"], ∃ text, s.get? key = some text) :
    ∃ a b, t.texts.bracket = some (a, b) ∧ s.get? "a" = some a ∧ s.get? "b" = some b := by
  obtain ⟨a, ha⟩ := hkeys "a" (.head _)
  obtain ⟨b, hb⟩ := hkeys "b" (.tail _ (.head _))
  exact ⟨a, b, (ht.bracket a b).2 ⟨ha, hb⟩, ha, hb⟩

/-- A root finder is asked with the entries of its keys. -/
theorem exists_question {method : Method} {t : RootTask α} (h : method.family = .rootFinding)
    (hkeys : ∀ key ∈ rootKeys method, ∃ text, s.get? key = some text) (ht : IsRootTaskOf s t) :
    ∃ question, t.texts.question? method = some question ∧
      ∀ entry ∈ questionEntries question, s.get? entry.1 = some entry.2 := by
  have hf := ht.formula
  cases method <;> try cases h
  case bisection | falsePosition =>
    obtain ⟨a, b, hbracket, ha, hb⟩ := exists_bracket ht hkeys
    refine ⟨_, rfl, ?_⟩
    simp [questionEntries, hbracket, ha, hb, hf]
  case fixedPoint =>
    obtain ⟨g, hg⟩ := hkeys "gx" (.head _)
    obtain ⟨seed, hseed⟩ := hkeys "x0" (.tail _ (.head _))
    refine ⟨_, rfl, ?_⟩
    simp [questionEntries, ht.map, ht.seed₀, hg, hseed, hf]
  case newton | multipleRoots =>
    obtain ⟨seed, hseed⟩ := hkeys "x0" (.head _)
    refine ⟨_, rfl, ?_⟩
    simp [questionEntries, ht.seed₀, hseed, hf]
  case secant =>
    obtain ⟨seed₀, hseed₀⟩ := hkeys "x0" (.head _)
    obtain ⟨seed₁, hseed₁⟩ := hkeys "x1" (.tail _ (.head _))
    refine ⟨_, rfl, ?_⟩
    simp [questionEntries, ht.seed₀, ht.seed₁, hseed₀, hseed₁, hf]

theorem exists_interpolation {method : Method} (h : method.family = .interpolation) :
    ∃ m, InterpolationMethod.ofMethod? method = some m := by
  cases method <;> try cases h
  exacts [⟨.vandermonde, rfl⟩, ⟨.dividedDifferences, rfl⟩, ⟨.lagrange, rfl⟩,
    ⟨.spline .linear, rfl⟩, ⟨.spline .cubic, rfl⟩]

/-- A stationary method is run with the factor that is there. -/
theorem exists_stationary {method : Method} {w : Option α} (h : method.family = .linearSystem)
    (hw : method = .sor → ∃ v, w = some v) :
    ∃ m, Report.stationary? method w = some m ∧ ∀ v, m = .sor v → w = some v := by
  cases method <;> try cases h
  · exact ⟨.jacobi, rfl, nofun⟩
  · exact ⟨.gaussSeidel, rfl, nofun⟩
  · obtain ⟨v, rfl⟩ := hw rfl
    exact ⟨.sor v, rfl, by rintro _ ⟨⟩; rfl⟩

/-! ### Titles -/

/-- The demand of a method. -/
def Demand.ofMethod (method : Method) : Demand :=
  match method.family with
  | .rootFinding => .root (rootKeys method)
  | .interpolation => .points
  | .linearSystem => .linear (factorKeys (method = .sor))

theorem ofTitle_of_method {title : String} {method : Method}
    (h : methodOfTitle? title = some method) :
    Demand.ofTitle? title = some (.ofMethod method) := by
  unfold methodOfTitle? at h
  split at h <;> cases h <;> rfl

/-- A title of neither a method nor a comparison is not one of a task. -/
theorem ofTitle_eq_none {title : String} (hmethod : methodOfTitle? title = none)
    (hroots : title ≠ "compare_roots") (hpoints : title ≠ "compare_interpolation")
    (hsystem : title ≠ "compare_linear") : Demand.ofTitle? title = none := by
  unfold Demand.ofTitle?
  split <;> first | rfl | contradiction

/-- The task runs its method on the entries of the section, which has all that its title
    demands. -/
structure RunsOnEntries (s : Section) (task : Task α) : Prop where
  inFamily : task.IsInFamily
  call : ∃ call, task.call? = some call ∧ call.IsFrom s
  meets : ∃ d, Demand.ofTitle? s.title = some d ∧ s.Meets α d

theorem gives_ofMethod {method : Method} (h : methodOfTitle? s.title = some method) :
    Gives (IsFault α s) (ofMethod s method) fun task : Task α => RunsOnEntries s task := by
  have hd := ofTitle_of_method h
  rw [ofMethod]
  cases hfamily : method.family with
  | rootFinding =>
    rw [Demand.ofMethod, hfamily] at hd
    refine (gives_rootTask hd).map fun t ht => ⟨hfamily, ?_, _, hd, ht.1⟩
    have hkeys : ∀ key ∈ rootKeys method, ∃ text, s.get? key = some text := fun key hkey =>
      ht.1.required key (List.mem_append_left _ hkey)
    obtain ⟨question, hquestion, hentries⟩ := exists_question hfamily hkeys ht.2
    exact ⟨.root question t.control, Option.map_eq_some_iff.2 ⟨_, hquestion, rfl⟩,
      by rw [method_of_question hquestion, h], hentries, ht.2.control⟩
  | interpolation =>
    rw [Demand.ofMethod, hfamily] at hd
    refine (gives_pointsTask hd).map fun t ht => ⟨hfamily, ?_, _, hd, ht.1⟩
    obtain ⟨m, hm⟩ := exists_interpolation hfamily
    exact ⟨.interpolation m t.xs t.ys, Option.map_eq_some_iff.2 ⟨_, hm, rfl⟩,
      by rw [method_of_interpolation hm, h], ht.2⟩
  | linearSystem =>
    rw [Demand.ofMethod, hfamily] at hd
    refine (gives_linearTask hd).map fun t ht => ⟨hfamily, ?_, _, hd, ht.1⟩
    have hw : method = .sor → ∃ v, t.w = some v := by
      rintro rfl
      exact exists_of_readValue (ht.1.required "w" (by decide)) ht.2.w
    -- the factor was demanded, so the one that stands in for a missing factor is not used
    obtain ⟨m, hm, hfactor⟩ := exists_stationary hfamily hw
    exact ⟨.linear m t.rows t.b t.x₀ t.control, Option.map_eq_some_iff.2 ⟨_, hm, rfl⟩,
      by rw [method_of_stationary hm, h], t.w, ht.2, hfactor⟩

theorem gives_ofSection (s : Section) :
    Gives (IsFault α s) (ofSection s) fun task : Task α => RunsOnEntries s task := by
  unfold ofSection
  split
  · rename_i htitle
    have hd : Demand.ofTitle? s.title = some (.root []) := by rw [htitle]; rfl
    refine (gives_rootTask hd).map fun t ht => ⟨trivial, ?_, _, hd, ht.1⟩
    exact ⟨_, rfl, htitle, ht.2⟩
  · rename_i htitle
    have hd : Demand.ofTitle? s.title = some .points := by rw [htitle]; rfl
    refine (gives_pointsTask hd).map fun t ht => ⟨trivial, ?_, _, hd, ht.1⟩
    exact ⟨_, rfl, htitle, ht.2⟩
  · rename_i htitle
    have hd : Demand.ofTitle? s.title = some (.linear (factorKeys true)) := by rw [htitle]; rfl
    refine (gives_linearTask hd).map fun t ht => ⟨trivial, ?_, _, hd, ht.1⟩
    -- as for over-relaxation, the comparison has its factor from the section
    obtain ⟨rows, b, x₀, w, control⟩ := t
    obtain ⟨w, rfl⟩ := exists_of_readValue (ht.1.required "w" (by decide)) ht.2.w
    exact ⟨_, rfl, htitle, ht.2⟩
  · rename_i title hroots hpoints hsystem
    cases hmethod : methodOfTitle? s.title with
    | some method => exact gives_ofMethod hmethod
    | none => exact .unknownTitle (ofTitle_eq_none hmethod hroots hpoints hsystem)

/-- A section that has all that its title demands has no fault. -/
theorem not_isFault_of_meets {d : Demand} (hd : Demand.ofTitle? s.title = some d)
    (h : s.Meets α d) (e : TaskError) : ¬ IsFault α s e := by
  intro hfault
  cases hfault with
  | unknownTitle htitle =>
    rw [hd] at htitle
    cases htitle
  | missing hd' hkey hget =>
    cases hd.symm.trans hd'
    obtain ⟨text, htext⟩ := h.required _ hkey
    rw [hget] at htext
    cases htext
  | unreadable hd' hkey hget hcheck =>
    cases hd.symm.trans hd'
    rw [h.readable _ hkey _ hget] at hcheck
    cases hcheck

/-- A task that was built runs a method of its family on the entries of its section, and a
    section from which no task is built has the fault that is reported. -/
theorem built_task_runs_on_entries (s : Section) :
    (∀ task : Task α, ofSection s = .ok task →
      task.IsInFamily ∧
        (∃ call, task.call? = some call ∧ call.IsFrom s ∧ task.report = call.report) ∧
        ∀ e, ¬ IsFault α s e) ∧
      ∀ e, (ofSection s : Except TaskError (Task α)) = .error e → IsFault α s e := by
  have houtcome := gives_ofSection (α := α) s
  constructor
  · intro task htask
    rw [htask] at houtcome
    obtain ⟨hfamily, ⟨call, hcall, hfrom⟩, d, hd, hmeets⟩ := houtcome
    exact ⟨hfamily, ⟨call, hcall, hfrom, report_of_call hcall⟩, not_isFault_of_meets hd hmeets⟩
  · intro e he
    rw [he] at houtcome
    exact houtcome

end Building

/-- A system without a first vector is solved from zero, and over-relaxation without a factor
    is no task. -/
theorem jacobi_runs_from_zero :
    let s : Section := ⟨"jacobi", 1, [("A", "4,1;1,3"), ("b", "1,2")]⟩
    let task : Task Float := .linear .jacobi ⟨[[4, 1], [1, 3]], [1, 2], [0, 0], none, .standard⟩
    let s' : Section := { s with title := "sor" }
    (ofSection s = .ok task ∧ task.IsInFamily ∧
        (∃ call, task.call? = some call ∧ call.IsFrom s ∧ task.report = call.report) ∧
        ∀ e, ¬ IsFault Float s e) ∧
      (ofSection s' : Except TaskError (Task Float)) = .error (.missingKey "sor" "w") ∧
      IsFault Float s' (.missingKey "sor" "w") := by
  intro s task s'
  let bare (v : Float) (h : v.isFinite = true) : LaidNumber :=
    ⟨[], v, [], h, List.forall_mem_nil _, List.forall_mem_nil _⟩
  let row : List LaidNumber := [bare 1 (by decide +kernel), bare 2 (by decide +kernel)]
  let rows : List (List LaidNumber) := [[bare 4 (by decide +kernel), bare 1 (by decide +kernel)],
    [bare 1 (by decide +kernel), bare 3 (by decide +kernel)]]
  have hA : s.get? "A" = some (String.ofList (rowsText rows)) := by decide +kernel
  have hb : s.get? "b" = some (String.ofList (rowText row)) := by decide +kernel
  have hmatrix : s.matrix "A" = .ok (some [[(4 : Float), 1], [1, 3]]) :=
    Section.readValue_of_ok hA (matrixValue_rowsText (by simp [rows]) (by simp [rows]))
  have hvector : s.vector "b" = .ok (some [(1 : Float), 2]) :=
    Section.readValue_of_ok hb (vectorValue_rowText (by simp [row]))
  have htask : ofSection s = .ok task := by
    have hlinear : linearTask s false =
        .ok (⟨[[4, 1], [1, 3]], [1, 2], [0, 0], none, .standard⟩ : LinearTask Float) := by
      unfold linearTask
      rw [hmatrix, hvector]
      rfl
    have hmethod : (ofSection s : Except TaskError (Task Float)) =
        (linearTask s false).map (.linear .jacobi) := rfl
    rw [hmethod, hlinear]
    rfl
  have herror : (ofSection s' : Except TaskError (Task Float)) =
      .error (.missingKey "sor" "w") := rfl
  exact ⟨⟨htask, (built_task_runs_on_entries s).1 task htask⟩, herror,
    (built_task_runs_on_entries s').2 _ herror⟩

end NumericMethods.Task
