/-
  NumericMethods/Proofs/Stationary/Overflow.lean
  ==============================================
  **What a stationary iteration that overflows returns.**

  The entry of a matrix times a number that is not finite is not finite either, so that one
  such component spoils every component of the next vector: the vectors of a run that ends
  in a finite one are all finite.  A last vector that is not finite is returned only if a
  component of the last step is undefined, as the difference of two infinite numbers is;
  otherwise an infinite component makes the size of the step infinite, and no tolerance
  admits that (`Stationary.solution_isFinite_iff`).

  The largest magnitude of a step passes over its undefined components.  A run that has
  overflowed everywhere therefore has steps of size zero, and converges to a vector of
  undefined numbers (`Stationary.jacobi_converges_to_undefined`).
-/
import Mathlib
import NumericMethods.Proofs.Scalar.Exact
import NumericMethods.Proofs.Scalar.Overflow
import NumericMethods.Proofs.Stationary.Run

namespace NumericMethods

variable {α : Type} [Scalar α]

/-- Neither infinite nor undefined anywhere. -/
def AllFinite (xs : List α) : Prop := ∀ x ∈ xs, Scalar.isFinite x = true

/-- Undefined nowhere. -/
def AllDefined (xs : List α) : Prop := ∀ x ∈ xs, Scalar.isUndefined x = false

/-- The last step of a trace, without components if there is none. -/
def lastDifference (rows : List (VectorRow α)) : List α :=
  match rows.reverse with
  | r' :: r :: _ => List.zipWith (· - ·) r'.point r.point
  | _ => []

theorem lastDifference_append (earlier : List (VectorRow α)) (r r' : VectorRow α) :
    lastDifference (earlier ++ [r, r']) = List.zipWith (· - ·) r'.point r.point := by
  simp [lastDifference]

/-- The error of a step of infinite size to an infinite vector is below no tolerance. -/
theorem Control.not_lt_of_measure [Scalar.IsOverflowing α] {c : Control α}
    {size magnitude error : α} (hsize : Scalar.IsTop size) (hmagnitude : Scalar.IsTop magnitude)
    (h : c.measure size magnitude = .ok error) (t : α) : ¬ error < t := by
  unfold Control.measure at h
  split at h
  · split at h
    · cases h
    · cases h
      exact Scalar.IsOverflowing.not_div_lt hsize hmagnitude t
  · cases h
    exact hsize.not_lt t

namespace Stationary

open DenseMatrix

variable {n : ℕ} {g : AffineMap α n} {c : Control α} {x y x₀ : Vector α n}
variable {t t' : State α n} {states : List (State α n)}

omit [Scalar α] in
theorem forall_mem_toList {p : α → Prop} : (∀ v ∈ x.toList, p v) ↔ ∀ i, p (x.get i) := by
  simp only [Vector.mem_toList_iff, Vector.forall_mem_iff_forall_getElem, Fin.forall_iff,
    Vector.get_eq_getElem]

theorem difference_eq :
    List.zipWith (· - ·) y.toList x.toList = (subVec y x).toList := by
  rw [subVec, Vector.toList_zipWith]

theorem get_apply (i : Fin n) : (g.apply x).get i =
    Scalar.accumulated (products (g.matrix.get i) x) + g.offset.get i := by
  simp only [AffineMap.apply, addVec, mulVec, Vector.get_eq_getElem, Vector.getElem_zipWith,
    Vector.getElem_map]

theorem mul_mem_products (i : Fin n) : x.get i * y.get i ∈ products x y := by
  rw [products, Vector.mem_toList_iff, Vector.mem_iff_getElem]
  exact ⟨i, i.isLt, by rw [Vector.getElem_zipWith]; rfl⟩

variable [Scalar.IsOverflowing α]

/-! ### One step -/

/-- A component that is not finite leaves none that is. -/
theorem allFinite_of_apply (h : AllFinite (g.apply x).toList) : AllFinite x.toList := by
  rw [AllFinite, forall_mem_toList] at h ⊢
  intro j
  -- component `j` is a factor in every row, in particular in row `j`
  have hj := h j
  rw [get_apply] at hj
  have hsum := (Scalar.IsOverflowing.isFinite_of_add hj).1
  have hproduct := Scalar.isFinite_of_accumulated hsum _ (mul_mem_products j)
  exact (Scalar.IsOverflowing.isFinite_of_mul hproduct).2

theorem allDefined_subVec (hx : AllFinite x.toList) (hy : AllFinite y.toList) :
    AllDefined (subVec y x).toList := by
  rw [AllFinite, forall_mem_toList] at hx hy
  rw [AllDefined, forall_mem_toList]
  intro i
  rw [subVec, Vector.get_eq_getElem, Vector.getElem_zipWith]
  exact Scalar.IsOverflowing.isDefined_sub (hy i) (hx i)

/-- A step to a vector that is not finite is infinite, and so is the vector, unless the step
    is undefined somewhere. -/
theorem isTop_of_not_allFinite (hy : ¬ AllFinite y.toList)
    (hdefined : AllDefined (subVec y x).toList) :
    Scalar.IsTop (normInf (subVec y x)) ∧ Scalar.IsTop (normInf y) := by
  rw [AllFinite, forall_mem_toList, not_forall] at hy
  rw [AllDefined, forall_mem_toList] at hdefined
  obtain ⟨i, hi⟩ := hy
  have hget : (subVec y x).get i = y.get i - x.get i := by
    rw [subVec, Vector.get_eq_getElem, Vector.getElem_zipWith]
    rfl
  have hstep := hdefined i
  rw [hget] at hstep
  have hmem (v : Vector α n) : v.get i ∈ v.toList :=
    Vector.mem_toList_iff.2 (Vector.getElem_mem i.isLt)
  constructor
  · refine Scalar.isTop_largestMagnitude (hmem _) ?_ (hdefined i)
    rw [hget, ← Bool.not_eq_true]
    exact fun hfinite => hi (Scalar.IsOverflowing.isFinite_of_sub hfinite).1
  · exact Scalar.isTop_largestMagnitude (hmem _) (Bool.eq_false_iff.2 hi)
      (Scalar.IsOverflowing.isDefined_of_sub hstep)

/-- A step that ends the process leads to a finite vector exactly if it is defined. -/
theorem allFinite_iff_of_step (hstep : (process g c).step t = .ok t')
    (hdone : (process g c).isDone c t' = true) :
    AllFinite t'.x.toList ↔ AllDefined (subVec t'.x t.x).toList := by
  obtain ⟨-, hx, hmeasure⟩ := step_eq_ok_iff.1 hstep
  constructor
  · intro hfinite
    refine allDefined_subVec ?_ hfinite
    rw [hx] at hfinite
    exact allFinite_of_apply hfinite
  · intro hdefined
    by_contra hfinite
    obtain ⟨hsize, hmagnitude⟩ := isTop_of_not_allFinite hfinite hdefined
    exact Control.not_lt_of_measure hsize hmagnitude hmeasure _ (isDone_iff.1 hdone)

/-! ### Whole runs -/

/-- If the last vector of a run is finite, all of them are. -/
theorem allFinite_of_last (h : (process g c).Runs c t states) (hlast : states.getLast? = some t')
    (hfinite : AllFinite t'.x.toList) : ∀ u ∈ states, AllFinite u.x.toList := by
  induction h with
  | ends hdone =>
    cases hlast
    simpa using hfinite
  | @goesOn u u' states hdone hstep hrest ih =>
    have hall := ih (by rwa [List.getLast?_cons_of_ne_nil hrest.ne_nil] at hlast)
    have hnext : AllFinite u'.x.toList := hall u' (List.mem_of_mem_head? hrest.head?_eq)
    rw [(step_eq_ok_iff.1 hstep).2.1] at hnext
    exact List.forall_mem_cons.2 ⟨allFinite_of_apply hnext, hall⟩

theorem allFinite_iff_of_runs (h : (process g c).Runs c (start x₀) states)
    (hx₀ : AllFinite x₀.toList) (hlast : states.getLast? = some t') :
    AllFinite t'.x.toList ↔ AllDefined (lastDifference (states.map State.row)) := by
  cases h with
  | ends hdone =>
    cases hlast
    exact iff_of_true hx₀ nofun
  | goesOn hdone hstep hrest =>
    have hruns := Process.Runs.goesOn hdone hstep hrest
    obtain ⟨earlier, u, u', heq, hstep', hdone'⟩ := hruns.exists_eq_append (hruns.one_lt_length hdone)
    rw [heq] at hlast ⊢
    obtain rfl : u' = t' := by simpa using hlast
    rw [List.map_append, List.map_cons, List.map_cons, List.map_nil, lastDifference_append]
    change _ ↔ AllDefined (List.zipWith _ u'.x.toList u.x.toList)
    rw [difference_eq]
    exact allFinite_iff_of_step hstep' hdone'

theorem solution_allFinite_iff {s : Stationary α} {A : List (List α)} {b v : List α}
    {solution : StationarySolution α} (hv : AllFinite v) (h : s.solve A b v c = .ok solution) :
    (AllFinite solution.x.toList ↔ AllDefined (lastDifference solution.trace.rows)) ∧
      (AllFinite solution.x.toList ↔ ∀ r ∈ solution.trace.rows, AllFinite r.point) := by
  obtain ⟨n, A, b, x₀, rfl, rfl, rfl, hsolve⟩ := exists_of_solve_eq_ok h
  obtain ⟨-, -, g, -, hrun⟩ := solveSquare_eq_ok_iff.1 hsolve
  obtain ⟨states, ⟨hruns, -⟩, rfl⟩ := iterate_eq_ok_iff.1 hrun
  obtain ⟨t, hlast, -⟩ := hruns.getLast?_eq
  have hx : (s.solutionOf g x₀ states).x = t.x := by
    change (states.getLastD (start x₀)).x = t.x
    rw [List.getLastD_eq_getLast?, hlast]
    rfl
  refine ⟨?_, fun hfinite => ?_, fun hall => ?_⟩
  · rw [hx]
    exact allFinite_iff_of_runs hruns hv hlast
  · rw [hx] at hfinite
    exact List.forall_mem_map.2 (allFinite_of_last hruns hlast hfinite)
  · rw [hx]
    exact hall t.row (List.mem_map_of_mem (List.mem_of_getLast? hlast))

/-! ### Binary floating point numbers -/

section Binary

open Binary64 (withBalance)

/-- A solution is finite exactly if no component of the last step is undefined, and then all
    vectors of the run are. -/
theorem solution_isFinite_iff (balance : Float → Float) :
    let _ := withBalance balance
    ∀ (s : Stationary Float) A b x₀ c (solution : StationarySolution Float),
      (∀ v ∈ x₀, v.isFinite = true) → s.solve A b x₀ c = .ok solution →
        ((∀ v ∈ solution.x.toList, v.isFinite = true) ↔
            ∀ d ∈ lastDifference solution.trace.rows, d.isNaN = false) ∧
          ((∀ v ∈ solution.x.toList, v.isFinite = true) ↔
            ∀ r ∈ solution.trace.rows, ∀ v ∈ r.point, v.isFinite = true) := by
  intro _ s A b x₀ c solution hx₀ h
  have _ := Binary64.isOverflowing balance
  obtain ⟨hdefined, hrows⟩ := solution_allFinite_iff hx₀ h
  refine ⟨hdefined.trans (forall₂_congr fun d _ => ?_), hrows⟩
  rw [Binary64.isUndefined_eq]
  rfl

/-- Two steps of the method of Jacobi, on a system whose rows need no scale but one. -/
theorem solution_isFinite_iff_two_steps :
    let _ := withBalance fun _ => 1
    let s : Stationary Float := .jacobi
    (∀ v ∈ [0, 0], Float.isFinite v = true) ∧
      ∃ solution, s.solve [[1, 0.5], [0.25, 1]] [1, 1] [0, 0] ⟨0.6, 25, false⟩ = .ok solution ∧
        solution.trace.rows.map (·.point) = [[0, 0], [1, 1], [0.5, 0.75]] ∧
          ((∀ v ∈ solution.x.toList, v.isFinite = true) ↔
              ∀ d ∈ lastDifference solution.trace.rows, d.isNaN = false) ∧
            ((∀ v ∈ solution.x.toList, v.isFinite = true) ↔
              ∀ r ∈ solution.trace.rows, ∀ v ∈ r.point, v.isFinite = true) := by
  intro _ s
  have hx₀ : ∀ v ∈ [0, 0], Float.isFinite v = true := by decide +kernel
  obtain ⟨solution, hsolve, hpoints⟩ : ∃ solution : StationarySolution Float,
      s.solve [[1, 0.5], [0.25, 1]] [1, 1] [0, 0] ⟨0.6, 25, false⟩ = .ok solution ∧
        solution.trace.rows.map (·.point) = [[0, 0], [1, 1], [0.5, 0.75]] :=
    exists_ok_of_any (by decide +kernel)
  exact ⟨hx₀, solution, hsolve, hpoints,
    solution_isFinite_iff (fun _ => 1) s _ _ _ _ solution hx₀ hsolve⟩

/-- The first step overflows, and the second one is undefined in both components: the run
    converges to no number. -/
theorem jacobi_converges_to_undefined :
    let _ := withBalance fun _ => 1
    let s : Stationary Float := .jacobi
    (∀ v ∈ [1e200, 1e200], Float.isFinite v = true) ∧
      ∃ solution, s.solve [[1, 1e200], [1e200, 1]] [1, 1] [1e200, 1e200] ⟨1e-6, 25, false⟩ =
          .ok solution ∧
        solution.trace.rows.map (fun r => r.point.map Float.isFinite) =
            [[true, true], [false, false], [false, false]] ∧
          (∀ v ∈ solution.x.toList, v.isNaN = true) ∧
            ∀ d ∈ lastDifference solution.trace.rows, d.isNaN = true := by
  intro _ s
  exact ⟨by decide +kernel, exists_ok_of_any (by decide +kernel)⟩

end Binary

end Stationary

end NumericMethods
