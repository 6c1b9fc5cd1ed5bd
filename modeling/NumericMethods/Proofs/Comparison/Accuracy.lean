/-
  NumericMethods/Proofs/Comparison/Accuracy.lean
  ==============================================
  **What the score of an interpolant says about its values at the data points.**

  The score is the largest residual, found with the larger of two numbers.  It is never
  undefined, and the residuals that it bounds are those that are defined
  (`Interpolant.isLargestDefined_maxNodeResidual`).  Over binary floating point numbers a
  residual of a finite ordinate is undefined exactly if the interpolant is undefined at the
  node, so that the score says nothing of such a node
  (`Comparison.score_bounds_residual_iff`).

  An interpolant whose evaluation overflows at a node may therefore have the best score of
  all (`Comparison.newton_scores_zero_where_undefined`).
-/
import Mathlib
import NumericMethods.Proofs.Comparison.Ranking
import NumericMethods.Proofs.Interpolation.Points
import NumericMethods.Proofs.NumericError
import NumericMethods.Proofs.Scalar.Largest

namespace NumericMethods

/-! ### Scores and reports -/

section Reports

variable {α : Type} [Scalar α] {xs ys : List α}

/-- The errors of an interpolant at the data points. -/
def Interpolant.residuals (p : Interpolant α) (xs ys : List α) : List α :=
  List.zipWith (fun x y => Scalar.abs (p.evaluate x - y)) xs ys

theorem Interpolant.mem_residuals_iff {p : Interpolant α} {r : α} :
    r ∈ p.residuals xs ys ↔
      ∃ point ∈ xs.zip ys, r = Scalar.abs (p.evaluate point.1 - point.2) := by
  rw [residuals, ← List.map_uncurry_zip_eq_zipWith, List.mem_map]
  exact exists_congr fun point => and_congr_right fun _ => eq_comm

theorem Interpolant.isLargestDefined_maxNodeResidual [Scalar.OrdersDefined α]
    (p : Interpolant α) (xs ys : List α) :
    Scalar.IsLargestDefined (p.maxNodeResidual xs ys) (p.residuals xs ys) :=
  Scalar.isLargestDefined_foldl _

/-- A run of a comparison belongs to an interpolant through the points. -/
theorem Comparison.mem_reports_ofPoints_iff {run : ConvergedRun α} :
    .converged run ∈ (Comparison.ofPoints xs ys).reports ↔
      ∃ m ∈ InterpolationMethod.all, ∃ p, m.interpolate xs ys = .ok p ∧
        run = ⟨m.method, 0, p.maxNodeResidual xs ys, p.text⟩ := by
  rw [ofPoints, List.mem_map]
  apply exists_congr
  intro m
  apply and_congr_right
  intro _
  unfold interpolationReport
  cases m.interpolate xs ys with
  | error e => simp
  | ok p => simp [eq_comm]

/-- No score comes before zero. -/
theorem Comparison.totalLe_zero_score [Scalar.OrdersDefined α] {run : ConvergedRun α}
    (h : .converged run ∈ (Comparison.ofPoints xs ys).reports) :
    Scalar.totalLe 0 run.score = true := by
  obtain ⟨m, -, p, -, rfl⟩ := mem_reports_ofPoints_iff.1 h
  change Scalar.totalLe 0 (p.maxNodeResidual xs ys) = true
  rcases (p.isLargestDefined_maxNodeResidual xs ys).eq_zero_or_mem with hzero | hmem
  · rw [hzero]
    nth_rewrite 2 [← Scalar.OrdersDefined.abs_zero]
    exact Scalar.OrdersDefined.totalLe_abs 0
  · obtain ⟨point, -, hr⟩ := Interpolant.mem_residuals_iff.1 hmem
    rw [hr]
    exact Scalar.OrdersDefined.totalLe_abs _

/-- The interpolant by divided differences through admitted points. -/
def NewtonForm.through (xs ys : List α) : NewtonForm α where
  table := (List.range xs.length).map (tableRow (columns xs ys))
  coefficients := (columns xs ys).map fun c => c.headD 0
  nodes := xs

theorem InterpolationMethod.interpolate_dividedDifferences (h : Points.check xs ys 1 = .ok ()) :
    InterpolationMethod.dividedDifferences.interpolate xs ys =
      .ok (.newton (NewtonForm.through xs ys)) := by
  have hN : NewtonForm.ofPoints xs ys = .ok (NewtonForm.through xs ys) :=
    bind_eq_ok_iff.2 ⟨(), h, rfl⟩
  rw [interpolate, hN]
  rfl

theorem InterpolationMethod.method_injective : Function.Injective method := by
  intro m m' h
  rcases m with _ | _ | _ | kind <;> rcases m' with _ | _ | _ | kind' <;>
    (try cases kind) <;> (try cases kind') <;> first | rfl | cases h

end Reports

/-! ### Binary floating point numbers -/

namespace Comparison

open Binary64 (withBalance)

/-- The score of an interpolant is zero or its largest residual that is defined, and bounds the
    residual at a node exactly if the interpolant is defined there.  One that is undefined at
    all nodes has the score zero, and no score comes before it. -/
theorem score_bounds_residual_iff (balance : Float → Float) :
    let _ := withBalance balance
    ∀ (xs ys : List Float) (run : ConvergedRun Float), (∀ y ∈ ys, y.isFinite = true) →
      .converged run ∈ (Comparison.ofPoints xs ys).reports →
      ∃ (m : InterpolationMethod) (p : Interpolant Float),
        m.method = run.method ∧ m.interpolate xs ys = .ok p ∧
          Scalar.IsLargestDefined run.score (p.residuals xs ys) ∧
          (∀ point ∈ xs.zip ys, Float.abs (p.evaluate point.1 - point.2) ≤ run.score ↔
            (p.evaluate point.1).isNaN = false) ∧
          ((∀ point ∈ xs.zip ys, (p.evaluate point.1).isNaN = true) → run.score = 0 ∧
            ∀ other, .converged other ∈ (Comparison.ofPoints xs ys).reports →
              Scalar.totalLe run.score other.score = true) := by
  intro _ xs ys run hys hrun
  have _ := Binary64.ordersDefined balance
  obtain ⟨m, -, p, hp, rfl⟩ := mem_reports_ofPoints_iff.1 hrun
  have hlargest := p.isLargestDefined_maxNodeResidual xs ys
  -- the ordinate is finite, so only the value of the interpolant can make a residual undefined
  have hundefined : ∀ point ∈ xs.zip ys,
      Scalar.isUndefined (Scalar.abs (p.evaluate point.1 - point.2)) =
        (p.evaluate point.1).isNaN := by
    intro point hpoint
    rw [Scalar.OrdersDefined.isUndefined_abs, Binary64.isUndefined_eq]
    exact Binary64.isNaN_sub_eq (hys _ (List.of_mem_zip hpoint).2)
  refine ⟨m, p, rfl, hp, hlargest, ?_, ?_⟩
  · intro point hpoint
    rw [← hundefined point hpoint]
    exact hlargest.le_iff _ (Interpolant.mem_residuals_iff.2 ⟨point, hpoint, rfl⟩)
  · intro hnone
    have hzero : p.maxNodeResidual xs ys = 0 := by
      apply hlargest.eq_zero
      intro r hr
      obtain ⟨point, hpoint, rfl⟩ := Interpolant.mem_residuals_iff.1 hr
      rw [hundefined point hpoint]
      exact hnone point hpoint
    refine ⟨hzero, ?_⟩
    intro other hother
    change Scalar.totalLe (p.maxNodeResidual xs ys) other.score = true
    rw [hzero]
    exact totalLe_zero_score hother

/-- Ordinates that go down and up again, through which the interpolant is defined, and the same
    with ordinates so large that the divided differences are infinite. -/
theorem score_bounds_residual_iff_steps :
    let xs : List Float := [0, 1, 2]
    let ys : List Float := [3, -3, 3]
    let zs : List Float := [1e308, -1e308, 1e308]
    (∀ v ∈ ys ++ zs, v.isFinite = true) ∧
      (∃ run, .converged run ∈ (Comparison.ofPoints xs ys).reports ∧
        run.method = .dividedDifferences ∧
        ∃ p, InterpolationMethod.dividedDifferences.interpolate xs ys = .ok p ∧
          ∀ point ∈ xs.zip ys, Float.abs (p.evaluate point.1 - point.2) ≤ run.score) ∧
      ∃ run, .converged run ∈ (Comparison.ofPoints xs zs).reports ∧
        run.method = .dividedDifferences ∧ run.score = 0 ∧
          ∀ other, .converged other ∈ (Comparison.ofPoints xs zs).reports →
            Scalar.totalLe run.score other.score = true := by
  intro xs ys zs
  have hfinite : ∀ v ∈ ys ++ zs, v.isFinite = true := by decide +kernel
  have hsorted : xs.Pairwise fun x y => Scalar.totalLe x y = true := by decide +kernel
  have hdistinct : Points.hasEqualNeighbours xs = false := by decide +kernel
  have hys := InterpolationMethod.interpolate_dividedDifferences
    (Points.check_eq_ok_of_sorted xs ys (by decide) (Nat.le_add_left 1 2) hsorted hdistinct)
  have hzs := InterpolationMethod.interpolate_dividedDifferences
    (Points.check_eq_ok_of_sorted xs zs (by decide) (Nat.le_add_left 1 2) hsorted hdistinct)
  have hdefined : ∀ point ∈ xs.zip ys,
      ((NewtonForm.through xs ys).evaluate point.1).isNaN = false := by
    decide +kernel
  have hundefined : ∀ point ∈ xs.zip zs,
      ((NewtonForm.through xs zs).evaluate point.1).isNaN = true := by
    decide +kernel
  rw [List.forall_mem_append] at hfinite
  have hmem : InterpolationMethod.dividedDifferences ∈ InterpolationMethod.all := by decide
  have hrun := mem_reports_ofPoints_iff.2 ⟨_, hmem, _, hys, rfl⟩
  have hrun' := mem_reports_ofPoints_iff.2 ⟨_, hmem, _, hzs, rfl⟩
  refine ⟨List.forall_mem_append.2 hfinite, ⟨_, hrun, rfl, _, hys, ?_⟩, ⟨_, hrun', rfl, ?_⟩⟩
  · obtain ⟨m, p, hm, hp, -, hle, -⟩ :=
      score_bounds_residual_iff Binary64.balance xs ys _ hfinite.1 hrun
    obtain rfl : m = .dividedDifferences := InterpolationMethod.method_injective hm
    obtain rfl := Except.ok.inj (hys.symm.trans hp)
    exact fun point hpoint => (hle point hpoint).2 (hdefined point hpoint)
  · obtain ⟨m, p, hm, hp, -, -, hzero⟩ :=
      score_bounds_residual_iff Binary64.balance xs zs _ hfinite.2 hrun'
    obtain rfl : m = .dividedDifferences := InterpolationMethod.method_injective hm
    obtain rfl := Except.ok.inj (hzs.symm.trans hp)
    exact hzero hundefined

/-- The abscissae are so far apart that their difference is infinite and the divided difference
    zero.  Zero times that difference is undefined, and the score is zero. -/
theorem newton_scores_zero_where_undefined :
    let xs : List Float := [-1e308, 1e308]
    let ys : List Float := [0, 1]
    (∀ v ∈ xs ++ ys, v.isFinite = true) ∧
      ∃ run, .converged run ∈ (Comparison.ofPoints xs ys).reports ∧
        run.method = .dividedDifferences ∧ run.score = 0 ∧
        (∃ p, InterpolationMethod.dividedDifferences.interpolate xs ys = .ok p ∧
          (p.evaluate 1e308).isNaN = true ∧ ¬ Float.abs (p.evaluate 1e308 - 1) ≤ run.score) ∧
        ∀ other, .converged other ∈ (Comparison.ofPoints xs ys).reports →
          Scalar.totalLe run.score other.score = true := by
  intro xs ys
  have hsorted : xs.Pairwise fun x y => Scalar.totalLe x y = true := by decide +kernel
  have hdistinct : Points.hasEqualNeighbours xs = false := by decide +kernel
  have hys := InterpolationMethod.interpolate_dividedDifferences
    (Points.check_eq_ok_of_sorted xs ys (by decide) (Nat.le_add_left 1 1) hsorted hdistinct)
  have hmem : InterpolationMethod.dividedDifferences ∈ InterpolationMethod.all := by decide
  have hrun := mem_reports_ofPoints_iff.2 ⟨_, hmem, _, hys, rfl⟩
  have hzero : (Interpolant.newton (NewtonForm.through xs ys)).maxNodeResidual xs ys = 0 := by
    decide +kernel
  have _ := Binary64.ordersDefined Binary64.balance
  refine ⟨by decide +kernel, _, hrun, rfl, hzero, ⟨_, hys, by decide +kernel, ?_⟩, ?_⟩
  · decide +kernel
  · intro other hother
    rw [hzero]
    exact totalLe_zero_score hother

end Comparison

end NumericMethods
