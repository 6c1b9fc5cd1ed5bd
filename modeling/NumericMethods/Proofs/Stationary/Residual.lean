/-
  NumericMethods/Proofs/Stationary/Residual.lean
  ==============================================
  **The residual of a solution.**

  With `A = D - L - U`, a step from `x` to `y` leaves the residual

    * `A y - b = (L + U) (x - y)` for the method of Jacobi (`jacobiMap_residual`);
    * `w (A y - b) = ((1 - w) D + w U) (x - y)` for relaxation with the factor `w`
      (`relaxedMap_residual`).

  So the residual is as small as the step, times the norm of a matrix, whether or not the
  method converges.  A run that takes a step ends with a step whose size the tolerance
  bounds, absolutely or relative to the solution (`size_le_stepBound`), and that bounds the
  residual of the solution (`residual_le_of_solve`).
-/
import Mathlib
import NumericMethods.Proofs.Stationary.Sweep

namespace NumericMethods

open DenseMatrix Matrix

variable {K : Type} [Field K] [LinearOrder K] [IsStrictOrderedRing K] [ExactScalar K]
variable {n : ℕ} {A : DenseMatrix K n n} {b x : Vector K n}
variable {g : AffineMap K n} {w : K} {c : Control K}

namespace Stationary

variable {s : Stationary K}

/-! ### The residual after a step -/

theorem jacobiMap_residual (h : jacobiMap A b = .ok g) (x : Vector K n) :
    subVec (A.mulVec (g.apply x)) b =
      (A.lowerPart.negate.add A.upperPart.negate).mulVec (subVec x (g.apply x)) := by
  have hstep := (jacobiMap_apply_iff h).1 (Eq.refl (g.apply x))
  apply coordinates_injective
  rw [coordinates_subVec, coordinates_mulVec, coordinates_mulVec, coordinates_subVec,
    toMatrix_eq_parts A, toMatrix_add, toMatrix_negate, toMatrix_negate]
  simp only [add_mulVec, neg_mulVec, mulVec_sub, hstep]
  abel

theorem relaxedMap_residual (h : relaxedMap w A b = .ok g) (x : Vector K n) :
    scaleVec (subVec (A.mulVec (g.apply x)) b) w =
      ((A.diagonalPart.scale (1 - w)).add (A.upperPart.negate.scale w)).mulVec
        (subVec x (g.apply x)) := by
  have hstep := sub_eq_zero.2 ((relaxedMap_apply_iff h).1 (Eq.refl (g.apply x)))
  apply coordinates_injective
  rw [coordinates_scaleVec, coordinates_subVec, coordinates_mulVec, coordinates_mulVec,
    coordinates_subVec, toMatrix_eq_parts A, toMatrix_add, toMatrix_scale, toMatrix_scale,
    toMatrix_negate]
  simp only [add_mulVec, smul_mulVec, neg_mulVec, mulVec_sub]
  -- the sides differ by the difference of the sides of the step
  rw [← sub_eq_zero]
  refine Eq.trans ?_ hstep
  module

/-! ### The residual of a solution -/

/-- What a step of size `σ` leaves of a residual `ρ`. -/
def ResidualWithin (s : Stationary K) (A : DenseMatrix K n n) (σ ρ : K) : Prop :=
  let L := A.lowerPart.negate
  let U := A.upperPart.negate
  match s.relaxation? with
  | none => ρ ≤ maxRowSum (L.add U) * σ
  | some w => w * ρ ≤ maxRowSum ((A.diagonalPart.scale (1 - w)).add (U.scale w)) * σ

theorem residualWithin_step (hs : s.isAdmitted = true) (h : s.affineMap A b = .ok g)
    (x : Vector K n) :
    s.ResidualWithin A (normInf (subVec (g.apply x) x))
      (normInf (subVec (A.mulVec (g.apply x)) b)) := by
  unfold affineMap at h
  replace h := mapError_eq_ok h
  unfold ResidualWithin
  rw [normInf_sub_comm (g.apply x) x]
  cases hw : s.relaxation? with
  | none =>
    rw [hw] at h
    dsimp only
    rw [jacobiMap_residual h]
    exact normInf_mulVec_le _ _
  | some w =>
    rw [hw] at h
    have hscale := normInf_scaleVec (subVec (A.mulVec (g.apply x)) b) w
    rw [abs_of_nonneg (isAdmitted_iff.1 hs w hw).1] at hscale
    dsimp only
    rw [← hscale, relaxedMap_residual h]
    exact normInf_mulVec_le _ _

theorem ResidualWithin.mono {σ σ' ρ : K} (h : s.ResidualWithin A σ ρ) (hσ : σ ≤ σ') :
    s.ResidualWithin A σ' ρ := by
  unfold ResidualWithin at h ⊢
  cases hw : s.relaxation? with
  | none =>
    rw [hw] at h
    exact h.trans (mul_le_mul_of_nonneg_left hσ (normInf_nonneg _))
  | some w =>
    rw [hw] at h
    exact h.trans (mul_le_mul_of_nonneg_left hσ (normInf_nonneg _))

theorem residual_toRows (hn : n ≠ 0) (A : DenseMatrix K n n) (x b : Vector K n) :
    residual A.toRows x.toList b.toList = .ok (normInf (subVec (A.mulVec x) b)) := by
  unfold residual
  rw [ofRows_toRows A hn hn]
  simp only [liftLinear, Except.mapError, bind, Except.bind, Shaped.mulList,
    vectorOfLength_toList, Vector.length_toList, if_true]
  rw [normInf, subVec, Vector.toList_zipWith]
  rfl

/-- The residual of a solution after at least one step is bounded by the tolerance, whether
    or not the method converges on the system. -/
theorem residual_le_of_solve (s : Stationary K) (rows : List (List K)) (b x₀ : List K)
    (c : Control K) {solution : StationarySolution K}
    (h : s.solve rows b x₀ c = .ok solution) (hsteps : 1 ≤ solution.trace.iterations) :
    ∃ (A : DenseMatrix K solution.size solution.size) (ρ : K), A.toRows = rows ∧
      residual rows solution.x.toList b = .ok ρ ∧
        s.ResidualWithin A (c.stepBound solution.x) ρ := by
  obtain ⟨n, A, v, u, rfl, rfl, -, hsolve⟩ := exists_of_solve_eq_ok h
  obtain ⟨hadmitted, -, g, hmap, hrun⟩ := solveSquare_eq_ok_iff.1 hsolve
  obtain ⟨states, ⟨hruns, -⟩, rfl⟩ := iterate_eq_ok_iff.1 hrun
  have hlength : 1 < states.length := by
    simp only [solutionOf, Trace.iterations, List.length_map] at hsteps
    omega
  obtain ⟨y, hlast, hsize⟩ := exists_last_step hruns hlength
  have hresidual := (residualWithin_step hadmitted hmap y).mono hsize
  rw [← hlast] at hresidual
  exact ⟨A, _, rfl, residual_toRows (ne_zero_of_affineMap hmap) A _ v, hresidual⟩

/-- A run by over-relaxation with a relative tolerance. -/
theorem residual_le_of_solve_sor :
    let s : Stationary ℚ := .sor (3 / 2)
    let rows : List (List ℚ) := [[4, 1], [1, 3]]
    let c : Control ℚ := ⟨1 / 2, 10, true⟩
    ∃ solution, s.solve rows [1, 2] [0, 0] c = .ok solution ∧ 1 ≤ solution.trace.iterations ∧
      ∃ (A : DenseMatrix ℚ solution.size solution.size) (ρ : ℚ), A.toRows = rows ∧
        residual rows solution.x.toList [1, 2] = .ok ρ ∧
          s.ResidualWithin A (c.stepBound solution.x) ρ := by
  intro s rows c
  obtain ⟨solution, hsolve, hsteps⟩ : ∃ solution : StationarySolution ℚ,
      s.solve rows [1, 2] [0, 0] c = .ok solution ∧ 1 ≤ solution.trace.iterations :=
    exists_ok_of_any (by decide +kernel)
  exact ⟨solution, hsolve, hsteps,
    residual_le_of_solve s rows [1, 2] [0, 0] c hsolve hsteps⟩

end Stationary

end NumericMethods
