/-
  NumericMethods/Proofs/Stationary/Sweep.lean
  ===========================================
  **A step of a stationary method is a sweep over the components.**

  The methods are usually told as sweeps: one component after the other is computed from
  its equation, by the method of Jacobi from the old components alone, by relaxation from
  the new ones before it and the old ones behind it.  The map of a method is a product with
  an inverse instead.  Both are the same step (`affineMap_apply_iff`), and so every row of
  the trace of a run comes from the row before it by a sweep (`consecutive_rows_sweep`).

  The last of these steps is the one that ends the run.  Its size is below the tolerance,
  which in relative mode is multiplied by the norm of the new vector (`exists_last_step`).
-/
import Mathlib
import NumericMethods.Proofs.DenseMatrix.Norm
import NumericMethods.Proofs.Stationary.FixedPoint
import NumericMethods.Proofs.Stationary.Run

namespace NumericMethods

open DenseMatrix Matrix

variable {K : Type} [Field K] [LinearOrder K] [IsStrictOrderedRing K] [ExactScalar K]
variable {n : ℕ} {A : DenseMatrix K n n} {b x y : Vector K n}
variable {g : AffineMap K n} {w : K} {c : Control K}

namespace Control

/-- The bound of the size of the last step to `x`. -/
def stepBound (c : Control K) (x : Vector K n) : K :=
  if c.relative then c.tolerance * normInf x else c.tolerance

theorem size_le_stepBound {size error : K}
    (hmeasure : c.measure size (normInf x) = .ok error) (hmet : c.isMet error = true) :
    size ≤ c.stepBound x := by
  have herror : error < c.tolerance := of_decide_eq_true hmet
  unfold Control.measure at hmeasure
  unfold stepBound
  by_cases hrelative : c.relative = true
  · rw [if_pos hrelative] at hmeasure ⊢
    split at hmeasure
    · cases hmeasure
    · rename_i hzero
      obtain rfl : size / normInf x = error := Except.ok.inj hmeasure
      have hne : normInf x ≠ 0 := fun h => hzero (ExactScalar.beq_iff.2 h)
      have hpos : 0 < normInf x := lt_of_le_of_ne (normInf_nonneg x) hne.symm
      exact ((div_lt_iff₀ hpos).1 herror).le
  · rw [if_neg hrelative] at hmeasure ⊢
    obtain rfl : size = error := Except.ok.inj hmeasure
    exact herror.le

end Control

namespace Stationary

variable {s : Stationary K}

/-- The equations of a sweep from `x` to `y`, one for each component. -/
def IsSweep (s : Stationary K) (A : DenseMatrix K n n) (b x y : Vector K n) : Prop :=
  match s.relaxation? with
  | none => ∀ i, A.entry i i * y.get i = b.get i - ∑ j with j ≠ i, A.entry i j * x.get j
  | some w => ∀ i, A.entry i i * y.get i =
      (1 - w) * A.entry i i * x.get i + w * (b.get i -
        (∑ j with j < i, A.entry i j * y.get j) - ∑ j with i < j, A.entry i j * x.get j)

theorem isAdmitted_iff :
    s.isAdmitted = true ↔ ∀ w, s.relaxation? = some w → 0 ≤ w ∧ w ≤ 2 := by
  unfold isAdmitted
  cases hw : s.relaxation? with
  | none => simp
  | some w => simp [ExactScalar.ofNat_eq]

/-! ### Rows of the parts of a matrix -/

theorem diagonalPart_mulVec (A : DenseMatrix K n n) (x : Vector K n) (i : Fin n) :
    (A.diagonalPart.toMatrix *ᵥ coordinates x) i = A.entry i i * x.get i := by
  simp [Matrix.mulVec, dotProduct, diagonalPart, Fin.val_inj]

theorem lowerPart_mulVec (A : DenseMatrix K n n) (x : Vector K n) (i : Fin n) :
    (A.lowerPart.toMatrix *ᵥ coordinates x) i = ∑ j with j < i, A.entry i j * x.get j := by
  simp [Matrix.mulVec, dotProduct, lowerPart, Finset.sum_filter]

theorem upperPart_mulVec (A : DenseMatrix K n n) (x : Vector K n) (i : Fin n) :
    (A.upperPart.toMatrix *ᵥ coordinates x) i = ∑ j with i < j, A.entry i j * x.get j := by
  simp [Matrix.mulVec, dotProduct, upperPart, Finset.sum_filter]

/-! ### Steps and sweeps -/

theorem affineMap_apply_iff (h : s.affineMap A b = .ok g) :
    g.apply x = y ↔ s.IsSweep A b x y := by
  unfold affineMap at h
  replace h := mapError_eq_ok h
  unfold IsSweep
  cases hw : s.relaxation? with
  | none =>
    rw [hw] at h
    rw [jacobiMap_apply_iff h, funext_iff]
    apply forall_congr'
    intro i
    simp only [Pi.sub_apply, diagonalPart_mulVec, lowerPart_mulVec, upperPart_mulVec,
      coordinates_apply, sum_ne_eq, sub_sub]
  | some w =>
    rw [hw] at h
    rw [relaxedMap_apply_iff h, funext_iff]
    apply forall_congr'
    intro i
    simp only [Pi.add_apply, Pi.sub_apply, Pi.smul_apply, diagonalPart_mulVec,
      lowerPart_mulVec, upperPart_mulVec, coordinates_apply, smul_eq_mul]
    constructor
    · intro h
      linear_combination h
    · intro h
      linear_combination h

/-- Every row of a trace that follows another one comes from it by a sweep. -/
theorem consecutive_rows_sweep (s : Stationary K) (rows : List (List K)) (b x₀ : List K)
    (c : Control K) {solution : StationarySolution K}
    (h : s.solve rows b x₀ c = .ok solution) :
    ∃ (A : DenseMatrix K solution.size solution.size) (v : Vector K solution.size),
      A.toRows = rows ∧ v.toList = b ∧ ∀ k r r', solution.trace.rows[k]? = some r →
        solution.trace.rows[k + 1]? = some r' →
          ∃ x y : Vector K solution.size, x.toList = r.point ∧ y.toList = r'.point ∧
            s.IsSweep A v x y := by
  obtain ⟨n, A, v, u, hA, hv, -, hsolve⟩ := exists_of_solve_eq_ok h
  obtain ⟨-, -, g, hmap, hrun⟩ := solveSquare_eq_ok_iff.1 hsolve
  obtain ⟨states, ⟨hruns, -⟩, rfl⟩ := iterate_eq_ok_iff.1 hrun
  refine ⟨A, v, hA, hv, ?_⟩
  intro k r r' hr hr'
  simp only [solutionOf, List.getElem?_map, Option.map_eq_some_iff] at hr hr'
  obtain ⟨t, ht, rfl⟩ := hr
  obtain ⟨t', ht', rfl⟩ := hr'
  obtain ⟨-, hstep⟩ := hruns.next ht ht'
  obtain ⟨-, hnext, -⟩ := step_eq_ok_iff.1 hstep
  exact ⟨t.x, t'.x, rfl, rfl, (affineMap_apply_iff hmap).1 hnext.symm⟩

/-- Three steps of the method of Gauss and Seidel. -/
theorem consecutive_rows_sweep_gaussSeidel :
    let s : Stationary ℚ := .gaussSeidel
    let rows : List (List ℚ) := [[4, 1], [1, 3]]
    ∃ solution, s.solve rows [1, 2] [0, 0] ⟨1 / 10, 10, false⟩ = .ok solution ∧
      solution.trace.rows.map (·.point) =
        [[0, 0], [1 / 4, 7 / 12], [5 / 48, 91 / 144], [53 / 576, 1099 / 1728]] ∧
      ∃ (A : DenseMatrix ℚ solution.size solution.size) (v : Vector ℚ solution.size),
        A.toRows = rows ∧ v.toList = [1, 2] ∧ ∀ k r r', solution.trace.rows[k]? = some r →
          solution.trace.rows[k + 1]? = some r' →
            ∃ x y : Vector ℚ solution.size, x.toList = r.point ∧ y.toList = r'.point ∧
              s.IsSweep A v x y := by
  intro s rows
  obtain ⟨solution, hsolve, hpoints⟩ : ∃ solution : StationarySolution ℚ,
      s.solve rows [1, 2] [0, 0] ⟨1 / 10, 10, false⟩ = .ok solution ∧
        solution.trace.rows.map (·.point) =
          [[0, 0], [1 / 4, 7 / 12], [5 / 48, 91 / 144], [53 / 576, 1099 / 1728]] :=
    exists_ok_of_any (by decide +kernel)
  exact ⟨solution, hsolve, hpoints, consecutive_rows_sweep s rows [1, 2] [0, 0] _ hsolve⟩

/-! ### The last step -/

/-- A run that takes a step ends with one that the tolerance bounds. -/
theorem exists_last_step {x₀ : Vector K n} {states : List (State K n)}
    (hruns : (process g c).Runs c (start x₀) states) (hlength : 1 < states.length) :
    ∃ x, (states.getLastD (start x₀)).x = g.apply x ∧
      normInf (subVec (g.apply x) x) ≤ c.stepBound (g.apply x) := by
  obtain ⟨t, t', hstep, hdone, hlast⟩ := hruns.exists_last_step hlength
  obtain ⟨-, hnext, hmeasure⟩ := step_eq_ok_iff.1 hstep
  have hmet : c.isMet t'.error = true := (Bool.or_eq_true_iff.1 hdone).resolve_right nofun
  refine ⟨t.x, ?_, ?_⟩
  · rw [List.getLastD_eq_getLast?, hlast]
    exact hnext
  · rw [← hnext]
    exact Control.size_le_stepBound hmeasure hmet

end Stationary

end NumericMethods
