/-
  NumericMethods/Proofs/Stationary/FixedPoint.lean
  ================================================
  **The fixed points of a stationary method are the solutions of its system.**

  With the parts of `A = D + L + U` (here the triangles have the signs that they have in
  `A`), a step of a method from `x` to `y` is an equation between the two vectors, without
  an inverse:

    * Jacobi: `D y = b - L x - U x` (`jacobiMap_apply_iff`);
    * relaxation with the factor `w`: `D y + w L y = (1 - w) D x - w U x + w b`
      (`relaxedMap_apply_iff`).

  For a fixed point `y = x` the first equation is `A x = b` and the second one `w A x = w b`.
  So the fixed points are the solutions, unless `w` is zero: then every vector is fixed
  (`apply_eq_self_iff`).  The factor zero is admitted, and a run with it stays at the vector
  that it starts from.
-/
import Mathlib
import NumericMethods.Proofs.DenseMatrix.Substitution
import NumericMethods.Proofs.NumericError
import NumericMethods.Stationary

namespace NumericMethods.Stationary

open DenseMatrix Matrix

variable {K : Type} [Field K] [LinearOrder K] [IsStrictOrderedRing K] [ExactScalar K]
variable {n : ℕ} {A : DenseMatrix K n n} {b x y : Vector K n} {g : AffineMap K n} {w : K}

/-! ### Steps as equations -/

theorem apply_eq_iff : g.apply x = y ↔
    g.matrix.toMatrix *ᵥ coordinates x + coordinates g.offset = coordinates y := by
  rw [← coordinates_injective.eq_iff, AffineMap.apply, coordinates_addVec, coordinates_mulVec]

theorem mulVec_eq_iff : A.mulVec x = b ↔
    A.diagonalPart.toMatrix *ᵥ coordinates x + A.lowerPart.toMatrix *ᵥ coordinates x +
      A.upperPart.toMatrix *ᵥ coordinates x = coordinates b := by
  rw [← coordinates_injective.eq_iff, coordinates_mulVec, toMatrix_eq_parts, add_mulVec,
    add_mulVec]

/-- An equation `M v = N u + f`, solved for `v` by the inverse of `M`. -/
theorem solved_iff {B M N : Matrix (Fin n) (Fin n) K} {f u v : Fin n → K} (hMB : M * B = 1)
    (hBM : B * M = 1) : (B * N) *ᵥ u + B *ᵥ f = v ↔ M *ᵥ v = N *ᵥ u + f := by
  rw [← mulVec_mulVec, ← mulVec_add]
  constructor
  · rintro rfl
    rw [mulVec_mulVec, hMB, one_mulVec]
  · intro h
    rw [← h, mulVec_mulVec, hBM, one_mulVec]

theorem jacobiMap_apply_iff (h : jacobiMap A b = .ok g) : g.apply x = y ↔
    A.diagonalPart.toMatrix *ᵥ coordinates y =
      coordinates b - A.lowerPart.toMatrix *ᵥ coordinates x -
        A.upperPart.toMatrix *ᵥ coordinates x := by
  simp only [jacobiMap] at h
  cases hB : A.diagonalPart.invert with
  | error e =>
    rw [hB] at h
    cases h
  | ok B =>
    rw [hB] at h
    cases h
    obtain ⟨hMB, hBM⟩ := toMatrix_invert hB
    rw [apply_eq_iff, toMatrix_mul, coordinates_mulVec, solved_iff hMB hBM, toMatrix_add,
      toMatrix_negate, toMatrix_negate, add_mulVec, neg_mulVec, neg_mulVec]
    apply Eq.congr_right
    abel

theorem relaxedMap_apply_iff (h : relaxedMap w A b = .ok g) : g.apply x = y ↔
    A.diagonalPart.toMatrix *ᵥ coordinates y + w • A.lowerPart.toMatrix *ᵥ coordinates y =
      (1 - w) • A.diagonalPart.toMatrix *ᵥ coordinates x -
        w • A.upperPart.toMatrix *ᵥ coordinates x + w • coordinates b := by
  simp only [relaxedMap] at h
  cases hB : (A.diagonalPart.sub (A.lowerPart.negate.scale w)).invert with
  | error e =>
    rw [hB] at h
    cases h
  | ok B =>
    rw [hB] at h
    cases h
    obtain ⟨hMB, hBM⟩ := toMatrix_invert hB
    rw [apply_eq_iff, toMatrix_mul, coordinates_scaleVec, coordinates_mulVec, ← mulVec_smul,
      solved_iff hMB hBM]
    simp only [toMatrix_sub, toMatrix_add, toMatrix_scale, toMatrix_negate, add_mulVec,
      sub_mulVec, smul_mulVec, smul_neg, sub_neg_eq_add, ← sub_eq_add_neg]

/-! ### Fixed points -/

theorem jacobiMap_fixed_iff (h : jacobiMap A b = .ok g) :
    g.apply x = x ↔ A.mulVec x = b := by
  rw [jacobiMap_apply_iff h, mulVec_eq_iff, eq_sub_iff_add_eq, eq_sub_iff_add_eq,
    add_right_comm]

theorem relaxedMap_fixed_iff (h : relaxedMap w A b = .ok g) :
    g.apply x = x ↔ w • coordinates (A.mulVec x) = w • coordinates b := by
  rw [relaxedMap_apply_iff h, coordinates_mulVec, toMatrix_eq_parts A, add_mulVec, add_mulVec]
  generalize A.diagonalPart.toMatrix *ᵥ coordinates x = d
  generalize A.lowerPart.toMatrix *ᵥ coordinates x = l
  generalize A.upperPart.toMatrix *ᵥ coordinates x = u
  -- both equations have the same difference of their sides
  have hsides : d + w • l - ((1 - w) • d - w • u + w • coordinates b) =
      w • (d + l + u) - w • coordinates b := by
    module
  rw [← sub_eq_zero, hsides, sub_eq_zero]

/-- Without relaxation of the right-hand side the map is the identity. -/
theorem relaxedMap_zero_apply (h : relaxedMap 0 A b = .ok g) : g.apply x = x := by
  rw [relaxedMap_fixed_iff h, zero_smul, zero_smul]

/-- If the relaxation factor is not zero, the fixed points of the map of a method are the
    solutions of the system.  If it is zero, every vector is a fixed point. -/
theorem apply_eq_self_iff (s : Stationary K) (A : DenseMatrix K n n) (b : Vector K n)
    {g : AffineMap K n} (h : s.affineMap A b = .ok g) :
    (s.relaxation? ≠ some 0 → ∀ x, x = g.apply x ↔ A.mulVec x = b) ∧
      (s.relaxation? = some 0 → ∀ x, x = g.apply x) := by
  unfold affineMap at h
  replace h := mapError_eq_ok h
  cases hw : s.relaxation? with
  | none =>
    rw [hw] at h
    refine ⟨?_, nofun⟩
    intro _ x
    rw [eq_comm, jacobiMap_fixed_iff h]
  | some w =>
    rw [hw] at h
    constructor
    · intro hne x
      have hw' : w ≠ 0 := fun hzero => hne (congrArg some hzero)
      rw [eq_comm, relaxedMap_fixed_iff h, (smul_right_injective _ hw').eq_iff,
        coordinates_injective.eq_iff]
    · intro hzero x
      cases hzero
      exact (relaxedMap_zero_apply h).symm

/-- The method of Gauss and Seidel. -/
theorem apply_eq_self_iff_gaussSeidel :
    let A : DenseMatrix ℚ 2 2 := #v[#v[4, 1], #v[1, 3]]
    ∃ g, gaussSeidel.affineMap A #v[1, 2] = .ok g ∧ g.offset = #v[1 / 4, 7 / 12] ∧
      (gaussSeidel : Stationary ℚ).relaxation? ≠ some 0 ∧
      ∀ x, x = g.apply x ↔ A.mulVec x = #v[1, 2] := by
  intro A
  obtain ⟨g, hg, hoffset⟩ : ∃ g, gaussSeidel.affineMap A #v[1, 2] = .ok g ∧
      g.offset = #v[1 / 4, 7 / 12] :=
    exists_ok_of_any (by decide +kernel)
  have hw : (gaussSeidel : Stationary ℚ).relaxation? ≠ some 0 := by decide
  exact ⟨g, hg, hoffset, hw, (apply_eq_self_iff gaussSeidel A #v[1, 2] hg).1 hw⟩

/-- Relaxation with the factor zero is admitted, and fixes a vector that does not solve the
    system. -/
theorem sor_zero_fixes_other_vector :
    let s : Stationary ℚ := .sor 0
    let A : DenseMatrix ℚ 1 1 := #v[#v[2]]
    s.isAdmitted = true ∧ (∀ i : Fin 1, A.diagonal.get i ≠ 0) ∧
      ∃ g, s.affineMap A #v[1] = .ok g ∧ #v[0] = g.apply #v[0] ∧ A.mulVec #v[0] ≠ #v[1] := by
  intro s A
  refine ⟨by decide +kernel, by decide +kernel, ?_⟩
  exact exists_ok_of_any (by decide +kernel)

end NumericMethods.Stationary
