/-
  NumericMethods/Proofs/DenseMatrix/Substitution.lean
  ===================================================
  **Substitution solves the system, and the inverse is one.**

  The forward loop and the backward loop overwrite the vector that they read.  Each keeps
  one invariant: the equations of the indices that are done hold, and the other components
  are untouched (`forward_spec`, `backward_spec`).  An equation that holds is not disturbed
  later, since a component that is set afterwards is not in it (`rowTerms_set`).

  With the product of the two triangles from the elimination, the two loops solve the
  balanced system.  The right-hand side is permuted and scaled by the rows, the result by
  the columns, and so the system itself is solved (`Restores.mulVec_solve`).  The solutions
  of the unit vectors are the columns of a right inverse, which is a left inverse as well,
  and therefore the solution is the only one (`solves_exactly`).
-/
import Mathlib
import NumericMethods.Proofs.DenseMatrix.Elimination

namespace NumericMethods.Factorization

open DenseMatrix Matrix

/-! ### Loops over all indices -/

section Loops

variable {β : Type} {n : ℕ}

/-- An invariant of a loop over all indices in order, which counts the indices done. -/
theorem foldl_finRange_induction (motive : ℕ → β → Prop) {b : β} {f : β → Fin n → β}
    (hstart : motive 0 b) (hstep : ∀ (i : Fin n) b, motive i b → motive (i + 1) (f b i)) :
    motive n ((List.finRange n).foldl f b) := by
  induction n with
  | zero => exact hstart
  | succ n ih =>
    rw [List.finRange_succ_last, List.foldl_append, List.foldl_map]
    apply hstep (Fin.last n)
    exact ih fun i b h => hstep i.castSucc b h

/-- An invariant of a loop over all indices in reverse order, which counts the indices that
    are left. -/
theorem foldr_finRange_induction (motive : ℕ → β → Prop) {b : β} {f : Fin n → β → β}
    (hstart : motive n b) (hstep : ∀ (i : Fin n) b, motive (i + 1) b → motive i (f i b)) :
    motive 0 ((List.finRange n).foldr f b) := by
  induction n generalizing motive with
  | zero => exact hstart
  | succ n ih =>
    rw [List.finRange_succ, List.foldr_cons, List.foldr_map]
    apply hstep 0
    exact ih (fun i b => motive (i + 1) b) hstart fun i b h => hstep i.succ b h

end Loops

variable {K : Type} [Field K] [LinearOrder K] [IsStrictOrderedRing K] [ExactScalar K]
variable {n : ℕ} {A : DenseMatrix K n n} {F : Factorization K n}

/-! ### Rows of the two triangles -/

theorem total_rowTerms (F : Factorization K n) (v : Vector K n) (i : Fin n)
    (p : Fin n → Bool) :
    Scalar.total (F.rowTerms v i p) = ∑ j, if p j then F.compact.entry i j * v.get j else 0 := by
  rw [ExactScalar.total_eq_sum, rowTerms, Fin.sum_univ_def]
  induction List.finRange n with
  | nil => rfl
  | cons j js ih =>
    rw [List.map_cons, List.sum_cons, ← ih]
    by_cases hj : p j = true
    · rw [List.filter_cons_of_pos hj, List.map_cons, List.sum_cons, if_pos hj]
    · rw [List.filter_cons_of_neg hj, if_neg hj, zero_add]

/-- The terms of a row depend on the selected components only. -/
theorem rowTerms_congr {u v : Vector K n} {i : Fin n} {p : Fin n → Bool}
    (h : ∀ j, p j = true → u.get j = v.get j) : F.rowTerms u i p = F.rowTerms v i p := by
  apply List.map_congr_left
  intro j hj
  rw [h j (List.mem_filter.1 hj).2]

/-- The selected terms of a row do not change with a component that is not selected. -/
theorem rowTerms_set {v : Vector K n} {i k : Fin n} {x : K} {p : Fin n → Bool}
    (hk : p k = false) : F.rowTerms (v.set k x k.isLt) i p = F.rowTerms v i p := by
  apply rowTerms_congr
  intro j hj
  apply get_set_of_ne
  rintro rfl
  rw [hj] at hk
  cases hk

theorem multipliers_mulVec (F : Factorization K n) (v : Vector K n) (i : Fin n) :
    (multipliers F.compact n *ᵥ coordinates v) i =
      v.get i + Scalar.total (F.rowTerms v i fun j => decide (j < i)) := by
  have hterm : ∀ j, multipliers F.compact n i j * v.get j =
      (if i = j then v.get j else 0) +
        if decide (j < i) = true then F.compact.entry i j * v.get j else 0 := by
    intro j
    simp only [multipliers, of_apply, j.isLt, true_and, decide_eq_true_eq]
    rcases eq_or_ne i j with rfl | hne
    · simp
    · simp [hne]
  rw [Matrix.mulVec, dotProduct, total_rowTerms]
  simp only [coordinates_apply, hterm]
  rw [Finset.sum_add_distrib, Finset.sum_ite_eq, if_pos (Finset.mem_univ i)]

theorem reduced_mulVec (F : Factorization K n) (v : Vector K n) (i : Fin n) :
    (reduced F.compact n *ᵥ coordinates v) i =
      F.compact.entry i i * v.get i + Scalar.total (F.rowTerms v i fun j => decide (i < j)) := by
  have hterm : ∀ j, reduced F.compact n i j * v.get j =
      (if i = j then F.compact.entry i j * v.get j else 0) +
        if decide (i < j) = true then F.compact.entry i j * v.get j else 0 := by
    intro j
    simp only [reduced, of_apply, j.isLt.not_ge, or_false, decide_eq_true_eq]
    rcases lt_trichotomy i j with hlt | rfl | hgt
    · simp [hlt, hlt.ne, hlt.le]
    · simp
    · simp [hgt.not_ge, hgt.ne', hgt.not_gt]
  rw [Matrix.mulVec, dotProduct, total_rowTerms]
  simp only [coordinates_apply, hterm]
  rw [Finset.sum_add_distrib, Finset.sum_ite_eq, if_pos (Finset.mem_univ i)]

/-! ### The two loops -/

/-- The forward loop solves the system of the lower triangle: after the indices before `k`,
    their equations hold, and the other components are untouched. -/
theorem forward_spec (F : Factorization K n) (y : Vector K n) :
    multipliers F.compact n *ᵥ coordinates (F.forward y) = coordinates y := by
  let solved (k : ℕ) (v : Vector K n) : Prop := ∀ i : Fin n,
    (i.val < k → v.get i + Scalar.total (F.rowTerms v i fun j => decide (j < i)) = y.get i) ∧
      (k ≤ i.val → v.get i = y.get i)
  have h : solved n (F.forward y) := by
    apply foldl_finRange_induction solved
    · intro i
      exact ⟨fun hi => absurd hi (Nat.not_lt_zero _), fun _ => rfl⟩
    · intro k v hv i
      unfold forwardStep
      constructor
      · intro hi
        have hlate : decide (k < i) = false := decide_eq_false (by omega)
        rw [rowTerms_set hlate]
        rcases Nat.lt_succ_iff_lt_or_eq.1 hi with hlt | heq
        · rw [get_set_of_ne _ _ (Fin.ne_of_lt hlt)]
          exact (hv i).1 hlt
        · obtain rfl : i = k := Fin.ext heq
          rw [get_set_self, sub_add_cancel]
          exact (hv i).2 le_rfl
      · intro hi
        rw [get_set_of_ne _ _ (Fin.ne_of_gt hi)]
        exact (hv i).2 (by omega)
  ext i
  rw [multipliers_mulVec]
  exact (h i).1 i.isLt

/-- The backward loop solves the system of the upper triangle: down to the index `k`, the
    equations hold, and the other components are untouched. -/
theorem backward_spec (hpivot : ∀ i, F.compact.entry i i ≠ 0) (y : Vector K n) :
    reduced F.compact n *ᵥ coordinates (F.backward y) = coordinates y := by
  let solved (k : ℕ) (v : Vector K n) : Prop := ∀ i : Fin n,
    (k ≤ i.val → F.compact.entry i i * v.get i +
        Scalar.total (F.rowTerms v i fun j => decide (i < j)) = y.get i) ∧
      (i.val < k → v.get i = y.get i)
  have h : solved 0 (F.backward y) := by
    apply foldr_finRange_induction solved
    · intro i
      exact ⟨fun hi => absurd i.isLt (not_lt.2 hi), fun _ => rfl⟩
    · intro k v hv i
      unfold backwardStep
      constructor
      · intro hi
        have hearly : decide (i < k) = false := decide_eq_false (by omega)
        rw [rowTerms_set hearly]
        rcases Nat.lt_or_eq_of_le hi with hlt | heq
        · rw [get_set_of_ne _ _ (Fin.ne_of_gt hlt)]
          exact (hv i).1 hlt
        · obtain rfl : k = i := Fin.ext heq
          rw [get_set_self, mul_div_cancel₀ _ (hpivot k), sub_add_cancel]
          exact (hv k).2 (Nat.lt_succ_self _)
      · intro hi
        rw [get_set_of_ne _ _ (Fin.ne_of_lt hi)]
        exact (hv i).2 (by omega)
  ext i
  rw [reduced_mulVec]
  exact (h i).1 (Nat.zero_le _)

/-! ### Solutions and the inverse -/

theorem Restores.mulVec_solve (hF : F.Restores A) (b : Vector K n) :
    A.mulVec (F.solve b) = b := by
  let y : Vector K n := Vector.ofFn fun i => b.get (F.origin.get i) * F.placedScale i
  let z := F.backward (F.forward y)
  have hbalanced : (balanced A F.rowScale F.columnScale).toMatrix.submatrix
      (coordinates F.origin) id *ᵥ coordinates z = coordinates y := by
    rw [← hF.product, ← mulVec_mulVec, backward_spec hF.pivot_ne_zero, forward_spec]
  apply coordinates_injective
  ext t
  obtain ⟨i, rfl⟩ := (Finite.injective_iff_surjective.1 hF.origin_injective) t
  -- the scale of the row is on both sides of the equation that was solved
  apply mul_left_cancel₀ (hF.placedScale_ne_zero i)
  calc
    _ = ∑ j, F.placedScale i * (A.entry (F.origin.get i) j * (z.get j * F.columnScale.get j)) := by
      rw [coordinates_mulVec, Matrix.mulVec, dotProduct, Finset.mul_sum]
      simp only [solve, coordinates_ofFn]
      rfl
    _ = ((balanced A F.rowScale F.columnScale).toMatrix.submatrix
        (coordinates F.origin) id *ᵥ coordinates z) i := by
      rw [Matrix.mulVec, dotProduct]
      apply Finset.sum_congr rfl
      intro j _
      simp only [balanced, toMatrix_ofFn, submatrix_apply, of_apply, coordinates_apply, id]
      change F.placedScale i * _ =
        F.placedScale i * A.entry (F.origin.get i) j * F.columnScale.get j * z.get j
      ring
    _ = _ := by
      rw [hbalanced, coordinates_ofFn, mul_comm]
      rfl

theorem entry_inverse (F : Factorization K n) (i j : Fin n) :
    F.inverse.entry i j = (F.solve (unitVector j)).get i := by
  simp [inverse]

theorem Restores.toMatrix_mul_inverse (hF : F.Restores A) :
    A.toMatrix * F.inverse.toMatrix = 1 := by
  ext i j
  calc
    _ = (A.toMatrix *ᵥ coordinates (F.solve (unitVector j))) i := by
      rw [mul_apply, Matrix.mulVec, dotProduct]
      simp only [toMatrix_apply, entry_inverse, coordinates_apply]
    _ = (unitVector j : Vector K n).get i := by
      rw [← coordinates_mulVec, hF.mulVec_solve, coordinates_apply]
    _ = (1 : Matrix (Fin n) (Fin n) K) i j := by
      simp [unitVector, one_apply]

theorem Restores.inverse_mul_toMatrix (hF : F.Restores A) :
    F.inverse.toMatrix * A.toMatrix = 1 :=
  mul_eq_one_comm.1 hF.toMatrix_mul_inverse

theorem Restores.mulVec_eq_iff (hF : F.Restores A) (v b : Vector K n) :
    A.mulVec v = b ↔ v = F.solve b := by
  constructor
  · intro h
    apply coordinates_injective
    have hsame : A.toMatrix *ᵥ coordinates v = A.toMatrix *ᵥ coordinates (F.solve b) := by
      rw [← coordinates_mulVec, ← coordinates_mulVec, h, hF.mulVec_solve]
    have hcancel := congrArg (F.inverse.toMatrix *ᵥ ·) hsame
    simpa [hF.inverse_mul_toMatrix] using hcancel
  · rintro rfl
    exact hF.mulVec_solve b

/-- A factorization solves every system of `A`, and inverts `A`.  The numbers that
    `backwardStep` divides by are on the diagonal of the compact matrix, and there is no
    other division in `solve`. -/
structure SolvesExactly (F : Factorization K n) (A : DenseMatrix K n n) : Prop where
  divisor_ne_zero : ∀ i, F.compact.entry i i ≠ 0
  solution : ∀ b : List K, b.length = n → ∃ x : Vector K n, F.solveList b = .ok x.toList ∧
    ∀ v : Vector K n, (A.mulVec v).toList = b ↔ v = x
  mul_inverse : A.mul F.inverse = identity
  inverse_mul : F.inverse.mul A = identity

theorem solveList_toList (F : Factorization K n) (b : Vector K n) :
    F.solveList b.toList = .ok (F.solve b).toList := by
  rw [solveList, vectorOfLength?, dif_pos b.length_toList]
  rfl

theorem Restores.solvesExactly (hF : F.Restores A) : F.SolvesExactly A where
  divisor_ne_zero := hF.pivot_ne_zero
  solution := by
    intro b hb
    obtain ⟨u, rfl⟩ : ∃ u : Vector K n, u.toList = b := ⟨⟨b.toArray, by simpa using hb⟩, rfl⟩
    refine ⟨F.solve u, solveList_toList F u, ?_⟩
    intro v
    rw [Vector.toList_inj, hF.mulVec_eq_iff]
  mul_inverse := by
    apply toMatrix_injective
    rw [toMatrix_mul, hF.toMatrix_mul_inverse, toMatrix_identity]
  inverse_mul := by
    apply toMatrix_injective
    rw [toMatrix_mul, hF.inverse_mul_toMatrix, toMatrix_identity]

/-- Solutions and inverses are exact, with the scales that balance the matrix as with any
    other scales that are not zero. -/
theorem solves_exactly (A : DenseMatrix K n n) (F : Factorization K n) :
    (ofMatrix A = .ok F → F.SolvesExactly A) ∧
      ∀ r q : Vector K n, (∀ i : Fin n, r.get i ≠ 0) → (∀ j : Fin n, q.get j ≠ 0) →
        withScales A r q = .ok F → F.SolvesExactly A := by
  constructor
  · intro h
    exact (restores_of_ofMatrix h).solvesExactly
  · intro r q hr hq h
    exact (restores_of_withScales hr hq h).solvesExactly

/-- A matrix whose rows have to be exchanged. -/
theorem solves_exactly_exchanged :
    let A : DenseMatrix ℚ 2 2 := #v[#v[0, 1 / 1024], #v[3, 5]]
    (∃ F, ofMatrix A = .ok F ∧ F.solve #v[1 / 1024, 8] = #v[1, 1] ∧ F.SolvesExactly A) ∧
      ∃ F, withScales A #v[1, 2] #v[1 / 3, -1] = .ok F ∧ F.solve #v[1 / 1024, 8] = #v[1, 1] ∧
        F.SolvesExactly A := by
  intro A
  constructor
  · obtain ⟨F, hF, hsolution⟩ : ∃ F, ofMatrix A = .ok F ∧
        F.solve #v[1 / 1024, 8] = #v[1, 1] :=
      exists_ok_of_any (by decide +kernel)
    exact ⟨F, hF, hsolution, (solves_exactly A F).1 hF⟩
  · obtain ⟨F, hF, hsolution⟩ : ∃ F, withScales A #v[1, 2] #v[1 / 3, -1] = .ok F ∧
        F.solve #v[1 / 1024, 8] = #v[1, 1] :=
      exists_ok_of_any (by decide +kernel)
    have hsolves := (solves_exactly A F).2 _ _ (by decide) (by decide +kernel) hF
    exact ⟨F, hF, hsolution, hsolves⟩

end NumericMethods.Factorization

namespace NumericMethods.DenseMatrix

variable {K : Type} [Field K] [LinearOrder K] [IsStrictOrderedRing K] [ExactScalar K]
variable {n : ℕ} {A B : DenseMatrix K n n} {b x : Vector K n}

theorem mulVec_of_solve (h : A.solve b = .ok x) : A.mulVec x = b := by
  unfold solve at h
  split at h
  · rename_i F hF
    cases h
    exact (Factorization.restores_of_ofMatrix hF).mulVec_solve b
  · cases h

/-- The inverse of a matrix, if there is one, is its inverse on both sides. -/
theorem toMatrix_invert (h : A.invert = .ok B) :
    A.toMatrix * B.toMatrix = 1 ∧ B.toMatrix * A.toMatrix = 1 := by
  unfold invert at h
  split at h
  · rename_i F hF
    obtain rfl := Except.ok.inj h
    have hrestores := Factorization.restores_of_ofMatrix hF
    exact ⟨hrestores.toMatrix_mul_inverse, hrestores.inverse_mul_toMatrix⟩
  · cases h

end NumericMethods.DenseMatrix
