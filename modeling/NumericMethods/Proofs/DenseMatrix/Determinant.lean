/-
  NumericMethods/Proofs/DenseMatrix/Determinant.lean
  ==================================================
  **The determinant that a factorization computes.**

  The number of exchanges has the parity of the permutation that the rows have gone through
  (`Stage.CountsExchanges`): an exchange multiplies the permutation by a transposition and
  adds one to the number, and clearing a column touches neither.  So the sign that the
  program attaches to the product of the pivots is the sign of that permutation.

  The lower factor has determinant one and the upper factor the product of the pivots; the
  two multiply to the balanced matrix with its rows permuted, and the scales are divided
  out.  What is left is the determinant of the matrix (`Restores.determinant_eq`).  It is
  not zero, since no pivot is, and a matrix with determinant zero is therefore refused,
  whatever its scales (`determinant_eq_det`).
-/
import Mathlib
import NumericMethods.Proofs.DenseMatrix.Pivot

namespace NumericMethods.Factorization

open DenseMatrix Matrix

/-! ### The parity of the exchanges -/

section Parity

variable {α : Type} [Scalar α] {n k : ℕ} {tolerance : α} {s t : Stage α n}
variable {A : DenseMatrix α n n} {r q : Vector α n} {F : Factorization α n}

/-- The rows are permuted, and the number of exchanges has the parity of the permutation. -/
def CountsExchanges (origin : Vector (Fin n) n) (exchanges : ℕ) : Prop :=
  ∃ σ : Equiv.Perm (Fin n), coordinates origin = σ ∧ σ.sign = (-1) ^ exchanges

theorem countsExchanges_start : CountsExchanges (Vector.ofFn (id : Fin n → Fin n)) 0 := by
  refine ⟨1, ?_, ?_⟩
  · rw [coordinates_ofFn]
    rfl
  · rw [Equiv.Perm.sign_one, pow_zero]

omit [Scalar α] in
theorem CountsExchanges.exchange (h : CountsExchanges s.origin s.exchanges) (k p : Fin n) :
    CountsExchanges (exchange s k p).origin (exchange s k p).exchanges := by
  unfold Factorization.exchange
  split
  · exact h
  · rename_i hne
    obtain ⟨σ, hσ, hsign⟩ := h
    refine ⟨σ * Equiv.swap p k, ?_, ?_⟩
    · rw [coordinates_swap, hσ, Equiv.Perm.coe_mul]
    · rw [Equiv.Perm.sign_mul, Equiv.Perm.sign_swap hne, hsign, pow_succ]

theorem CountsExchanges.eliminateFrom (hs : CountsExchanges s.origin s.exchanges)
    (h : eliminateFrom tolerance k s = .ok t) : CountsExchanges t.origin t.exchanges := by
  fun_induction Factorization.eliminateFrom tolerance k s with
  | case1 k s hk pivot hsmall => cases h
  | case2 k s hk pivot hlarge u ih => exact ih (hs.exchange ⟨k, hk⟩ pivot.1) h
  | case3 k s hk =>
    cases h
    exact hs

theorem countsExchanges_of_withScales (h : withScales A r q = .ok F) :
    CountsExchanges F.origin F.exchanges := by
  simp only [withScales] at h
  split at h
  · rename_i s hs
    obtain rfl := Except.ok.inj h
    exact countsExchanges_start.eliminateFrom hs
  · cases h

end Parity

variable {K : Type} [Field K] [LinearOrder K] [IsStrictOrderedRing K] [ExactScalar K]
variable {n : ℕ} {A : DenseMatrix K n n} {r q : Vector K n} {F : Factorization K n}

/-! ### The determinants of the factors -/

theorem product_toList (v : Vector K n) : Scalar.product v.toList = ∏ i, v.get i := by
  have hlist : v.toList = List.ofFn v.get := by
    apply List.ext_getElem
    · simp
    · intro i h h'
      simp [Vector.get_eq_getElem]
  rw [Scalar.product, ← List.prod_eq_foldl, hlist, List.prod_ofFn]

theorem det_multipliers (M : DenseMatrix K n n) : (multipliers M n).det = 1 := by
  rw [det_of_isLowerTriangular]
  · simp [multipliers]
  · intro i j hij
    have hlt : i < j := hij
    simp [multipliers, hlt.ne, hlt.not_gt]

theorem det_reduced (M : DenseMatrix K n n) : (reduced M n).det = ∏ i, M.entry i i := by
  rw [det_of_isUpperTriangular]
  · simp [reduced]
  · intro i j hij
    have hlt : j < i := hij
    simp [reduced, hlt.not_ge, j.isLt.not_ge]

theorem toMatrix_balanced (A : DenseMatrix K n n) (r q : Vector K n) :
    (balanced A r q).toMatrix =
      diagonal (coordinates r) * A.toMatrix * diagonal (coordinates q) := by
  ext i j
  simp [balanced]

theorem det_balanced (A : DenseMatrix K n n) (r q : Vector K n) :
    (balanced A r q).toMatrix.det =
      (∏ i, r.get i) * A.toMatrix.det * ∏ j, q.get j := by
  rw [toMatrix_balanced, det_mul, det_mul, det_diagonal, det_diagonal]
  rfl

/-! ### The determinant of the matrix -/

/-- The product of the pivots is the determinant up to the scales and the sign of the
    permutation. -/
theorem Restores.prod_pivots (hF : F.Restores A) (hparity : CountsExchanges F.origin F.exchanges) :
    ∏ i, F.compact.entry i i = (-1) ^ F.exchanges *
      ((∏ i, F.rowScale.get i) * A.toMatrix.det * ∏ j, F.columnScale.get j) := by
  obtain ⟨σ, hσ, hsign⟩ := hparity
  calc
    _ = (multipliers F.compact n * reduced F.compact n).det := by
      rw [det_mul, det_multipliers, det_reduced, one_mul]
    _ = ((balanced A F.rowScale F.columnScale).toMatrix.submatrix σ id).det := by
      rw [hF.product, hσ]
    _ = _ := by
      rw [det_permute, det_balanced, hsign]
      push_cast
      rfl

theorem Restores.determinant_eq (hF : F.Restores A)
    (hparity : CountsExchanges F.origin F.exchanges) : F.determinant = A.toMatrix.det := by
  have hrows : ∏ i, F.rowScale.get i ≠ 0 :=
    Finset.prod_ne_zero_iff.2 fun i _ => hF.rowScale_ne_zero i
  have hcolumns : ∏ j, F.columnScale.get j ≠ 0 :=
    Finset.prod_ne_zero_iff.2 fun j _ => hF.columnScale_ne_zero j
  have hsign : (if F.exchanges % 2 = 0 then 1 else -1 : K) = (-1) ^ F.exchanges := by
    split
    · rename_i heven
      rw [(Nat.even_iff.2 heven).neg_one_pow]
    · rename_i hodd
      rw [(Nat.odd_iff.2 (Nat.mod_two_ne_zero.1 hodd)).neg_one_pow]
  have hsquare : ((-1) ^ F.exchanges * (-1) ^ F.exchanges : K) = 1 := by
    rw [← mul_pow, neg_one_mul, neg_neg, one_pow]
  have hscales : Scalar.product (F.rowScale.toList ++ F.columnScale.toList) =
      (∏ i, F.rowScale.get i) * ∏ j, F.columnScale.get j := by
    rw [← product_toList, ← product_toList]
    simp only [Scalar.product, ← List.prod_eq_foldl, List.prod_append]
  have hpivots : Scalar.product F.compact.diagonal.toList = ∏ i, F.compact.entry i i := by
    rw [product_toList]
    simp [DenseMatrix.diagonal]
  rw [determinant, hsign, hscales, hpivots, hF.prod_pivots hparity]
  field_simp
  linear_combination A.toMatrix.det * hsquare

theorem Restores.determinant_ne_zero (hF : F.Restores A)
    (hparity : CountsExchanges F.origin F.exchanges) : F.determinant ≠ 0 := by
  intro hzero
  rw [hF.determinant_eq hparity] at hzero
  have hpivots := hF.prod_pivots hparity
  rw [hzero, mul_zero, zero_mul, mul_zero] at hpivots
  exact Finset.prod_ne_zero_iff.2 (fun i _ => hF.pivot_ne_zero i) hpivots

theorem determinant_of_withScales (hr : ∀ i : Fin n, r.get i ≠ 0)
    (hq : ∀ j : Fin n, q.get j ≠ 0) (h : withScales A r q = .ok F) :
    F.determinant = A.toMatrix.det ∧ F.determinant ≠ 0 := by
  have hF := restores_of_withScales hr hq h
  have hparity := countsExchanges_of_withScales h
  exact ⟨hF.determinant_eq hparity, hF.determinant_ne_zero hparity⟩

theorem withScales_of_det_eq_zero (hr : ∀ i : Fin n, r.get i ≠ 0)
    (hq : ∀ j : Fin n, q.get j ≠ 0) (hdet : A.toMatrix.det = 0) :
    ∃ column pivot, withScales A r q = .error (.singular column pivot) := by
  refine (withScales_cases A r q).resolve_left ?_
  rintro ⟨F, h⟩
  obtain ⟨heq, hne⟩ := determinant_of_withScales hr hq h
  exact hne (heq.trans hdet)

/-- A factorization computes the determinant of the matrix, which is not zero, and a matrix
    whose determinant is zero is refused as singular: with the scales that balance it as with
    any other scales that are not zero. -/
theorem determinant_eq_det (hn : n ≠ 0) (A : DenseMatrix K n n) :
    ((∀ F, ofMatrix A = .ok F → F.determinant = A.toMatrix.det ∧ F.determinant ≠ 0) ∧
        (A.toMatrix.det = 0 → ∃ column pivot, ofMatrix A = .error (.singular column pivot))) ∧
      ∀ r q : Vector K n, (∀ i : Fin n, r.get i ≠ 0) → (∀ j : Fin n, q.get j ≠ 0) →
        (∀ F, withScales A r q = .ok F → F.determinant = A.toMatrix.det ∧ F.determinant ≠ 0) ∧
          (A.toMatrix.det = 0 →
            ∃ column pivot, withScales A r q = .error (.singular column pivot)) := by
  have hscaled : ∀ r q : Vector K n, (∀ i : Fin n, r.get i ≠ 0) → (∀ j : Fin n, q.get j ≠ 0) →
      (∀ F, withScales A r q = .ok F → F.determinant = A.toMatrix.det ∧ F.determinant ≠ 0) ∧
        (A.toMatrix.det = 0 →
          ∃ column pivot, withScales A r q = .error (.singular column pivot)) :=
    fun r q hr hq =>
      ⟨fun F h => determinant_of_withScales hr hq h, withScales_of_det_eq_zero hr hq⟩
  refine ⟨?_, hscaled⟩
  rw [ofMatrix_eq hn]
  exact hscaled _ _ (rowScales_ne_zero A _) (columnScales_ne_zero A)

/-- A matrix whose rows are exchanged twice, one whose rows are exchanged once, with scales
    that do not balance it, and a singular one. -/
theorem determinant_eq_det_exchanged :
    let A : DenseMatrix ℚ 3 3 := #v[#v[0, 1, 2], #v[4, 0, 1], #v[1, 8, 0]]
    let B : DenseMatrix ℚ 2 2 := #v[#v[1, 2], #v[2, 4]]
    (∃ F, ofMatrix A = .ok F ∧ F.exchanges = 2 ∧ F.determinant = 65 ∧ A.toMatrix.det = 65) ∧
      (∃ F, withScales A #v[8, 1, 1] #v[1 / 3, -1, 5] = .ok F ∧ F.exchanges = 1 ∧
        F.determinant = A.toMatrix.det ∧ F.determinant ≠ 0) ∧
      B.toMatrix.det = 0 ∧ ∃ column pivot, ofMatrix B = .error (.singular column pivot) := by
  intro A B
  obtain ⟨F, hF, hexchanges, hdeterminant⟩ :
      ∃ F, ofMatrix A = .ok F ∧ F.exchanges = 2 ∧ F.determinant = 65 :=
    exists_ok_of_any (by decide +kernel)
  obtain ⟨G, hG, hexchanges'⟩ : ∃ G, withScales A #v[8, 1, 1] #v[1 / 3, -1, 5] = .ok G ∧
      G.exchanges = 1 :=
    exists_ok_of_any (by decide +kernel)
  have hA := determinant_eq_det three_ne_zero A
  have hB : B.toMatrix.det = 0 := by
    rw [det_fin_two]
    decide +kernel
  refine ⟨⟨F, hF, hexchanges, hdeterminant, ?_⟩, ⟨G, hG, hexchanges', ?_⟩, hB, ?_⟩
  · rw [← (hA.1.1 F hF).1, hdeterminant]
  · exact (hA.2 _ _ (by decide) (by decide +kernel)).1 G hG
  · exact (determinant_eq_det two_ne_zero B).1.2 hB

end NumericMethods.Factorization
