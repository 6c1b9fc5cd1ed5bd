/-
  NumericMethods/Proofs/DenseMatrix/Norm.lean
  ===========================================
  **The maximum norm over exact arithmetic.**

  The norm of a vector is the least bound of the magnitudes of its components that is not
  negative (`normInf_le_iff`); every other fact about it is derived from that.  The matrix
  norm that belongs to it is the largest sum of magnitudes in a row
  (`normInf_mulVec_le`).
-/
import Mathlib
import NumericMethods.Proofs.DenseMatrix.Algebra

namespace NumericMethods

variable {K : Type} [Field K] [LinearOrder K] [IsStrictOrderedRing K] [ExactScalar K]

namespace ExactScalar

theorem foldl_larger_le_iff {m B : K} {xs : List K} :
    xs.foldl (fun m y => Scalar.larger m (Scalar.abs y)) m ≤ B ↔
      m ≤ B ∧ ∀ x ∈ xs, |x| ≤ B := by
  induction xs generalizing m with
  | nil => simp
  | cons y ys ih =>
    rw [List.foldl_cons, ih, larger_eq_max, max_le_iff, List.forall_mem_cons, and_assoc]
    rfl

theorem largestMagnitude_le_iff {B : K} {xs : List K} :
    Scalar.largestMagnitude xs ≤ B ↔ 0 ≤ B ∧ ∀ x ∈ xs, |x| ≤ B := foldl_larger_le_iff

/-- A list that is not empty has no other largest magnitude without the zero. -/
theorem peakMagnitude_eq (xs : List K) : Scalar.peakMagnitude xs = Scalar.largestMagnitude xs := by
  cases xs with
  | nil => rfl
  | cons x xs =>
    rw [Scalar.peakMagnitude, Scalar.largestMagnitude, List.foldl_cons, larger_eq_max]
    congr 1
    exact (max_eq_right (abs_nonneg x)).symm

end ExactScalar

namespace DenseMatrix

variable {m n : ℕ} {B : K}

/-! ### Vectors -/

@[simp] theorem get_subVec (u v : Vector K n) (i : Fin n) :
    (subVec u v).get i = u.get i - v.get i := congrFun (coordinates_subVec u v) i

theorem normInf_le_iff {v : Vector K n} : normInf v ≤ B ↔ 0 ≤ B ∧ ∀ i, |v.get i| ≤ B := by
  rw [normInf, ExactScalar.largestMagnitude_le_iff]
  apply and_congr_right
  intro _
  constructor
  · intro h i
    exact h _ (Vector.mem_toList_iff.2 (Vector.getElem_mem i.isLt))
  · intro h x hx
    obtain ⟨i, hi, rfl⟩ := List.getElem_of_mem hx
    rw [Vector.length_toList] at hi
    exact h ⟨i, hi⟩

theorem normInf_nonneg (v : Vector K n) : 0 ≤ normInf v := (normInf_le_iff.1 le_rfl).1

theorem abs_get_le_normInf (v : Vector K n) (i : Fin n) : |v.get i| ≤ normInf v :=
  (normInf_le_iff.1 le_rfl).2 i

/-- Some component has the magnitude of the norm, unless that is zero. -/
theorem exists_normInf_eq {v : Vector K n} (hv : 0 < normInf v) : ∃ i, normInf v = |v.get i| := by
  by_contra hnone
  have hlt : ∀ i, |v.get i| < normInf v := by
    intro i
    exact lt_of_le_of_ne (abs_get_le_normInf v i) fun h => hnone ⟨i, h.symm⟩
  rcases isEmpty_or_nonempty (Fin n) with hempty | hnonempty
  · exact hv.not_ge (normInf_le_iff.2 ⟨le_rfl, isEmptyElim⟩)
  · obtain ⟨i, hi⟩ := Finite.exists_max fun i => |v.get i|
    exact (hlt i).not_ge (normInf_le_iff.2 ⟨abs_nonneg _, hi⟩)

theorem normInf_lt (hB : 0 < B) {v : Vector K n} (h : ∀ i, |v.get i| < B) : normInf v < B := by
  by_contra hge
  obtain ⟨i, hi⟩ := exists_normInf_eq (hB.trans_le (not_lt.1 hge))
  rw [hi] at hge
  exact hge (h i)

/-- The norm of a vector whose magnitudes are those of another one times a factor. -/
theorem normInf_eq_mul {u v : Vector K n} {w : K} (hw : 0 ≤ w)
    (hget : ∀ i, |u.get i| = w * |v.get i|) : normInf u = w * normInf v := by
  apply le_antisymm
  · rw [normInf_le_iff]
    refine ⟨mul_nonneg hw (normInf_nonneg v), ?_⟩
    intro i
    rw [hget]
    exact mul_le_mul_of_nonneg_left (abs_get_le_normInf v i) hw
  · rcases hw.eq_or_lt with rfl | hw
    · rw [zero_mul]
      exact normInf_nonneg _
    · rw [← le_div_iff₀' hw, normInf_le_iff]
      refine ⟨div_nonneg (normInf_nonneg _) hw.le, ?_⟩
      intro i
      rw [le_div_iff₀' hw, ← hget]
      exact abs_get_le_normInf _ i

theorem normInf_scaleVec (v : Vector K n) (w : K) : normInf (scaleVec v w) = |w| * normInf v := by
  apply normInf_eq_mul (abs_nonneg w)
  intro i
  rw [scaleVec, Vector.get_map, abs_mul, mul_comm]

/-- The way from `u` to `w` is not longer than the one by `v`. -/
theorem normInf_sub_le (u v w : Vector K n) :
    normInf (subVec u w) ≤ normInf (subVec u v) + normInf (subVec v w) := by
  rw [normInf_le_iff]
  refine ⟨add_nonneg (normInf_nonneg _) (normInf_nonneg _), ?_⟩
  intro i
  have huv := abs_get_le_normInf (subVec u v) i
  have hvw := abs_get_le_normInf (subVec v w) i
  rw [get_subVec] at huv hvw ⊢
  exact (abs_sub_le _ _ _).trans (add_le_add huv hvw)

theorem normInf_sub_comm (u v : Vector K n) : normInf (subVec u v) = normInf (subVec v u) := by
  apply eq_of_forall_ge_iff
  intro B
  simp only [normInf_le_iff, get_subVec, abs_sub_comm]

theorem eq_of_normInf_sub_le_zero {u v : Vector K n} (h : normInf (subVec u v) ≤ 0) : u = v := by
  apply coordinates_injective
  ext i
  have hi := (normInf_le_iff.1 h).2 i
  rw [get_subVec] at hi
  exact sub_eq_zero.1 (abs_nonpos_iff.1 hi)

/-! ### Matrices -/

/-- The largest sum of magnitudes in a row, the norm of a matrix as an operator. -/
def maxRowSum (A : DenseMatrix K m n) : K := normInf (Vector.ofFn fun i => ∑ j, |A.entry i j|)

theorem rowSum_le_maxRowSum (A : DenseMatrix K m n) (i : Fin m) :
    ∑ j, |A.entry i j| ≤ maxRowSum A := by
  have h := abs_get_le_normInf (Vector.ofFn fun i => ∑ j, |A.entry i j|) i
  rw [Vector.get_ofFn] at h
  exact (le_abs_self _).trans h

theorem get_mulVec (A : DenseMatrix K m n) (v : Vector K n) (i : Fin m) :
    (A.mulVec v).get i = ∑ j, A.entry i j * v.get j := by
  rw [← coordinates_apply, coordinates_mulVec]
  rfl

theorem sum_eq_add_sum_ne (i : Fin n) (f : Fin n → K) :
    ∑ j, f j = f i + ∑ j with j ≠ i, f j := by
  rw [Finset.filter_ne', Finset.add_sum_erase _ f (Finset.mem_univ i)]

theorem sum_ne_eq (i : Fin n) (f : Fin n → K) :
    ∑ j with j ≠ i, f j = ∑ j with j < i, f j + ∑ j with i < j, f j := by
  simp only [Finset.sum_filter, ← Finset.sum_add_distrib]
  apply Finset.sum_congr rfl
  intro j _
  rcases lt_trichotomy j i with h | rfl | h
  · simp [h, h.ne, h.not_gt]
  · simp
  · simp [h, h.ne', h.not_gt]

/-- A sum of products is bounded by the sum of the factors on one side and a bound of the
    factors on the other. -/
theorem abs_sum_mul_le {ι : Type} {t : Finset ι} {f u : ι → K} (hu : ∀ j ∈ t, |u j| ≤ B) :
    |∑ j ∈ t, f j * u j| ≤ (∑ j ∈ t, |f j|) * B := by
  rw [Finset.sum_mul]
  apply (Finset.abs_sum_le_sum_abs _ _).trans
  apply Finset.sum_le_sum
  intro j hj
  rw [abs_mul]
  exact mul_le_mul_of_nonneg_left (hu j hj) (abs_nonneg _)

theorem normInf_mulVec_le (A : DenseMatrix K m n) (v : Vector K n) :
    normInf (A.mulVec v) ≤ maxRowSum A * normInf v := by
  rw [normInf_le_iff]
  refine ⟨mul_nonneg (normInf_nonneg _) (normInf_nonneg v), ?_⟩
  intro i
  rw [get_mulVec]
  apply (abs_sum_mul_le fun j _ => abs_get_le_normInf v j).trans
  exact mul_le_mul_of_nonneg_right (rowSum_le_maxRowSum A i) (normInf_nonneg v)

end DenseMatrix

end NumericMethods
