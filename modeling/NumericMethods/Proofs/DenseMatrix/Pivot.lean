/-
  NumericMethods/Proofs/DenseMatrix/Pivot.lean
  ============================================
  **When every column has a usable pivot.**

  The pivot of a column is its largest entry on or below the diagonal
  (`abs_entry_le_pivotOf`).  If `x` is the row vector with `x S` the unit vector of column
  `k`, then the magnitudes in `x` and the pivot of that column have a product of at least
  one (`one_le_sum_mul_pivot`), whatever rows were exchanged before.  So a pivot is small
  only if the inverse of the matrix is large.

  Without an inverse: if `S` sends no vector to one within the tolerance of zero
  (`IsRegular`), then the elimination finds a pivot in every column
  (`exists_eliminateFrom`), and the matrix can be factored (`exists_ofMatrix`).  It fails in
  no other way than by the lack of a pivot (`ofMatrix_cases`).
-/
import Mathlib
import NumericMethods.Proofs.DenseMatrix.Elimination
import NumericMethods.Proofs.DenseMatrix.Norm

namespace NumericMethods.Factorization

open DenseMatrix Matrix

variable {K : Type} [Field K] [LinearOrder K] [IsStrictOrderedRing K] [ExactScalar K]
variable {n : ℕ} {S A : DenseMatrix K n n} {tolerance : K} {s : Stage K n}

/-! ### The largest entry of a column -/

theorem foldl_pivot_le (M : DenseMatrix K n n) (k : Fin n) (best : Fin n × K)
    (is : List (Fin n)) :
    let last := is.foldl (fun best i =>
      if Scalar.abs best.2 < Scalar.abs (M.entry i k) then (i, M.entry i k) else best) best
    |best.2| ≤ |last.2| ∧ ∀ i ∈ is, |M.entry i k| ≤ |last.2| := by
  induction is generalizing best with
  | nil => simp
  | cons i is ih =>
    dsimp only
    rw [List.foldl_cons, List.forall_mem_cons]
    by_cases hi : Scalar.abs best.2 < Scalar.abs (M.entry i k)
    · rw [if_pos hi]
      obtain ⟨hbest, hrest⟩ := ih (i, M.entry i k)
      exact ⟨hi.le.trans hbest, hbest, hrest⟩
    · rw [if_neg hi]
      obtain ⟨hbest, hrest⟩ := ih best
      exact ⟨hbest, (not_lt.1 hi).trans hbest, hrest⟩

theorem abs_entry_le_pivotOf (M : DenseMatrix K n n) {k i : Fin n} (hi : k ≤ i) :
    |M.entry i k| ≤ |(pivotOf M k).2| :=
  (foldl_pivot_le M k (k, 0) _).2 i
    (List.mem_filter.2 ⟨List.mem_finRange i, decide_eq_true hi⟩)

/-! ### A small pivot needs a large inverse -/

/-- A row vector that the upper factor sends to a unit vector has no component before it. -/
theorem eq_zero_of_vecMul_reduced {M : DenseMatrix K n n} {k : Fin n} {y : Fin n → K}
    (hpivot : ∀ j < k, M.entry j j ≠ 0) (hy : y ᵥ* reduced M k = Pi.single k 1) :
    ∀ j < k, y j = 0 := by
  intro j hj
  induction j using WellFoundedLT.induction with
  | ind j ih =>
    have hcolumn : ∑ i, y i * reduced M k i j = 0 := by
      rw [← Pi.single_eq_of_ne (M := fun _ => K) hj.ne (1 : K), ← hy]
      rfl
    -- the entries below the diagonal of this column count as zeros
    have hsingle : ∑ i, y i * reduced M k i j = y j * M.entry j j := by
      rw [Finset.sum_eq_single j]
      · simp [reduced]
      · intro i _ hij
        rcases lt_or_gt_of_ne hij with hlt | hgt
        · rw [ih i hlt (hlt.trans hj), zero_mul]
        · simp [reduced, hgt.not_ge, hj.not_ge]
      · simp
    rw [hsingle] at hcolumn
    exact (mul_eq_zero.1 hcolumn).resolve_right (hpivot j hj)

/-- The columns of the lower factor from `k` on are those of the identity. -/
theorem vecMul_multipliers (M : DenseMatrix K n n) {k i : Fin n} (hi : k ≤ i) (x : Fin n → K) :
    (x ᵥ* multipliers M k) i = x i := by
  rw [Matrix.vecMul, dotProduct, Finset.sum_eq_single i]
  · simp [multipliers]
  · intro j _ hj
    simp [multipliers, hj, hi.not_gt]
  · simp

theorem one_le_sum_mul_pivot {k : Fin n} (htolerance : 0 ≤ tolerance)
    (hs : s.Factors S tolerance k) {x : Fin n → K} (hx : x ᵥ* S.toMatrix = Pi.single k 1) :
    1 ≤ (∑ j, |x j|) * |(pivotOf s.compact k).2| := by
  let σ : Equiv.Perm (Fin n) :=
    Equiv.ofBijective _ (Finite.injective_iff_bijective.1 hs.origin_injective)
  let y := (x ∘ σ) ᵥ* multipliers s.compact k
  have hy : y ᵥ* reduced s.compact k = Pi.single k 1 := by
    rw [vecMul_vecMul, hs.product]
    change (x ∘ σ) ᵥ* S.toMatrix.submatrix σ id = _
    rw [submatrix_vecMul_equiv]
    simpa [Function.comp_assoc] using hx
  have hbefore : ∀ j < k, y j = 0 := by
    apply eq_zero_of_vecMul_reduced _ hy
    intro j hj
    exact abs_pos.1 (htolerance.trans_lt (hs.pivot j hj))
  have hterm : ∀ i, |y i * reduced s.compact k i k| ≤
      |x (σ i)| * |(pivotOf s.compact k).2| := by
    intro i
    rw [abs_mul]
    rcases lt_or_ge i k with hi | hi
    · rw [hbefore i hi, abs_zero, zero_mul]
      exact mul_nonneg (abs_nonneg _) (abs_nonneg _)
    · have hentry : reduced s.compact k i k = s.compact.entry i k := by simp [reduced]
      rw [hentry, show y i = x (σ i) from vecMul_multipliers _ hi _]
      exact mul_le_mul_of_nonneg_left (abs_entry_le_pivotOf _ hi) (abs_nonneg _)
  calc
    (1 : K) = |∑ i, y i * reduced s.compact k i k| := by
      have hcolumn : ∑ i, y i * reduced s.compact k i k = 1 := by
        rw [← Pi.single_eq_same (M := fun _ => K) k (1 : K), ← hy]
        rfl
      rw [hcolumn, abs_one]
    _ ≤ ∑ i, |x (σ i)| * |(pivotOf s.compact k).2| :=
      (Finset.abs_sum_le_sum_abs _ _).trans (Finset.sum_le_sum fun i _ => hterm i)
    _ = (∑ j, |x j|) * |(pivotOf s.compact k).2| := by
      rw [← Finset.sum_mul, Equiv.sum_comp σ fun j => |x j|]

/-! ### Regular matrices -/

/-- No vector is sent to one within the tolerance of zero, measured by its own norm. -/
def IsRegular (S : DenseMatrix K n n) : Prop :=
  ∀ v : Vector K n, 0 < normInf v → threshold S * normInf v < normInf (S.mulVec v)

theorem IsRegular.det_ne_zero (hS : IsRegular S) : S.toMatrix.det ≠ 0 := by
  intro hzero
  obtain ⟨v, hne, hv⟩ := exists_mulVec_eq_zero_iff.2 hzero
  obtain ⟨k, hk⟩ := Function.ne_iff.1 hne
  obtain ⟨u, rfl⟩ : ∃ u : Vector K n, coordinates u = v := ⟨_, coordinates_ofFn v⟩
  have hu : 0 < normInf u := (abs_pos.2 hk).trans_le (abs_get_le_normInf u k)
  have hnorm : normInf (S.mulVec u) ≤ 0 := by
    rw [normInf_le_iff]
    refine ⟨le_rfl, ?_⟩
    intro i
    rw [← coordinates_apply, coordinates_mulVec, hv, Pi.zero_apply, abs_zero]
  have hnonneg := mul_nonneg (threshold_nonneg S) hu.le
  exact absurd ((hS u hu).trans_le hnorm) hnonneg.not_gt

/-- The rows of the inverse of a regular matrix are short. -/
theorem IsRegular.exists_vecMul_eq (hS : IsRegular S) (k : Fin n) :
    ∃ x : Fin n → K, x ᵥ* S.toMatrix = Pi.single k 1 ∧ threshold S * ∑ j, |x j| < 1 := by
  have hunit := isUnit_iff_ne_zero.2 hS.det_ne_zero
  let x : Fin n → K := Pi.single k 1 ᵥ* S.toMatrix⁻¹
  refine ⟨x, ?_, ?_⟩
  · rw [vecMul_vecMul, nonsing_inv_mul _ hunit, vecMul_one]
  · by_cases hx : 0 < ∑ j, |x j|
    · -- the vector of the signs of `x` has a preimage with this sum as a component
      let f : Vector K n := Vector.ofFn fun j => (SignType.sign (x j) : K)
      let u : Vector K n := Vector.ofFn (S.toMatrix⁻¹ *ᵥ coordinates f)
      have hSu : S.mulVec u = f := by
        apply coordinates_injective
        rw [coordinates_mulVec, coordinates_ofFn, mulVec_mulVec, mul_nonsing_inv _ hunit,
          one_mulVec]
      have hu : u.get k = ∑ j, |x j| := by
        have hrow : u.get k = x ⬝ᵥ coordinates f := by
          rw [Vector.get_ofFn, ← single_one_dotProduct k (S.toMatrix⁻¹ *ᵥ coordinates f),
            dotProduct_mulVec]
        rw [hrow, dotProduct, coordinates_ofFn]
        exact Finset.sum_congr rfl fun j _ => self_mul_sign (x j)
      have hf : normInf f ≤ 1 := by
        rw [normInf_le_iff]
        refine ⟨zero_le_one, ?_⟩
        intro i
        rw [Vector.get_ofFn]
        rcases lt_trichotomy (x i) 0 with h | h | h <;> simp [h]
      have hle : ∑ j, |x j| ≤ normInf u := by
        rw [← hu]
        exact (le_abs_self _).trans (abs_get_le_normInf u k)
      calc
        threshold S * ∑ j, |x j| ≤ threshold S * normInf u :=
          mul_le_mul_of_nonneg_left hle (threshold_nonneg S)
        _ < normInf (S.mulVec u) := hS u (hx.trans_le hle)
        _ ≤ 1 := by rwa [hSu]
    · apply lt_of_le_of_lt _ one_pos
      exact mul_nonpos_of_nonneg_of_nonpos (threshold_nonneg S) (not_lt.1 hx)

/-- Every column of a regular matrix has a usable pivot. -/
theorem IsRegular.threshold_lt_pivot (hS : IsRegular S) {k : Fin n}
    (hs : s.Factors S (threshold S) k) : threshold S < |(pivotOf s.compact k).2| := by
  obtain ⟨x, hx, hshort⟩ := hS.exists_vecMul_eq k
  have hlarge := one_le_sum_mul_pivot (threshold_nonneg S) hs hx
  have hnonneg : 0 ≤ ∑ j, |x j| := Finset.sum_nonneg fun j _ => abs_nonneg _
  by_contra hsmall
  have hle := mul_le_mul_of_nonneg_left (not_lt.1 hsmall) hnonneg
  rw [mul_comm] at hshort
  exact absurd (hlarge.trans hle) hshort.not_ge

theorem exists_eliminateFrom {k : ℕ} (htolerance : 0 ≤ tolerance)
    (hpivot : ∀ (k : Fin n) (s : Stage K n), s.Factors S tolerance k →
      tolerance < |(pivotOf s.compact k).2|)
    (hs : s.Factors S tolerance k) : ∃ t, eliminateFrom tolerance k s = .ok t := by
  fun_induction eliminateFrom tolerance k s with
  | case1 k s hk pivot hsmall => exact absurd (hpivot ⟨k, hk⟩ s hs) hsmall.not_gt
  | case2 k s hk pivot hlarge u ih =>
    exact ih (Stage.Factors.next (k := ⟨k, hk⟩) htolerance (not_le.1 hlarge) hs)
  | case3 k s hk => exact ⟨s, rfl⟩

/-- The balanced matrix with the scales that the factorization takes. -/
def balancedForm (A : DenseMatrix K n n) : DenseMatrix K n n :=
  balanced A (rowScales A (columnScales A)) (columnScales A)

/-- Whether the pivots suffice is seen from the balanced matrix. -/
theorem exists_withScales_iff {r q : Vector K n} : (∃ F, withScales A r q = .ok F) ↔
    ∃ t, eliminateFrom (threshold (balanced A r q)) 0
      ⟨balanced A r q, Vector.ofFn id, 0⟩ = .ok t := by
  simp only [withScales]
  constructor
  · rintro ⟨F, hF⟩
    split at hF
    · rename_i t ht
      exact ⟨t, ht⟩
    · cases hF
  · rintro ⟨t, ht⟩
    rw [ht]
    exact ⟨_, rfl⟩

theorem exists_ofMatrix (hn : n ≠ 0) (hA : IsRegular (balancedForm A)) :
    ∃ F, ofMatrix A = .ok F := by
  rw [ofMatrix_eq hn, exists_withScales_iff]
  exact exists_eliminateFrom (threshold_nonneg _) (fun _ _ => hA.threshold_lt_pivot)
    (Stage.factors_start (balancedForm A) _)

theorem eliminateFrom_cases (tolerance : K) (k : ℕ) (s : Stage K n) :
    (∃ t, eliminateFrom tolerance k s = .ok t) ∨
      ∃ column pivot, eliminateFrom tolerance k s = .error (.singular column pivot) := by
  fun_induction eliminateFrom tolerance k s with
  | case1 k s hk pivot hsmall => exact .inr ⟨_, _, rfl⟩
  | case2 k s hk pivot hlarge u ih => exact ih
  | case3 k s hk => exact .inl ⟨_, rfl⟩

/-- The lack of a pivot is the only failure of a factorization. -/
theorem withScales_cases (A : DenseMatrix K n n) (r q : Vector K n) :
    (∃ F, withScales A r q = .ok F) ∨
      ∃ column pivot, withScales A r q = .error (.singular column pivot) := by
  simp only [withScales]
  let S := balanced A r q
  rcases eliminateFrom_cases (threshold S) 0 ⟨S, Vector.ofFn id, 0⟩ with
    ⟨t, ht⟩ | ⟨column, pivot, ht⟩
  · rw [ht]
    exact .inl ⟨_, rfl⟩
  · rw [ht]
    exact .inr ⟨_, _, rfl⟩

theorem ofMatrix_cases (hn : n ≠ 0) (A : DenseMatrix K n n) :
    (∃ F, ofMatrix A = .ok F) ∨ ∃ column pivot, ofMatrix A = .error (.singular column pivot) := by
  rw [ofMatrix_eq hn]
  exact withScales_cases A _ _

end NumericMethods.Factorization
