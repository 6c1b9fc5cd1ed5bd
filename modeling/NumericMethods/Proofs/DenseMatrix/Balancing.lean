/-
  NumericMethods/Proofs/DenseMatrix/Balancing.lean
  ================================================
  **Which matrices are regular once they are balanced.**

  The columns are scaled first, then the rows, each by the power of two that balances its
  largest entry.  So a row of the balanced matrix has a balanced largest entry
  (`isBalanced_row`), and no entry of the matrix is much larger (`threshold_le`).  In a
  column the largest entry was balanced before the rows were scaled (`isBalanced_column`).

    * A diagonal matrix without zeros on the diagonal is regular: each diagonal entry is the
      largest one of its row (`isRegular_of_diagonal`).
    * A lower triangular matrix is regular if its diagonal entries outweigh the rest of
      their rows up to a factor, and do not differ too much in magnitude
      (`isRegular_of_lower`).  The components of a vector are bounded one after the
      other, like in a forward substitution.

  The second condition cannot be left out.  The column scales follow the largest entry of
  the column, and a diagonal entry far below that is small after the columns are scaled,
  while its row may have other entries that are not.
-/
import Mathlib
import NumericMethods.Proofs.DenseMatrix.Pivot
import NumericMethods.Proofs.Scalar.Balance

namespace NumericMethods.Factorization

open DenseMatrix

variable {K : Type} [Field K] [LinearOrder K] [IsStrictOrderedRing K] [ExactScalar K]
variable {n : ℕ} {M : DenseMatrix K n n} {y ω : K}

/-! ### The largest entries of rows and columns -/

/-- The largest magnitude in a column. -/
def columnPeak (M : DenseMatrix K n n) (j : Fin n) : K := normInf (M.column j)

/-- The largest magnitude in a row after the columns are scaled. -/
def rowPeak (M : DenseMatrix K n n) (i : Fin n) : K :=
  normInf (Vector.zipWith (· * ·) (M.get i) (columnScales M))

theorem get_columnScales (M : DenseMatrix K n n) (j : Fin n) :
    (columnScales M).get j = Scalar.balance (columnPeak M j) := by
  rw [columnScales, Vector.get_ofFn, ExactScalar.peakMagnitude_eq]
  rfl

theorem get_rowScales (M : DenseMatrix K n n) (q : Vector K n) (i : Fin n) :
    (rowScales M q).get i = Scalar.balance (normInf (Vector.zipWith (· * ·) (M.get i) q)) := by
  rw [rowScales, Vector.get_map]
  rfl

theorem entry_balancedForm (M : DenseMatrix K n n) (i j : Fin n) :
    (balancedForm M).entry i j =
      (rowScales M (columnScales M)).get i * M.entry i j * (columnScales M).get j := by
  rw [balancedForm, balanced, entry_ofFn]

theorem get_mulVec_balancedForm (v : Vector K n) (i : Fin n) :
    ((balancedForm M).mulVec v).get i = (rowScales M (columnScales M)).get i *
      ∑ j, M.entry i j * ((columnScales M).get j * v.get j) := by
  rw [get_mulVec, Finset.mul_sum]
  apply Finset.sum_congr rfl
  intro j _
  rw [entry_balancedForm]
  ring

theorem get_column {α : Type} (M : DenseMatrix α n n) (i j : Fin n) :
    (M.column j).get i = M.entry i j := by
  simp [column, entry, Vector.get_eq_getElem]

theorem get_zipWith_mul {α : Type} [Mul α] (M : DenseMatrix α n n) (q : Vector α n)
    (i j : Fin n) :
    (Vector.zipWith (· * ·) (M.get i) q).get j = M.entry i j * q.get j := by
  simp [entry, Vector.get_eq_getElem]

theorem columnPeak_le_iff {j : Fin n} :
    columnPeak M j ≤ y ↔ 0 ≤ y ∧ ∀ i, |M.entry i j| ≤ y := by
  simp only [columnPeak, normInf_le_iff, get_column]

theorem rowPeak_le_iff {i : Fin n} :
    rowPeak M i ≤ y ↔ 0 ≤ y ∧ ∀ j, |M.entry i j * (columnScales M).get j| ≤ y := by
  simp only [rowPeak, normInf_le_iff, get_zipWith_mul]

theorem abs_entry_le_columnPeak (M : DenseMatrix K n n) (i j : Fin n) :
    |M.entry i j| ≤ columnPeak M j := (columnPeak_le_iff.1 le_rfl).2 i

theorem abs_entry_le_rowPeak (M : DenseMatrix K n n) (i j : Fin n) :
    |M.entry i j * (columnScales M).get j| ≤ rowPeak M i := (rowPeak_le_iff.1 le_rfl).2 j

theorem mem_entries_iff {α : Type} {S : DenseMatrix α n n} {x : α} :
    x ∈ S.entries ↔ ∃ i j, x = S.entry i j := by
  constructor
  · intro hx
    obtain ⟨row, hrow, hx⟩ := List.mem_flatMap.1 hx
    obtain ⟨i, hi, rfl⟩ := Vector.mem_iff_getElem.1 (Vector.mem_toList_iff.1 hrow)
    obtain ⟨j, hj, rfl⟩ := Vector.mem_iff_getElem.1 (Vector.mem_toList_iff.1 hx)
    exact ⟨⟨i, hi⟩, ⟨j, hj⟩, rfl⟩
  · rintro ⟨i, j, rfl⟩
    apply List.mem_flatMap.2
    refine ⟨S.get i, Vector.mem_toList_iff.2 (Vector.getElem_mem i.isLt), ?_⟩
    exact Vector.mem_toList_iff.2 (Vector.getElem_mem j.isLt)

theorem peakMagnitude_entries_le_iff {S : DenseMatrix K n n} :
    Scalar.peakMagnitude S.entries ≤ y ↔ 0 ≤ y ∧ ∀ i j, |S.entry i j| ≤ y := by
  rw [ExactScalar.peakMagnitude_eq, ExactScalar.largestMagnitude_le_iff]
  apply and_congr_right
  intro _
  constructor
  · intro h i j
    exact h _ (mem_entries_iff.2 ⟨i, j, rfl⟩)
  · intro h x hx
    obtain ⟨i, j, rfl⟩ := mem_entries_iff.1 hx
    exact h i j

/-! ### Lower triangular rows -/

/-- The components of a vector with a small image are bounded one after the other. -/
theorem abs_le_of_lower {u : Fin n → K} {B : K} (hdiagonal : ∀ i, M.entry i i ≠ 0)
    (hω : 1 ≤ ω) (hB : 0 ≤ B) (hlower : ∀ i j, i < j → M.entry i j = 0)
    (hrow : ∀ i, ∑ j with j < i, |M.entry i j| ≤ ω * |M.entry i i|)
    (hu : ∀ i, |∑ j, M.entry i j * u j| ≤ B * |M.entry i i|) (i : Fin n) :
    |u i| ≤ (i + 1) * ω ^ i.val * B := by
  have hpos : 0 < ω := one_pos.trans_le hω
  induction i using WellFoundedLT.induction with
  | ind i ih =>
    have hbehind : ∑ j with i < j, M.entry i j * u j = 0 := by
      apply Finset.sum_eq_zero
      intro j hj
      rw [hlower i j (Finset.mem_filter.1 hj).2, zero_mul]
    have hterms : M.entry i i * u i =
        (∑ j, M.entry i j * u j) - ∑ j with j < i, M.entry i j * u j := by
      rw [sum_eq_add_sum_ne i, sum_ne_eq, hbehind]
      ring
    have hbefore : |∑ j with j < i, M.entry i j * u j| ≤
        (∑ j with j < i, |M.entry i j|) * (i * ω ^ i.val * B / ω) := by
      apply abs_sum_mul_le
      intro j hj
      have hji : j.val + 1 ≤ i.val := (Finset.mem_filter.1 hj).2
      have hcast : (j : K) + 1 ≤ i := by exact_mod_cast hji
      apply (ih j hji).trans
      rw [le_div_iff₀ hpos]
      calc
        (j + 1) * ω ^ j.val * B * ω = (j + 1) * ω ^ (j.val + 1) * B := by ring
        _ ≤ i * ω ^ i.val * B := by
          have := pow_le_pow_right₀ hω hji
          gcongr
    apply le_of_mul_le_mul_left _ (abs_pos.2 (hdiagonal i))
    calc
      |M.entry i i| * |u i| ≤ B * |M.entry i i| +
          ω * |M.entry i i| * (i * ω ^ i.val * B / ω) := by
        rw [← abs_mul, hterms]
        apply (abs_sub _ _).trans
        apply add_le_add (hu i)
        apply hbefore.trans
        exact mul_le_mul_of_nonneg_right (hrow i) (by positivity)
      _ = |M.entry i i| * (B + i * ω ^ i.val * B) := by
        field_simp
      _ ≤ |M.entry i i| * ((i + 1) * ω ^ i.val * B) := by
        apply mul_le_mul_of_nonneg_left _ (abs_nonneg _)
        have := le_mul_of_one_le_left hB (one_le_pow₀ hω (n := i.val))
        linarith

theorem abs_entry_le_of_lower (hω : 1 ≤ ω) (hlower : ∀ i j, i < j → M.entry i j = 0)
    (hrow : ∀ i, ∑ j with j < i, |M.entry i j| ≤ ω * |M.entry i i|) (i j : Fin n) :
    |M.entry i j| ≤ ω * |M.entry i i| := by
  rcases lt_trichotomy j i with h | rfl | h
  · apply le_trans _ (hrow i)
    exact Finset.single_le_sum (f := fun j => |M.entry i j|) (fun _ _ => abs_nonneg _)
      (Finset.mem_filter.2 ⟨Finset.mem_univ j, h⟩)
  · exact le_mul_of_one_le_left (abs_nonneg _) hω
  · rw [hlower i j h, abs_zero]
    positivity

/-! ### Balanced rows and columns -/

section Scales

variable [NearestPowerBalance K] (hdiagonal : ∀ i, M.entry i i ≠ 0)
include hdiagonal

theorem isBalanced_column (j : Fin n) :
    0 < (columnScales M).get j ∧ IsBalanced (columnPeak M j * (columnScales M).get j) := by
  have hpeak : 0 < columnPeak M j :=
    (abs_pos.2 (hdiagonal j)).trans_le (abs_entry_le_columnPeak M j j)
  obtain ⟨e, he, hbalanced⟩ := NearestPowerBalance.balance_of_pos _ hpeak
  rw [get_columnScales, he]
  exact ⟨zpow_pos two_pos e, hbalanced⟩

theorem isBalanced_row (i : Fin n) : 0 < (rowScales M (columnScales M)).get i ∧
    IsBalanced (rowPeak M i * (rowScales M (columnScales M)).get i) := by
  have hentry : M.entry i i * (columnScales M).get i ≠ 0 :=
    mul_ne_zero (hdiagonal i) (isBalanced_column hdiagonal i).1.ne'
  have hpeak : 0 < rowPeak M i := (abs_pos.2 hentry).trans_le (abs_entry_le_rowPeak M i i)
  obtain ⟨e, he, hbalanced⟩ := NearestPowerBalance.balance_of_pos _ hpeak
  rw [get_rowScales, ← rowPeak, he]
  exact ⟨zpow_pos two_pos e, hbalanced⟩

/-- The tolerance of a pivot is small against every balanced number. -/
theorem threshold_le (hy : IsBalanced y) : 2 ^ 51 * threshold (balancedForm M) ≤ n * y := by
  have hpeak : Scalar.peakMagnitude (balancedForm M).entries ≤ 2 * y := by
    rw [peakMagnitude_entries_le_iff]
    refine ⟨(mul_pos two_pos hy.pos).le, ?_⟩
    intro i j
    obtain ⟨hscale, hrow⟩ := isBalanced_row hdiagonal i
    apply le_trans _ (hrow.le_two_mul hy)
    rw [entry_balancedForm, mul_assoc, abs_mul, abs_of_pos hscale, mul_comm]
    exact mul_le_mul_of_nonneg_right (abs_entry_le_rowPeak M i j) hscale.le
  calc
    2 ^ 51 * threshold (balancedForm M) =
        n * (Scalar.peakMagnitude (balancedForm M).entries / 2) := by
      rw [threshold_eq]
      ring
    _ ≤ n * y := mul_le_mul_of_nonneg_left (by linarith) n.cast_nonneg

/-! ### Diagonal matrices -/

theorem isRegular_of_diagonal (hsize : n < 2 ^ 50)
    (hoff : ∀ i j, i ≠ j → M.entry i j = 0) : IsRegular (balancedForm M) := by
  intro v hv
  obtain ⟨k, hk⟩ := exists_normInf_eq hv
  obtain ⟨hscale, hrow⟩ := isBalanced_row hdiagonal k
  -- the diagonal entry is the largest one of its row
  have hpeak : rowPeak M k * (rowScales M (columnScales M)).get k ≤
      |(balancedForm M).entry k k| := by
    rw [entry_balancedForm, mul_assoc, abs_mul, abs_of_pos hscale, mul_comm]
    apply mul_le_mul_of_nonneg_left _ hscale.le
    rw [rowPeak_le_iff]
    refine ⟨abs_nonneg _, ?_⟩
    intro j
    by_cases hj : k = j
    · rw [hj]
    · rw [hoff k j hj, zero_mul, abs_zero]
      exact abs_nonneg _
  have hcomponent : ((balancedForm M).mulVec v).get k = (balancedForm M).entry k k * v.get k := by
    rw [get_mulVec, Finset.sum_eq_single k]
    · intro j _ hj
      rw [entry_balancedForm, hoff k j hj.symm, mul_zero, zero_mul, zero_mul]
    · simp
  have hlarge : 0 < |(balancedForm M).entry k k| := hrow.pos.trans_le hpeak
  have hthreshold : threshold (balancedForm M) < |(balancedForm M).entry k k| := by
    have hle := (threshold_le hdiagonal hrow).trans (mul_le_mul_of_nonneg_left hpeak n.cast_nonneg)
    have hn : (n : K) < 2 ^ 51 := by
      exact_mod_cast hsize.trans (by norm_num)
    have hlt := mul_lt_mul_of_pos_right hn hlarge
    exact lt_of_mul_lt_mul_left (hle.trans_lt hlt) (by positivity)
  calc
    threshold (balancedForm M) * normInf v < |(balancedForm M).entry k k| * normInf v :=
      mul_lt_mul_of_pos_right hthreshold hv
    _ = |((balancedForm M).mulVec v).get k| := by rw [hcomponent, abs_mul, hk]
    _ ≤ normInf ((balancedForm M).mulVec v) := abs_get_le_normInf _ k

/-! ### Lower triangular matrices -/

/-- No row scale is small against the diagonal. -/
theorem least_le_rowScale {δ : K} {i : Fin n} (hleast : ∀ j, δ ≤ |M.entry j j|)
    (hentry : ∀ j, |M.entry i j| ≤ ω * |M.entry i i|) :
    δ ≤ 2 * ω * ((rowScales M (columnScales M)).get i * |M.entry i i|) := by
  have : Nonempty (Fin n) := ⟨i⟩
  obtain ⟨j, hj⟩ := Finite.exists_max fun j => (columnScales M).get j
  obtain ⟨hscale, hcolumn⟩ := isBalanced_column hdiagonal j
  obtain ⟨hscale', hrow⟩ := isBalanced_row hdiagonal i
  have hω : 0 ≤ ω * |M.entry i i| := (abs_nonneg _).trans (hentry i)
  have hpeak : rowPeak M i ≤ ω * |M.entry i i| * (columnScales M).get j := by
    rw [rowPeak_le_iff]
    refine ⟨mul_nonneg hω hscale.le, ?_⟩
    intro l
    rw [abs_mul, abs_of_pos (isBalanced_column hdiagonal l).1]
    exact mul_le_mul (hentry l) (hj l) (isBalanced_column hdiagonal l).1.le hω
  apply le_of_mul_le_mul_right _ hscale
  calc
    δ * (columnScales M).get j ≤ columnPeak M j * (columnScales M).get j :=
      mul_le_mul_of_nonneg_right ((hleast j).trans (abs_entry_le_columnPeak M j j)) hscale.le
    _ ≤ 2 * (rowPeak M i * (rowScales M (columnScales M)).get i) := hcolumn.le_two_mul hrow
    _ ≤ 2 * (ω * |M.entry i i| * (columnScales M).get j *
        (rowScales M (columnScales M)).get i) := by
      apply mul_le_mul_of_nonneg_left _ two_pos.le
      exact mul_le_mul_of_nonneg_right hpeak hscale'.le
    _ = _ := by ring

/-- A row of the matrix itself is bounded by the image under the balanced matrix. -/
theorem abs_row_le_of_image {δ : K} {i : Fin n} (hδ : 0 < δ)
    (hleast : ∀ j, δ ≤ |M.entry j j|) (hentry : ∀ j, |M.entry i j| ≤ ω * |M.entry i i|)
    (v : Vector K n) :
    |∑ j, M.entry i j * ((columnScales M).get j * v.get j)| ≤
      2 * ω * normInf ((balancedForm M).mulVec v) / δ * |M.entry i i| := by
  have hscale := (isBalanced_row hdiagonal i).1
  have himage := normInf_nonneg ((balancedForm M).mulVec v)
  have hcomponent := abs_get_le_normInf ((balancedForm M).mulVec v) i
  rw [get_mulVec_balancedForm, abs_mul, abs_of_pos hscale] at hcomponent
  apply le_of_mul_le_mul_left _ hscale
  apply hcomponent.trans
  calc
    normInf ((balancedForm M).mulVec v) = normInf ((balancedForm M).mulVec v) / δ * δ := by
      field_simp
    _ ≤ normInf ((balancedForm M).mulVec v) / δ *
        (2 * ω * ((rowScales M (columnScales M)).get i * |M.entry i i|)) := by
      apply mul_le_mul_of_nonneg_left _ (by positivity)
      exact least_le_rowScale hdiagonal hleast hentry
    _ = _ := by ring

/-- The largest component of a vector, in the scale of its column. -/
theorem threshold_mul_normInf_le {v : Vector K n} {k : Fin n} (hk : normInf v = |v.get k|) :
    2 ^ 51 * (threshold (balancedForm M) * normInf v) ≤
      n * columnPeak M k * |(columnScales M).get k * v.get k| := by
  obtain ⟨hscale, hcolumn⟩ := isBalanced_column hdiagonal k
  calc
    2 ^ 51 * (threshold (balancedForm M) * normInf v) ≤
        n * (columnPeak M k * (columnScales M).get k) * normInf v := by
      rw [← mul_assoc]
      exact mul_le_mul_of_nonneg_right (threshold_le hdiagonal hcolumn) (normInf_nonneg v)
    _ = n * columnPeak M k * |(columnScales M).get k * v.get k| := by
      rw [hk, abs_mul, abs_of_pos hscale]
      ring

/-- A lower triangular matrix is regular if its diagonal entries differ by less than
    `2 ^ 50 / (n ^ 2 * ω ^ (n + 1))`, where `ω` says how far they can fall behind their row. -/
theorem isRegular_of_lower (hω : 1 ≤ ω) (hlower : ∀ i j, i < j → M.entry i j = 0)
    (hrow : ∀ i, ∑ j with j < i, |M.entry i j| ≤ ω * |M.entry i i|)
    (hspread : ∀ i j, n ^ 2 * ω ^ (n + 1) * |M.entry i i| < 2 ^ 50 * |M.entry j j|) :
    IsRegular (balancedForm M) := by
  intro v hv
  obtain ⟨k, hk⟩ := exists_normInf_eq hv
  have : Nonempty (Fin n) := ⟨k⟩
  obtain ⟨least, hleast⟩ := Finite.exists_min fun i => |M.entry i i|
  obtain ⟨greatest, hgreatest⟩ := Finite.exists_max fun i => |M.entry i i|
  let u : Fin n → K := fun j => (columnScales M).get j * v.get j
  let image := normInf ((balancedForm M).mulVec v)
  let B := 2 * ω * image / |M.entry least least|
  have hpos : 0 < ω := one_pos.trans_le hω
  have hleast_pos : 0 < |M.entry least least| := abs_pos.2 (hdiagonal least)
  have himage : 0 ≤ image := normInf_nonneg _
  have hB : 0 ≤ B := by positivity
  have hentry := abs_entry_le_of_lower hω hlower hrow
  have hbound : |u k| ≤ (k + 1) * ω ^ k.val * B := by
    apply abs_le_of_lower hdiagonal hω hB hlower hrow
    intro i
    exact abs_row_le_of_image hdiagonal hleast_pos hleast (hentry i) v
  have himage_pos : 0 < image := by
    apply lt_of_le_of_ne himage
    intro hzero
    have hcomponent : 0 < |u k| := by
      rw [abs_mul, ← hk]
      exact mul_pos (abs_pos.2 (isBalanced_column hdiagonal k).1.ne') hv
    simp only [B, ← hzero, mul_zero, zero_div] at hbound
    exact hbound.not_gt hcomponent
  have hpeak : columnPeak M k ≤ ω * |M.entry greatest greatest| := by
    rw [columnPeak_le_iff]
    refine ⟨by positivity, ?_⟩
    intro i
    exact (hentry i k).trans (mul_le_mul_of_nonneg_left (hgreatest i) hpos.le)
  have hsteps : ω * ((k + 1) * ω ^ k.val) ≤ n * ω ^ n := by
    have hcast : (k : K) + 1 ≤ n := by exact_mod_cast k.isLt
    calc
      ω * ((k + 1) * ω ^ k.val) = (k + 1) * ω ^ (k.val + 1) := by ring
      _ ≤ n * ω ^ n := by
        have := pow_le_pow_right₀ hω (Nat.succ_le_of_lt k.isLt)
        gcongr
  apply lt_of_mul_lt_mul_left _ (pow_pos two_pos 51 : (0 : K) < 2 ^ 51).le
  calc
    2 ^ 51 * (threshold (balancedForm M) * normInf v) ≤ n * columnPeak M k * |u k| :=
      threshold_mul_normInf_le hdiagonal hk
    _ ≤ n * (ω * |M.entry greatest greatest|) * ((k + 1) * ω ^ k.val * B) := by
      gcongr
    _ = n * |M.entry greatest greatest| * B * (ω * ((k + 1) * ω ^ k.val)) := by ring
    _ ≤ n * |M.entry greatest greatest| * B * (n * ω ^ n) := by
      gcongr
    _ = n ^ 2 * ω ^ (n + 1) * |M.entry greatest greatest| *
        (2 * image / |M.entry least least|) := by
      simp only [B]
      ring
    _ < 2 ^ 50 * |M.entry least least| * (2 * image / |M.entry least least|) := by
      apply mul_lt_mul_of_pos_right (hspread greatest least)
      positivity
    _ = 2 ^ 51 * image := by
      field_simp

end Scales

end NumericMethods.Factorization
