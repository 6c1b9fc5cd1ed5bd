/-
  NumericMethods/Proofs/DenseMatrix/Rescaling.lean
  ================================================
  **What factors of the rows and columns do to a factorization.**

  Let the rows and the columns of a matrix be multiplied by powers of two.  The scale of a
  column takes out the factor of that column, and the scale of a row, which is found after
  the columns are scaled, takes out the factor of that row.  What is left of the factors is
  in the column scales: a factor of one row shifts the largest entries of some columns and
  not of others.  So the balanced matrix is that of the matrix itself with the column
  scales of the matrix with its rows multiplied (`balancedForm_rescaled`).

  It is the same balanced matrix if any two columns that share a row have their scales
  shifted alike (`KeepsRatios`), as by a common factor of all rows (`keepsRatios_of_const`).
  Without that the factors of the rows decide whether a matrix is singular
  (`row_factor_makes_singular`).
-/
import Mathlib
import NumericMethods.Proofs.DenseMatrix.Balancing

namespace NumericMethods.Factorization

open DenseMatrix

variable {K : Type} [Field K] [LinearOrder K] [IsStrictOrderedRing K] [ExactScalar K]
variable {n : ℕ} {A B : DenseMatrix K n n} {u v : Vector K n}

/-- The matrix with its rows and its columns multiplied by powers of two. -/
def rescaled (A : DenseMatrix K n n) (p q : Fin n → ℤ) : DenseMatrix K n n :=
  ofFn fun i j => ((2 : ℕ) : K) ^ p i * A.entry i j * ((2 : ℕ) : K) ^ q j

theorem entry_rescaled (A : DenseMatrix K n n) (p q : Fin n → ℤ) (i j : Fin n) :
    (rescaled A p q).entry i j = 2 ^ p i * A.entry i j * 2 ^ q j := by
  rw [rescaled, entry_ofFn, Nat.cast_two]

/-- The factors of the columns are applied after those of the rows. -/
theorem entry_rescaled_columns (A : DenseMatrix K n n) (p q : Fin n → ℤ) (i j : Fin n) :
    (rescaled A p q).entry i j = 2 ^ q j * (rescaled A p 0).entry i j := by
  rw [entry_rescaled, entry_rescaled, Pi.zero_apply, zpow_zero]
  ring

/-- Column scales of the matrix whose ratios within every row are those of the scales that
    the matrix takes itself. -/
def KeepsRatios (A : DenseMatrix K n n) (q : Vector K n) : Prop :=
  ∀ i j l : Fin n, A.entry i j ≠ 0 → A.entry i l ≠ 0 →
    q.get j * (columnScales A).get l = q.get l * (columnScales A).get j

/-! ### The balanced matrix -/

theorem columnPeak_rescaled (A : DenseMatrix K n n) (p q : Fin n → ℤ) (j : Fin n) :
    columnPeak (rescaled A p q) j = 2 ^ q j * columnPeak (rescaled A p 0) j := by
  have hpow : (0 : K) < 2 ^ q j := zpow_pos two_pos _
  apply normInf_eq_mul hpow.le
  intro i
  rw [get_column, get_column, entry_rescaled_columns, abs_mul, abs_of_pos hpow]

variable [ShiftingBalance K]

/-- The scale of a column takes out its factor. -/
theorem entry_mul_columnScales_rescaled (A : DenseMatrix K n n) (p q : Fin n → ℤ)
    (i j : Fin n) :
    (rescaled A p q).entry i j * (columnScales (rescaled A p q)).get j =
      2 ^ p i * (A.entry i j * (columnScales (rescaled A p 0)).get j) := by
  rw [get_columnScales, get_columnScales, columnPeak_rescaled, entry_rescaled_columns, mul_comm,
    balance_mul_zpow_mul (abs_entry_le_columnPeak _ i j), entry_rescaled, Pi.zero_apply, zpow_zero]
  ring

/-- The scale of a row takes out its factor. -/
theorem entry_balanced_eq {i : Fin n} {e : ℤ}
    (hrow : ∀ j, B.entry i j * v.get j = 2 ^ e * (A.entry i j * u.get j)) (j : Fin n) :
    (balanced B (rowScales B v) v).entry i j = (balanced A (rowScales A u) u).entry i j := by
  have hpow : (0 : K) < 2 ^ e := zpow_pos two_pos _
  have hpeak : normInf (Vector.zipWith (· * ·) (B.get i) v) =
      2 ^ e * normInf (Vector.zipWith (· * ·) (A.get i) u) := by
    apply normInf_eq_mul hpow.le
    intro l
    rw [get_zipWith_mul, get_zipWith_mul, hrow, abs_mul, abs_of_pos hpow]
  have hentry := abs_get_le_normInf (Vector.zipWith (· * ·) (A.get i) u) j
  rw [get_zipWith_mul] at hentry
  rw [balanced, balanced, entry_ofFn, entry_ofFn, mul_assoc, mul_assoc, get_rowScales,
    get_rowScales, hrow, hpeak, balance_mul_zpow_mul hentry]

theorem balanced_eq (hrows : ∀ i, ∃ e : ℤ, ∀ j,
      B.entry i j * v.get j = 2 ^ e * (A.entry i j * u.get j)) :
    balanced B (rowScales B v) v = balanced A (rowScales A u) u := by
  apply toMatrix_injective
  ext i j
  obtain ⟨e, he⟩ := hrows i
  exact entry_balanced_eq he j

theorem balancedForm_rescaled (A : DenseMatrix K n n) (p q : Fin n → ℤ) :
    balancedForm (rescaled A p q) =
      balanced A (rowScales A (columnScales (rescaled A p 0))) (columnScales (rescaled A p 0)) :=
  balanced_eq fun i => ⟨p i, entry_mul_columnScales_rescaled A p q i⟩

/-! ### Scales that keep their ratios -/

theorem exists_columnScales_eq (A : DenseMatrix K n n) (j : Fin n) :
    ∃ e : ℤ, (columnScales A).get j = 2 ^ e := by
  rw [get_columnScales]
  rcases (normInf_nonneg (A.column j)).eq_or_lt with hzero | hpos
  · refine ⟨0, ?_⟩
    rw [columnPeak, ← hzero, NearestPowerBalance.balance_zero, zpow_zero]
  · obtain ⟨e, he, -⟩ := NearestPowerBalance.balance_of_pos _ hpos
    exact ⟨e, he⟩

/-- In a row that is not zero the common ratio is a power of two. -/
theorem KeepsRatios.exists_row (h : KeepsRatios A (columnScales B)) (i : Fin n) :
    ∃ e : ℤ, ∀ j, A.entry i j * (columnScales B).get j =
      2 ^ e * (A.entry i j * (columnScales A).get j) := by
  by_cases hzero : ∀ j, A.entry i j = 0
  · refine ⟨0, ?_⟩
    intro j
    rw [hzero, zero_mul, zero_mul, mul_zero]
  · obtain ⟨l, hl⟩ := not_forall.1 hzero
    obtain ⟨b, hb⟩ := exists_columnScales_eq B l
    obtain ⟨a, ha⟩ := exists_columnScales_eq A l
    refine ⟨b - a, ?_⟩
    intro j
    by_cases hj : A.entry i j = 0
    · rw [hj, zero_mul, zero_mul, mul_zero]
    · have hratio := h i j l hj hl
      rw [ha, hb] at hratio
      have hscale : (columnScales B).get j = 2 ^ (b - a) * (columnScales A).get j := by
        rw [zpow_sub₀ two_ne_zero, div_mul_eq_mul_div, eq_div_iff (zpow_ne_zero a two_ne_zero)]
        exact hratio
      rw [hscale]
      ring

theorem KeepsRatios.balanced_eq (h : KeepsRatios A (columnScales B)) :
    balanced A (rowScales A (columnScales B)) (columnScales B) = balancedForm A :=
  Factorization.balanced_eq h.exists_row

/-- A common factor of all rows shifts all column scales alike. -/
theorem keepsRatios_of_const {p : Fin n → ℤ} (hp : ∀ i j, p i = p j) :
    KeepsRatios A (columnScales (rescaled A p 0)) := by
  intro i j l hj hl
  have hpow : (0 : K) < 2 ^ p i := zpow_pos two_pos _
  have hscale : ∀ j, A.entry i j ≠ 0 →
      (columnScales (rescaled A p 0)).get j = 2 ^ (-p i) * (columnScales A).get j := by
    intro j hj
    have hpeak : columnPeak (rescaled A p 0) j = 2 ^ p i * columnPeak A j := by
      apply normInf_eq_mul hpow.le
      intro k
      rw [get_column, get_column, entry_rescaled, Pi.zero_apply, zpow_zero, mul_one, hp k i,
        abs_mul, abs_of_pos hpow]
    have hpos : 0 < columnPeak A j := (abs_pos.2 hj).trans_le (abs_entry_le_columnPeak A i j)
    rw [get_columnScales, get_columnScales, hpeak, ShiftingBalance.balance_zpow_mul _ _ hpos]
  rw [hscale j hj, hscale l hl]
  ring

/-! ### The factorization -/

/-- Factors of the columns do not decide whether a matrix can be factored, and factors of
    the rows do so by the column scales only: not at all if the ratios of these are kept in
    every row, as they are by a common factor of all rows. -/
theorem rescaled_factored_iff (hn : n ≠ 0) (A : DenseMatrix K n n) (p q : Fin n → ℤ) :
    let κ := columnScales (rescaled A p 0)
    ((∃ F, ofMatrix (rescaled A p q) = .ok F) ↔ ∃ F, withScales A (rowScales A κ) κ = .ok F) ∧
      (KeepsRatios A κ → ((∃ F, ofMatrix (rescaled A p q) = .ok F) ↔ ∃ F, ofMatrix A = .ok F)) ∧
      ((∀ i j, p i = p j) →
        ((∃ F, ofMatrix (rescaled A p q) = .ok F) ↔ ∃ F, ofMatrix A = .ok F)) := by
  intro κ
  have hform := balancedForm_rescaled A p q
  rw [balancedForm] at hform
  have hscales : (∃ F, ofMatrix (rescaled A p q) = .ok F) ↔
      ∃ F, withScales A (rowScales A κ) κ = .ok F := by
    rw [ofMatrix_eq hn, exists_withScales_iff, exists_withScales_iff, hform]
  have hratios : KeepsRatios A κ →
      ((∃ F, ofMatrix (rescaled A p q) = .ok F) ↔ ∃ F, ofMatrix A = .ok F) := by
    intro hκ
    have hsame := hκ.balanced_eq
    rw [balancedForm] at hsame
    rw [hscales, ofMatrix_eq hn, exists_withScales_iff, exists_withScales_iff, hsame]
  exact ⟨hscales, hratios, fun hp => hratios (keepsRatios_of_const hp)⟩

/-- In the first matrix the last column has no row in common with the others, and the factor
    of the last row is taken out.  In the second one it is left in the column scales, and a
    common factor of the rows is not. -/
theorem rescaled_factored_iff_blocks :
    let A : DenseMatrix ℚ 3 3 := #v[#v[1, 2, 0], #v[3, 1, 0], #v[0, 0, 5]]
    let B : DenseMatrix ℚ 3 3 := #v[#v[1, 1, 2], #v[2, -1, 1], #v[1, 2, 0]]
    let p : Fin 3 → ℤ := ![7, 7, -70]
    let q : Fin 3 → ℤ := ![1, -30, 3]
    let κ := columnScales (rescaled B p 0)
    KeepsRatios A (columnScales (rescaled A p 0)) ∧ (∃ F, ofMatrix (rescaled A p q) = .ok F) ∧
      (¬ KeepsRatios B κ) ∧ (∃ F, withScales B (rowScales B κ) κ = .ok F) ∧
      ∃ F, ofMatrix (rescaled B (fun _ => -70) q) = .ok F := by
  intro A B p q κ
  have hA : KeepsRatios A (columnScales (rescaled A p 0)) := by
    unfold KeepsRatios
    decide +kernel
  have hB : ¬ KeepsRatios B κ := by
    unfold KeepsRatios
    decide +kernel
  have hn : 3 ≠ 0 := three_ne_zero
  obtain ⟨F, hF, -⟩ : ∃ F, ofMatrix A = .ok F ∧ F.exchanges = 1 :=
    exists_ok_of_any (by decide +kernel)
  obtain ⟨G, hG, -⟩ : ∃ G, ofMatrix (rescaled B p q) = .ok G ∧ G.exchanges = 1 :=
    exists_ok_of_any (by decide +kernel)
  obtain ⟨H, hH, -⟩ : ∃ H, ofMatrix B = .ok H ∧ H.exchanges = 2 :=
    exists_ok_of_any (by decide +kernel)
  refine ⟨hA, ?_, hB, ?_, ?_⟩
  · exact ((rescaled_factored_iff hn A p q).2.1 hA).2 ⟨F, hF⟩
  · exact (rescaled_factored_iff hn B p q).1.1 ⟨G, hG⟩
  · exact ((rescaled_factored_iff hn B _ q).2.2 fun _ _ => rfl).2 ⟨H, hH⟩

/-- Without kept ratios a factor of one row decides.  The matrix has determinant nine; with its
    last row multiplied by `2 ^ 60`, the first two columns are scaled down by that row until
    they all but vanish in the other two. -/
theorem row_factor_makes_singular :
    let A : DenseMatrix ℚ 3 3 := #v[#v[1, 1, 2], #v[2, -1, 1], #v[1, 2, 0]]
    (∃ F, ofMatrix A = .ok F ∧ F.determinant = 9) ∧
      ofMatrix (rescaled A ![0, 0, 60] 0) = .error (.singular 1 (-5 / 2 ^ 60)) := by
  intro A
  obtain ⟨e, hsingular, rfl⟩ : ∃ e, ofMatrix (rescaled A ![0, 0, 60] 0) = .error e ∧
      e = .singular 1 (-5 / 2 ^ 60) :=
    exists_error_of_any (by decide +kernel)
  exact ⟨exists_ok_of_any (by decide +kernel), hsingular⟩

end NumericMethods.Factorization
