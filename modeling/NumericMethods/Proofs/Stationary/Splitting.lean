/-
  NumericMethods/Proofs/Stationary/Splitting.lean
  ===============================================
  **When the left factor of a splitting is accepted.**

  Every method inverts the diagonal of the matrix, or for relaxation with the factor `w` the
  diagonal and `w` times the entries below it.  On a strictly dominant system this matrix
  has an inverse.  Whether the factorization accepts it is another question: it is balanced,
  columns first, and a pivot must exceed a tolerance.

    * A diagonal left factor is always accepted.
    * Otherwise it is accepted if the diagonal entries are of comparable magnitude, and the
      more so the larger the system and the factor `w` are (`affineMap_of_dominant`).
    * The only failure is the report of a singular system (`affineMap_eq_error`).

  Both conditions are needed (`dominant_systems_reported_singular`).  With a factor above one
  the inverse may grow exponentially with the size of the system, although all entries are
  of comparable magnitude.  Diagonal entries of very different magnitude may fail in three
  equations, with a report that depends on the scale of a row.
-/
import Mathlib
import NumericMethods.Proofs.DenseMatrix.Bidiagonal
import NumericMethods.Proofs.Stationary.Convergence

namespace NumericMethods.Stationary

open DenseMatrix Factorization

variable {K : Type} [Field K] [LinearOrder K] [IsStrictOrderedRing K] [ExactScalar K]
variable {n : ℕ} {s : Stationary K} {A : DenseMatrix K n n} {b : Vector K n} {w d e : K}

/-- The matrix that a method inverts. -/
def leftFactor (s : Stationary K) (A : DenseMatrix K n n) : DenseMatrix K n n :=
  match s.relaxation? with
  | none => A.diagonalPart
  | some w => A.diagonalPart.sub (A.lowerPart.negate.scale w)

theorem entry_leftFactor_jacobi (hw : s.relaxation? = none) (A : DenseMatrix K n n)
    (i j : Fin n) : (s.leftFactor A).entry i j = if i = j then A.entry i i else 0 := by
  unfold leftFactor
  rw [hw]
  simp only [diagonalPart, entry_ofFn, Fin.val_inj]
  split_ifs with h
  · rw [h]
  · rfl

theorem entry_leftFactor_relaxed (hw : s.relaxation? = some w) (A : DenseMatrix K n n)
    (i j : Fin n) : (s.leftFactor A).entry i j =
      if i = j then A.entry i i else if j < i then w * A.entry i j else 0 := by
  unfold leftFactor
  rw [hw]
  simp only [DenseMatrix.sub, scale, negate, diagonalPart, lowerPart, entry_ofFn, Fin.val_inj,
    Fin.val_fin_lt]
  split_ifs with h h' h'
  · exact absurd h h'.ne'
  · simp [h]
  · ring
  · simp

theorem entry_leftFactor_self (s : Stationary K) (A : DenseMatrix K n n) (i : Fin n) :
    (s.leftFactor A).entry i i = A.entry i i := by
  cases hw : s.relaxation? with
  | none => rw [entry_leftFactor_jacobi hw, if_pos rfl]
  | some w => rw [entry_leftFactor_relaxed hw, if_pos rfl]

/-! ### The map and the factorization -/

theorem exists_affineMap {F : Factorization K n} (h : ofMatrix (s.leftFactor A) = .ok F)
    (b : Vector K n) : ∃ g, s.affineMap A b = .ok g := by
  unfold leftFactor at h
  unfold affineMap
  cases hw : s.relaxation? with
  | none =>
    rw [hw] at h
    simp only [jacobiMap, invert, h]
    exact ⟨_, rfl⟩
  | some w =>
    rw [hw] at h
    simp only [relaxedMap, invert, h]
    exact ⟨_, rfl⟩

theorem affineMap_of_singular {column : ℕ} {pivot : K}
    (h : ofMatrix (s.leftFactor A) = .error (.singular column pivot)) (b : Vector K n) :
    s.affineMap A b = .error (.invalid (.singularSystem s.method)) := by
  unfold leftFactor at h
  unfold affineMap
  cases hw : s.relaxation? with
  | none =>
    rw [hw] at h
    simp only [jacobiMap, invert, h]
    rfl
  | some w =>
    rw [hw] at h
    simp only [relaxedMap, invert, h]
    rfl

/-- The only failure of a map is the report of a singular system. -/
theorem affineMap_eq_error {e : NumericError K} (hn : n ≠ 0) (h : s.affineMap A b = .error e) :
    e = .invalid (.singularSystem s.method) := by
  rcases ofMatrix_cases hn (s.leftFactor A) with ⟨F, hF⟩ | ⟨column, pivot, hsingular⟩
  · obtain ⟨g, hg⟩ := exists_affineMap hF b
    rw [hg] at h
    cases h
  · rw [affineMap_of_singular hsingular] at h
    cases h
    rfl

theorem affineMap_eq_error_of_isNone (hn : n ≠ 0)
    (h : (s.affineMap A b).toOption.isNone = true) :
    s.affineMap A b = .error (.invalid (.singularSystem s.method)) := by
  cases hmap : s.affineMap A b with
  | error e => rw [affineMap_eq_error hn hmap]
  | ok g =>
    rw [hmap] at h
    cases h

/-! ### Dominant systems -/

/-- The diagonal entries are of comparable magnitude, for the size of the system and the
    relaxation factor.  Nothing is asked where the left factor is diagonal. -/
def HasEvenDiagonal (s : Stationary K) (A : DenseMatrix K n n) : Prop :=
  ∀ w, s.relaxation? = some w → w ≠ 0 →
    ∀ i j, n ^ 2 * max 1 w ^ (n + 1) * |A.entry i i| < (2 ^ 50 : ℕ) * |A.entry j j|

theorem StrictlyDominant.before_le (hA : StrictlyDominant A) (i : Fin n) :
    ∑ j with j < i, |A.entry i j| ≤ |A.entry i i| := by
  apply le_trans _ (hA i).le
  apply Finset.sum_le_sum_of_subset_of_nonneg
  · intro j hj
    simp only [Finset.mem_filter] at hj ⊢
    exact ⟨hj.1, hj.2.ne⟩
  · intro j _ _
    exact abs_nonneg _

theorem isRegular_leftFactor [NearestPowerBalance K] (hsize : n < 2 ^ 50)
    (hs : s.isAdmitted = true) (hA : StrictlyDominant A) (heven : s.HasEvenDiagonal A) :
    IsRegular (balancedForm (s.leftFactor A)) := by
  have hdiagonal : ∀ i, (s.leftFactor A).entry i i ≠ 0 := by
    intro i
    rw [entry_leftFactor_self]
    exact abs_pos.1 (hA.diagonal_pos i)
  cases hw : s.relaxation? with
  | none =>
    apply isRegular_of_diagonal hdiagonal hsize
    intro i j hij
    rw [entry_leftFactor_jacobi hw, if_neg hij]
  | some w =>
    by_cases hzero : w = 0
    · apply isRegular_of_diagonal hdiagonal hsize
      intro i j hij
      rw [entry_leftFactor_relaxed hw, if_neg hij, hzero, zero_mul, ite_self]
    · have hnonneg : 0 ≤ w := (isAdmitted_iff.1 hs w hw).1
      apply isRegular_of_lower (ω := max 1 w) hdiagonal (le_max_left 1 w)
      · intro i j hij
        rw [entry_leftFactor_relaxed hw, if_neg hij.ne, if_neg hij.not_gt]
      · intro i
        rw [entry_leftFactor_self]
        calc
          ∑ j with j < i, |(s.leftFactor A).entry i j| = w * ∑ j with j < i, |A.entry i j| := by
            rw [Finset.mul_sum]
            apply Finset.sum_congr rfl
            intro j hj
            have hj := (Finset.mem_filter.1 hj).2
            rw [entry_leftFactor_relaxed hw, if_neg hj.ne', if_pos hj, abs_mul,
              abs_of_nonneg hnonneg]
          _ ≤ max 1 w * |A.entry i i| :=
            mul_le_mul (le_max_right 1 w) (hA.before_le i)
              (Finset.sum_nonneg fun j _ => abs_nonneg _) (hnonneg.trans (le_max_right 1 w))
      · intro i j
        rw [entry_leftFactor_self, entry_leftFactor_self]
        exact_mod_cast heven w hw hzero i j

/-- A strictly dominant system with an even diagonal is split, and no answer for it is the
    report of a singular system. -/
theorem affineMap_of_dominant [NearestPowerBalance K] (s : Stationary K)
    (A : DenseMatrix K n n) (hsize : n < 2 ^ 50) (hs : s.isAdmitted = true)
    (hA : StrictlyDominant A) (heven : s.HasEvenDiagonal A) :
    (n ≠ 0 → ∀ b, ∃ g, s.affineMap A b = .ok g) ∧
      ∀ v x c m, s.solve A.toRows v x c ≠ .error (.invalid (.singularSystem m)) := by
  have hmap : n ≠ 0 → ∀ b, ∃ g, s.affineMap A b = .ok g := by
    intro hn
    obtain ⟨F, hF⟩ := exists_ofMatrix hn (isRegular_leftFactor hsize hs hA heven)
    exact exists_affineMap hF
  refine ⟨hmap, ?_⟩
  intro v x c m h
  obtain ⟨hn, b, -, herror⟩ := affineMap_eq_error_of_solve h
  obtain ⟨g, hg⟩ := hmap hn b
  rw [hg] at herror
  cases herror

/-- Relaxation with a factor above one, and diagonal entries of both signs. -/
theorem affineMap_of_dominant_sor :
    let s : Stationary ℚ := .sor (3 / 2)
    let A : DenseMatrix ℚ 3 3 := #v[#v[4, 1, 0], #v[1, -5, 2], #v[-3, 2, 8]]
    3 < 2 ^ 50 ∧ s.isAdmitted = true ∧ StrictlyDominant A ∧ s.HasEvenDiagonal A ∧
      (∃ g, s.affineMap A #v[1, 2, 3] = .ok g) ∧
      ∀ v x c m, s.solve A.toRows v x c ≠ .error (.invalid (.singularSystem m)) := by
  intro s A
  have hs : s.isAdmitted = true := by decide +kernel
  have hA : StrictlyDominant A := by
    unfold StrictlyDominant
    decide +kernel
  have heven : s.HasEvenDiagonal A := by
    intro w hw _
    cases hw
    decide +kernel
  obtain ⟨hmap, hsolve⟩ := affineMap_of_dominant s A (by norm_num) hs hA heven
  exact ⟨by norm_num, hs, hA, heven, hmap three_ne_zero #v[1, 2, 3], hsolve⟩

/-! ### Systems that are reported as singular -/

theorem strictlyDominant_bidiagonal (hde : |e| < |d|) : StrictlyDominant (bidiagonal n d e) := by
  intro i
  rw [entry_bidiagonal, if_pos rfl]
  apply lt_of_le_of_lt _ hde
  by_cases hbefore : ∃ k : Fin n, i.val = k.val + 1
  · obtain ⟨k, hk⟩ := hbefore
    have hne : k ≠ i := by
      rintro rfl
      omega
    rw [Finset.sum_eq_single k]
    · rw [entry_bidiagonal, if_neg hne.symm, if_pos hk]
    · intro j hj hjk
      have hji : i ≠ j := (Finset.mem_filter.1 hj).2.symm
      rw [entry_bidiagonal, if_neg hji, if_neg (by omega), abs_zero]
    · intro h
      exact absurd (Finset.mem_filter.2 ⟨Finset.mem_univ k, hne⟩) h
  · rw [Finset.sum_eq_zero]
    · exact abs_nonneg e
    · intro j hj
      have hji : i ≠ j := (Finset.mem_filter.1 hj).2.symm
      rw [entry_bidiagonal, if_neg hji, if_neg fun h => hbefore ⟨j, h⟩, abs_zero]

theorem leftFactor_bidiagonal (hw : s.relaxation? = some w) :
    s.leftFactor (bidiagonal n d e) = bidiagonal n d (w * e) := by
  apply toMatrix_injective
  ext i j
  rw [toMatrix_apply, toMatrix_apply, entry_leftFactor_relaxed hw]
  simp only [entry_bidiagonal, if_true]
  by_cases hij : i = j
  · rw [if_pos hij, if_pos hij]
  · rw [if_neg hij, if_neg hij, if_neg hij]
    by_cases hnext : i.val = j.val + 1
    · rw [if_pos hnext, if_pos hnext, if_pos (show j < i by omega)]
    · rw [if_neg hnext, if_neg hnext, mul_zero, ite_self]

/-- A strictly dominant system with equal diagonal entries that over-relaxation reports as
    singular, and one with different entries for which the report depends on the scale of
    the last row. -/
theorem dominant_systems_reported_singular :
    (let s : Stationary ℚ := .sor 2
      let A : DenseMatrix ℚ 64 64 := bidiagonal 64 (3 / 4) (11 / 16)
      let b : Vector ℚ 64 := Vector.replicate 64 0
      StrictlyDominant A ∧ s.isAdmitted = true ∧
        s.affineMap A b = .error (.invalid (.singularSystem .sor)) ∧
        s.solve A.toRows b.toList b.toList Control.standard =
          .error (.invalid (.singularSystem .sor))) ∧
    (let s : Stationary ℚ := .gaussSeidel
      let A : DenseMatrix ℚ 3 3 := #v[#v[1, 0, 0], #v[1 / 2, 1, 0], #v[0, 2 ^ 70, 2 ^ 71]]
      let A' : DenseMatrix ℚ 3 3 := #v[#v[1, 0, 0], #v[1 / 2, 1, 0], #v[0, 1, 2]]
      let b : Vector ℚ 3 := #v[2, 1, 2 ^ 71]
      StrictlyDominant A ∧
        s.affineMap A b = .error (.invalid (.singularSystem .gaussSeidel)) ∧
        s.solve A.toRows b.toList b.toList Control.standard =
          .error (.invalid (.singularSystem .gaussSeidel)) ∧
        StrictlyDominant A' ∧ ∃ g, s.affineMap A' #v[2, 1, 2] = .ok g ∧
          g.offset = #v[2, 0, 1]) := by
  constructor
  · intro s A b
    have hs : s.isAdmitted = true := by decide +kernel
    have hA : StrictlyDominant A := by
      apply strictlyDominant_bidiagonal
      norm_num
    have hfactor : s.leftFactor A = bidiagonal 64 (3 / 4) (11 / 8) := by
      rw [leftFactor_bidiagonal rfl]
      norm_num
    obtain ⟨column, pivot, hsingular⟩ :
        ∃ column pivot, ofMatrix (s.leftFactor A) = .error (.singular column pivot) := by
      have hbalance : Scalar.balance (3 / 4 : ℚ) = 1 := by decide +kernel
      have hbalance' : Scalar.balance (11 / 8 : ℚ) = 1 := by decide +kernel
      rw [hfactor]
      exact ofMatrix_bidiagonal (by norm_num) (by norm_num) hbalance hbalance' (by norm_num)
        (by decide +kernel)
    have hmap := affineMap_of_singular hsingular b
    exact ⟨hA, hs, hmap, solve_eq_error (by norm_num) hs hA.diagonal_beq hmap⟩
  · intro s A A' b
    have hA : StrictlyDominant A := by
      unfold StrictlyDominant
      decide +kernel
    have hA' : StrictlyDominant A' := by
      unfold StrictlyDominant
      decide +kernel
    have hmap : s.affineMap A b = .error (.invalid (.singularSystem .gaussSeidel)) :=
      affineMap_eq_error_of_isNone three_ne_zero (by decide +kernel)
    refine ⟨hA, hmap, solve_eq_error three_ne_zero (by decide +kernel) hA.diagonal_beq hmap,
      hA', ?_⟩
    exact exists_ok_of_any (by decide +kernel)

end NumericMethods.Stationary
