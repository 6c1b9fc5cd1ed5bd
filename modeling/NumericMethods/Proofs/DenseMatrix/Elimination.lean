/-
  NumericMethods/Proofs/DenseMatrix/Elimination.lean
  ==================================================
  **The triangular factors multiply to the permuted matrix.**

  Elimination keeps both factors in one matrix and changes it in place.  After the columns
  before `k` are cleared, the matrix stands for two others:

    * `multipliers`, with ones on the diagonal and the stored multipliers of the columns
      before `k` below it;
    * `reduced`, in which the stored multipliers count as zeros.

  Their product is the balanced matrix with its rows in their places.  This is the invariant
  (`Stage.Factors`).  An exchange of two rows that are not finished permutes the rows and
  columns of the first matrix and the rows of the second one (`multipliers_swap`,
  `reduced_swap`).  Clearing a column adds a matrix of rank one to the first and subtracts
  one from the second, and these two changes cancel in the product (`product_clearBelow`).

  At the end the scales are divided out entry by entry, which gives factors of the matrix
  itself (`factors_exactly`).
-/
import Mathlib
import NumericMethods.DenseMatrix.Factorization
import NumericMethods.Proofs.DenseMatrix.Algebra

namespace NumericMethods.Factorization

open DenseMatrix Matrix

variable {K : Type} [Field K] [LinearOrder K] [IsStrictOrderedRing K] [ExactScalar K]
variable {n : ℕ} {M S : DenseMatrix K n n} {tolerance : K} {k : ℕ} {s t : Stage K n}

/-! ### The two factors under construction -/

/-- The lower factor after the columns before `k` are cleared. -/
def multipliers (M : DenseMatrix K n n) (k : ℕ) : Matrix (Fin n) (Fin n) K :=
  Matrix.of fun i j => if i = j then 1 else if j.val < k ∧ j < i then M.entry i j else 0

/-- The upper factor after the columns before `k` are cleared: the stored multipliers count
    as zeros. -/
def reduced (M : DenseMatrix K n n) (k : ℕ) : Matrix (Fin n) (Fin n) K :=
  Matrix.of fun i j => if i ≤ j ∨ k ≤ j.val then M.entry i j else 0

theorem multipliers_zero (M : DenseMatrix K n n) : multipliers M 0 = 1 := by
  ext i j
  simp [multipliers, one_apply]

theorem reduced_zero (M : DenseMatrix K n n) : reduced M 0 = M.toMatrix := by
  ext i j
  simp [reduced]

/-! ### Exchanging rows -/

theorem coordinates_swap {α : Type} (v : Vector α n) (p k : Fin n) :
    coordinates (v.swap p k p.isLt k.isLt) = coordinates v ∘ Equiv.swap p k := by
  ext i
  simp only [coordinates, Vector.get_eq_getElem, Vector.getElem_swap, Equiv.swap_apply_def,
    Function.comp]
  split_ifs <;> grind

theorem swap_of_lt {p k i : Fin n} (hp : k ≤ p) (hi : i < k) : Equiv.swap p k i = i :=
  Equiv.swap_apply_of_ne_of_ne (hi.trans_le hp).ne hi.ne

theorem le_swap {p k i : Fin n} (hp : k ≤ p) (hi : k ≤ i) : k ≤ Equiv.swap p k i := by
  rw [Equiv.swap_apply_def]
  split_ifs
  · exact le_rfl
  · exact hp
  · exact hi

theorem multipliers_swap {p k : Fin n} (hp : k ≤ p) (M : DenseMatrix K n n) :
    multipliers (M.swap p k p.isLt k.isLt) k =
      (multipliers M k).submatrix (Equiv.swap p k) (Equiv.swap p k) := by
  ext i j
  simp only [multipliers, of_apply, submatrix_apply, EmbeddingLike.apply_eq_iff_eq, entry_swap]
  rcases lt_or_ge j k with hj | hj
  · rw [swap_of_lt hp hj]
    rcases lt_or_ge i k with hi | hi
    · rw [swap_of_lt hp hi]
    · have := le_swap hp hi
      simp [hj, hj.trans_le hi, hj.trans_le this]
  · have := le_swap hp hj
    simp [hj.not_gt, this.not_gt]

theorem reduced_swap {p k : Fin n} (hp : k ≤ p) (M : DenseMatrix K n n) :
    reduced (M.swap p k p.isLt k.isLt) k = (reduced M k).submatrix (Equiv.swap p k) id := by
  ext i j
  simp only [reduced, of_apply, submatrix_apply, entry_swap, id]
  rcases lt_or_ge i k with hi | hi
  · rw [swap_of_lt hp hi]
  · -- from row `k` on a row starts at column `k`
    have hstart : ∀ r : Fin n, k ≤ r → (r ≤ j ∨ k.val ≤ j.val ↔ k ≤ j) := by
      intro r hr
      exact ⟨fun h => h.elim hr.trans id, .inr⟩
    simp only [hstart i hi, hstart _ (le_swap hp hi)]

/-! ### Clearing a column -/

/-- The multipliers of column `k`. -/
def columnMultipliers (M : DenseMatrix K n n) (k : Fin n) : Fin n → K :=
  fun i => if k < i then M.entry i k / M.entry k k else 0

/-- Clearing column `k` completes that column of the lower factor. -/
theorem multipliers_clearBelow (M : DenseMatrix K n n) (k : Fin n) :
    multipliers (clearBelow M k) (k + 1) =
      multipliers M k + vecMulVec (columnMultipliers M k) (Pi.single k 1) := by
  ext i j
  simp only [multipliers, columnMultipliers, clearBelow, of_apply, entry_ofFn, Matrix.add_apply,
    vecMulVec_apply, Pi.single_apply]
  rcases lt_trichotomy j k with hj | rfl | hj
  · simp [hj, hj.ne, hj.not_gt, Nat.lt_succ_of_lt hj]
  · by_cases hi : j < i
    · simp [hi, hi.ne']
    · simp [hi]
  · have hlate : ¬ j.val < k + 1 := by omega
    simp [hlate, hj.ne', hj.not_gt]

/-- Clearing column `k` subtracts multiples of row `k` from the rows below. -/
theorem reduced_clearBelow (k : Fin n) (hk : M.entry k k ≠ 0) :
    reduced (clearBelow M k) (k + 1) =
      reduced M k - vecMulVec (columnMultipliers M k) (reduced M k k) := by
  ext i j
  simp only [reduced, columnMultipliers, clearBelow, of_apply, entry_ofFn, Matrix.sub_apply,
    vecMulVec_apply]
  rcases le_or_gt i k with hi | hi
  · have hstart : (i ≤ j ∨ k.val + 1 ≤ j.val) ↔ (i ≤ j ∨ k.val ≤ j.val) := by omega
    simp only [hstart, hi.not_gt, if_false, zero_mul, sub_zero]
  · rcases lt_trichotomy j k with hj | rfl | hj
    · have hleft : ¬ i ≤ j := (hj.trans hi).not_ge
      have hlate : ¬ k.val + 1 ≤ j.val := by omega
      simp [hleft, hlate, hj.not_ge]
    · simp [hi, hi.not_ge, hk]
    · have hlate : k.val + 1 ≤ j.val := hj
      simp [hi, hj, hj.ne', hj.le, hlate]

theorem multipliers_mulVec_columnMultipliers (M : DenseMatrix K n n) (k : Fin n) :
    multipliers M k *ᵥ columnMultipliers M k = columnMultipliers M k := by
  ext i
  rw [Matrix.mulVec, dotProduct, Finset.sum_eq_single i]
  · simp [multipliers]
  · -- multipliers stand in earlier columns than the rows that are changed
    intro j _ hj
    simp only [multipliers, columnMultipliers, of_apply, if_neg hj.symm]
    rcases lt_or_ge k j with hkj | hkj
    · simp [hkj.not_gt]
    · simp [hkj.not_gt]
  · simp

/-- Clearing a column changes both factors, and not their product. -/
theorem product_clearBelow (k : Fin n) (hk : M.entry k k ≠ 0) :
    multipliers (clearBelow M k) (k + 1) * reduced (clearBelow M k) (k + 1) =
      multipliers M k * reduced M k := by
  have hrow : reduced (clearBelow M k) (k + 1) k = reduced M k k := by
    rw [reduced_clearBelow k hk]
    ext j
    simp [columnMultipliers, vecMulVec_apply]
  calc
    _ = multipliers M k * reduced (clearBelow M k) (k + 1) +
        vecMulVec (columnMultipliers M k) (reduced (clearBelow M k) (k + 1) k) := by
      rw [multipliers_clearBelow, Matrix.add_mul, vecMulVec_mul, single_one_vecMul]
      rfl
    _ = multipliers M k * reduced (clearBelow M k) (k + 1) +
        multipliers M k * vecMulVec (columnMultipliers M k) (reduced M k k) := by
      rw [hrow, mul_vecMulVec, multipliers_mulVec_columnMultipliers]
    _ = multipliers M k * reduced M k := by
      rw [← Matrix.mul_add, reduced_clearBelow k hk, sub_add_cancel]

/-! ### The pivot -/

/-- The pivot stands on or below the diagonal, unless every entry there is zero. -/
theorem pivotOf_spec (M : DenseMatrix K n n) (k : Fin n) :
    k ≤ (pivotOf M k).1 ∧
      ((pivotOf M k).2 = M.entry (pivotOf M k).1 k ∨ (pivotOf M k).2 = 0) := by
  unfold pivotOf
  apply List.foldlRecOn (motive := fun best : Fin n × K =>
    k ≤ best.1 ∧ (best.2 = M.entry best.1 k ∨ best.2 = 0))
  · exact ⟨le_rfl, .inr rfl⟩
  · intro best hbest i hi
    split
    · exact ⟨of_decide_eq_true (List.mem_filter.1 hi).2, .inl rfl⟩
    · exact hbest

/-! ### The elimination -/

/-- What holds of the elimination of `S` after the columns before `k` are cleared. -/
structure Stage.Factors (S : DenseMatrix K n n) (tolerance : K) (k : ℕ) (s : Stage K n) :
    Prop where
  origin_injective : Function.Injective (coordinates s.origin)
  pivot : ∀ i : Fin n, i.val < k → tolerance < |s.compact.entry i i|
  product : multipliers s.compact k * reduced s.compact k =
    S.toMatrix.submatrix (coordinates s.origin) id

theorem Stage.factors_start (S : DenseMatrix K n n) (tolerance : K) :
    Stage.Factors S tolerance 0 ⟨S, Vector.ofFn id, 0⟩ where
  origin_injective := by
    rw [coordinates_ofFn]
    exact Function.injective_id
  pivot i hi := by omega
  product := by
    rw [multipliers_zero, reduced_zero, Matrix.one_mul, coordinates_ofFn, submatrix_id_id]

theorem Stage.Factors.exchange {k p : Fin n} (hp : k ≤ p) (hs : s.Factors S tolerance k) :
    (exchange s k p).Factors S tolerance k := by
  unfold Factorization.exchange
  split
  · exact hs
  · exact {
      origin_injective := by
        rw [coordinates_swap]
        exact hs.origin_injective.comp (Equiv.injective _)
      pivot := by
        intro i hi
        rw [entry_swap, swap_of_lt hp hi]
        exact hs.pivot i hi
      product := by
        rw [multipliers_swap hp, reduced_swap hp, submatrix_mul_equiv, hs.product,
          coordinates_swap, submatrix_submatrix]
        rfl }

theorem Stage.Factors.clearBelow {k : Fin n} (htolerance : 0 ≤ tolerance)
    (hk : tolerance < |s.compact.entry k k|) (hs : s.Factors S tolerance k) :
    Stage.Factors S tolerance (k + 1) { s with compact := clearBelow s.compact k } where
  origin_injective := hs.origin_injective
  pivot i hi := by
    have hkept : (Factorization.clearBelow s.compact k).entry i i = s.compact.entry i i := by
      have : ¬ k < i := by omega
      simp [Factorization.clearBelow, this]
    rw [hkept]
    rcases Nat.lt_succ_iff_lt_or_eq.1 hi with hlt | heq
    · exact hs.pivot i hlt
    · rwa [Fin.ext heq]
  product := by
    have hne : s.compact.entry k k ≠ 0 := abs_pos.1 (htolerance.trans_lt hk)
    rw [product_clearBelow k hne]
    exact hs.product

omit [Field K] [LinearOrder K] [IsStrictOrderedRing K] [ExactScalar K] in
/-- Row `i` after the exchange is one of the rows before it. -/
theorem entry_exchange (s : Stage K n) (k p i j : Fin n) :
    (exchange s k p).compact.entry i j = s.compact.entry (Equiv.swap p k i) j := by
  unfold exchange
  split
  · rename_i h
    rw [h, Equiv.swap_self, Equiv.refl_apply]
  · exact entry_swap _ _ _ _ _

omit [Field K] [LinearOrder K] [IsStrictOrderedRing K] [ExactScalar K] in
theorem exchange_entry (s : Stage K n) (k p : Fin n) :
    (exchange s k p).compact.entry k k = s.compact.entry p k := by
  rw [entry_exchange, Equiv.swap_apply_right]

/-- A pivot above the tolerance carries the invariant to the next column. -/
theorem Stage.Factors.next {k : Fin n} (htolerance : 0 ≤ tolerance)
    (hlarge : tolerance < |(pivotOf s.compact k).2|) (hs : s.Factors S tolerance k) :
    Stage.Factors S tolerance (k + 1)
      { Factorization.exchange s k (pivotOf s.compact k).1 with
        compact := Factorization.clearBelow
          (Factorization.exchange s k (pivotOf s.compact k).1).compact k } := by
  obtain ⟨hplace, hvalue⟩ := pivotOf_spec s.compact k
  apply (hs.exchange hplace).clearBelow htolerance
  rw [exchange_entry]
  rcases hvalue with hentry | hzero
  · rwa [← hentry]
  · -- a pivot that is zero is not above the tolerance
    exfalso
    apply htolerance.not_gt
    rwa [hzero, abs_zero] at hlarge

/-- The invariant is carried through all columns. -/
theorem Stage.Factors.eliminateFrom (htolerance : 0 ≤ tolerance) (hk : k ≤ n)
    (hs : s.Factors S tolerance k) (h : eliminateFrom tolerance k s = .ok t) :
    t.Factors S tolerance n := by
  fun_induction Factorization.eliminateFrom tolerance k s with
  | case1 k s hk' pivot hsmall => cases h
  | case2 k s hk' pivot hlarge u ih =>
    exact ih hk' (Stage.Factors.next (k := ⟨k, hk'⟩) htolerance (not_le.1 hlarge) hs) h
  | case3 k s hk' =>
    obtain rfl : k = n := le_antisymm hk (not_lt.1 hk')
    cases h
    exact hs

theorem threshold_eq (S : DenseMatrix K n n) :
    threshold S = n / 2 ^ 52 * Scalar.peakMagnitude S.entries := by
  rw [threshold, Scalar.epsilon, ExactScalar.ofNat_eq, ExactScalar.ofNat_eq, mul_one_div]
  norm_num

theorem threshold_nonneg (S : DenseMatrix K n n) : 0 ≤ threshold S := by
  rw [threshold_eq]
  exact mul_nonneg (by positivity) (ExactScalar.peakMagnitude_nonneg _)

/-! ### The factorization -/

variable {A : DenseMatrix K n n} {r q : Vector K n} {F : Factorization K n}

/-- The two triangles of a factorization multiply to the balanced matrix with its rows in
    their places, and no division by a scale or a pivot is one by zero. -/
structure Restores (F : Factorization K n) (A : DenseMatrix K n n) : Prop where
  rowScale_ne_zero : ∀ i : Fin n, F.rowScale.get i ≠ 0
  columnScale_ne_zero : ∀ j : Fin n, F.columnScale.get j ≠ 0
  origin_injective : Function.Injective (coordinates F.origin)
  pivot_ne_zero : ∀ i : Fin n, F.compact.entry i i ≠ 0
  product : multipliers F.compact n * reduced F.compact n =
    (balanced A F.rowScale F.columnScale).toMatrix.submatrix (coordinates F.origin) id

theorem restores_of_withScales (hr : ∀ i : Fin n, r.get i ≠ 0) (hq : ∀ j : Fin n, q.get j ≠ 0)
    (h : withScales A r q = .ok F) : F.Restores A := by
  simp only [withScales] at h
  split at h
  · rename_i s hs
    obtain rfl := Except.ok.inj h
    have hthreshold := threshold_nonneg (balanced A r q)
    have hfactors := (Stage.factors_start _ _).eliminateFrom hthreshold (Nat.zero_le n) hs
    exact {
      rowScale_ne_zero := hr
      columnScale_ne_zero := hq
      origin_injective := hfactors.origin_injective
      pivot_ne_zero := fun i => abs_pos.1 (hthreshold.trans_lt (hfactors.pivot i i.isLt))
      product := hfactors.product }
  · cases h

theorem columnScales_ne_zero (A : DenseMatrix K n n) (j : Fin n) :
    (columnScales A).get j ≠ 0 := by
  rw [columnScales, Vector.get_ofFn]
  exact ExactScalar.balance_ne_zero _

theorem rowScales_ne_zero (A : DenseMatrix K n n) (q : Vector K n) (i : Fin n) :
    (rowScales A q).get i ≠ 0 := by
  rw [rowScales, Vector.get_map]
  exact ExactScalar.balance_ne_zero _

/-- A matrix that is not empty is factored with the scales that balance it. -/
theorem ofMatrix_eq (hn : n ≠ 0) (A : DenseMatrix K n n) :
    ofMatrix A = withScales A (rowScales A (columnScales A)) (columnScales A) := if_neg hn

theorem restores_of_ofMatrix (h : ofMatrix A = .ok F) : F.Restores A := by
  have hn : n ≠ 0 := by
    rintro rfl
    cases h
  rw [ofMatrix_eq hn] at h
  exact restores_of_withScales (rowScales_ne_zero A _) (columnScales_ne_zero A) h

theorem Restores.placedScale_ne_zero (hF : F.Restores A) (i : Fin n) : F.placedScale i ≠ 0 :=
  hF.rowScale_ne_zero _

theorem Restores.entry_lower (hF : F.Restores A) (i j : Fin n) :
    F.lower.entry i j = multipliers F.compact n i j * F.placedScale j / F.placedScale i := by
  have hi := hF.placedScale_ne_zero i
  simp only [lower, multipliers, entry_ofFn, of_apply]
  rcases lt_trichotomy j i with hlt | rfl | hgt
  · simp [hlt, hlt.ne']
  · simp [hi]
  · simp [hgt.ne, hgt.not_gt]

theorem entry_upper (F : Factorization K n) (i j : Fin n) :
    F.upper.entry i j =
      reduced F.compact n i j / (F.placedScale i * F.columnScale.get j) := by
  simp only [upper, reduced, entry_ofFn, of_apply]
  have hlast : ¬ n ≤ j.val := j.isLt.not_ge
  by_cases hij : i ≤ j
  · simp [hij]
  · simp [hij, hlast]

/-- The product of the two factors is the matrix with its rows in their places. -/
theorem Restores.lower_mul_upper (hF : F.Restores A) :
    F.lower.toMatrix * F.upper.toMatrix = A.toMatrix.submatrix (coordinates F.origin) id := by
  ext i j
  have hi := hF.placedScale_ne_zero i
  have hj := hF.columnScale_ne_zero j
  calc
    _ = ∑ t, multipliers F.compact n i t * reduced F.compact n t j /
        (F.placedScale i * F.columnScale.get j) := by
      rw [mul_apply]
      apply Finset.sum_congr rfl
      intro t _
      have ht := hF.placedScale_ne_zero t
      rw [toMatrix_apply, toMatrix_apply, hF.entry_lower, entry_upper]
      field_simp
    _ = (multipliers F.compact n * reduced F.compact n) i j /
        (F.placedScale i * F.columnScale.get j) := by
      rw [mul_apply, Finset.sum_div]
    _ = A.entry (F.origin.get i) j := by
      rw [hF.product]
      simp only [balanced, submatrix_apply, toMatrix_ofFn, of_apply]
      change F.placedScale i * A.entry (F.origin.get i) j * F.columnScale.get j /
        (F.placedScale i * F.columnScale.get j) = A.entry (F.origin.get i) j
      field_simp

theorem toMatrix_permutation_mul (F : Factorization K n) (A : DenseMatrix K n n) :
    F.permutation.toMatrix * A.toMatrix = A.toMatrix.submatrix (coordinates F.origin) id := by
  ext i j
  simp [permutation, mul_apply]

/-- The matrices of a factorization have the shapes that their names say, and factor `A`
    with its rows permuted. -/
structure IsExact (F : Factorization K n) (A : DenseMatrix K n n) : Prop where
  permutes : ∃ σ : Equiv.Perm (Fin n), ∀ i j,
    F.permutation.entry i j = if σ i = j then 1 else 0
  lower_diagonal : ∀ i, F.lower.entry i i = 1
  lower_above : ∀ i j, i < j → F.lower.entry i j = 0
  upper_below : ∀ i j, j < i → F.upper.entry i j = 0
  product : F.permutation.mul A = F.lower.mul F.upper

theorem Restores.isExact (hF : F.Restores A) : F.IsExact A where
  permutes := by
    have hbijective := Finite.injective_iff_bijective.1 hF.origin_injective
    refine ⟨Equiv.ofBijective _ hbijective, ?_⟩
    intro i j
    simp [permutation]
  lower_diagonal := by
    intro i
    simp [lower]
  lower_above := by
    intro i j hij
    simp [lower, hij.ne, hij.not_gt]
  upper_below := by
    intro i j hij
    simp [upper, hij.not_ge]
  product := by
    apply toMatrix_injective
    rw [toMatrix_mul, toMatrix_mul, toMatrix_permutation_mul, hF.lower_mul_upper]

/-- A factorization is exact, with the scales that balance the matrix as with any other
    scales that are not zero. -/
theorem factors_exactly (A : DenseMatrix K n n) (F : Factorization K n) :
    (ofMatrix A = .ok F → F.IsExact A) ∧
      ∀ r q : Vector K n, (∀ i : Fin n, r.get i ≠ 0) → (∀ j : Fin n, q.get j ≠ 0) →
        withScales A r q = .ok F → F.IsExact A := by
  constructor
  · intro h
    exact (restores_of_ofMatrix h).isExact
  · intro r q hr hq h
    exact (restores_of_withScales hr hq h).isExact

/-- A matrix whose rows have to be exchanged. -/
theorem factors_exactly_exchanged :
    let A : DenseMatrix ℚ 2 2 := #v[#v[0, 1 / 1024], #v[3, 5]]
    (∃ F, ofMatrix A = .ok F ∧ F.exchanges = 1 ∧ F.IsExact A) ∧
      ∃ F, withScales A #v[1, 2] #v[1 / 3, -1] = .ok F ∧ F.exchanges = 1 ∧
        F.IsExact A := by
  intro A
  constructor
  · obtain ⟨F, hF, hexchanges⟩ : ∃ F, ofMatrix A = .ok F ∧ F.exchanges = 1 :=
      exists_ok_of_any (by decide +kernel)
    exact ⟨F, hF, hexchanges, (factors_exactly A F).1 hF⟩
  · obtain ⟨F, hF, hexchanges⟩ : ∃ F, withScales A #v[1, 2] #v[1 / 3, -1] = .ok F ∧
        F.exchanges = 1 :=
      exists_ok_of_any (by decide +kernel)
    have hexact := (factors_exactly A F).2 _ _ (by decide) (by decide +kernel) hF
    exact ⟨F, hF, hexchanges, hexact⟩

end NumericMethods.Factorization
