/-
  NumericMethods/Proofs/DenseMatrix/Multiplier.lean
  =================================================
  **Partial pivoting bounds every multiplier.**

  The pivot of a column is the largest entry on or below the diagonal, so the entries below
  it are divided by something no smaller.  The multipliers of a column are stored when the
  column is cleared, and later exchanges move them: rows from `k` on change places, and the
  multipliers of the columns before `k` go with them.  What all of them keep is that they
  are at most one in magnitude (`IsBounded`).

  The pivots themselves exceed the tolerance, which is the rounding unit times the number of
  rows and the largest entry, and the rows end up in an order of their own
  (`pivoting_bounds_multipliers`).
-/
import Mathlib
import NumericMethods.Proofs.DenseMatrix.Balancing

namespace NumericMethods.Factorization

open DenseMatrix

variable {K : Type} [Field K] [LinearOrder K] [IsStrictOrderedRing K] [ExactScalar K]
variable {n : ℕ} {M S A : DenseMatrix K n n} {tolerance : K} {k : ℕ} {s t : Stage K n}

/-! ### Stored multipliers -/

/-- The multipliers that are stored in the columns before `k` are at most one. -/
def IsBounded (M : DenseMatrix K n n) (k : ℕ) : Prop :=
  ∀ i j : Fin n, j < i → j.val < k → |M.entry i j| ≤ 1

theorem isBounded_zero (M : DenseMatrix K n n) : IsBounded M 0 := fun _ _ _ hj =>
  absurd hj (Nat.not_lt_zero _)

/-- Rows that are not finished have their multipliers in the columns before `k`, wherever
    they stand. -/
theorem IsBounded.exchange {k p : Fin n} (hp : k ≤ p) (hs : IsBounded s.compact k) :
    IsBounded (exchange s k p).compact k := by
  intro i j hji hj
  rw [entry_exchange]
  rcases lt_or_ge i k with hi | hi
  · rw [swap_of_lt hp hi]
    exact hs i j hji hj
  · exact hs _ j (lt_of_lt_of_le hj (le_swap hp hi)) hj

/-- A column is cleared with multipliers at most one, if the entry on the diagonal is the
    largest. -/
theorem IsBounded.clearBelow {k : Fin n} (hlargest : ∀ i, k ≤ i → |M.entry i k| ≤ |M.entry k k|)
    (hM : IsBounded M k) : IsBounded (clearBelow M k) (k + 1) := by
  intro i j hji hj
  simp only [Factorization.clearBelow, entry_ofFn]
  rcases Nat.lt_succ_iff_lt_or_eq.1 hj with hlt | heq
  · -- the multipliers of earlier columns stay
    have hbefore : j < k := hlt
    simp only [hbefore.ne, hbefore.not_gt, if_false, ite_self]
    exact hM i j hji hlt
  · obtain rfl : j = k := Fin.ext heq
    rw [if_pos hji, if_pos rfl, abs_div]
    exact div_le_one_of_le₀ (hlargest i hji.le) (abs_nonneg _)

/-- A pivot that is not zero carries the bound to the next column. -/
theorem IsBounded.next {k : Fin n} (hpivot : (pivotOf s.compact k).2 ≠ 0)
    (hs : IsBounded s.compact k) :
    IsBounded (Factorization.clearBelow
      (Factorization.exchange s k (pivotOf s.compact k).1).compact k) (k + 1) := by
  obtain ⟨hplace, hvalue⟩ := pivotOf_spec s.compact k
  apply (hs.exchange hplace).clearBelow
  intro i hi
  rw [entry_exchange, exchange_entry, ← hvalue.resolve_right hpivot]
  exact abs_entry_le_pivotOf _ (le_swap hplace hi)

/-- The bound is carried through all columns. -/
theorem IsBounded.eliminateFrom (htolerance : 0 ≤ tolerance) (hk : k ≤ n)
    (hs : IsBounded s.compact k) (h : eliminateFrom tolerance k s = .ok t) :
    IsBounded t.compact n := by
  fun_induction Factorization.eliminateFrom tolerance k s with
  | case1 k s hk' pivot hsmall => cases h
  | case2 k s hk' pivot hlarge u ih =>
    have hpivot : pivot.2 ≠ 0 := abs_pos.1 (htolerance.trans_lt (not_le.1 hlarge))
    exact ih hk' (IsBounded.next (k := ⟨k, hk'⟩) hpivot hs) h
  | case3 k s hk' =>
    obtain rfl : k = n := le_antisymm hk (not_lt.1 hk')
    cases h
    exact hs

/-! ### The factorization -/

theorem abs_entry_le_threshold (S : DenseMatrix K n n) (p q : Fin n) :
    n / 2 ^ 52 * |S.entry p q| ≤ threshold S := by
  rw [threshold_eq]
  apply mul_le_mul_of_nonneg_left _ (by positivity)
  exact (peakMagnitude_entries_le_iff.1 le_rfl).2 p q

/-- What pivoting promises of a factorization of `S`: multipliers at most one, pivots above
    the tolerance that belongs to the largest entry of `S`, and every row in one place. -/
structure IsPivoted (F : Factorization K n) (S : DenseMatrix K n n) : Prop where
  multiplier_le : ∀ i j : Fin n, j < i → |F.compact.entry i j| ≤ 1
  lt_pivot : ∀ i p q : Fin n, n / 2 ^ 52 * |S.entry p q| < |F.compact.entry i i|
  origin_perm : (F.origin.toList.map Fin.val).Perm (List.range n)

/-- A vector of places that repeats none of them has them all. -/
theorem perm_of_injective {v : Vector (Fin n) n} (hv : Function.Injective (coordinates v)) :
    (v.toList.map Fin.val).Perm (List.range n) := by
  let σ : Equiv.Perm (Fin n) := Equiv.ofBijective _ (Finite.injective_iff_bijective.1 hv)
  have htoList : v.toList = List.ofFn (id ∘ σ) := by
    rw [← Vector.toList_ofFn]
    congr 1
    exact (coordinates_injective (coordinates_ofFn (coordinates v))).symm
  rw [htoList, ← List.map_coe_finRange_eq_range, ← List.ofFn_id]
  exact (σ.ofFn_comp_perm id).map Fin.val

theorem isPivoted_of_withScales {r q : Vector K n} {F : Factorization K n}
    (h : withScales A r q = .ok F) : F.IsPivoted (balanced A r q) := by
  simp only [withScales] at h
  split at h
  · rename_i s hs
    obtain rfl := Except.ok.inj h
    have hthreshold := threshold_nonneg (balanced A r q)
    have hfactors := (Stage.factors_start _ _).eliminateFrom hthreshold (Nat.zero_le n) hs
    have hbounded := (isBounded_zero _).eliminateFrom hthreshold (Nat.zero_le n) hs
    exact {
      multiplier_le := fun i j hji => hbounded i j hji j.isLt
      lt_pivot := fun i p q =>
        (abs_entry_le_threshold _ p q).trans_lt (hfactors.pivot i i.isLt)
      origin_perm := perm_of_injective hfactors.origin_injective }
  · cases h

/-- Every factorization is pivoted, with the scales that balance the matrix as with any
    other scales. -/
theorem pivoting_bounds_multipliers (A : DenseMatrix K n n) (F : Factorization K n) :
    (ofMatrix A = .ok F → F.IsPivoted (balancedForm A)) ∧
      ∀ r q : Vector K n, withScales A r q = .ok F → F.IsPivoted (balanced A r q) := by
  refine ⟨?_, fun r q => isPivoted_of_withScales⟩
  intro h
  have hn : n ≠ 0 := by
    rintro rfl
    cases h
  rw [ofMatrix_eq hn] at h
  exact isPivoted_of_withScales h

/-- A matrix whose second exchange moves multipliers that are stored already. -/
theorem pivoting_bounds_multipliers_moved :
    let A : DenseMatrix ℚ 3 3 := #v[#v[1, 1 / 4, 3], #v[4, 1, 1], #v[2, 2, 1]]
    (∃ F, ofMatrix A = .ok F ∧ F.exchanges = 2 ∧ F.IsPivoted (balancedForm A)) ∧
      ∃ F, withScales A #v[1, 1, 1] #v[1 / 3, -1, 1] = .ok F ∧ F.exchanges = 2 ∧
        F.IsPivoted (balanced A #v[1, 1, 1] #v[1 / 3, -1, 1]) := by
  intro A
  constructor
  · obtain ⟨F, hF, hexchanges⟩ : ∃ F, ofMatrix A = .ok F ∧ F.exchanges = 2 :=
      exists_ok_of_any (by decide +kernel)
    exact ⟨F, hF, hexchanges, (pivoting_bounds_multipliers A F).1 hF⟩
  · obtain ⟨F, hF, hexchanges⟩ : ∃ F, withScales A #v[1, 1, 1] #v[1 / 3, -1, 1] = .ok F ∧
        F.exchanges = 2 :=
      exists_ok_of_any (by decide +kernel)
    exact ⟨F, hF, hexchanges, (pivoting_bounds_multipliers A F).2 _ _ hF⟩

end NumericMethods.Factorization
