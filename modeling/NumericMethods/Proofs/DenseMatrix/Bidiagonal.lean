/-
  NumericMethods/Proofs/DenseMatrix/Bidiagonal.lean
  =================================================
  **The last pivot of a lower bidiagonal matrix.**

  Take a matrix with `d` on the diagonal, a larger `e` just below it, and zeros elsewhere.
  Every pivot but the last one is an `e`: the row of the pivot comes from the next place,
  and the row that was in its place moves on, with its entry multiplied by `-d / e`
  (`Stage.Remains.next`).  So after all exchanges the last row is left with an entry of
  magnitude `d * (d / e) ^ (n - 1)`, and a factorization fails as soon as this is within the
  tolerance (`ofMatrix_bidiagonal`).  All entries are of comparable magnitude, and balancing
  leaves them as they are: it is the inverse of the matrix that grows with its size.
-/
import Mathlib
import NumericMethods.Proofs.DenseMatrix.Balancing

namespace NumericMethods.Factorization

open DenseMatrix

variable {K : Type} [Field K] [LinearOrder K] [IsStrictOrderedRing K] [ExactScalar K]
variable {n : ℕ} {d e x tolerance : K} {s : Stage K n}

/-- The matrix with `d` on the diagonal and `e` just below it. -/
def bidiagonal (n : ℕ) (d e : K) : DenseMatrix K n n :=
  ofFn fun i j => if i = j then d else if i.val = j.val + 1 then e else 0

@[simp] theorem entry_bidiagonal (d e : K) (i j : Fin n) : (bidiagonal n d e).entry i j =
    if i = j then d else if i.val = j.val + 1 then e else 0 := entry_ofFn _ i j

/-! ### Elimination -/

/-- What the elimination of a bidiagonal matrix has left to do from column `k` on: row `k`
    holds the entry `x` alone, and the rows below it are those of the matrix. -/
structure Stage.Remains (d e x : K) (k : Fin n) (s : Stage K n) : Prop where
  current : ∀ j, k ≤ j → s.compact.entry k j = if k = j then x else 0
  below : ∀ i j, k < i → k ≤ j → s.compact.entry i j = (bidiagonal n d e).entry i j

theorem Stage.Remains.entry_column {k i : Fin n} (hs : s.Remains d e x k) (hi : k ≤ i) :
    s.compact.entry i k = if i = k then x else if i.val = k.val + 1 then e else 0 := by
  rcases hi.eq_or_lt with rfl | hlt
  · rw [hs.current k le_rfl, if_pos rfl, if_pos rfl]
  · rw [hs.below i k hlt le_rfl, entry_bidiagonal, if_neg hlt.ne', if_neg hlt.ne']

theorem Stage.Remains.pivotOf_eq {k l : Fin n} (hs : s.Remains d e x k)
    (hl : l.val = k.val + 1) (hx : |x| < |e|) : pivotOf s.compact k = (l, e) := by
  have hkl : k ≤ l := by omega
  have hne : l ≠ k := by
    rintro rfl
    omega
  have hpos : 0 < |e| := (abs_nonneg x).trans_lt hx
  have hlarge : |e| ≤ |(pivotOf s.compact k).2| := by
    have h := abs_entry_le_pivotOf s.compact hkl
    rwa [hs.entry_column hkl, if_neg hne, if_pos hl] at h
  obtain ⟨hplace, hvalue⟩ := pivotOf_spec s.compact k
  rcases hvalue with hentry | hzero
  · rw [hs.entry_column hplace] at hentry
    split_ifs at hentry with hk he
    · rw [hentry] at hlarge
      exact absurd hlarge hx.not_ge
    · exact Prod.ext (Fin.ext (he.trans hl.symm)) hentry
    · rw [hentry, abs_zero] at hlarge
      exact absurd hlarge hpos.not_ge
  · rw [hzero, abs_zero] at hlarge
    exact absurd hlarge hpos.not_ge

/-- The row of the entry moves on to the next place. -/
theorem Stage.Remains.next {k l : Fin n} (hs : s.Remains d e x k) (hl : l.val = k.val + 1) :
    Stage.Remains d e (-(x / e * d)) l
      { exchange s k l with compact := clearBelow (exchange s k l).compact k } := by
  have hkl : k < l := by omega
  have hswap : ∀ i j, (exchange s k l).compact.entry i j =
      s.compact.entry (Equiv.swap l k i) j := by
    intro i j
    rw [exchange, if_neg hkl.ne', entry_swap]
  have hpivot : ∀ j, k ≤ j → s.compact.entry l j = if j = k then e else if j = l then d else 0 := by
    intro j hj
    rw [hs.below l j hkl hj, entry_bidiagonal]
    grind
  constructor
  · intro j hj
    have hkj : k < j := hkl.trans_le hj
    simp only [clearBelow, entry_ofFn, hswap, if_pos hkl, if_pos hkj, if_neg hkj.ne',
      Equiv.swap_apply_left, Equiv.swap_apply_right, hs.current k le_rfl, hs.current j hkj.le,
      if_neg hkj.ne, if_true, hpivot k le_rfl, hpivot j hkj.le]
    by_cases hlj : l = j
    · simp [hlj]
    · simp [hlj, Ne.symm hlj]
  · intro i j hi hj
    have hki : k < i := hkl.trans hi
    have hkj : k < j := hkl.trans_le hj
    have hcolumn : s.compact.entry i k = 0 := by
      rw [hs.entry_column hki.le, if_neg hki.ne', if_neg (by omega)]
    simp only [clearBelow, entry_ofFn, hswap, if_pos hki, if_pos hkj, if_neg hkj.ne',
      Equiv.swap_apply_of_ne_of_ne hi.ne' hki.ne', hcolumn, zero_div, zero_mul, sub_zero]
    exact hs.below i j hki hkj.le

theorem Stage.Remains.pivotOf_le {k : Fin n} (hs : s.Remains d e x k) (hlast : n ≤ k + 1) :
    |(pivotOf s.compact k).2| ≤ |x| := by
  obtain ⟨hplace, hvalue⟩ := pivotOf_spec s.compact k
  rcases hvalue with hentry | hzero
  · have hself : (pivotOf s.compact k).1 = k := by omega
    rw [hentry, hs.entry_column hplace, if_pos hself]
  · rw [hzero, abs_zero]
    exact abs_nonneg x

/-- The elimination fails if the last entry is within the tolerance. -/
theorem Stage.Remains.eliminateFrom {k : ℕ} {hk : k < n} (hs : s.Remains d e x ⟨k, hk⟩)
    (hx : |x| ≤ |d|) (hd : |d| < |e|) (hlast : |x| * (|d| / |e|) ^ (n - 1 - k) ≤ tolerance) :
    ∃ column pivot, eliminateFrom tolerance k s = .error (.singular column pivot) := by
  have hpos : 0 < |e| := (abs_nonneg d).trans_lt hd
  -- the induction is on the columns that are left
  induction hleft : n - 1 - k generalizing k s x with
  | zero =>
    rw [hleft, pow_zero, mul_one] at hlast
    have hend : n ≤ k + 1 := by omega
    have hsmall := (hs.pivotOf_le hend).trans hlast
    rw [Factorization.eliminateFrom, dif_pos hk]
    exact ⟨_, _, if_pos hsmall⟩
  | succ m ih =>
    have hnext : k + 1 < n := by omega
    have hpivot : pivotOf s.compact ⟨k, hk⟩ = (⟨k + 1, hnext⟩, e) :=
      hs.pivotOf_eq rfl (hx.trans_lt hd)
    have hentry : |-(x / e * d)| = |x| * (|d| / |e|) := by
      rw [abs_neg, abs_mul, abs_div]
      ring
    rw [Factorization.eliminateFrom, dif_pos hk, hpivot]
    dsimp only
    split
    · exact ⟨_, _, rfl⟩
    · apply ih (hs.next (l := ⟨k + 1, hnext⟩) rfl)
      · rw [hentry]
        have hratio : |d| / |e| ≤ 1 := (div_le_one hpos).2 hd.le
        exact (mul_le_of_le_one_right (abs_nonneg x) hratio).trans hx
      · have hexponent : n - 1 - k = n - 1 - (k + 1) + 1 := by omega
        rw [hentry, mul_assoc, ← pow_succ', ← hexponent]
        exact hlast
      · omega

/-! ### Factorization -/

section Balanced

variable (hd : 0 < d) (hde : d < e) (hbalance : Scalar.balance d = 1)
variable (hbalance' : Scalar.balance e = 1)
include hd hde

theorem abs_entry_bidiagonal_le (i j : Fin n) : |(bidiagonal n d e).entry i j| ≤ e := by
  rw [entry_bidiagonal]
  split_ifs
  · rw [abs_of_pos hd]
    exact hde.le
  · rw [abs_of_pos (hd.trans hde)]
  · rw [abs_zero]
    exact (hd.trans hde).le

theorem columnPeak_bidiagonal (j : Fin n) :
    columnPeak (bidiagonal n d e) j = if j.val + 1 < n then e else d := by
  apply le_antisymm
  · rw [columnPeak_le_iff]
    split_ifs with hj
    · exact ⟨(hd.trans hde).le, fun i => abs_entry_bidiagonal_le hd hde i j⟩
    · refine ⟨hd.le, ?_⟩
      intro i
      rw [entry_bidiagonal, if_neg (show ¬ i.val = j.val + 1 by omega)]
      split_ifs
      · exact (abs_of_pos hd).le
      · rw [abs_zero]
        exact hd.le
  · split_ifs with hj
    · have h := abs_entry_le_columnPeak (bidiagonal n d e) ⟨j + 1, hj⟩ j
      rwa [entry_bidiagonal, if_neg (by simp [Fin.ext_iff]), if_pos rfl,
        abs_of_pos (hd.trans hde)] at h
    · have h := abs_entry_le_columnPeak (bidiagonal n d e) j j
      rwa [entry_bidiagonal, if_pos rfl, abs_of_pos hd] at h

include hbalance hbalance'

theorem columnScales_bidiagonal (j : Fin n) : (columnScales (bidiagonal n d e)).get j = 1 := by
  rw [get_columnScales, columnPeak_bidiagonal hd hde]
  split_ifs
  · exact hbalance'
  · exact hbalance

theorem rowPeak_bidiagonal (i : Fin n) :
    rowPeak (bidiagonal n d e) i = if 0 < i.val then e else d := by
  have hone := columnScales_bidiagonal (n := n) hd hde hbalance hbalance'
  apply le_antisymm
  · rw [rowPeak_le_iff]
    split_ifs with hi
    · refine ⟨(hd.trans hde).le, ?_⟩
      intro j
      rw [hone, mul_one]
      exact abs_entry_bidiagonal_le hd hde i j
    · refine ⟨hd.le, ?_⟩
      intro j
      rw [hone, mul_one, entry_bidiagonal, if_neg (show ¬ i.val = j.val + 1 by omega)]
      split_ifs
      · exact (abs_of_pos hd).le
      · rw [abs_zero]
        exact hd.le
  · split_ifs with hi
    · obtain ⟨k, hk⟩ : ∃ k, i.val = k + 1 := ⟨i.val - 1, by omega⟩
      have h := abs_entry_le_rowPeak (bidiagonal n d e) i ⟨k, by omega⟩
      rwa [hone, mul_one, entry_bidiagonal, if_neg (by simp [Fin.ext_iff, hk]), if_pos hk,
        abs_of_pos (hd.trans hde)] at h
    · have h := abs_entry_le_rowPeak (bidiagonal n d e) i i
      rwa [hone, mul_one, entry_bidiagonal, if_pos rfl, abs_of_pos hd] at h

/-- Balancing leaves the matrix as it is. -/
theorem balancedForm_bidiagonal : balancedForm (bidiagonal n d e) = bidiagonal n d e := by
  apply toMatrix_injective
  ext i j
  rw [toMatrix_apply, toMatrix_apply, entry_balancedForm, get_rowScales, ← rowPeak,
    rowPeak_bidiagonal hd hde hbalance hbalance', columnScales_bidiagonal hd hde hbalance hbalance',
    mul_one]
  split_ifs
  · rw [hbalance', one_mul]
  · rw [hbalance, one_mul]

/-- The factorization fails once the matrix is large enough. -/
theorem ofMatrix_bidiagonal (hn : 2 ≤ n)
    (hsmall : d * (d / e) ^ (n - 1) ≤ n * Scalar.epsilon * e) :
    ∃ column pivot, ofMatrix (bidiagonal n d e) = .error (.singular column pivot) := by
  have hpeak : e ≤ Scalar.peakMagnitude (bidiagonal n d e).entries := by
    have h := (peakMagnitude_entries_le_iff (S := bidiagonal n d e)).1 le_rfl
    replace h := h.2 ⟨1, hn⟩ ⟨0, Nat.zero_lt_of_lt hn⟩
    rwa [entry_bidiagonal, if_neg (by simp), if_pos rfl, abs_of_pos (hd.trans hde)] at h
  have hlast : |d| * (|d| / |e|) ^ (n - 1 - 0) ≤ threshold (bidiagonal n d e) := by
    rw [threshold, ExactScalar.ofNat_eq, abs_of_pos hd, abs_of_pos (hd.trans hde)]
    apply hsmall.trans
    apply mul_le_mul_of_nonneg_left hpeak
    exact mul_nonneg n.cast_nonneg ExactScalar.epsilon_nonneg
  have hstart : Stage.Remains d e d ⟨0, by omega⟩ ⟨bidiagonal n d e, Vector.ofFn id, 0⟩ := by
    constructor
    · intro j _
      rw [entry_bidiagonal, if_neg (show ¬ 0 = j.val + 1 by omega)]
    · intro i j _ _
      rfl
  have hlt : |d| < |e| := by
    rwa [abs_of_pos hd, abs_of_pos (hd.trans hde)]
  obtain ⟨column, pivot, h⟩ := hstart.eliminateFrom le_rfl hlt hlast
  have hbalanced := balancedForm_bidiagonal (n := n) hd hde hbalance hbalance'
  unfold balancedForm at hbalanced
  refine ⟨column, pivot, ?_⟩
  rw [ofMatrix, if_neg (by omega)]
  simp only [withScales]
  rw [hbalanced, h]

end Balanced

end NumericMethods.Factorization
