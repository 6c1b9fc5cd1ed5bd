/-
  NumericMethods/Proofs/Interpolation/DividedDifference.lean
  ==========================================================
  **Divided differences are leading coefficients of interpolating polynomials.**

  The divided difference of order `j` at node `i` is the coefficient of the power `j` in the
  polynomial through the points `i`, ..., `i + j` (`difference`).  Two such polynomials of one
  order, at neighbouring nodes, combine to the one of the next order; the recursion of the
  table says the same for the leading coefficients (`difference_succ`).  So they are the
  entries of the table (`isDifferences`), and the coefficients of the nested form are the
  differences at the first node (`coefficients_eq`).

  The nested form itself adds one node with each coefficient (`nested_append`).  Its value
  with the first `m` coefficients is that of the polynomial through the first `m` points,
  which differs from the one through one more point by a multiple of the product that
  vanishes at the nodes so far (`eval_nested`).
-/
import Mathlib
import NumericMethods.Proofs.Interpolation.DifferenceTable
import NumericMethods.Proofs.Interpolation.Interpolant

namespace NumericMethods.NewtonForm

open Finset Polynomial

variable {K : Type} [Field K] [LinearOrder K] [IsStrictOrderedRing K] [ExactScalar K]
variable {xs ys : List K} {N : NewtonForm K} {i k m order : ℕ}

/-! ### Differences -/

/-- The divided difference of the points from index `i` to index `i + order`. -/
noncomputable def difference (xs ys : List K) (order i : ℕ) : K :=
  (interpolantOf xs ys (Icc i (i + order))).coeff order

theorem lt_of_mem_window {n : ℕ} (h : i + order < n) : ∀ k ∈ Icc i (i + order), k < n :=
  fun _ hk => (Finset.mem_Icc.1 hk).2.trans_lt h

theorem difference_zero (xs ys : List K) (i : ℕ) : difference xs ys 0 i = ys.getD i 0 := by
  rw [difference, interpolantOf, Nat.add_zero, Icc_self, Lagrange.interpolate_singleton,
    coeff_C_zero]

theorem coeff_interpolantOf_mul (hdistinct : xs.Nodup) (h : i + order < xs.length) (a b : K) :
    (interpolantOf xs ys (Icc i (i + order)) * Lagrange.basisDivisor a b).coeff (order + 1) =
      difference xs ys order i / (a - b) := by
  have hshort : (interpolantOf xs ys (Icc i (i + order))).coeff (order + 1) = 0 := by
    apply coeff_interpolantOf hdistinct (lt_of_mem_window h)
    rw [Nat.card_Icc]
    omega
  rw [Lagrange.basisDivisor, mul_left_comm, coeff_C_mul, coeff_mul_X_sub_C, hshort, zero_mul,
    sub_zero, inv_mul_eq_div]
  rfl

/-- The leading coefficients follow the recursion of the table. -/
theorem difference_succ (hdistinct : xs.Nodup) (h : i + (order + 1) < xs.length) :
    difference xs ys (order + 1) i =
      (difference xs ys order (i + 1) - difference xs ys order i) /
        (xs.getD (i + (order + 1)) 0 - xs.getD i 0) := by
  have hwithoutLast : (Icc i (i + (order + 1))).erase (i + (order + 1)) = Icc i (i + order) := by
    ext k
    simp only [mem_erase, Finset.mem_Icc]
    omega
  have hwithoutFirst : (Icc i (i + (order + 1))).erase i = Icc (i + 1) (i + 1 + order) := by
    ext k
    simp only [mem_erase, Finset.mem_Icc]
    omega
  have hcombine : interpolantOf xs ys (Icc i (i + (order + 1))) =
      interpolantOf xs ys (Icc i (i + order)) *
          Lagrange.basisDivisor (xs.getD i 0) (xs.getD (i + (order + 1)) 0) +
        interpolantOf xs ys (Icc (i + 1) (i + 1 + order)) *
          Lagrange.basisDivisor (xs.getD (i + (order + 1)) 0) (xs.getD i 0) := by
    rw [← hwithoutLast, ← hwithoutFirst]
    exact Lagrange.interpolate_eq_add_interpolate_erase _
      (injOn_indices hdistinct (lt_of_mem_window h))
      (Finset.mem_Icc.2 ⟨le_rfl, by omega⟩) (Finset.mem_Icc.2 ⟨by omega, le_rfl⟩) (by omega)
  rw [difference, hcombine, coeff_add, coeff_interpolantOf_mul hdistinct (by omega),
    coeff_interpolantOf_mul hdistinct (by omega), ← neg_sub (xs.getD (i + (order + 1)) 0), div_neg,
    neg_add_eq_sub, sub_div]

/-! ### The table -/

theorem isDifferences (hdistinct : xs.Nodup) : IsDifferences xs ys (difference xs ys) where
  value _ := difference_zero xs ys _
  quotient h := difference_succ hdistinct h

/-- The coefficients are the differences of all orders at the first node. -/
theorem coefficients_eq (h : ofPoints xs ys = .ok N) (hdistinct : xs.Nodup)
    (hlength : xs.length = ys.length) :
    N.nodes = xs ∧
      N.coefficients = (List.range xs.length).map fun order => difference xs ys order 0 := by
  obtain ⟨hnodes, hcoefficients, -⟩ := (isDifferences hdistinct).ofPoints_eq_ok hlength h
  exact ⟨hnodes, hcoefficients⟩

/-! ### The nested form -/

theorem nested_cons (c node : K) (cs nodes : List K) (x : K) :
    nested (c :: cs) (node :: nodes) x = nested cs nodes x * (x - node) + c := by
  cases cs with
  | nil => simp [nested]
  | cons d cs => rfl

/-- One more coefficient adds a multiple of the product that vanishes at the nodes before. -/
theorem nested_append (cs nodes : List K) (c x : K) (h : cs.length ≤ nodes.length) :
    nested (cs ++ [c]) nodes x =
      nested cs nodes x + c * ((nodes.take cs.length).map (x - ·)).prod := by
  induction cs generalizing nodes with
  | nil => simp [nested]
  | cons d cs ih =>
    cases nodes with
    | nil => simp at h
    | cons node nodes =>
      rw [List.cons_append, nested_cons, nested_cons, ih nodes (Nat.le_of_succ_le_succ h),
        List.length_cons, List.take_succ_cons, List.map_cons, List.prod_cons]
      ring

theorem prod_take_eq (h : m ≤ xs.length) (x : K) :
    ((xs.take m).map (x - ·)).prod = ∏ i ∈ range m, (x - xs.getD i 0) := by
  induction m with
  | zero => simp
  | succ m ih =>
    rw [List.take_succ_eq_append_getElem h, List.map_append, List.prod_append, ih (by omega),
      prod_range_succ, List.getD_eq_getElem _ _ h]
    simp

theorem coeff_nodal (v : ℕ → K) (hk : m ≤ k) :
    (Lagrange.nodal (range m) v).coeff k = if k = m then 1 else 0 := by
  have hdegree : (Lagrange.nodal (range m) v).natDegree = m := by
    rw [Lagrange.natDegree_nodal, card_range]
  split
  · rename_i heq
    have hmonic : (Lagrange.nodal (range m) v).leadingCoeff = 1 := Lagrange.nodal_monic
    rw [leadingCoeff, hdegree] at hmonic
    rw [heq, hmonic]
  · rename_i hne
    apply coeff_eq_zero_of_natDegree_lt
    omega

/-- The polynomial through one more point. -/
theorem interpolantOf_succ (hdistinct : xs.Nodup) (h : m < xs.length) :
    interpolantOf xs ys (range (m + 1)) = interpolantOf xs ys (range m) +
      C (difference xs ys m 0) * Lagrange.nodal (range m) fun i => xs.getD i 0 := by
  have hfew : ∀ i ∈ range m, i < xs.length := fun i hi => (mem_range.1 hi).trans h
  have hmore : ∀ i ∈ range (m + 1), i < xs.length := fun i hi =>
    (Nat.le_of_lt_succ (mem_range.1 hi)).trans_lt h
  have hleading : (interpolantOf xs ys (range (m + 1))).coeff m = difference xs ys m 0 := by
    rw [difference, Nat.zero_add, Nat.range_succ_eq_Icc_zero]
  -- the two sides agree at `m` nodes, and their difference is too short for that
  apply sub_eq_zero.1
  apply eq_zero_of_degree_lt_of_eval_index_eq_zero _ (injOn_indices hdistinct hfew)
  · rw [card_range, degree_lt_iff_coeff_zero]
    intro k hk
    rw [coeff_sub, coeff_add, coeff_C_mul, coeff_nodal _ hk,
      coeff_interpolantOf hdistinct hfew (by rwa [card_range])]
    split
    · rename_i heq
      rw [heq, hleading, zero_add, mul_one, sub_self]
    · rename_i hne
      have hlt : (range (m + 1)).card ≤ k := by
        rw [card_range]
        omega
      rw [coeff_interpolantOf hdistinct hmore hlt, mul_zero, zero_add, sub_zero]
  · intro i hi
    have hnodal : (Lagrange.nodal (range m) fun i => xs.getD i 0).eval (xs.getD i 0) = 0 :=
      Lagrange.eval_nodal_at_node (v := fun i => xs.getD i 0) hi
    rw [eval_sub, eval_add, eval_mul, hnodal, mul_zero, add_zero,
      eval_interpolantOf hdistinct hfew hi,
      eval_interpolantOf hdistinct hmore (range_subset_range.2 (Nat.le_succ m) hi), sub_self]

theorem eval_nested (hdistinct : xs.Nodup) (h : m ≤ xs.length) (x : K) :
    nested ((List.range m).map fun order => difference xs ys order 0) xs x =
      (interpolantOf xs ys (range m)).eval x := by
  induction m with
  | zero =>
    rw [range_zero, interpolantOf, Lagrange.interpolate_empty, eval_zero]
    rfl
  | succ m ih =>
    rw [List.range_succ, List.map_append, List.map_singleton,
      nested_append _ _ _ _ (by simpa using Nat.le_of_succ_le h), ih (by omega),
      interpolantOf_succ hdistinct h, eval_add, eval_mul, eval_C, Lagrange.eval_nodal,
      List.length_map, List.length_range, prod_take_eq (by omega)]

/-- The nested form is the polynomial through the points. -/
theorem evaluate_eq (h : ofPoints xs ys = .ok N) (hdistinct : xs.Nodup)
    (hlength : xs.length = ys.length) (x : K) :
    N.evaluate x = (interpolant xs ys).eval x := by
  obtain ⟨hnodes, hcoefficients⟩ := coefficients_eq h hdistinct hlength
  rw [evaluate, hnodes, hcoefficients, eval_nested hdistinct le_rfl]
  rfl

end NumericMethods.NewtonForm
