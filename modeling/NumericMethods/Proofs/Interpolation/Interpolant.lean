/-
  NumericMethods/Proofs/Interpolation/Interpolant.lean
  ====================================================
  **The polynomial through given points, apart from any method that finds it.**

  A list of ascending coefficients stands for a polynomial (`asPolynomial`), whose value
  is what `horner` computes.  It has as many coefficients as the list, and is therefore
  known from its values at as many nodes: the one polynomial that is shorter than the list
  of nodes and takes the given values is the `interpolant` of the library
  (`PassesThrough.horner_eq`, `PassesThrough.unique`).
-/
import Mathlib
import NumericMethods.Interpolation.Polynomial
import NumericMethods.Proofs.Scalar.Exact

namespace NumericMethods

open Polynomial Finset

variable {K : Type} [Field K] [LinearOrder K] [IsStrictOrderedRing K] [ExactScalar K]
variable {xs ys cs ds : List K} {indices : Finset ℕ}

/-! ### Coefficient lists -/

/-- The polynomial with ascending coefficients. -/
noncomputable def asPolynomial (ascending : List K) : K[X] :=
  ascending.foldr (fun c p => p * X + C c) 0

theorem horner_cons (c : K) (cs : List K) (x : K) :
    horner (c :: cs) x = horner cs x * x + c := rfl

theorem eval_asPolynomial (cs : List K) (x : K) : (asPolynomial cs).eval x = horner cs x := by
  induction cs with
  | nil => exact eval_zero
  | cons c cs ih =>
    rw [horner_cons, ← ih]
    simp [asPolynomial]

theorem coeff_asPolynomial (cs : List K) (i : ℕ) : (asPolynomial cs).coeff i = cs.getD i 0 := by
  induction cs generalizing i with
  | nil => exact coeff_zero i
  | cons c cs ih =>
    change (asPolynomial cs * X + C c).coeff i = _
    cases i with
    | zero => simp
    | succ i => rw [coeff_add, coeff_mul_X, ih, coeff_C_succ, add_zero, List.getD_cons_succ]

theorem degree_asPolynomial_lt (cs : List K) : (asPolynomial cs).degree < cs.length := by
  rw [degree_lt_iff_coeff_zero]
  intro i hi
  rw [coeff_asPolynomial, List.getD_eq_default _ _ hi]

theorem asPolynomial_injective (hlength : cs.length = ds.length)
    (h : asPolynomial cs = asPolynomial ds) : cs = ds := by
  apply List.ext_getElem hlength
  intro i hi hi'
  have hcoeff := congrArg (fun p => p.coeff i) h
  simpa [coeff_asPolynomial, hi, hi'] using hcoeff

theorem horner_eq_sum (cs : List K) (x : K) :
    horner cs x = ∑ i : Fin cs.length, cs.get i * x ^ i.val := by
  induction cs with
  | nil => rfl
  | cons c cs ih =>
    rw [horner_cons, ih, Finset.sum_mul]
    simp only [List.length_cons, Fin.sum_univ_succ, List.get_cons_zero, Fin.val_zero,
      Fin.val_succ, pow_zero, mul_one, pow_succ, mul_assoc]
    exact add_comm _ _

/-! ### Nodes and values -/

/-- Different abscissae are different at all indices. -/
theorem injOn_nodes (hdistinct : xs.Nodup) :
    Set.InjOn (fun i => xs.getD i 0) (range xs.length : Set ℕ) := by
  intro i hi j hj h
  have hi' : i < xs.length := by simpa using hi
  have hj' : j < xs.length := by simpa using hj
  simp only [List.getD_eq_getElem _ _ hi', List.getD_eq_getElem _ _ hj'] at h
  exact (hdistinct.getElem_inj_iff).1 h

theorem injOn_indices (hdistinct : xs.Nodup)
    (h : ∀ i ∈ indices, i < xs.length) :
    Set.InjOn (fun i => xs.getD i 0) (indices : Set ℕ) :=
  (injOn_nodes hdistinct).mono fun i hi => mem_coe.2 (mem_range.2 (h i hi))

/-- The polynomial through the points with the given indices. -/
noncomputable def interpolantOf (xs ys : List K) (indices : Finset ℕ) : K[X] :=
  Lagrange.interpolate indices (fun i => xs.getD i 0) fun i => ys.getD i 0

theorem eval_interpolantOf (hdistinct : xs.Nodup) (h : ∀ i ∈ indices, i < xs.length) {i : ℕ}
    (hi : i ∈ indices) : (interpolantOf xs ys indices).eval (xs.getD i 0) = ys.getD i 0 :=
  Lagrange.eval_interpolate_at_node (fun i => ys.getD i 0) (injOn_indices hdistinct h) hi

theorem coeff_interpolantOf (hdistinct : xs.Nodup) (h : ∀ i ∈ indices, i < xs.length) {k : ℕ}
    (hk : indices.card ≤ k) : (interpolantOf xs ys indices).coeff k = 0 := by
  have hdegree := Lagrange.degree_interpolate_lt (fun i => ys.getD i 0) (injOn_indices hdistinct h)
  exact degree_lt_iff_coeff_zero _ _ |>.1 hdegree k hk

/-- The polynomial of degree below the number of points that passes through them. -/
noncomputable def interpolant (xs ys : List K) : K[X] := interpolantOf xs ys (range xs.length)

/-- The list of coefficients takes the given values at the nodes. -/
def PassesThrough (xs ys cs : List K) : Prop :=
  ∀ i < xs.length, horner cs (xs.getD i 0) = ys.getD i 0

theorem PassesThrough.asPolynomial_eq (h : PassesThrough xs ys cs) (hdistinct : xs.Nodup)
    (hlength : cs.length = xs.length) : asPolynomial cs = interpolant xs ys := by
  apply Lagrange.eq_interpolate_of_eval_eq _ (injOn_nodes hdistinct)
  · rw [card_range, ← hlength]
    exact degree_asPolynomial_lt cs
  · intro i hi
    rw [eval_asPolynomial]
    exact h i (mem_range.1 hi)

theorem PassesThrough.horner_eq (h : PassesThrough xs ys cs) (hdistinct : xs.Nodup)
    (hlength : cs.length = xs.length) (x : K) : horner cs x = (interpolant xs ys).eval x := by
  rw [← h.asPolynomial_eq hdistinct hlength, eval_asPolynomial]

/-- There is one list of coefficients that takes the given values. -/
theorem PassesThrough.unique (hcs : PassesThrough xs ys cs) (hds : PassesThrough xs ys ds)
    (hdistinct : xs.Nodup) (hcs' : cs.length = xs.length) (hds' : ds.length = xs.length) :
    cs = ds := by
  apply asPolynomial_injective (hcs'.trans hds'.symm)
  rw [hcs.asPolynomial_eq hdistinct hcs', hds.asPolynomial_eq hdistinct hds']

end NumericMethods
