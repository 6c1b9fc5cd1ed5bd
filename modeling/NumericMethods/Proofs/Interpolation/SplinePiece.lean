/-
  NumericMethods/Proofs/Interpolation/SplinePiece.lean
  ====================================================
  **A spline piece is a polynomial, and its evaluators are the derivatives.**

  The three evaluators of a piece walk along its coefficients, each with its own factors
  for the powers that are left.  What each of them computes is stated for any number of
  coefficients and any value to start from: the value of the polynomial with these
  coefficients, or of one of its first two derivatives, beside the contribution of the
  start (`foldl_descending`, `derivativeFrom_eq`, `secondDerivativeFrom_eq`).  Measuring
  from an origin changes nothing in this (`evaluate_eq`, `derivative_eq`,
  `secondDerivative_eq`).

  The coefficients that are shown belong to the same polynomial, in powers of `x`: each step
  of the expansion multiplies by `x - origin` and adds the next coefficient
  (`descending_timesShifted`, `descending_coefficients`).
-/
import Mathlib
import NumericMethods.Interpolation.Spline
import NumericMethods.Proofs.Scalar.Exact

namespace NumericMethods.SplinePiece

open Polynomial

variable {K : Type} [Field K] [LinearOrder K] [IsStrictOrderedRing K] [ExactScalar K]

/-- The polynomial with given coefficients, highest power first. -/
noncomputable def descending : List K → K[X]
  | [] => 0
  | c :: cs => C c * X ^ cs.length + descending cs

omit [LinearOrder K] [IsStrictOrderedRing K] [ExactScalar K] in
theorem natDegree_descending_le (cs : List K) :
    (descending cs).natDegree ≤ cs.length - 1 := by
  induction cs with
  | nil => exact natDegree_zero.le
  | cons c cs ih =>
    rw [descending, List.length_cons, Nat.add_sub_cancel]
    exact natDegree_add_le_of_degree_le (natDegree_C_mul_X_pow_le _ _) (ih.trans (Nat.sub_le _ _))

theorem foldl_descending (cs : List K) (value t : K) :
    cs.foldl (fun value c => value * t + c) value =
      value * t ^ cs.length + (descending cs).eval t := by
  induction cs generalizing value with
  | nil => simp [descending]
  | cons c cs ih =>
    rw [List.foldl_cons, ih, descending, eval_add, eval_mul, eval_C, eval_pow, eval_X,
      List.length_cons, pow_succ]
    ring

theorem derivativeFrom_eq (cs : List K) (value t : K) :
    derivativeFrom t value cs =
      value * t ^ (cs.length - 1) + (Polynomial.derivative (descending cs)).eval t := by
  induction cs generalizing value with
  | nil => simp [derivativeFrom, descending]
  | cons c cs ih =>
    cases cs with
    | nil => simp [derivativeFrom, descending]
    | cons d cs =>
      have hcons : descending (c :: d :: cs) =
          C c * X ^ (cs.length + 1) + descending (d :: cs) := rfl
      rw [derivativeFrom, ih, hcons, derivative_add, derivative_C_mul_X_pow, eval_add,
        ExactScalar.ofNat_eq]
      simp only [List.length_cons, Nat.add_sub_cancel, eval_mul, eval_C, eval_pow, eval_X]
      ring

theorem secondDerivativeFrom_eq (cs : List K) (value t : K) :
    secondDerivativeFrom t value cs =
      value * t ^ (cs.length - 2) +
        (Polynomial.derivative (Polynomial.derivative (descending cs))).eval t := by
  induction cs generalizing value with
  | nil => simp [secondDerivativeFrom, descending]
  | cons c cs ih =>
    cases cs with
    | nil => simp [secondDerivativeFrom, descending]
    | cons d cs =>
      cases cs with
      | nil => simp [secondDerivativeFrom, descending]
      | cons e cs =>
        have hcons : descending (c :: d :: e :: cs) =
            C c * X ^ (cs.length + 2) + descending (d :: e :: cs) := rfl
        rw [secondDerivativeFrom, ih, hcons, derivative_add, derivative_C_mul_X_pow,
          derivative_add, derivative_C_mul_X_pow, eval_add, ExactScalar.ofNat_eq]
        simp only [List.length_cons, eval_mul, eval_C, eval_pow, eval_X]
        push_cast
        ring

theorem foldl_zero (cs : List K) (t : K) :
    cs.foldl (fun value c => value * t + c) 0 = (descending cs).eval t := by
  rw [foldl_descending, zero_mul, zero_add]

theorem derivativeFrom_zero (cs : List K) (t : K) :
    derivativeFrom t 0 cs = (Polynomial.derivative (descending cs)).eval t := by
  rw [derivativeFrom_eq, zero_mul, zero_add]

theorem secondDerivativeFrom_zero (cs : List K) (t : K) :
    secondDerivativeFrom t 0 cs =
      (Polynomial.derivative (Polynomial.derivative (descending cs))).eval t := by
  rw [secondDerivativeFrom_eq, zero_mul, zero_add]

/-- The polynomial of a piece. -/
noncomputable def polynomial (p : SplinePiece K) : K[X] :=
  (descending p.shifted).comp (X - C p.origin)

omit [LinearOrder K] [IsStrictOrderedRing K] [ExactScalar K] in
theorem natDegree_polynomial_le (p : SplinePiece K) :
    p.polynomial.natDegree ≤ p.shifted.length - 1 := by
  rw [polynomial, natDegree_comp, natDegree_X_sub_C, mul_one]
  exact natDegree_descending_le p.shifted

theorem evaluate_eq (p : SplinePiece K) (x : K) : p.evaluate x = p.polynomial.eval x := by
  rw [evaluate, foldl_zero, polynomial, eval_comp]
  simp

theorem derivative_eq (p : SplinePiece K) (x : K) :
    p.derivative x = (Polynomial.derivative p.polynomial).eval x := by
  rw [derivative, derivativeFrom_zero, polynomial, derivative_comp]
  simp

theorem secondDerivative_eq (p : SplinePiece K) (x : K) :
    p.secondDerivative x =
      (Polynomial.derivative (Polynomial.derivative p.polynomial)).eval x := by
  rw [secondDerivative, secondDerivativeFrom_zero, polynomial, derivative_comp]
  simp [derivative_comp]

/-! ### The coefficients that are shown -/

variable (origin c previous : K) (gs cs : List K) (p : SplinePiece K)

theorem length_shiftedTail : (shiftedTail origin c previous gs).length = gs.length + 1 := by
  induction gs generalizing previous with
  | nil => rfl
  | cons g gs ih => rw [shiftedTail, List.length_cons, ih, List.length_cons]

theorem descending_shiftedTail :
    descending (shiftedTail origin c previous gs) =
      descending gs * (X - C origin) + C c - C (origin * previous) * X ^ gs.length := by
  induction gs generalizing previous with
  | nil =>
    simp only [shiftedTail, descending, List.length_nil, C_add, C_sub, C_0]
    ring
  | cons g gs ih =>
    simp only [shiftedTail, descending, length_shiftedTail, ih, List.length_cons, C_sub, C_mul]
    ring

theorem length_timesShifted : (timesShifted origin gs c).length = gs.length + 1 := by
  cases gs with
  | nil => rfl
  | cons g gs => rw [timesShifted, List.length_cons, length_shiftedTail, List.length_cons]

theorem descending_timesShifted :
    descending (timesShifted origin gs c) = descending gs * (X - C origin) + C c := by
  cases gs with
  | nil => simp [timesShifted, descending]
  | cons g gs =>
    simp only [timesShifted, descending, length_shiftedTail, descending_shiftedTail, C_mul]
    ring

theorem length_foldl_timesShifted :
    (cs.foldl (timesShifted origin) gs).length = gs.length + cs.length := by
  induction cs generalizing gs with
  | nil => rfl
  | cons c cs ih =>
    rw [List.foldl_cons, ih, length_timesShifted, List.length_cons, Nat.add_right_comm]
    rfl

theorem length_coefficients : p.coefficients.length = p.shifted.length := by
  rw [coefficients, length_foldl_timesShifted, List.length_nil, Nat.zero_add]

/-- The steps of the expansion are those of Horner's rule, at `x - origin`. -/
theorem foldl_timesShifted :
    descending (cs.foldl (timesShifted origin) gs) =
      descending gs * (X - C origin) ^ cs.length + (descending cs).comp (X - C origin) := by
  induction cs generalizing gs with
  | nil => simp [descending]
  | cons c cs ih =>
    rw [List.foldl_cons, ih, descending_timesShifted, descending, add_comp, mul_comp, C_comp,
      X_pow_comp, List.length_cons, pow_succ']
    ring

/-- The coefficients that are shown are those of the polynomial of the piece. -/
theorem descending_coefficients : descending p.coefficients = p.polynomial := by
  rw [coefficients, foldl_timesShifted, polynomial, descending, zero_mul, zero_add]

end NumericMethods.SplinePiece
