/-
  NumericMethods/Proofs/RootFinding/MultipleRoot.lean
  ===================================================
  **A root of any multiplicity is found in one step.**

  The quotient of `f = k * (x - r) ^ m` and its derivative is `(x - r) / m`, a line through
  the root.  The method for multiple roots takes a step of Newton's method for the quotient,
  and on a line such a step ends in the root.

  The method does not see the quotient but the values of `f` and its two derivatives.  They
  are tied together by `(x - r) * f' = m * f` and by the equation that follows from it for
  the second derivative (`mul_derivative`, `mul_derivative_derivative`), and these two are
  all that the step needs (`denominator_of_ratio`).
-/
import Mathlib
import NumericMethods.Proofs.Formula.Polynomial
import NumericMethods.Proofs.RootFinding.Record
import NumericMethods.Proofs.Scalar.Real

namespace NumericMethods

open Polynomial

variable {K : Type} [Field K]

namespace OnePoint

/-! ### The derivatives at a point -/

section Derivatives

variable {k r : K} {m : ℕ}

theorem mul_derivative (k r : K) (m : ℕ) :
    (X - C r) * derivative (C k * (X - C r) ^ m) = C (m : K) * (C k * (X - C r) ^ m) := by
  rw [derivative_C_mul, derivative_X_sub_C_pow]
  cases m with
  | zero => simp
  | succ m =>
    rw [Nat.add_sub_cancel, pow_succ]
    ring

/-- The same for the second derivative, by differentiating both sides. -/
theorem mul_derivative_derivative {P : K[X]}
    (h : (X - C r) * derivative P = C (m : K) * P) :
    (X - C r) * derivative (derivative P) = (C (m : K) - 1) * derivative P := by
  have hboth := congrArg derivative h
  rw [derivative_mul, derivative_X_sub_C, derivative_C_mul] at hboth
  linear_combination hboth

/-- The denominator of the step, for the values of `f` and its derivatives at the distance
    `u` from the root. -/
theorem denominator_of_ratio {u v d d₂ m : K} (hu : u ≠ 0) (hv : v ≠ 0) (hm : m ≠ 0)
    (hd : u * d = m * v) (hd₂ : u * d₂ = (m - 1) * d) :
    d * d - v * d₂ ≠ 0 ∧ v * d / (d * d - v * d₂) = u := by
  have hdenominator : u * (d * d - v * d₂) = v * d := by
    refine mul_left_cancel₀ hu ?_
    linear_combination u * d * hd - v * u * hd₂
  have hne : d ≠ 0 := by
    rintro rfl
    rw [mul_zero] at hd
    exact mul_ne_zero hm hv hd.symm
  have hpos : d * d - v * d₂ ≠ 0 := by
    intro hzero
    rw [hzero, mul_zero] at hdenominator
    exact mul_ne_zero hv hne hdenominator.symm
  exact ⟨hpos, by rw [← hdenominator, mul_div_cancel_right₀ _ hpos]⟩

end Derivatives

/-! ### The step -/

/-- The formula `k * (x - r) ^ m`. -/
def soleRoot (k r : K) (m : ℕ) : Formula K :=
  .mul (.const k) (.pow (.sub (.var Formula.variableName) (.const r)) (.const (m : K)))

variable [LinearOrder K] [IsStrictOrderedRing K] [ExactScalar K]
variable {k r x : K} {m : ℕ}

omit [LinearOrder K] [IsStrictOrderedRing K] [ExactScalar K] in
theorem isPolynomial_soleRoot (k r : K) (hm : 1 ≤ m) :
    (soleRoot k r m).IsPolynomial (C k * (X - C r) ^ m) := by
  obtain ⟨n, rfl⟩ := Nat.exists_eq_add_of_le' hm
  exact .mul (.const k) (.pow (.sub .var (.const r)) n)

variable [ExactScalar.HasNaturalPowers K]

theorem eval_soleRoot (k r x : K) (hm : 1 ≤ m) :
    (soleRoot k r m).eval x = .ok (k * (x - r) ^ m) := by
  rw [(isPolynomial_soleRoot k r hm).eval_eq]
  simp

/-- The next point is the root, wherever the last one is. -/
theorem next_soleRoot (hk : k ≠ 0) (hm : 1 ≤ m) (hx : x ≠ r) :
    (multipleRule (soleRoot k r m).differentiate
      (soleRoot k r m).differentiate.differentiate).next x (k * (x - r) ^ m) = .ok r := by
  have hf := isPolynomial_soleRoot k r hm
  have hdistance : x - r ≠ 0 := sub_ne_zero.2 hx
  have hfirst := congrArg (Polynomial.eval x) (mul_derivative k r m)
  have hsecond := congrArg (Polynomial.eval x) (mul_derivative_derivative (mul_derivative k r m))
  simp only [eval_mul, eval_sub, eval_X, eval_C, eval_pow, eval_one] at hfirst hsecond
  obtain ⟨hne, hstep⟩ := denominator_of_ratio hdistance
    (mul_ne_zero hk (pow_ne_zero m hdistance)) (Nat.cast_ne_zero.2 (Nat.one_le_iff_ne_zero.1 hm))
    hfirst hsecond
  refine bind_eq_ok_iff.2 ⟨_, liftDomain_eq_ok_iff.2 (hf.differentiate.eval_eq x), ?_⟩
  refine bind_eq_ok_iff.2 ⟨_, liftDomain_eq_ok_iff.2 (hf.differentiate.differentiate.eval_eq x), ?_⟩
  dsimp only
  rw [if_neg (fun hzero => hne (ExactScalar.beq_iff.1 hzero)), hstep, sub_sub_cancel]
  rfl

end OnePoint

variable [LinearOrder K] [IsStrictOrderedRing K] [ExactScalar K]

/-- From every seed that is not the root itself, one step of the method for multiple roots
    leads exactly to the root of `k * (x - r) ^ m`. -/
theorem multiple_root_in_one_step [ExactScalar.HasNaturalPowers K] (k r seed : K) (m : ℕ)
    (c : Control K) (hk : k ≠ 0) (hm : 1 ≤ m) (hseed : seed ≠ r) (hc : c.relative = false)
    (htolerance : c.tolerance ≤ 100) (hbudget : 1 ≤ c.maxIterations) :
    ∃ solution, multipleRoots (OnePoint.soleRoot k r m) seed c = .ok solution ∧
      solution.root = r ∧ solution.iterations = 1 := by
  have hvalue : k * (seed - r) ^ m ≠ 0 := mul_ne_zero hk (pow_ne_zero m (sub_ne_zero.2 hseed))
  let rule := OnePoint.multipleRule (OnePoint.soleRoot k r m).differentiate
    (OnePoint.soleRoot k r m).differentiate.differentiate
  let f := OnePoint.soleRoot k r m
  let first := OnePoint.firstRow seed (k * (seed - r) ^ m)
  let last : PointRow K := ⟨1, r, 0, |r - seed|⟩
  have hgoesOn : (OnePoint.process rule f c).isDone c first = false := by
    rw [(OnePoint.shows rule f c).isDone_eq_false_iff]
    refine ⟨ExactScalar.beq_eq_false_iff.2 hvalue, ?_⟩
    change ¬ (Scalar.ofNat 100 : K) < c.tolerance
    rw [ExactScalar.ofNat_eq]
    exact not_lt.2 htolerance
  have hstep : (OnePoint.process rule f c).step first = .ok last := by
    refine OnePoint.step_eq_ok_iff.2 ⟨OnePoint.next_soleRoot hk hm hseed, rfl, ?_, ?_⟩
    · rw [OnePoint.eval_soleRoot k r r hm, sub_self, zero_pow (Nat.one_le_iff_ne_zero.1 hm),
        mul_zero]
    · exact Control.stepError_of_absolute hc _ _
  have hdone : (OnePoint.process rule f c).isDone c last = true :=
    (OnePoint.shows rule f c).isDone_eq_true_iff.2 (.inl (ExactScalar.beq_iff.2 rfl))
  refine ⟨⟨r, some ⟨.multipleRoots, [first, last]⟩⟩, ?_, rfl, rfl⟩
  refine OnePoint.find_eq_ok_iff.2 (.inr ⟨first, [first, last], ⟨?_, ?_, ?_⟩, rfl⟩)
  · exact ⟨_, OnePoint.eval_soleRoot k r seed hm, ExactScalar.beq_eq_false_iff.2 hvalue, rfl⟩
  · exact .goesOn hgoesOn hstep (.ends hdone)
  · exact Nat.succ_le_succ hbudget

/-- A triple root, of rational and of real numbers. -/
theorem triple_root_in_one_step :
    let c : Control ℚ := ⟨1 / 10, 5, false⟩
    let c' : Control ℝ := ⟨1 / 10, 5, false⟩
    (∃ solution, multipleRoots (OnePoint.soleRoot (2 : ℚ) 1 3) 5 c = .ok solution ∧
        solution.root = 1 ∧ solution.iterations = 1) ∧
      ∃ solution, multipleRoots (OnePoint.soleRoot (2 : ℝ) 1 3) 5 c' = .ok solution ∧
        solution.root = 1 ∧ solution.iterations = 1 := by
  intro c c'
  constructor
  · exact multiple_root_in_one_step 2 1 5 3 c (by decide) (by decide) (by decide) rfl
      (by decide +kernel) (by decide)
  · let _ := RealNumber.exactScalar
    have _ := RealNumber.hasNaturalPowers
    exact multiple_root_in_one_step 2 1 5 3 c' (by norm_num) (by norm_num) (by norm_num) rfl
      (by norm_num [c']) (by norm_num [c'])

end NumericMethods
