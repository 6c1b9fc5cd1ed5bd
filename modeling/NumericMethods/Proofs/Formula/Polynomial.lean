/-
  NumericMethods/Proofs/Formula/Polynomial.lean
  =============================================
  **Formulas that are polynomials, and their derivatives.**

  A formula that is built from the variable and numbers by sums, differences, products,
  negations and powers with natural exponents stands for a polynomial (`IsPolynomial`).  It
  has a value everywhere, the one of the polynomial (`IsPolynomial.eval_eq`), and so has its
  simplified derivative, again a formula of this kind, for the derivative of the polynomial
  (`IsPolynomial.differentiate`).

  The derivative as the rules give it is not of this kind: the exponent of a power becomes a
  difference.  Simplification folds it, so differentiation and simplification are followed
  together, one operation after the other.
-/
import Mathlib
import NumericMethods.Proofs.Formula.ConstantFolding

namespace NumericMethods

variable {K : Type} [Field K] [LinearOrder K] [IsStrictOrderedRing K] [ExactScalar K]

namespace Formula

open Polynomial

variable {b e l r u : Formula K} {P Q : K[X]} {v : K}

/-- The formula stands for the polynomial. -/
inductive IsPolynomial : Formula K → K[X] → Prop
  | var : IsPolynomial (.var variableName) X
  | const (v : K) : IsPolynomial (.const v) (C v)
  | add {l r : Formula K} {P Q : K[X]} (hl : IsPolynomial l P) (hr : IsPolynomial r Q) :
      IsPolynomial (.add l r) (P + Q)
  | sub {l r : Formula K} {P Q : K[X]} (hl : IsPolynomial l P) (hr : IsPolynomial r Q) :
      IsPolynomial (.sub l r) (P - Q)
  | mul {l r : Formula K} {P Q : K[X]} (hl : IsPolynomial l P) (hr : IsPolynomial r Q) :
      IsPolynomial (.mul l r) (P * Q)
  | neg {u : Formula K} {P : K[X]} (hu : IsPolynomial u P) : IsPolynomial (.neg u) (-P)
  | pow {b : Formula K} {P : K[X]} (hb : IsPolynomial b P) (n : ℕ) :
      IsPolynomial (.pow b (.const ((n + 1 : ℕ) : K))) (P ^ (n + 1))

namespace IsPolynomial

omit [LinearOrder K] [IsStrictOrderedRing K] [ExactScalar K] in
theorem congr (h : IsPolynomial e P) (hPQ : P = Q) : IsPolynomial e Q := hPQ ▸ h

omit [LinearOrder K] [IsStrictOrderedRing K] [ExactScalar K] in
theorem eq_C (h : IsPolynomial (.const v) P) : P = C v := by
  cases h
  rfl

/-- A number that passes the test of a rule stands for the number that was tested for. -/
theorem eq_C_of_beq {c : K} (h : IsPolynomial (.const v) P) (htest : (v == c) = true) :
    P = C c := by
  rw [h.eq_C, ExactScalar.beq_iff.1 htest]

/-! ### Simplification -/

theorem joinAdd (hl : IsPolynomial l P) (hr : IsPolynomial r Q) :
    IsPolynomial (joinAdd l r) (P + Q) := by
  obtain ⟨a, c, rfl, rfl, h⟩ | ⟨a, rfl, ha, -, h⟩ | ⟨c, rfl, hc, -, h⟩ | ⟨-, -, h⟩ :=
    joinAdd_cases l r
  all_goals rw [h]
  · rw [hl.eq_C, hr.eq_C, ← C_add]
    exact .const _
  · rwa [hl.eq_C_of_beq ha, C_0, zero_add]
  · rwa [hr.eq_C_of_beq hc, C_0, add_zero]
  · exact .add hl hr

theorem joinSub (hl : IsPolynomial l P) (hr : IsPolynomial r Q) :
    IsPolynomial (joinSub l r) (P - Q) := by
  obtain ⟨a, c, rfl, rfl, h⟩ | ⟨c, rfl, hc, -, h⟩ | ⟨-, -, h⟩ := joinSub_cases l r
  all_goals rw [h]
  · rw [hl.eq_C, hr.eq_C, ← C_sub]
    exact .const _
  · rwa [hr.eq_C_of_beq hc, C_0, sub_zero]
  · exact .sub hl hr

theorem joinMul (hl : IsPolynomial l P) (hr : IsPolynomial r Q) :
    IsPolynomial (joinMul l r) (P * Q) := by
  obtain ⟨a, c, rfl, rfl, h⟩ | ⟨a, u, hu, -, hrule⟩ | ⟨-, -, h⟩ := joinMul_cases l r
  · rw [h, hl.eq_C, hr.eq_C, ← C_mul]
    exact .const _
  · -- the number may stand on either side
    obtain ⟨U, hU, hproduct⟩ : ∃ U, IsPolynomial u U ∧ P * Q = C a * U := by
      rcases hu with ⟨rfl, rfl⟩ | ⟨rfl, rfl⟩
      · exact ⟨Q, hr, by rw [hl.eq_C]⟩
      · exact ⟨P, hl, by rw [hr.eq_C, mul_comm]⟩
    rw [hproduct]
    rcases hrule with ⟨ha, h⟩ | ⟨ha, h⟩ | ⟨ha, h⟩
    all_goals rw [h, ExactScalar.beq_iff.1 ha]
    · rw [C_0, zero_mul, ← C_0]
      exact .const 0
    · rwa [C_1, one_mul]
    · rw [C_neg, C_1, neg_one_mul]
      exact .neg hU
  · rw [h]
    exact .mul hl hr

theorem joinNeg (hu : IsPolynomial u P) : IsPolynomial (joinNeg u) (-P) := by
  obtain ⟨v, rfl, h⟩ | ⟨w, rfl, h⟩ | ⟨-, -, h⟩ := joinNeg_cases u
  all_goals rw [h]
  · rw [hu.eq_C, ← C_neg]
    exact .const _
  · cases hu with
    | neg hw => rwa [neg_neg]
  · exact .neg hu

omit [LinearOrder K] [IsStrictOrderedRing K] [ExactScalar K] in
theorem cancelled (h : IsPolynomial e P) : IsPolynomial e.cancelled P := by
  induction h with
  | var => exact .var
  | const v => exact .const v
  | add _ _ ihl ihr => exact .add ihl ihr
  | sub _ _ ihl ihr => exact .sub ihl ihr
  | mul _ _ ihl ihr => exact .mul ihl ihr
  | pow _ n ihb => exact .pow ihb n
  | @neg u P _ ihu =>
    obtain ⟨w, hw, h⟩ | ⟨-, h⟩ := cancelled_neg_cases u
    · rw [hw] at ihu
      rw [h]
      cases ihu with
      | neg hw' => rwa [neg_neg]
    · rw [h]
      exact .neg ihu

/-! Operands that are simplified to polynomials make an operation that is. -/

theorem simplify_add (hl : IsPolynomial l.simplify P) (hr : IsPolynomial r.simplify Q) :
    IsPolynomial (Formula.add l r).simplify (P + Q) := by
  rw [Formula.simplify_add]
  exact hl.joinAdd hr

theorem simplify_sub (hl : IsPolynomial l.simplify P) (hr : IsPolynomial r.simplify Q) :
    IsPolynomial (Formula.sub l r).simplify (P - Q) := by
  rw [simplify_sub_eq]
  split
  · rename_i hsign
    obtain ⟨a, ha, hzero, -⟩ := isNegation_iff.1 hsign
    rw [ha] at hl
    rw [hl.eq_C_of_beq hzero, C_0, zero_sub]
    exact hr.cancelled.joinNeg
  · exact hl.joinSub hr

theorem simplify_mul (hl : IsPolynomial l.simplify P) (hr : IsPolynomial r.simplify Q) :
    IsPolynomial (Formula.mul l r).simplify (P * Q) := by
  rw [Formula.simplify_mul]
  exact hl.joinMul hr

theorem simplify_neg (hu : IsPolynomial u.simplify P) :
    IsPolynomial (Formula.neg u).simplify (-P) := by
  rw [Formula.simplify_neg]
  exact hu.joinNeg

section Powers

variable [ExactScalar.HasNaturalPowers K]

theorem joinPow (hb : IsPolynomial b P) (n : ℕ) :
    IsPolynomial (joinPow b (.const (n : K))) (P ^ n) := by
  obtain ⟨a, c, w, rfl, hc, hw, h⟩ | ⟨-, ⟨c, hc, hzero, h⟩ | ⟨c, hc, hone, h⟩ | ⟨hne, h⟩⟩ :=
    joinPow_cases b (.const (n : K))
  all_goals rw [h]
  · cases hc
    obtain ⟨hpower, -⟩ := finitePower?_eq_some_iff.1 hw
    rw [ExactScalar.power_natCast] at hpower
    cases hpower
    rw [hb.eq_C, ← C_pow]
    exact .const _
  · cases hc
    obtain rfl : n = 0 := by exact_mod_cast ExactScalar.beq_iff.1 hzero
    rw [pow_zero, ← C_1]
    exact .const 1
  · cases hc
    obtain rfl : n = 1 := by exact_mod_cast ExactScalar.beq_iff.1 hone
    rwa [pow_one]
  · -- an exponent that is kept is not zero
    cases n with
    | zero =>
      have hzero := (hne _ rfl).1
      rw [Nat.cast_zero, ExactScalar.beq_iff.2 rfl] at hzero
      cases hzero
    | succ n => exact .pow hb n

theorem simplify_pow (hb : IsPolynomial b.simplify P) (n : ℕ)
    (he : e.simplify = .const (n : K)) : IsPolynomial (Formula.pow b e).simplify (P ^ n) := by
  rw [Formula.simplify_pow, he]
  exact hb.joinPow n

theorem simplify (h : IsPolynomial e P) : IsPolynomial e.simplify P := by
  induction h with
  | var =>
    rw [simplify_var]
    exact .var
  | const v =>
    rw [simplify_const]
    exact .const v
  | add _ _ ihl ihr => exact ihl.simplify_add ihr
  | sub _ _ ihl ihr => exact ihl.simplify_sub ihr
  | mul _ _ ihl ihr => exact ihl.simplify_mul ihr
  | neg _ ihu => exact ihu.simplify_neg
  | pow _ n ihb => exact ihb.simplify_pow (n + 1) (simplify_const _)

/-! ### Differentiation -/

omit [ExactScalar.HasNaturalPowers K] in
/-- The exponent of the derivative of a power. -/
theorem simplify_lowered (n : ℕ) :
    (Formula.sub (.const ((n + 1 : ℕ) : K)) (.const 1)).simplify = .const (n : K) := by
  rw [Formula.simplify_sub, simplify_const, simplify_const]
  change Formula.const (((n + 1 : ℕ) : K) - 1) = _
  rw [Nat.cast_succ, add_sub_cancel_right]

theorem differentiate (h : IsPolynomial e P) :
    IsPolynomial e.differentiate (Polynomial.derivative P) := by
  induction h with
  | var =>
    rw [derivative_X, ← C_1]
    exact (IsPolynomial.const 1).simplify
  | const v =>
    rw [derivative_C, ← C_0]
    exact (IsPolynomial.const 0).simplify
  | add _ _ ihl ihr =>
    rw [derivative_add]
    exact ihl.simplify_add ihr
  | sub _ _ ihl ihr =>
    rw [derivative_sub]
    exact ihl.simplify_sub ihr
  | mul hl hr ihl ihr =>
    rw [derivative_mul]
    exact (ihl.simplify_mul hr.simplify).simplify_add (hl.simplify.simplify_mul ihr)
  | neg _ ihu =>
    rw [derivative_neg]
    exact ihu.simplify_neg
  | pow hb n ihb =>
    rw [derivative_pow_succ, ← Nat.cast_succ]
    have hexponent : IsPolynomial (Formula.const ((n + 1 : ℕ) : K)).simplify _ :=
      (IsPolynomial.const _).simplify
    have hpower := hb.simplify.simplify_pow n (simplify_lowered n)
    exact (hexponent.simplify_mul hpower).simplify_mul ihb

/-! ### Evaluation -/

theorem eval_eq (h : IsPolynomial e P) (p : K) : e.eval p = .ok (P.eval p) := by
  induction h with
  | var => exact eval_var_eq_ok_iff.2 ⟨rfl, eval_X.symm⟩
  | const v => exact eval_const_eq_ok_iff.2 ⟨rfl, eval_C.symm⟩
  | add _ _ ihl ihr => exact eval_add_eq_ok_iff.2 ⟨_, ihl, _, ihr, rfl, eval_add.symm⟩
  | sub _ _ ihl ihr =>
    exact eval_sub_eq_ok_iff.2 ⟨_, ihl, _, ihr, rfl, (Polynomial.eval_sub _ _ _).symm⟩
  | mul _ _ ihl ihr => exact eval_mul_eq_ok_iff.2 ⟨_, ihl, _, ihr, rfl, eval_mul.symm⟩
  | neg _ ihu => exact eval_neg_eq_ok_iff.2 ⟨_, ihu, rfl, (Polynomial.eval_neg _ _).symm⟩
  | pow _ n ihb =>
    refine eval_pow_eq_ok_iff.2 ⟨_, ihb, _, eval_const_eq_ok_iff.2 ⟨rfl, rfl⟩, ?_, ?_, rfl⟩
    · have hnonneg : ¬ ((n + 1 : ℕ) : K) < 0 := (Nat.cast_nonneg _).not_gt
      rw [decide_eq_false hnonneg, Bool.and_false]
    · rw [Polynomial.eval_pow]
      exact ExactScalar.power_natCast _ _

end Powers

end IsPolynomial

end Formula

end NumericMethods
