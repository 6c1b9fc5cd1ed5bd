/-
  NumericMethods/Proofs/Formula/Simplification.lean
  =================================================
  **Simplification keeps values.**

  Over exact arithmetic the simple form of a formula has every value that the formula has
  (`eval_simplify`).  It may have more: `0 / x` has no value where `x` is zero, and its
  simple form `0` has one.  So the relation that is carried through the recursion is
  one-sided: `Refines e e'` says that each value of `e` is a value of `e'`.

  Every rule gives a formula that refines the operation on the simple operands, and every
  operation is monotone in its operands.  The recursion does not follow the tree: a
  difference whose first operand becomes zero is simplified again as a negation.  The
  induction is therefore on the number of nodes.
-/
import Mathlib.Analysis.SpecialFunctions.Log.Basic
import NumericMethods.Formula.Simplify
import NumericMethods.Proofs.Formula.Evaluation
import NumericMethods.Proofs.Scalar.Exact
import NumericMethods.Proofs.Scalar.Real

namespace NumericMethods.Formula

/-! ### Refinement -/

section Refinement

variable {α : Type} [Scalar α] {e e' e'' l l' r r' u u' : Formula α}

/-- Each value of the first formula is a value of the second one at the same point. -/
def Refines (e e' : Formula α) : Prop := ∀ p v, e.eval p = .ok v → e'.eval p = .ok v

theorem Refines.refl (e : Formula α) : Refines e e := fun _ _ h => h

theorem Refines.trans (h : Refines e e') (h' : Refines e' e'') : Refines e e'' :=
  fun p v hv => h' p v (h p v hv)

/-- An operation that evaluates its operands first is monotone in them. -/
theorem Refines.operands {k : α → α → α → Except (DomainError α) α} (hl : Refines l l')
    (hr : Refines r r') (he : ∀ p, e.eval p = l.eval p >>= fun a => r.eval p >>= k p a)
    (he' : ∀ p, e'.eval p = l'.eval p >>= fun a => r'.eval p >>= k p a) : Refines e e' := by
  intro p v h
  rw [he] at h
  obtain ⟨a, ha, h⟩ := bind_eq_ok_iff.1 h
  obtain ⟨c, hc, h⟩ := bind_eq_ok_iff.1 h
  rw [he']
  exact bind_eq_ok_iff.2 ⟨a, hl p a ha, bind_eq_ok_iff.2 ⟨c, hr p c hc, h⟩⟩

theorem Refines.add (hl : Refines l l') (hr : Refines r r') :
    Refines (.add l r) (.add l' r') :=
  hl.operands hr (fun _ => rfl) fun _ => rfl

theorem Refines.sub (hl : Refines l l') (hr : Refines r r') :
    Refines (.sub l r) (.sub l' r') :=
  hl.operands hr (fun _ => rfl) fun _ => rfl

theorem Refines.mul (hl : Refines l l') (hr : Refines r r') :
    Refines (.mul l r) (.mul l' r') :=
  hl.operands hr (fun _ => rfl) fun _ => rfl

theorem Refines.div (hl : Refines l l') (hr : Refines r r') :
    Refines (.div l r) (.div l' r') :=
  hl.operands hr (fun _ => rfl) fun _ => rfl

theorem Refines.pow (hl : Refines l l') (hr : Refines r r') :
    Refines (.pow l r) (.pow l' r') :=
  hl.operands hr (fun _ => rfl) fun _ => rfl

theorem Refines.neg (hu : Refines u u') : Refines (.neg u) (.neg u') := by
  intro p v h
  obtain ⟨a, ha, hv⟩ := eval_neg_eq_ok_iff.1 h
  exact eval_neg_eq_ok_iff.2 ⟨a, hu p a ha, hv⟩

theorem Refines.apply (f : Elementary) (hu : Refines u u') :
    Refines (.apply f u) (.apply f u') := by
  intro p v h
  obtain ⟨a, ha, hv⟩ := eval_apply_eq_ok_iff.1 h
  exact eval_apply_eq_ok_iff.2 ⟨a, hu p a ha, hv⟩

end Refinement

/-! ### The rules -/

section Rules

variable {K : Type} [Field K] [LinearOrder K] [IsStrictOrderedRing K] [ExactScalar K]
variable {p v w c : K}

/-- A number has itself as its value, since every number is finite. -/
theorem eval_const_exact : (Formula.const v).eval p = .ok w ↔ v = w :=
  eval_const_eq_ok_iff.trans (and_iff_right rfl)

/-- A number that passes the test of a rule has the value that was tested for. -/
theorem value_of_beq (htest : (v == c) = true) (h : (Formula.const v).eval p = .ok w) :
    w = c :=
  (eval_const_exact.1 h).symm.trans (ExactScalar.beq_iff.1 htest)

theorem refines_joinAdd (l r : Formula K) : Refines (.add l r) (joinAdd l r) := by
  intro p v h
  obtain ⟨a, ha, c, hc, -, rfl⟩ := eval_add_eq_ok_iff.1 h
  unfold joinAdd
  split
  · -- two numbers
    rw [eval_const_exact] at ha hc ⊢
    rw [ha, hc]
  · split_ifs with hzero
    · rw [value_of_beq hzero ha, zero_add]
      exact hc
    · exact h
  · split_ifs with hzero
    · rw [value_of_beq hzero hc, add_zero]
      exact ha
    · exact h
  · exact h

theorem refines_joinSub (l r : Formula K) : Refines (.sub l r) (joinSub l r) := by
  intro p v h
  obtain ⟨a, ha, c, hc, -, rfl⟩ := eval_sub_eq_ok_iff.1 h
  unfold joinSub
  split
  · rw [eval_const_exact] at ha hc ⊢
    rw [ha, hc]
  · split_ifs with hzero
    · rw [value_of_beq hzero hc, sub_zero]
      exact ha
    · exact h
  · exact h

/-- A difference that becomes a negation has a zero to subtract from. -/
theorem refines_negation {l r : Formula K} (hzero : isNegation l r = true) :
    Refines (.sub l r) (.neg r) := by
  intro p v h
  obtain ⟨a, ha, c, hc, -, rfl⟩ := eval_sub_eq_ok_iff.1 h
  unfold isNegation at hzero
  split at hzero
  · cases hzero
  · refine eval_neg_eq_ok_iff.2 ⟨c, hc, rfl, ?_⟩
    rw [value_of_beq hzero ha, zero_sub]
  · cases hzero

theorem refines_joinMul (l r : Formula K) : Refines (.mul l r) (joinMul l r) := by
  intro p v h
  obtain ⟨a, ha, c, hc, -, rfl⟩ := eval_mul_eq_ok_iff.1 h
  unfold joinMul
  split
  · rw [eval_const_exact] at ha hc ⊢
    rw [ha, hc]
  · split_ifs with hzero hone hminus
    · rw [value_of_beq hzero ha, eval_const_exact, zero_mul]
    · rw [value_of_beq hone ha, one_mul]
      exact hc
    · refine eval_neg_eq_ok_iff.2 ⟨c, hc, rfl, ?_⟩
      rw [value_of_beq hminus ha, neg_one_mul]
    · exact h
  · split_ifs with hzero hone hminus
    · rw [value_of_beq hzero hc, eval_const_exact, mul_zero]
    · rw [value_of_beq hone hc, mul_one]
      exact ha
    · refine eval_neg_eq_ok_iff.2 ⟨a, ha, rfl, ?_⟩
      rw [value_of_beq hminus hc, mul_neg_one]
    · exact h
  · exact h

theorem refines_joinDiv (l r : Formula K) : Refines (.div l r) (joinDiv l r) := by
  intro p v h
  obtain ⟨a, ha, c, hc, -, -, rfl⟩ := eval_div_eq_ok_iff.1 h
  unfold joinDiv
  split
  · split_ifs
    · exact h
    · rw [eval_const_exact] at ha hc ⊢
      rw [ha, hc]
  · split_ifs with hzero
    · rw [value_of_beq hzero ha, eval_const_exact, zero_div]
    · exact h
  · split_ifs with hone
    · rw [value_of_beq hone hc, div_one]
      exact ha
    · exact h
  · exact h

theorem refines_joinPowConst (l : Formula K) (b : K) :
    Refines (.pow l (.const b)) (joinPowConst l b) := by
  intro p v h
  obtain ⟨a, ha, c, hc, -, hpower, -⟩ := eval_pow_eq_ok_iff.1 h
  unfold joinPowConst
  split_ifs with hzero hone
  · rw [value_of_beq hzero hc] at hpower
    rw [eval_const_exact]
    exact (ExactScalar.power_zero hpower).symm
  · rw [value_of_beq hone hc] at hpower
    rw [ExactScalar.power_one hpower]
    exact ha
  · exact h

theorem refines_joinPow (l r : Formula K) : Refines (.pow l r) (joinPow l r) := by
  intro p v h
  unfold joinPow
  split
  · split
    · -- the power that is folded is the value
      rename_i w hw
      obtain ⟨a, ha, c, hc, -, hpower, -⟩ := eval_pow_eq_ok_iff.1 h
      rw [eval_const_exact] at ha hc ⊢
      obtain ⟨hfolded, -⟩ := Option.filter_eq_some_iff.1 hw
      rw [ha, hc, hpower] at hfolded
      exact (Option.some.inj hfolded).symm
    · exact refines_joinPowConst _ _ p v h
  · exact refines_joinPowConst _ _ p v h
  · exact h

theorem refines_joinNeg (u : Formula K) : Refines (.neg u) (joinNeg u) := by
  intro p v h
  obtain ⟨a, ha, -, rfl⟩ := eval_neg_eq_ok_iff.1 h
  unfold joinNeg
  split
  · rw [eval_const_exact] at ha ⊢
    rw [ha]
  · obtain ⟨b, hb, -, rfl⟩ := eval_neg_eq_ok_iff.1 ha
    rw [hb, neg_neg]
  · exact h

theorem refines_joinApply (f : Elementary) (u : Formula K) :
    Refines (.apply f u) (joinApply f u) := by
  intro p v h
  unfold joinApply
  split
  · split
    · -- the value does not depend on the point that a failure is reported at
      rename_i w hw
      obtain ⟨a, ha, -, hvalue, -⟩ := eval_apply_eq_ok_iff.1 h
      obtain ⟨-, hfolded⟩ := Elementary.evalAt_eq_ok_iff.1 hw
      rw [eval_const_exact] at ha ⊢
      rw [← hfolded, ← hvalue, ha]
    · exact h
  · exact h

end Rules

/-! ### The recursion -/

section Equations

variable {α : Type} [Scalar α] (l r u : Formula α)

attribute [local simp] simplify simplified

@[simp] theorem simplify_var (n : String) : (Formula.var n : Formula α).simplify = .var n := by
  simp

@[simp] theorem simplify_const (v : α) : (Formula.const v).simplify = .const v := by
  simp

theorem simplify_add : (Formula.add l r).simplify = joinAdd l.simplify r.simplify := by
  simp

theorem simplify_sub :
    (Formula.sub l r).simplify =
      if isNegation l.simplify r.simplify then (Formula.neg r.simplify).simplify
      else joinSub l.simplify r.simplify := by
  rw [simplify, simplified]
  exact apply_ite Subtype.val _ _ _

theorem simplify_mul : (Formula.mul l r).simplify = joinMul l.simplify r.simplify := by
  simp

theorem simplify_div : (Formula.div l r).simplify = joinDiv l.simplify r.simplify := by
  simp

theorem simplify_pow : (Formula.pow l r).simplify = joinPow l.simplify r.simplify := by
  simp

theorem simplify_neg : (Formula.neg u).simplify = joinNeg u.simplify := by
  simp

theorem simplify_apply (f : Elementary) :
    (Formula.apply f u).simplify = joinApply f u.simplify := by
  simp

theorem nodes_simplify_le (e : Formula α) : e.simplify.nodes ≤ e.nodes := (simplified e).2

end Equations

section Recursion

variable {K : Type} [Field K] [LinearOrder K] [IsStrictOrderedRing K] [ExactScalar K]

theorem refines_simplify (e : Formula K) : Refines e e.simplify := by
  induction hn : e.nodes using Nat.strong_induction_on generalizing e with
  | _ n ih =>
    subst hn
    have below : ∀ s : Formula K, s.nodes < e.nodes → Refines s s.simplify := by
      intro s hs
      exact ih s.nodes hs s rfl
    cases e with
    | var x =>
      rw [simplify_var]
      exact Refines.refl _
    | const v =>
      rw [simplify_const]
      exact Refines.refl _
    | add l r =>
      simp only [nodes] at below
      rw [simplify_add]
      have hl := below l (by omega)
      have hr := below r (by omega)
      exact (hl.add hr).trans (refines_joinAdd _ _)
    | sub l r =>
      simp only [nodes] at below
      rw [simplify_sub]
      have hl := below l (by omega)
      have hr := below r (by omega)
      apply (hl.sub hr).trans
      split
      · -- the negation of the simple operand is smaller than the difference
        rename_i hzero
        have hlt : (Formula.neg r.simplify).nodes < l.nodes + r.nodes + 1 := by
          have := nodes_simplify_le r
          have := nodes_pos l
          simp only [nodes]
          omega
        exact (refines_negation hzero).trans (below _ hlt)
      · exact refines_joinSub _ _
    | mul l r =>
      simp only [nodes] at below
      rw [simplify_mul]
      have hl := below l (by omega)
      have hr := below r (by omega)
      exact (hl.mul hr).trans (refines_joinMul _ _)
    | div l r =>
      simp only [nodes] at below
      rw [simplify_div]
      have hl := below l (by omega)
      have hr := below r (by omega)
      exact (hl.div hr).trans (refines_joinDiv _ _)
    | pow l r =>
      simp only [nodes] at below
      rw [simplify_pow]
      have hl := below l (by omega)
      have hr := below r (by omega)
      exact (hl.pow hr).trans (refines_joinPow _ _)
    | neg u =>
      simp only [nodes] at below
      rw [simplify_neg]
      have hu := below u (by omega)
      exact hu.neg.trans (refines_joinNeg _)
    | apply f u =>
      simp only [nodes] at below
      rw [simplify_apply]
      have hu := below u (by omega)
      exact (hu.apply f).trans (refines_joinApply f _)

/-- A value of a formula is the value of its simple form, and a value of the derivative as
    the rules give it is the value of the simplified derivative. -/
theorem eval_simplify (e : Formula K) {p v : K} :
    (e.eval p = .ok v → e.simplify.eval p = .ok v) ∧
      ((e.derivative "x").eval p = .ok v → e.differentiate.eval p = .ok v) := by
  constructor
  · intro h
    exact refines_simplify e p v h
  · intro h
    exact refines_simplify (e.derivative "x") p v h

/-- A difference that becomes a negation, and a power that loses its exponent. -/
theorem eval_simplify_negated_ln :
    let e : Formula ℝ := .sub (.const 0) (.pow (.apply .ln (.var "x")) (.const 1))
    (e.eval 2 = .ok (-Real.log 2) ∧ e.simplify.eval 2 = .ok (-Real.log 2)) ∧
      (e.derivative "x").eval 2 = .ok (-(1 / 2)) ∧ e.differentiate.eval 2 = .ok (-(1 / 2)) := by
  intro e
  have hconst : ∀ c : ℝ, (Formula.const c).eval (2 : ℝ) = .ok c := by
    intro c
    exact eval_const_eq_ok_iff.2 ⟨rfl, rfl⟩
  have hln : (Formula.apply .ln (.var "x") : Formula ℝ).eval 2 = .ok (Real.log 2) := by
    refine eval_apply_eq_ok_iff.2 ⟨2, rfl, ?_, rfl, rfl⟩
    exact decide_eq_false (by norm_num)
  have hpower : ∀ {s : Formula ℝ} {c : ℝ}, s.eval 2 = .ok c → 0 ≤ c →
      (Formula.pow (.apply .ln (.var "x")) s).eval 2 = .ok (Real.log 2 ^ c) := by
    intro s c hs hc
    refine eval_pow_eq_ok_iff.2 ⟨Real.log 2, hln, c, hs, ?_, ?_, rfl⟩
    · rw [Bool.and_eq_false_iff]
      exact .inr (decide_eq_false (not_lt.2 hc))
    · exact RealNumber.power_eq_some_iff.2 ⟨.inl (Real.log_pos one_lt_two), rfl⟩
  have he : e.eval 2 = .ok (-Real.log 2) := by
    refine eval_sub_eq_ok_iff.2 ⟨0, rfl, _, hpower (hconst 1) zero_le_one, rfl, ?_⟩
    rw [Real.rpow_one, zero_sub]
  have hd : (e.derivative "x").eval 2 = .ok (-(1 / 2)) := by
    have hexponent : (Formula.sub (.const 1) (.const 1) : Formula ℝ).eval 2 = .ok 0 :=
      eval_sub_eq_ok_iff.2 ⟨1, hconst 1, 1, hconst 1, rfl, sub_self 1⟩
    have houter := eval_mul_eq_ok_iff.2 ⟨1, hconst 1, _, hpower hexponent le_rfl, rfl, rfl⟩
    have hquotient : (Formula.div (.const 1) (.var "x") : Formula ℝ).eval 2 = .ok (1 / 2) := by
      refine eval_div_eq_ok_iff.2 ⟨1, hconst 1, 2, rfl, ?_, rfl, rfl⟩
      exact decide_eq_false two_ne_zero
    have hinner := eval_mul_eq_ok_iff.2 ⟨1 / 2, hquotient, 1, hconst 1, rfl, rfl⟩
    have hproduct := eval_mul_eq_ok_iff.2 ⟨_, houter, _, hinner, rfl, rfl⟩
    refine eval_sub_eq_ok_iff.2 ⟨0, rfl, _, hproduct, rfl, ?_⟩
    rw [Real.rpow_zero]
    norm_num
  have h := fun v => @eval_simplify ℝ _ _ _ RealNumber.exactScalar e 2 v
  exact ⟨⟨he, (h _).1 he⟩, hd, (h _).2 hd⟩

end Recursion

end NumericMethods.Formula
