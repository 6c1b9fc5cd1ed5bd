/-
  NumericMethods/Proofs/Formula/RealDerivative.lean
  =================================================
  **The derivative of a formula is the derivative of its value.**

  Over the real numbers a formula stands for a function that need not be defined
  everywhere.  Where the formula has a value around a point and the formula
  `Formula.derivative` has a value at the point, the function is differentiable there with
  that derivative (`hasDerivAt_of_eval`).

  The proof is an induction on the formula.  No side condition of a rule of calculus is
  assumed: each of them follows from the fact that the derivative has a value.  A quotient
  `1 / sqrt (1 - u ^ 2)`, for instance, has none where `u` is `1` or `-1`.
-/
import Mathlib
import NumericMethods.Formula.Derivative
import NumericMethods.Proofs.Formula.Evaluation
import NumericMethods.Proofs.Scalar.Real

namespace NumericMethods.Formula

open RealNumber (PowerDefined)
open Filter Topology

variable {l r u b e : Formula ℝ} {x₀ t v w a c d : ℝ}

/-! ### Values over the real numbers

Every real number is finite, so a formula fails only where one of its operations is
undefined. -/

/-- The value of a formula at a point, zero where it has none. -/
noncomputable def value (e : Formula ℝ) (t : ℝ) : ℝ :=
  match e.eval t with
  | .ok v => v
  | .error _ => 0

theorem value_eq (h : e.eval t = .ok v) : e.value t = v := by
  rw [value, h]

theorem eval_eq_value (h : e.eval t = .ok v) : e.eval t = .ok (e.value t) := by
  rw [value_eq h, h]

theorem eval_const_real : (Formula.const v).eval t = .ok w ↔ v = w :=
  eval_const_eq_ok_iff.trans ⟨And.right, fun h => ⟨rfl, h⟩⟩

theorem eval_add_real (h : (Formula.add l r).eval t = .ok w) :
    l.eval t = .ok (l.value t) ∧ r.eval t = .ok (r.value t) ∧ w = l.value t + r.value t := by
  obtain ⟨a, ha, c, hc, -, rfl⟩ := eval_add_eq_ok_iff.1 h
  exact ⟨eval_eq_value ha, eval_eq_value hc, by rw [value_eq ha, value_eq hc]⟩

theorem eval_sub_real (h : (Formula.sub l r).eval t = .ok w) :
    l.eval t = .ok (l.value t) ∧ r.eval t = .ok (r.value t) ∧ w = l.value t - r.value t := by
  obtain ⟨a, ha, c, hc, -, rfl⟩ := eval_sub_eq_ok_iff.1 h
  exact ⟨eval_eq_value ha, eval_eq_value hc, by rw [value_eq ha, value_eq hc]⟩

theorem eval_mul_real (h : (Formula.mul l r).eval t = .ok w) :
    l.eval t = .ok (l.value t) ∧ r.eval t = .ok (r.value t) ∧ w = l.value t * r.value t := by
  obtain ⟨a, ha, c, hc, -, rfl⟩ := eval_mul_eq_ok_iff.1 h
  exact ⟨eval_eq_value ha, eval_eq_value hc, by rw [value_eq ha, value_eq hc]⟩

theorem eval_div_real (h : (Formula.div l r).eval t = .ok w) :
    l.eval t = .ok (l.value t) ∧ r.eval t = .ok (r.value t) ∧ r.value t ≠ 0 ∧
      w = l.value t / r.value t := by
  obtain ⟨a, ha, c, hc, hne, -, rfl⟩ := eval_div_eq_ok_iff.1 h
  refine ⟨eval_eq_value ha, eval_eq_value hc, ?_, by rw [value_eq ha, value_eq hc]⟩
  rw [value_eq hc]
  intro hzero
  rw [RealNumber.beq_iff.2 hzero] at hne
  cases hne

theorem eval_pow_real (h : (Formula.pow l r).eval t = .ok w) :
    l.eval t = .ok (l.value t) ∧ r.eval t = .ok (r.value t) ∧
      PowerDefined (l.value t) (r.value t) ∧ w = l.value t ^ r.value t := by
  obtain ⟨a, ha, c, hc, -, hpower, -⟩ := eval_pow_eq_ok_iff.1 h
  obtain ⟨hdefined, rfl⟩ := RealNumber.power_eq_some_iff.1 hpower
  rw [value_eq ha, value_eq hc]
  exact ⟨ha, hc, hdefined, rfl⟩

theorem eval_neg_real (h : (Formula.neg u).eval t = .ok w) :
    u.eval t = .ok (u.value t) ∧ w = -u.value t := by
  obtain ⟨a, ha, -, rfl⟩ := eval_neg_eq_ok_iff.1 h
  exact ⟨eval_eq_value ha, by rw [value_eq ha]⟩

theorem eval_apply_real {f : Elementary} (h : (Formula.apply f u).eval t = .ok w) :
    u.eval t = .ok (u.value t) ∧ f.undefinedAt (u.value t) = false ∧
      w = RealNumber.elementary f (u.value t) := by
  obtain ⟨a, ha, hdefined, hw, -⟩ := eval_apply_eq_ok_iff.1 h
  rw [value_eq ha]
  exact ⟨ha, hdefined, hw.symm⟩

/-- The square of a formula has the square as its value. -/
theorem eval_square (h : (Formula.pow u (.const (Scalar.ofNat 2))).eval t = .ok w) :
    u.eval t = .ok (u.value t) ∧ w = u.value t ^ 2 := by
  obtain ⟨hu, htwo, -, rfl⟩ := eval_pow_real h
  rw [← eval_const_real.1 htwo, RealNumber.ofNat_eq]
  exact ⟨hu, Real.rpow_natCast _ 2⟩

/-- The root of `1 - u ^ 2`, where it is not zero. -/
theorem eval_root_one_sub_square
    (h : (Formula.apply .sqrt
      (.sub (.const 1) (.pow u (.const (Scalar.ofNat 2))))).eval t = .ok w) (hne : w ≠ 0) :
    w = √(1 - u.value t ^ 2) ∧ u.value t ≠ -1 ∧ u.value t ≠ 1 := by
  obtain ⟨hdifference, -, hroot⟩ := eval_apply_real h
  obtain ⟨hone, hsquare, hvalue⟩ := eval_sub_real hdifference
  obtain ⟨-, hvalue'⟩ := eval_square hsquare
  have hw : w = √(1 - u.value t ^ 2) := by
    rw [hroot, hvalue, hvalue', ← eval_const_real.1 hone]
    rfl
  refine ⟨hw, ?_, ?_⟩
  · intro hu
    apply hne
    rw [hw, hu]
    norm_num
  · intro hu
    apply hne
    rw [hw, hu]
    norm_num

/-! ### The elementary functions -/

/-- Where the formula for the derivative of an elementary function has a value, the function
    has that derivative. -/
theorem hasDerivAt_elementary {f : Elementary} (hdefined : f.undefinedAt (u.value t) = false)
    (h : (f.derivative u).eval t = .ok d) :
    HasDerivAt (RealNumber.elementary f) d (u.value t) := by
  cases f with
  | exp =>
    obtain ⟨-, -, rfl⟩ := eval_apply_real h
    exact Real.hasDerivAt_exp _
  | ln =>
    obtain ⟨hone, -, hne, rfl⟩ := eval_div_real h
    rw [← eval_const_real.1 hone, one_div]
    exact Real.hasDerivAt_log hne
  | sin =>
    obtain ⟨-, -, rfl⟩ := eval_apply_real h
    exact Real.hasDerivAt_sin _
  | cos =>
    obtain ⟨hsin, rfl⟩ := eval_neg_real h
    obtain ⟨-, -, hvalue⟩ := eval_apply_real hsin
    rw [hvalue]
    exact Real.hasDerivAt_cos _
  | tan =>
    obtain ⟨hone, hsquare, hne, rfl⟩ := eval_div_real h
    obtain ⟨hcos, hvalue⟩ := eval_square hsquare
    obtain ⟨-, -, hcosine⟩ := eval_apply_real hcos
    rw [hvalue, hcosine] at hne ⊢
    rw [← eval_const_real.1 hone]
    exact Real.hasDerivAt_tan (pow_ne_zero_iff two_ne_zero |>.1 hne)
  | sqrt =>
    obtain ⟨hone, hproduct, hne, rfl⟩ := eval_div_real h
    obtain ⟨htwo, hsqrt, hvalue⟩ := eval_mul_real hproduct
    obtain ⟨-, -, hroot⟩ := eval_apply_real hsqrt
    have htwo' : (2 : ℝ) = (Formula.const (Scalar.ofNat 2)).value t := by
      rw [← eval_const_real.1 htwo, RealNumber.ofNat_eq]
      rfl
    rw [hvalue, hroot, ← htwo'] at hne ⊢
    rw [← eval_const_real.1 hone]
    refine Real.hasDerivAt_sqrt fun hzero => hne ?_
    rw [hzero]
    simp [RealNumber.elementary]
  | asin =>
    obtain ⟨hone, hroot, hne, rfl⟩ := eval_div_real h
    obtain ⟨hvalue, hminus, hplus⟩ := eval_root_one_sub_square hroot hne
    rw [hvalue, ← eval_const_real.1 hone]
    exact Real.hasDerivAt_arcsin hminus hplus
  | acos =>
    obtain ⟨hone, hroot, hne, rfl⟩ := eval_div_real h
    obtain ⟨hvalue, hminus, hplus⟩ := eval_root_one_sub_square hroot hne
    rw [hvalue, ← eval_const_real.1 hone]
    exact (Real.hasDerivAt_arccos hminus hplus).congr_deriv (neg_div' _ _)
  | atan =>
    obtain ⟨hone, hsum, -, rfl⟩ := eval_div_real h
    obtain ⟨-, hsquare, hvalue⟩ := eval_add_real hsum
    obtain ⟨-, hvalue'⟩ := eval_square hsquare
    rw [hvalue, hvalue', ← eval_const_real.1 hone]
    exact Real.hasDerivAt_arctan _

/-! ### Powers -/

/-- The power rule, for an exponent that does not depend on the point. -/
theorem hasDerivAt_pow_const {f : ℝ → ℝ} (hf : HasDerivAt f d x₀)
    (hdefined : PowerDefined (f x₀) (c - 1)) :
    HasDerivAt (fun t => f t ^ c) (c * f x₀ ^ (c - 1) * d) x₀ := by
  have hside : f x₀ ≠ 0 ∨ 1 ≤ c := by
    rcases hdefined with hpos | ⟨-, hexponent⟩ | ⟨hneg, -⟩
    · exact .inl hpos.ne'
    · exact .inr (by linarith)
    · exact .inl hneg.ne
  exact (hf.rpow_const hside).congr_deriv (by ring)

/-- The general rule, for a positive base. -/
theorem hasDerivAt_pow_general {f g : ℝ → ℝ} {d' : ℝ} (hf : HasDerivAt f d x₀)
    (hg : HasDerivAt g d' x₀) (hpos : 0 < f x₀) :
    HasDerivAt (fun t => f t ^ g t)
      (f x₀ ^ g x₀ * (d' * Real.log (f x₀) + g x₀ * d / f x₀)) x₀ := by
  refine (hf.rpow hg hpos).congr_deriv ?_
  rw [Real.rpow_sub_one hpos.ne']
  field_simp
  ring

/-- A logarithm is defined for positive arguments only. -/
theorem pos_of_eval_ln (h : (Formula.apply .ln u).eval t = .ok w) :
    0 < u.value t ∧ w = Real.log (u.value t) := by
  obtain ⟨-, hdefined, hvalue⟩ := eval_apply_real h
  exact ⟨lt_of_not_ge (of_decide_eq_false hdefined), hvalue⟩

/-! ### The derivative -/

/-- A formula that is constant around the point has the derivative zero. -/
theorem hasDerivAt_value_of_constant (he : e.occurrences = []) (h : e.eval x₀ = .ok v) :
    HasDerivAt e.value 0 x₀ := by
  have hconst : e.value = fun _ => v := by
    funext t
    exact value_eq (eval_of_occurrences_nil he h)
  rw [hconst]
  exact hasDerivAt_const x₀ v

theorem hasDerivAt_pow {f : ℝ → ℝ} (hx : ∀ v ∈ (Formula.pow b e).occurrences, v = "x")
    (ihb : ∀ {d}, (b.derivative "x").eval x₀ = .ok d → HasDerivAt b.value d x₀)
    (ihe : ∀ {d}, (e.derivative "x").eval x₀ = .ok d → HasDerivAt e.value d x₀)
    (hf : ∀ᶠ t in 𝓝 x₀, (Formula.pow b e).eval t = .ok (f t))
    (hd : ((Formula.pow b e).derivative "x").eval x₀ = .ok d) : HasDerivAt f d x₀ := by
  have hpower : f =ᶠ[𝓝 x₀] fun t => b.value t ^ e.value t :=
    hf.mono fun t ht => (eval_pow_real ht).2.2.2
  obtain ⟨hb₀, he₀, -, -⟩ := eval_pow_real hf.self_of_nhds
  simp only [occurrences, List.forall_mem_append] at hx
  simp only [derivative] at hd
  split at hd
  · split at hd
    · -- base and exponent depend on the point
      obtain ⟨hpow, hsum, rfl⟩ := eval_mul_real hd
      obtain ⟨-, -, -, hvalue⟩ := eval_pow_real hpow
      obtain ⟨hproduct, hquotient, hsum⟩ := eval_add_real hsum
      obtain ⟨he', hln, hproduct⟩ := eval_mul_real hproduct
      obtain ⟨hnumerator, -, -, hquotient⟩ := eval_div_real hquotient
      obtain ⟨-, hb', hnumerator⟩ := eval_mul_real hnumerator
      obtain ⟨hpos, hlog⟩ := pos_of_eval_ln hln
      rw [hvalue, hsum, hproduct, hquotient, hnumerator, hlog]
      exact (hasDerivAt_pow_general (ihb hb') (ihe he') hpos).congr_of_eventuallyEq hpower
    · -- only the exponent depends on the point
      rename_i hb
      obtain ⟨hproduct, he', rfl⟩ := eval_mul_real hd
      obtain ⟨hpow, hln, hproduct⟩ := eval_mul_real hproduct
      obtain ⟨-, -, -, hvalue⟩ := eval_pow_real hpow
      obtain ⟨hpos, hlog⟩ := pos_of_eval_ln hln
      have hbase := hasDerivAt_value_of_constant (occurrences_eq_nil hx.1 hb) hb₀
      have hgeneral := hasDerivAt_pow_general hbase (ihe he') hpos
      refine (hgeneral.congr_of_eventuallyEq hpower).congr_deriv ?_
      rw [hproduct, hvalue, hlog]
      ring
  · -- the exponent is a number
    rename_i he
    obtain ⟨hproduct, hb', rfl⟩ := eval_mul_real hd
    obtain ⟨-, hpow, hproduct⟩ := eval_mul_real hproduct
    obtain ⟨-, hsub, hdefined, hvalue⟩ := eval_pow_real hpow
    obtain ⟨-, hone, hexponent⟩ := eval_sub_real hsub
    have hconst : ∀ t, e.value t = e.value x₀ := fun t =>
      value_eq (eval_of_occurrences_nil (occurrences_eq_nil hx.2 he) he₀)
    rw [hexponent, ← eval_const_real.1 hone] at hdefined hvalue
    rw [hproduct, hvalue]
    refine (hasDerivAt_pow_const (ihb hb') hdefined).congr_of_eventuallyEq ?_
    exact hpower.trans (.of_forall fun t => congrArg (b.value t ^ ·) (hconst t))

/-- Where a formula in `x` has values around a point and the derivative has one at the
    point, the value is differentiable there with that derivative. -/
theorem hasDerivAt_of_eventually {f : ℝ → ℝ} (hx : ∀ v ∈ e.occurrences, v = "x")
    (hf : ∀ᶠ t in 𝓝 x₀, e.eval t = .ok (f t))
    (hd : (e.derivative "x").eval x₀ = .ok d) : HasDerivAt f d x₀ := by
  induction e generalizing f d with
  | var n =>
    obtain rfl : n = "x" := hx n (List.mem_singleton.2 rfl)
    obtain rfl : 1 = d := eval_const_real.1 hd
    refine (hasDerivAt_id x₀).congr_of_eventuallyEq (hf.mono fun t ht => ?_)
    exact (eval_var_eq_ok_iff.1 ht).2.symm
  | const v =>
    obtain rfl : 0 = d := eval_const_real.1 hd
    refine (hasDerivAt_const x₀ v).congr_of_eventuallyEq (hf.mono fun t ht => ?_)
    exact (eval_const_real.1 ht).symm
  | add l r ihl ihr =>
    simp only [occurrences, List.forall_mem_append] at hx
    obtain ⟨hl, hr, rfl⟩ := eval_add_real hd
    have hl' := ihl hx.1 (hf.mono fun t ht => (eval_add_real ht).1) hl
    have hr' := ihr hx.2 (hf.mono fun t ht => (eval_add_real ht).2.1) hr
    exact (hl'.add hr').congr_of_eventuallyEq (hf.mono fun t ht => (eval_add_real ht).2.2)
  | sub l r ihl ihr =>
    simp only [occurrences, List.forall_mem_append] at hx
    obtain ⟨hl, hr, rfl⟩ := eval_sub_real hd
    have hl' := ihl hx.1 (hf.mono fun t ht => (eval_sub_real ht).1) hl
    have hr' := ihr hx.2 (hf.mono fun t ht => (eval_sub_real ht).2.1) hr
    exact (hl'.sub hr').congr_of_eventuallyEq (hf.mono fun t ht => (eval_sub_real ht).2.2)
  | mul l r ihl ihr =>
    simp only [occurrences, List.forall_mem_append] at hx
    obtain ⟨hleft, hright, rfl⟩ := eval_add_real hd
    obtain ⟨hl, -, hleft⟩ := eval_mul_real hleft
    obtain ⟨-, hr, hright⟩ := eval_mul_real hright
    have hl' := ihl hx.1 (hf.mono fun t ht => (eval_mul_real ht).1) hl
    have hr' := ihr hx.2 (hf.mono fun t ht => (eval_mul_real ht).2.1) hr
    rw [hleft, hright]
    exact (hl'.mul hr').congr_of_eventuallyEq (hf.mono fun t ht => (eval_mul_real ht).2.2)
  | div l r ihl ihr =>
    simp only [occurrences, List.forall_mem_append] at hx
    obtain ⟨-, -, hne, -⟩ := eval_div_real hf.self_of_nhds
    obtain ⟨hnumerator, hsquare, -, rfl⟩ := eval_div_real hd
    obtain ⟨hleft, hright, hnumerator⟩ := eval_sub_real hnumerator
    obtain ⟨hl, -, hleft⟩ := eval_mul_real hleft
    obtain ⟨-, hr, hright⟩ := eval_mul_real hright
    obtain ⟨-, hsquare⟩ := eval_square hsquare
    have hl' := ihl hx.1 (hf.mono fun t ht => (eval_div_real ht).1) hl
    have hr' := ihr hx.2 (hf.mono fun t ht => (eval_div_real ht).2.1) hr
    rw [hnumerator, hleft, hright, hsquare]
    exact (hl'.div hr' hne).congr_of_eventuallyEq
      (hf.mono fun t ht => (eval_div_real ht).2.2.2)
  | pow b e ihb ihe =>
    have hx' := hx
    simp only [occurrences, List.forall_mem_append] at hx'
    have hb := fun d => ihb (d := d) hx'.1 (hf.mono fun t ht => (eval_pow_real ht).1)
    have he := fun d => ihe (d := d) hx'.2 (hf.mono fun t ht => (eval_pow_real ht).2.1)
    exact hasDerivAt_pow hx (hb _) (he _) hf hd
  | neg u ih =>
    obtain ⟨hu, rfl⟩ := eval_neg_real hd
    have hu' := ih hx (hf.mono fun t ht => (eval_neg_real ht).1) hu
    exact hu'.neg.congr_of_eventuallyEq (hf.mono fun t ht => (eval_neg_real ht).2)
  | apply g u ih =>
    obtain ⟨houter, hinner, rfl⟩ := eval_mul_real hd
    have hu := ih hx (hf.mono fun t ht => (eval_apply_real ht).1) hinner
    have hdefined := (eval_apply_real hf.self_of_nhds).2.1
    have hg := hasDerivAt_elementary hdefined houter
    exact (hg.comp x₀ hu).congr_of_eventuallyEq (hf.mono fun t ht => (eval_apply_real ht).2.2)

/-- A formula in `x` that has values on an open interval is differentiable at each point of
    it where `Formula.derivative` has a value, and that value is the derivative. -/
theorem hasDerivAt_of_eval (e : Formula ℝ) (hx : ∀ v ∈ e.occurrences, v = "x")
    {x₀ x₁ x₂ d : ℝ} {f : ℝ → ℝ} (hmem : x₀ ∈ Set.Ioo x₁ x₂)
    (hf : ∀ t ∈ Set.Ioo x₁ x₂, e.eval t = .ok (f t))
    (hd : (e.derivative "x").eval x₀ = .ok d) : HasDerivAt f d x₀ := by
  have hnear : ∀ᶠ t in 𝓝 x₀, t ∈ Set.Ioo x₁ x₂ := Ioo_mem_nhds hmem.1 hmem.2
  exact hasDerivAt_of_eventually hx (hnear.mono hf) hd

/-- The logarithm at two. -/
theorem hasDerivAt_of_eval_ln :
    let e : Formula ℝ := .apply .ln (.var "x")
    (e.derivative "x").eval 2 = .ok (1 / 2) ∧ HasDerivAt Real.log (1 / 2) 2 := by
  intro e
  have hquotient : (Formula.div (.const 1) (.var "x") : Formula ℝ).eval 2 = .ok (1 / 2) := by
    refine eval_div_eq_ok_iff.2 ⟨1, rfl, 2, rfl, ?_, rfl, rfl⟩
    exact decide_eq_false two_ne_zero
  have hd : (e.derivative "x").eval 2 = .ok (1 / 2) :=
    eval_mul_eq_ok_iff.2 ⟨1 / 2, hquotient, 1, rfl, rfl, mul_one _⟩
  have hmem : (2 : ℝ) ∈ Set.Ioo 1 3 := ⟨by norm_num, by norm_num⟩
  refine ⟨hd, hasDerivAt_of_eval e (by simp [e, occurrences]) hmem ?_ hd⟩
  intro t ht
  have hpos : ¬ t ≤ 0 := by linarith [ht.1]
  exact eval_apply_eq_ok_iff.2 ⟨t, rfl, decide_eq_false hpos, rfl, rfl⟩

end NumericMethods.Formula
