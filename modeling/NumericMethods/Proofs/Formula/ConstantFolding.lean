/-
  NumericMethods/Proofs/Formula/ConstantFolding.lean
  ==================================================
  **Folding a formula without variables is evaluating it.**

  Simplification and evaluation are two recursions with guards of their own: evaluation looks
  at the value of every operation, simplification only at powers, zero denominators and the
  domains of functions.  Where a formula without variables has a value, every guard of
  evaluation has been passed, and then the rule of each operation folds its numbers to the
  same value (`simplify_eq_const_of_eval`).  No law of the arithmetic is needed.

  For each operation, `simplify_add_eq_const_iff` and its siblings say when its simple form is
  a number, and which one: it comes from two numbers, or a rule has dropped an operand.
-/
import NumericMethods.Proofs.Formula.Leaves

namespace NumericMethods.Formula

variable {α : Type} [Scalar α] {l r u e : Formula α} {f : Elementary} {p v : α}

/-! ### Which simple forms are numbers -/

theorem finitePower?_eq_some_iff {a c w : α} :
    finitePower? a c = some w ↔ Scalar.power a c = some w ∧ Scalar.isFinite w = true :=
  Option.filter_eq_some_iff

/-- The first operand becomes zero, and the second one is kept. -/
def ZeroBeside (l r : Formula α) : Prop :=
  ∃ a, l.simplify = .const a ∧ (a == 0) = true ∧ r.simplify.constant? = none

theorem simplify_add_eq_const_iff :
    (Formula.add l r).simplify = .const v ↔
      ∃ a c, l.simplify = .const a ∧ r.simplify = .const c ∧ a + c = v := by
  rw [simplify_add]
  constructor
  · intro hv
    obtain ⟨a, c, hl, hr, h⟩ | ⟨a, -, -, hr, h⟩ | ⟨c, -, -, hl, h⟩ | ⟨-, -, h⟩ :=
      joinAdd_cases l.simplify r.simplify
    all_goals rw [h] at hv
    · cases hv
      exact ⟨a, c, hl, hr, rfl⟩
    · rw [hv] at hr
      cases hr
    · rw [hv] at hl
      cases hl
    · cases hv
  · rintro ⟨a, c, hl, hr, rfl⟩
    rw [hl, hr]
    rfl

/-- A negation of a simple operand that is no number is none either. -/
theorem joinNeg_ne_const (hu : u.IsSimple) (hnumber : u.constant? = none) :
    joinNeg u ≠ .const v := by
  intro h
  obtain ⟨a, rfl, -⟩ | ⟨w, rfl, hw⟩ | ⟨-, -, hw⟩ := joinNeg_cases u
  · cases hnumber
  · rw [hw] at h
    subst h
    cases hu with
    | neg _ hnone => cases hnone
  · rw [hw] at h
    cases h

theorem simplify_sub_eq_const_iff :
    (Formula.sub l r).simplify = .const v ↔
      ∃ a c, l.simplify = .const a ∧ r.simplify = .const c ∧ a - c = v := by
  constructor
  · intro hv
    rw [simplify_sub_eq] at hv
    split at hv
    · rename_i hsign
      obtain ⟨-, -, -, hr⟩ := isNegation_iff.1 hsign
      have hsimple := (isSimple_simplify r).cancelled
      exact absurd hv (joinNeg_ne_const hsimple.1 (hsimple.2.trans hr))
    · obtain ⟨a, c, hl, hr, h⟩ | ⟨c, -, -, hl, h⟩ | ⟨-, -, h⟩ :=
        joinSub_cases l.simplify r.simplify
      all_goals rw [h] at hv
      · cases hv
        exact ⟨a, c, hl, hr, rfl⟩
      · rw [hv] at hl
        cases hl
      · cases hv
  · rintro ⟨a, c, hl, hr, rfl⟩
    rw [simplify_sub, hl, hr]
    rfl

theorem joinMul_zero {a : α} (ha : (a == 0) = true) (hu : u.constant? = none) :
    joinMul (.const a) u = .const 0 ∧ joinMul u (.const a) = .const 0 := by
  cases u <;> simp_all [joinMul, constant?]

theorem simplify_mul_eq_const_iff :
    (Formula.mul l r).simplify = .const v ↔
      (∃ a c, l.simplify = .const a ∧ r.simplify = .const c ∧ a * c = v) ∨
        (ZeroBeside l r ∨ ZeroBeside r l) ∧ v = 0 := by
  rw [simplify_mul]
  constructor
  · intro hv
    obtain ⟨a, c, hl, hr, h⟩ | ⟨a, u, hu, hnumber, hrule⟩ | ⟨-, -, h⟩ :=
      joinMul_cases l.simplify r.simplify
    · rw [h] at hv
      cases hv
      exact .inl ⟨a, c, hl, hr, rfl⟩
    · rcases hrule with ⟨ha, h⟩ | ⟨-, h⟩ | ⟨-, h⟩
      all_goals rw [h] at hv
      · cases hv
        rcases hu with ⟨hl, rfl⟩ | ⟨rfl, hr⟩
        · exact .inr ⟨.inl ⟨a, hl, ha, hnumber⟩, rfl⟩
        · exact .inr ⟨.inr ⟨a, hr, ha, hnumber⟩, rfl⟩
      · rw [hv] at hnumber
        cases hnumber
      · cases hv
    · rw [h] at hv
      cases hv
  · rintro (⟨a, c, hl, hr, rfl⟩ | ⟨⟨a, hl, ha, hr⟩ | ⟨a, hr, ha, hl⟩, rfl⟩)
    · rw [hl, hr]
      rfl
    · rw [hl]
      exact (joinMul_zero ha hr).1
    · rw [hr]
      exact (joinMul_zero ha hl).2

theorem joinDiv_zero {a : α} (ha : (a == 0) = true) (hu : u.constant? = none) :
    joinDiv (.const a) u = .const 0 := by
  cases u <;> simp_all [joinDiv, constant?]

theorem simplify_div_eq_const_iff :
    (Formula.div l r).simplify = .const v ↔
      (∃ a c, l.simplify = .const a ∧ r.simplify = .const c ∧ (c == 0) = false ∧ a / c = v) ∨
        ZeroBeside l r ∧ v = 0 := by
  rw [simplify_div]
  constructor
  · intro hv
    obtain ⟨a, c, hl, hr, hc, h⟩ | ⟨a, hl, ha, hr, h⟩ | ⟨c, -, -, hl, h⟩ | ⟨-, -, -, h⟩ :=
      joinDiv_cases l.simplify r.simplify
    all_goals rw [h] at hv
    · cases hv
      exact .inl ⟨a, c, hl, hr, hc, rfl⟩
    · cases hv
      exact .inr ⟨⟨a, hl, ha, hr⟩, rfl⟩
    · rw [hv] at hl
      cases hl
    · cases hv
  · rintro (⟨a, c, hl, hr, hc, rfl⟩ | ⟨⟨a, hl, ha, hr⟩, rfl⟩)
    · rw [hl, hr]
      simp [joinDiv, hc]
    · rw [hl]
      exact joinDiv_zero ha hr

theorem joinPowConst_eq_const_iff {c : α} :
    joinPowConst u c = .const v ↔
      (c == 0) = true ∧ v = 1 ∨ (c == 0) = false ∧ (c == 1) = true ∧ u = .const v := by
  rw [joinPowConst]
  cases c == 0 with
  | true => simpa using eq_comm
  | false => cases c == 1 <;> simp

theorem joinPow_eq_joinPowConst {c : α} (hnone : ∀ a, u = .const a → finitePower? a c = none) :
    joinPow u (.const c) = joinPowConst u c := by
  cases u with
  | const a => simp [joinPow, hnone a rfl]
  | _ => rfl

/-- The exponent zero makes one of every base, and the exponent one keeps the base.  Two
    numbers with a finite power are folded before either is looked at. -/
theorem simplify_pow_eq_const_iff :
    (Formula.pow l r).simplify = .const v ↔
      (∃ a c, l.simplify = .const a ∧ r.simplify = .const c ∧ finitePower? a c = some v) ∨
        ∃ c, r.simplify = .const c ∧ (∀ a, l.simplify = .const a → finitePower? a c = none) ∧
          ((c == 0) = true ∧ v = 1 ∨
            (c == 0) = false ∧ (c == 1) = true ∧ l.simplify = .const v) := by
  rw [simplify_pow]
  constructor
  · intro hv
    obtain ⟨a, c, w, hl, hr, hw, h⟩ | ⟨hnone, hrule⟩ := joinPow_cases l.simplify r.simplify
    · rw [h] at hv
      cases hv
      exact .inl ⟨a, c, hl, hr, hw⟩
    · obtain ⟨c, hr⟩ : ∃ c, r.simplify = .const c := by
        rcases hrule with ⟨c, hr, -⟩ | ⟨c, hr, -⟩ | ⟨-, h⟩
        · exact ⟨c, hr⟩
        · exact ⟨c, hr⟩
        · rw [h] at hv
          cases hv
      have hnone' : ∀ a, l.simplify = .const a → finitePower? a c = none := fun a hl =>
        hnone a c (constant?_eq_some_iff.2 hl) (constant?_eq_some_iff.2 hr)
      rw [hr, joinPow_eq_joinPowConst hnone'] at hv
      exact .inr ⟨c, hr, hnone', joinPowConst_eq_const_iff.1 hv⟩
  · rintro (⟨a, c, hl, hr, hw⟩ | ⟨c, hr, hnone, hv⟩)
    · rw [hl, hr]
      simp [joinPow, hw]
    · rw [hr, joinPow_eq_joinPowConst hnone]
      exact joinPowConst_eq_const_iff.2 hv

theorem simplify_neg_eq_const_iff :
    (Formula.neg u).simplify = .const v ↔ ∃ a, u.simplify = .const a ∧ -a = v := by
  rw [simplify_neg]
  constructor
  · intro hv
    cases hnumber : u.simplify.constant? with
    | none => exact absurd hv (joinNeg_ne_const (isSimple_simplify u) hnumber)
    | some a =>
      rw [constant?_eq_some_iff] at hnumber
      rw [hnumber] at hv
      cases hv
      exact ⟨a, hnumber, rfl⟩
  · rintro ⟨a, hu, rfl⟩
    rw [hu]
    rfl

theorem simplify_apply_eq_const_iff :
    (Formula.apply f u).simplify = .const v ↔
      ∃ a, u.simplify = .const a ∧ f.undefinedAt a = false ∧ Scalar.elementary f a = v := by
  rw [simplify_apply]
  constructor
  · intro hv
    obtain ⟨a, hu, hf, h⟩ | ⟨-, h⟩ := joinApply_cases f u.simplify
    all_goals rw [h] at hv
    · cases hv
      exact ⟨a, hu, hf, rfl⟩
    · cases hv
  · rintro ⟨a, hu, hf, rfl⟩
    rw [hu]
    simp [joinApply, Elementary.evalAt, hf]

/-! ### Values -/

/-- An operation has a value only if its operands have. -/
theorem exists_eval_of_mem_operands (h : e.eval p = .ok v) :
    ∀ o ∈ e.operands, ∃ w, o.eval p = .ok w := by
  cases e with
  | var n => simp [operands]
  | const v => simp [operands]
  | add l r =>
    obtain ⟨a, ha, c, hc, -⟩ := eval_add_eq_ok_iff.1 h
    simp [operands, ha, hc]
  | sub l r =>
    obtain ⟨a, ha, c, hc, -⟩ := eval_sub_eq_ok_iff.1 h
    simp [operands, ha, hc]
  | mul l r =>
    obtain ⟨a, ha, c, hc, -⟩ := eval_mul_eq_ok_iff.1 h
    simp [operands, ha, hc]
  | div l r =>
    obtain ⟨a, ha, c, hc, -⟩ := eval_div_eq_ok_iff.1 h
    simp [operands, ha, hc]
  | pow l r =>
    obtain ⟨a, ha, c, hc, -⟩ := eval_pow_eq_ok_iff.1 h
    simp [operands, ha, hc]
  | neg u =>
    obtain ⟨a, ha, -⟩ := eval_neg_eq_ok_iff.1 h
    simp [operands, ha]
  | apply f u =>
    obtain ⟨a, ha, -⟩ := eval_apply_eq_ok_iff.1 h
    simp [operands, ha]

theorem simplify_of_eval (he : e.occurrences = []) (h : e.eval p = .ok v) :
    e.simplify = .const v := by
  induction e generalizing v with
  | var n => cases he
  | const a =>
    obtain ⟨-, rfl⟩ := eval_const_eq_ok_iff.1 h
    exact simplify_const a
  | add l r ihl ihr =>
    obtain ⟨hl, hr⟩ := List.append_eq_nil_iff.1 he
    obtain ⟨a, ha, c, hc, -, hv⟩ := eval_add_eq_ok_iff.1 h
    exact simplify_add_eq_const_iff.2 ⟨a, c, ihl hl ha, ihr hr hc, hv⟩
  | sub l r ihl ihr =>
    obtain ⟨hl, hr⟩ := List.append_eq_nil_iff.1 he
    obtain ⟨a, ha, c, hc, -, hv⟩ := eval_sub_eq_ok_iff.1 h
    exact simplify_sub_eq_const_iff.2 ⟨a, c, ihl hl ha, ihr hr hc, hv⟩
  | mul l r ihl ihr =>
    obtain ⟨hl, hr⟩ := List.append_eq_nil_iff.1 he
    obtain ⟨a, ha, c, hc, -, hv⟩ := eval_mul_eq_ok_iff.1 h
    exact simplify_mul_eq_const_iff.2 (.inl ⟨a, c, ihl hl ha, ihr hr hc, hv⟩)
  | div l r ihl ihr =>
    obtain ⟨hl, hr⟩ := List.append_eq_nil_iff.1 he
    obtain ⟨a, ha, c, hc, hzero, -, hv⟩ := eval_div_eq_ok_iff.1 h
    exact simplify_div_eq_const_iff.2 (.inl ⟨a, c, ihl hl ha, ihr hr hc, hzero, hv⟩)
  | pow l r ihl ihr =>
    obtain ⟨hl, hr⟩ := List.append_eq_nil_iff.1 he
    obtain ⟨a, ha, c, hc, -, hpower, hfinite⟩ := eval_pow_eq_ok_iff.1 h
    have hw := finitePower?_eq_some_iff.2 ⟨hpower, hfinite⟩
    exact simplify_pow_eq_const_iff.2 (.inl ⟨a, c, ihl hl ha, ihr hr hc, hw⟩)
  | neg u ih =>
    obtain ⟨a, ha, -, hv⟩ := eval_neg_eq_ok_iff.1 h
    exact simplify_neg_eq_const_iff.2 ⟨a, ih he ha, hv⟩
  | apply f u ih =>
    obtain ⟨a, ha, hf, hv, -⟩ := eval_apply_eq_ok_iff.1 h
    exact simplify_apply_eq_const_iff.2 ⟨a, ih he ha, hf, hv⟩

/-- A formula without variables that has a value is simplified to the number that is the
    value. -/
theorem simplify_eq_const_of_eval (e : Formula α) (p v : α) (he : e.isConstant = true)
    (h : e.eval p = .ok v) : e.simplify = .const v :=
  simplify_of_eval (isConstant_iff.1 he) h

/-- Half of three squared, subtracted from zero. -/
theorem simplify_of_fraction :
    let e : Formula ℚ := .div (.sub (.const 0) (.pow (.const 3) (.const 2))) (.const 2)
    e.isConstant = true ∧ e.eval 5 = .ok (-9 / 2) ∧ e.simplify = .const (-9 / 2) := by
  intro e
  have he : e.isConstant = true := isConstant_iff.2 rfl
  have hvalue : e.eval 5 = .ok (-9 / 2) := by decide +kernel
  exact ⟨he, hvalue, simplify_eq_const_of_eval e 5 (-9 / 2) he hvalue⟩

end NumericMethods.Formula
