/-
  NumericMethods/Proofs/Formula/Evaluation.lean
  =============================================
  **When a formula has a value, and which one.**

  One equivalence for each operation: it has a value exactly if its operands have values,
  the operation is defined for them, and the result is finite.  The further theorems about
  values use these and do not open the evaluator.
-/
import NumericMethods.Formula.Eval
import NumericMethods.Proofs.NumericError

namespace NumericMethods

variable {α : Type} [Scalar α] {p v w q : α}

theorem Elementary.evalAt_eq_ok_iff {f : Elementary} :
    f.evalAt v p = .ok w ↔ f.undefinedAt v = false ∧ Scalar.elementary f v = w := by
  rw [evalAt]
  cases f.undefinedAt v <;> simp

namespace Formula

theorem finite_eq_ok_iff : finite p v = .ok w ↔ Scalar.isFinite v = true ∧ v = w := by
  rw [finite]
  cases Scalar.isFinite v <;> simp

theorem quotient_eq_ok_iff : quotient p v w = .ok q ↔ (w == 0) = false ∧ v / w = q := by
  rw [quotient]
  cases (w == 0) <;> simp

theorem powerAt_eq_ok_iff :
    powerAt p v w = .ok q ↔ (v == 0 && decide (w < 0)) = false ∧ Scalar.power v w = some q := by
  rw [powerAt]
  cases (v == 0 && decide (w < 0)) <;> cases Scalar.power v w <;> simp

variable {l r u : Formula α}

section Operations

attribute [local simp] eval

theorem eval_var_eq_ok_iff {n : String} :
    (Formula.var n).eval p = .ok w ↔ Scalar.isFinite p = true ∧ p = w :=
  finite_eq_ok_iff

theorem eval_const_eq_ok_iff :
    (Formula.const v).eval p = .ok w ↔ Scalar.isFinite v = true ∧ v = w :=
  finite_eq_ok_iff

theorem eval_add_eq_ok_iff :
    (Formula.add l r).eval p = .ok w ↔
      ∃ a, l.eval p = .ok a ∧ ∃ c, r.eval p = .ok c ∧ Scalar.isFinite (a + c) = true ∧
        a + c = w := by
  simp [bind_eq_ok_iff, finite_eq_ok_iff]

theorem eval_sub_eq_ok_iff :
    (Formula.sub l r).eval p = .ok w ↔
      ∃ a, l.eval p = .ok a ∧ ∃ c, r.eval p = .ok c ∧ Scalar.isFinite (a - c) = true ∧
        a - c = w := by
  simp [bind_eq_ok_iff, finite_eq_ok_iff]

theorem eval_mul_eq_ok_iff :
    (Formula.mul l r).eval p = .ok w ↔
      ∃ a, l.eval p = .ok a ∧ ∃ c, r.eval p = .ok c ∧ Scalar.isFinite (a * c) = true ∧
        a * c = w := by
  simp [bind_eq_ok_iff, finite_eq_ok_iff]

theorem eval_div_eq_ok_iff :
    (Formula.div l r).eval p = .ok w ↔
      ∃ a, l.eval p = .ok a ∧ ∃ c, r.eval p = .ok c ∧ (c == 0) = false ∧
        Scalar.isFinite (a / c) = true ∧ a / c = w := by
  simp only [eval, bind_eq_ok_iff, quotient_eq_ok_iff, finite_eq_ok_iff]
  refine exists_congr fun a => and_congr_right fun _ => exists_congr fun c =>
    and_congr_right fun _ => ?_
  constructor
  · rintro ⟨q, ⟨hc, rfl⟩, hq⟩
    exact ⟨hc, hq⟩
  · rintro ⟨hc, hq⟩
    exact ⟨_, ⟨hc, rfl⟩, hq⟩

theorem eval_pow_eq_ok_iff :
    (Formula.pow l r).eval p = .ok w ↔
      ∃ a, l.eval p = .ok a ∧ ∃ c, r.eval p = .ok c ∧ (a == 0 && decide (c < 0)) = false ∧
        Scalar.power a c = some w ∧ Scalar.isFinite w = true := by
  simp only [eval, bind_eq_ok_iff, powerAt_eq_ok_iff, finite_eq_ok_iff]
  refine exists_congr fun a => and_congr_right fun _ => exists_congr fun c =>
    and_congr_right fun _ => ?_
  constructor
  · rintro ⟨q, ⟨hguard, hq⟩, hfinite, rfl⟩
    exact ⟨hguard, hq, hfinite⟩
  · rintro ⟨hguard, hw, hfinite⟩
    exact ⟨w, ⟨hguard, hw⟩, hfinite, rfl⟩

theorem eval_neg_eq_ok_iff :
    (Formula.neg u).eval p = .ok w ↔
      ∃ a, u.eval p = .ok a ∧ Scalar.isFinite (-a) = true ∧ -a = w := by
  simp [bind_eq_ok_iff, finite_eq_ok_iff]

theorem eval_apply_eq_ok_iff {f : Elementary} :
    (Formula.apply f u).eval p = .ok w ↔
      ∃ a, u.eval p = .ok a ∧ f.undefinedAt a = false ∧ Scalar.elementary f a = w ∧
        Scalar.isFinite w = true := by
  simp only [eval, bind_eq_ok_iff, Elementary.evalAt_eq_ok_iff, finite_eq_ok_iff]
  refine exists_congr fun a => and_congr_right fun _ => ?_
  constructor
  · rintro ⟨q, ⟨hf, hq⟩, hfinite, rfl⟩
    exact ⟨hf, hq, hfinite⟩
  · rintro ⟨hf, hw, hfinite⟩
    exact ⟨w, ⟨hf, hw⟩, hfinite, rfl⟩

end Operations

/-- Evaluation gives finite values only. -/
theorem isFinite_of_eval_eq {e : Formula α} (h : e.eval p = .ok w) :
    Scalar.isFinite w = true := by
  cases e with
  | var n =>
    obtain ⟨hfinite, rfl⟩ := eval_var_eq_ok_iff.1 h
    exact hfinite
  | const v =>
    obtain ⟨hfinite, rfl⟩ := eval_const_eq_ok_iff.1 h
    exact hfinite
  | add l r =>
    obtain ⟨_, -, _, -, hfinite, rfl⟩ := eval_add_eq_ok_iff.1 h
    exact hfinite
  | sub l r =>
    obtain ⟨_, -, _, -, hfinite, rfl⟩ := eval_sub_eq_ok_iff.1 h
    exact hfinite
  | mul l r =>
    obtain ⟨_, -, _, -, hfinite, rfl⟩ := eval_mul_eq_ok_iff.1 h
    exact hfinite
  | div l r =>
    obtain ⟨_, -, _, -, -, hfinite, rfl⟩ := eval_div_eq_ok_iff.1 h
    exact hfinite
  | pow l r =>
    obtain ⟨_, -, _, -, -, -, hfinite⟩ := eval_pow_eq_ok_iff.1 h
    exact hfinite
  | neg u =>
    obtain ⟨_, -, hfinite, rfl⟩ := eval_neg_eq_ok_iff.1 h
    exact hfinite
  | apply f u =>
    obtain ⟨_, -, -, -, hfinite⟩ := eval_apply_eq_ok_iff.1 h
    exact hfinite

/-! ### Formulas without the variable -/

omit [Scalar α] in
theorem mentions_iff {n : String} {e : Formula α} : e.mentions n = true ↔ n ∈ e.occurrences := by
  induction e with
  | var m =>
    rw [mentions, occurrences, beq_iff_eq, List.mem_singleton]
    exact eq_comm
  | const v => simp [mentions, occurrences]
  | neg u ih => simpa [mentions, occurrences] using ih
  | apply f u ih => simpa [mentions, occurrences] using ih
  | add l r ihl ihr => simp [mentions, occurrences, ihl, ihr]
  | sub l r ihl ihr => simp [mentions, occurrences, ihl, ihr]
  | mul l r ihl ihr => simp [mentions, occurrences, ihl, ihr]
  | div l r ihl ihr => simp [mentions, occurrences, ihl, ihr]
  | pow l r ihl ihr => simp [mentions, occurrences, ihl, ihr]

omit [Scalar α] in
/-- A formula that has no other variable and does not mention this one has none. -/
theorem occurrences_eq_nil {n : String} {e : Formula α} (hn : ∀ v ∈ e.occurrences, v = n)
    (hmentions : ¬ e.mentions n = true) : e.occurrences = [] := by
  rw [mentions_iff] at hmentions
  rw [List.eq_nil_iff_forall_not_mem]
  intro v hv
  rw [hn v hv] at hv
  exact hmentions hv

/-- The value of a formula without variables does not depend on the point. -/
theorem eval_of_occurrences_nil {e : Formula α} {p' : α} (he : e.occurrences = [])
    (h : e.eval p = .ok w) : e.eval p' = .ok w := by
  induction e generalizing w with
  | var n => cases he
  | const v => exact eval_const_eq_ok_iff.2 (eval_const_eq_ok_iff.1 h)
  | add l r ihl ihr =>
    obtain ⟨hl, hr⟩ := List.append_eq_nil_iff.1 he
    obtain ⟨a, ha, c, hc, hw⟩ := eval_add_eq_ok_iff.1 h
    exact eval_add_eq_ok_iff.2 ⟨a, ihl hl ha, c, ihr hr hc, hw⟩
  | sub l r ihl ihr =>
    obtain ⟨hl, hr⟩ := List.append_eq_nil_iff.1 he
    obtain ⟨a, ha, c, hc, hw⟩ := eval_sub_eq_ok_iff.1 h
    exact eval_sub_eq_ok_iff.2 ⟨a, ihl hl ha, c, ihr hr hc, hw⟩
  | mul l r ihl ihr =>
    obtain ⟨hl, hr⟩ := List.append_eq_nil_iff.1 he
    obtain ⟨a, ha, c, hc, hw⟩ := eval_mul_eq_ok_iff.1 h
    exact eval_mul_eq_ok_iff.2 ⟨a, ihl hl ha, c, ihr hr hc, hw⟩
  | div l r ihl ihr =>
    obtain ⟨hl, hr⟩ := List.append_eq_nil_iff.1 he
    obtain ⟨a, ha, c, hc, hw⟩ := eval_div_eq_ok_iff.1 h
    exact eval_div_eq_ok_iff.2 ⟨a, ihl hl ha, c, ihr hr hc, hw⟩
  | pow l r ihl ihr =>
    obtain ⟨hl, hr⟩ := List.append_eq_nil_iff.1 he
    obtain ⟨a, ha, c, hc, hw⟩ := eval_pow_eq_ok_iff.1 h
    exact eval_pow_eq_ok_iff.2 ⟨a, ihl hl ha, c, ihr hr hc, hw⟩
  | neg u ih =>
    obtain ⟨a, ha, hw⟩ := eval_neg_eq_ok_iff.1 h
    exact eval_neg_eq_ok_iff.2 ⟨a, ih he ha, hw⟩
  | apply f u ih =>
    obtain ⟨a, ha, hw⟩ := eval_apply_eq_ok_iff.1 h
    exact eval_apply_eq_ok_iff.2 ⟨a, ih he ha, hw⟩

end Formula

end NumericMethods
