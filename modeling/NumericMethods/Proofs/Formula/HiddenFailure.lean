/-
  NumericMethods/Proofs/Formula/HiddenFailure.lean
  ================================================
  **Where simplification hides that a formula has no value.**

  A formula without variables has a value exactly if all its parts are folded to finite
  numbers (`exists_eval_iff`), and its simple form has one exactly if the formula itself is
  (`exists_eval_simplify_iff`).  A failure is hidden where a formula is folded to a finite
  number and a part of it is not.  Only four rules do that, and `Hides` lists how:

    * a zero factor or a zero numerator, beside an operand that is kept;
    * a power with the exponent zero, of a base that is not folded;
    * a quotient by a number that is not finite, and a power of such a number or by it, with
      a finite result;
    * a function with a finite value at a number that is not finite.

  The failures of all parts of a formula are kept if and only if none of its parts is of this
  kind (`fails_simplify_iff`).
-/
import Mathlib
import NumericMethods.Proofs.Formula.ConstantFolding
import NumericMethods.Proofs.Scalar.Finiteness

namespace NumericMethods.Formula

section Generic

variable {α : Type} [Scalar α] {l r u e s o : Formula α} {f : Elementary} {p v w : α}

/-! ### Failures and folded formulas -/

/-- Evaluation at the point gives a reason instead of a value. -/
def Fails (p : α) (e : Formula α) : Prop := ∃ reason, e.eval p = .error reason

theorem fails_iff : e.Fails p ↔ ¬ ∃ v, e.eval p = .ok v := by
  unfold Fails
  cases e.eval p <;> simp

/-- The simple form is a finite number. -/
def IsFolded (e : Formula α) : Prop := ∃ v, e.simplify = .const v ∧ Scalar.isFinite v = true

theorem isFolded_iff_of_eq (h : e.simplify = .const v) :
    e.IsFolded ↔ Scalar.isFinite v = true := by
  rw [IsFolded, h]
  simp

/-- Two operands that become finite numbers are both folded. -/
theorem forall_isFolded {a c : α} (hl : l.simplify = .const a) (hr : r.simplify = .const c)
    (hfinite : Scalar.isFinite a = true ∧ Scalar.isFinite c = true) :
    ∀ o ∈ [l, r], o.IsFolded := by
  simp [isFolded_iff_of_eq hl, isFolded_iff_of_eq hr, hfinite]

theorem ZeroBeside.not_isFolded (h : ZeroBeside l r) : ¬ r.IsFolded := by
  obtain ⟨-, -, -, hr⟩ := h
  rintro ⟨v, hv, -⟩
  rw [hv] at hr
  cases hr

/-- The operation is folded to a finite number, and one of its operands is not. -/
def Hides : Formula α → Prop
  | .mul l r => ZeroBeside l r ∨ ZeroBeside r l
  | .div l r =>
    ZeroBeside l r ∨
      ∃ a c, l.simplify = .const a ∧ r.simplify = .const c ∧ Scalar.isFinite c = false ∧
        (c == 0) = false ∧ Scalar.isFinite (a / c) = true
  | .pow l r =>
    (∃ c, r.simplify = .const c ∧ (c == 0) = true ∧ ¬ l.IsFolded) ∨
      ∃ a c w, l.simplify = .const a ∧ r.simplify = .const c ∧
        (Scalar.isFinite a = false ∨ Scalar.isFinite c = false) ∧ Scalar.power a c = some w ∧
          Scalar.isFinite w = true
  | .apply f u =>
    ∃ a, u.simplify = .const a ∧ Scalar.isFinite a = false ∧ f.undefinedAt a = false ∧
      Scalar.isFinite (Scalar.elementary f a) = true
  | _ => False

section Laws

variable [Scalar.TracksFiniteness α]

open Scalar.TracksFiniteness

/-! ### Which operations hide a failure -/

theorem isFolded_of_zeroBeside (h : ZeroBeside l r) :
    (Formula.mul l r).IsFolded ∧ (Formula.mul r l).IsFolded ∧ (Formula.div l r).IsFolded :=
  ⟨⟨0, simplify_mul_eq_const_iff.2 (.inr ⟨.inl h, rfl⟩), isFinite_zero⟩,
    ⟨0, simplify_mul_eq_const_iff.2 (.inr ⟨.inr h, rfl⟩), isFinite_zero⟩,
    ⟨0, simplify_div_eq_const_iff.2 (.inr ⟨h, rfl⟩), isFinite_zero⟩⟩

theorem isFolded_pow_of_zero {c : α} (hr : r.simplify = .const c) (hc : (c == 0) = true) :
    (Formula.pow l r).IsFolded := by
  by_cases hpower : ∃ a w, l.simplify = .const a ∧ finitePower? a c = some w
  · obtain ⟨a, w, hl, hw⟩ := hpower
    exact ⟨w, simplify_pow_eq_const_iff.2 (.inl ⟨a, c, hl, hr, hw⟩),
      (finitePower?_eq_some_iff.1 hw).2⟩
  · have hnone : ∀ a, l.simplify = .const a → finitePower? a c = none := by
      intro a hl
      rw [Option.eq_none_iff_forall_ne_some]
      exact fun w hw => hpower ⟨a, w, hl, hw⟩
    exact ⟨1, simplify_pow_eq_const_iff.2 (.inr ⟨c, hr, hnone, .inl ⟨hc, rfl⟩⟩), isFinite_one⟩

/-- An operation is folded over an operand that is not exactly if it hides a failure. -/
theorem hides_iff : s.Hides ↔ s.IsFolded ∧ ∃ o ∈ s.operands, ¬ o.IsFolded := by
  cases s with
  | var n => simp [Hides, operands]
  | const v => simp [Hides, operands]
  | add l r =>
    refine ⟨False.elim, ?_⟩
    rintro ⟨⟨v, hv, hfinite⟩, o, ho, hnot⟩
    obtain ⟨a, c, hl, hr, rfl⟩ := simplify_add_eq_const_iff.1 hv
    exact hnot (forall_isFolded hl hr (isFinite_of_add hfinite) o ho)
  | sub l r =>
    refine ⟨False.elim, ?_⟩
    rintro ⟨⟨v, hv, hfinite⟩, o, ho, hnot⟩
    obtain ⟨a, c, hl, hr, rfl⟩ := simplify_sub_eq_const_iff.1 hv
    exact hnot (forall_isFolded hl hr (isFinite_of_sub hfinite) o ho)
  | mul l r =>
    constructor
    · rintro (h | h)
      · exact ⟨(isFolded_of_zeroBeside h).1, r, by simp [operands], h.not_isFolded⟩
      · exact ⟨(isFolded_of_zeroBeside h).2.1, l, by simp [operands], h.not_isFolded⟩
    · rintro ⟨⟨v, hv, hfinite⟩, o, ho, hnot⟩
      rcases simplify_mul_eq_const_iff.1 hv with ⟨a, c, hl, hr, rfl⟩ | ⟨h, -⟩
      · exact absurd (forall_isFolded hl hr (isFinite_of_mul hfinite) o ho) hnot
      · exact h
  | div l r =>
    constructor
    · rintro (h | ⟨a, c, hl, hr, hinfinite, hc, hfinite⟩)
      · exact ⟨(isFolded_of_zeroBeside h).2.2, r, by simp [operands], h.not_isFolded⟩
      · have hv := simplify_div_eq_const_iff.2 (.inl ⟨a, c, hl, hr, hc, rfl⟩)
        refine ⟨⟨a / c, hv, hfinite⟩, r, by simp [operands], ?_⟩
        rw [isFolded_iff_of_eq hr, hinfinite]
        exact Bool.false_ne_true
    · rintro ⟨⟨v, hv, hfinite⟩, o, ho, hnot⟩
      rcases simplify_div_eq_const_iff.1 hv with ⟨a, c, hl, hr, hc, rfl⟩ | ⟨h, -⟩
      · refine .inr ⟨a, c, hl, hr, ?_, hc, hfinite⟩
        rw [Bool.eq_false_iff]
        intro hfinite'
        exact hnot (forall_isFolded hl hr ⟨isFinite_of_div hfinite, hfinite'⟩ o ho)
      · exact .inl h
  | pow l r =>
    constructor
    · rintro (⟨c, hr, hc, hl⟩ | ⟨a, c, w, hl, hr, hinfinite, hw, hfinite⟩)
      · exact ⟨isFolded_pow_of_zero hr hc, l, by simp [operands], hl⟩
      · have hpower := finitePower?_eq_some_iff.2 ⟨hw, hfinite⟩
        have hv := simplify_pow_eq_const_iff.2 (.inl ⟨a, c, hl, hr, hpower⟩)
        refine ⟨⟨w, hv, hfinite⟩, ?_⟩
        rcases hinfinite with h | h
        · exact ⟨l, by simp [operands], by simp [isFolded_iff_of_eq hl, h]⟩
        · exact ⟨r, by simp [operands], by simp [isFolded_iff_of_eq hr, h]⟩
    · rintro ⟨⟨v, hv, hfinite⟩, o, ho, hnot⟩
      rcases simplify_pow_eq_const_iff.1 hv with ⟨a, c, hl, hr, hw⟩ | ⟨c, hr, -, hrule⟩
      · obtain ⟨hw, -⟩ := finitePower?_eq_some_iff.1 hw
        refine .inr ⟨a, c, v, hl, hr, ?_, hw, hfinite⟩
        by_contra hboth
        simp only [not_or, Bool.not_eq_false] at hboth
        exact hnot (forall_isFolded hl hr hboth o ho)
      · rcases hrule with ⟨hc, -⟩ | ⟨-, hc, hl⟩
        · refine .inl ⟨c, hr, hc, ?_⟩
          rintro ⟨a, hl, ha⟩
          exact hnot (forall_isFolded hl hr ⟨ha, isFinite_of_beq hc isFinite_zero⟩ o ho)
        · exact absurd
            (forall_isFolded hl hr ⟨hfinite, isFinite_of_beq hc isFinite_one⟩ o ho) hnot
  | neg u =>
    refine ⟨False.elim, ?_⟩
    rintro ⟨⟨v, hv, hfinite⟩, o, ho, hnot⟩
    obtain ⟨a, hu, rfl⟩ := simplify_neg_eq_const_iff.1 hv
    rw [isFinite_neg] at hfinite
    rw [List.mem_singleton.1 ho] at hnot
    exact hnot ⟨a, hu, hfinite⟩
  | apply f u =>
    constructor
    · rintro ⟨a, hu, hinfinite, hf, hfinite⟩
      have hv := simplify_apply_eq_const_iff.2 ⟨a, hu, hf, rfl⟩
      refine ⟨⟨_, hv, hfinite⟩, u, by simp [operands], ?_⟩
      rw [isFolded_iff_of_eq hu, hinfinite]
      exact Bool.false_ne_true
    · rintro ⟨⟨v, hv, hfinite⟩, o, ho, hnot⟩
      obtain ⟨a, hu, hf, rfl⟩ := simplify_apply_eq_const_iff.1 hv
      rw [List.mem_singleton.1 ho, isFolded_iff_of_eq hu, Bool.not_eq_true] at hnot
      exact ⟨a, hu, hnot, hf, hfinite⟩

/-- Folded formulas have folded parts only, if none of the parts hides a failure. -/
theorem isFolded_parts_iff :
    (∀ s ∈ e.parts, s.IsFolded → ∀ t ∈ s.parts, t.IsFolded) ↔ ∀ s ∈ e.parts, ¬ s.Hides := by
  constructor
  · intro h s hs hhides
    obtain ⟨hfolded, o, ho, hnot⟩ := hides_iff.1 hhides
    exact hnot (h s hs hfolded o (mem_parts_iff.2 (.inr ⟨o, ho, self_mem_parts o⟩)))
  · intro h s hs
    have hbelow : ∀ t ∈ s.parts, ¬ t.Hides :=
      fun t ht => h t ((within_of_mem_parts hs).parts ht)
    clear hs
    induction s using induction_on_operands with
    | h s ih =>
      intro hfolded
      obtain ⟨hself, hoperands⟩ := forall_mem_parts_iff.1 hbelow
      rw [hides_iff, not_and, not_exists] at hself
      refine forall_mem_parts_iff.2 ⟨hfolded, fun o ho => ?_⟩
      have ho' : o.IsFolded := by
        by_contra hnot
        exact hself hfolded o ⟨ho, hnot⟩
      exact ih o ho (hoperands o ho) ho'

/-! ### Values -/

omit [Scalar.TracksFiniteness α] in
theorem isFolded_of_eval (he : e.occurrences = []) (h : e.eval p = .ok v) : e.IsFolded :=
  ⟨v, simplify_of_eval he h, isFinite_of_eval_eq h⟩

omit [Scalar.TracksFiniteness α] in
/-- The number that a formula without variables becomes is its value, if it has one. -/
theorem eval_eq_of_simplify_eq (he : e.occurrences = []) (hvalue : ∃ w, e.eval p = .ok w)
    (h : e.simplify = .const v) : e.eval p = .ok v := by
  obtain ⟨w, hw⟩ := hvalue
  rw [simplify_of_eval he hw] at h
  cases h
  exact hw

variable [Scalar.HasPowers α]

open Scalar.HasPowers

/-- With operands that have values, an operation has one exactly if it is folded. -/
theorem exists_eval_iff_isFolded (he : e.occurrences = [])
    (hoperands : ∀ o ∈ e.operands, ∃ v, o.eval p = .ok v) :
    (∃ v, e.eval p = .ok v) ↔ e.IsFolded := by
  have hvalue : ∀ o ∈ e.operands, ∀ a, o.simplify = .const a → o.eval p = .ok a :=
    fun o ho a => eval_eq_of_simplify_eq (occurrences_of_mem_operands he ho) (hoperands o ho)
  have hfolded : ∀ o ∈ e.operands, o.IsFolded := by
    intro o ho
    obtain ⟨v, hv⟩ := hoperands o ho
    exact isFolded_of_eval (occurrences_of_mem_operands he ho) hv
  constructor
  · rintro ⟨v, hv⟩
    exact isFolded_of_eval he hv
  rintro ⟨v, hv, hfinite⟩
  refine ⟨v, ?_⟩
  cases e with
  | var n => cases he
  | const a =>
    rw [simplify_const] at hv
    cases hv
    exact eval_const_eq_ok_iff.2 ⟨hfinite, rfl⟩
  | add l r =>
    simp only [operands, List.forall_mem_cons] at hvalue
    obtain ⟨a, c, hl, hr, rfl⟩ := simplify_add_eq_const_iff.1 hv
    exact eval_add_eq_ok_iff.2 ⟨a, hvalue.1 a hl, c, hvalue.2.1 c hr, hfinite, rfl⟩
  | sub l r =>
    simp only [operands, List.forall_mem_cons] at hvalue
    obtain ⟨a, c, hl, hr, rfl⟩ := simplify_sub_eq_const_iff.1 hv
    exact eval_sub_eq_ok_iff.2 ⟨a, hvalue.1 a hl, c, hvalue.2.1 c hr, hfinite, rfl⟩
  | mul l r =>
    simp only [operands, List.forall_mem_cons] at hvalue hfolded
    rcases simplify_mul_eq_const_iff.1 hv with ⟨a, c, hl, hr, rfl⟩ | ⟨hzero | hzero, -⟩
    · exact eval_mul_eq_ok_iff.2 ⟨a, hvalue.1 a hl, c, hvalue.2.1 c hr, hfinite, rfl⟩
    · exact absurd hfolded.2.1 hzero.not_isFolded
    · exact absurd hfolded.1 hzero.not_isFolded
  | div l r =>
    simp only [operands, List.forall_mem_cons] at hvalue hfolded
    rcases simplify_div_eq_const_iff.1 hv with ⟨a, c, hl, hr, hc, rfl⟩ | ⟨hzero, -⟩
    · exact eval_div_eq_ok_iff.2 ⟨a, hvalue.1 a hl, c, hvalue.2.1 c hr, hc, hfinite, rfl⟩
    · exact absurd hfolded.2.1 hzero.not_isFolded
  | pow l r =>
    simp only [operands, List.forall_mem_cons] at hvalue hfolded
    rcases simplify_pow_eq_const_iff.1 hv with ⟨a, c, hl, hr, hw⟩ | ⟨c, hr, hnone, hrule⟩
    · obtain ⟨hw, -⟩ := finitePower?_eq_some_iff.1 hw
      refine eval_pow_eq_ok_iff.2 ⟨a, hvalue.1 a hl, c, hvalue.2.1 c hr, ?_, hw, hfinite⟩
      -- a negative power of zero is not finite
      by_contra hguard
      simp only [Bool.not_eq_false, Bool.and_eq_true, decide_eq_true_eq] at hguard
      rw [isFinite_zero_power hguard.1 hguard.2 hw] at hfinite
      cases hfinite
    · -- a power with the exponent zero or one would have been folded as a power
      exfalso
      obtain ⟨a, hl, ha⟩ := hfolded.1
      have hpower := hnone a hl
      rcases hrule with ⟨hc, -⟩ | ⟨-, hc, -⟩
      · rw [finitePower?_eq_some_iff.2 ⟨power_zero ha hc, isFinite_one⟩] at hpower
        cases hpower
      · rw [finitePower?_eq_some_iff.2 ⟨power_one ha hc, ha⟩] at hpower
        cases hpower
  | neg u =>
    simp only [operands, List.forall_mem_cons] at hvalue
    obtain ⟨a, hu, rfl⟩ := simplify_neg_eq_const_iff.1 hv
    exact eval_neg_eq_ok_iff.2 ⟨a, hvalue.1 a hu, hfinite, rfl⟩
  | apply f u =>
    simp only [operands, List.forall_mem_cons] at hvalue
    obtain ⟨a, hu, hf, rfl⟩ := simplify_apply_eq_const_iff.1 hv
    exact eval_apply_eq_ok_iff.2 ⟨a, hvalue.1 a hu, hf, rfl, hfinite⟩

theorem exists_eval_iff (he : e.occurrences = []) :
    (∃ v, e.eval p = .ok v) ↔ ∀ s ∈ e.parts, s.IsFolded := by
  induction e using induction_on_operands with
  | h e ih =>
    have hparts : (∀ o ∈ e.operands, ∀ s ∈ o.parts, s.IsFolded) ↔
        ∀ o ∈ e.operands, ∃ v, o.eval p = .ok v :=
      forall₂_congr fun o ho => (ih o ho (occurrences_of_mem_operands he ho)).symm
    rw [forall_mem_parts_iff, hparts]
    constructor
    · rintro ⟨v, hv⟩
      exact ⟨isFolded_of_eval he hv, exists_eval_of_mem_operands hv⟩
    · rintro ⟨hfolded, hoperands⟩
      exact (exists_eval_iff_isFolded he hoperands).2 hfolded

end Laws

/-- A simple form without variables has no value but its own, as a number. -/
theorem IsSimple.eq_const_of_eval (h : s.IsSimple) (hs : s.occurrences = [])
    (hv : s.eval p = .ok v) : s = .const v := by
  induction h generalizing v with
  | var n => cases hs
  | const a =>
    obtain ⟨-, rfl⟩ := eval_const_eq_ok_iff.1 hv
    rfl
  | add _ _ hnumbers _ ihl ihr =>
    obtain ⟨hl, hr⟩ := List.append_eq_nil_iff.1 hs
    obtain ⟨a, ha, c, hc, -⟩ := eval_add_eq_ok_iff.1 hv
    simp [ihl hl ha, ihr hr hc, constant?] at hnumbers
  | sub _ _ hnumbers _ ihl ihr =>
    obtain ⟨hl, hr⟩ := List.append_eq_nil_iff.1 hs
    obtain ⟨a, ha, c, hc, -⟩ := eval_sub_eq_ok_iff.1 hv
    simp [ihl hl ha, ihr hr hc, constant?] at hnumbers
  | mul _ _ hnumbers _ ihl ihr =>
    obtain ⟨hl, hr⟩ := List.append_eq_nil_iff.1 hs
    obtain ⟨a, ha, c, hc, -⟩ := eval_mul_eq_ok_iff.1 hv
    simp [ihl hl ha, ihr hr hc, constant?] at hnumbers
  | div _ _ hnumbers _ _ ihl ihr =>
    obtain ⟨hl, hr⟩ := List.append_eq_nil_iff.1 hs
    obtain ⟨a, ha, c, hc, hne, -⟩ := eval_div_eq_ok_iff.1 hv
    simp [ihl hl ha, ihr hr hc, constant?, hne] at hnumbers
  | pow _ _ hnumbers _ ihl ihr =>
    obtain ⟨hl, hr⟩ := List.append_eq_nil_iff.1 hs
    obtain ⟨a, ha, c, hc, -, hpower, hfinite⟩ := eval_pow_eq_ok_iff.1 hv
    have hfolded := finitePower?_eq_some_iff.2 ⟨hpower, hfinite⟩
    simp [ihl hl ha, ihr hr hc, constant?, hfolded] at hnumbers
  | neg _ hnumber ih =>
    obtain ⟨a, ha, -⟩ := eval_neg_eq_ok_iff.1 hv
    simp [ih hs ha, constant?] at hnumber
  | apply _ hnumber ih =>
    obtain ⟨a, ha, hf, -⟩ := eval_apply_eq_ok_iff.1 hv
    simp [ih hs ha, constant?, hf] at hnumber

theorem exists_eval_simplify_iff (he : e.occurrences = []) :
    (∃ v, e.simplify.eval p = .ok v) ↔ e.IsFolded := by
  constructor
  · rintro ⟨v, hv⟩
    have hs : e.simplify.occurrences = [] :=
      List.subset_nil.1 (he ▸ occurrences_simplify_subset e)
    exact ⟨v, (isSimple_simplify e).eq_const_of_eval hs hv, isFinite_of_eval_eq hv⟩
  · rintro ⟨v, hv, hfinite⟩
    exact ⟨v, by rw [hv]; exact eval_const_eq_ok_iff.2 ⟨hfinite, rfl⟩⟩

end Generic

/-! ### Binary floating point -/

section Binary

open Binary64 (Library withLibrary)

/-- The failure of a formula without variables is kept if and only if, once the formula is
    folded to a finite number, all its parts are.  The failures of all its parts are kept if
    and only if none of its parts hides one. -/
theorem fails_simplify_iff (lib : Library) (hlib : lib.DocumentsPowers) :
    let _ := withLibrary lib
    ∀ (e : Formula Float) (p : Float), e.isConstant = true →
      ((e.Fails p → e.simplify.Fails p) ↔ (e.IsFolded → ∀ s ∈ e.parts, s.IsFolded)) ∧
        ((∀ s ∈ e.parts, s.Fails p → s.simplify.Fails p) ↔ ∀ s ∈ e.parts, ¬ s.Hides) := by
  intro _ e p he
  have _ := Binary64.tracksFiniteness lib
  have _ := Binary64.hasPowers hlib
  rw [isConstant_iff] at he
  have hkept : ∀ s ∈ e.parts,
      (s.Fails p → s.simplify.Fails p) ↔ (s.IsFolded → ∀ t ∈ s.parts, t.IsFolded) := by
    intro s hs
    have hnone : s.occurrences = [] :=
      List.subset_nil.1 (he ▸ (within_of_mem_parts hs).occurrences)
    rw [fails_iff, fails_iff, exists_eval_iff hnone, exists_eval_simplify_iff hnone]
    exact not_imp_not
  refine ⟨hkept e (self_mem_parts e), ?_⟩
  rw [← isFolded_parts_iff]
  exact forall₂_congr hkept

/-- A library that squares, with the documented powers. -/
def squaring : Library where
  power b e :=
    if e == 0 then some 1
    else if e == 1 then some b
    else if b == 0 && decide (e < 0) then some (1 / 0)
    else some (b * b)
  elementary _ v := v

theorem squaring_documentsPowers : squaring.DocumentsPowers := by
  constructor
  · intro b z _ hz
    exact if_pos (Binary64.isZero_iff_beq.1 hz)
  · intro b e _ he
    have hzero : ¬ (e == 0) = true := by
      intro hzero
      rcases Binary64.isZero_iff_beq.2 hzero with rfl | rfl
      · exact absurd he (by decide +kernel)
      · exact absurd he (by decide +kernel)
    change (if e == 0 then _ else if e == 1 then some b else _) = some b
    rw [if_neg hzero, if_pos he]
  · intro z e w hz he hw
    have hzero : ¬ (e == 0) = true := fun h =>
      Binary64.not_lt_of_isZero (Binary64.isZero_iff_beq.2 h) he
    have hone : ¬ (e == 1) = true := fun h => Binary64.not_lt_of_beq_one h he
    change (if e == 0 then _ else if e == 1 then _ else
      if z == 0 && decide (e < 0) then some (1 / 0) else _) = some w at hw
    rw [if_neg hzero, if_neg hone, if_pos (by simp [Binary64.isZero_iff_beq.1 hz, he])] at hw
    cases hw
    decide +kernel

/-- A division by zero that is added to a number still fails. -/
theorem fails_simplify_of_sum :
    let _ := withLibrary squaring
    let e : Formula Float := .add (.div (.const 1) (.const 0)) (.const 2)
    e.isConstant = true ∧ e.Fails 1 ∧ e.simplify.Fails 1 := by
  intro _ e
  have he : e.isConstant = true := isConstant_iff.2 rfl
  have hfails : e.Fails 1 := ⟨.divisionByZero 1, by decide +kernel⟩
  have hhides : ∀ s ∈ e.parts, ¬ s.Hides := by
    simp only [e, parts, List.forall_mem_append, List.forall_mem_singleton, List.forall_mem_cons]
    refine ⟨id, ⟨?_, id, id⟩, id⟩
    rintro (⟨a, ha, hzero, -⟩ | ⟨a, c, -, hc, hinfinite, -⟩)
    · rw [simplify_const] at ha
      cases ha
      exact absurd hzero (by decide +kernel)
    · rw [simplify_const] at hc
      cases hc
      exact absurd hinfinite (by decide +kernel)
  have hkept := (fails_simplify_iff squaring squaring_documentsPowers e 1 he).2.2 hhides
  exact ⟨he, hfails, hkept e (self_mem_parts e) hfails⟩

/-- A zero factor hides a division by zero, and a quotient hides an infinite denominator. -/
theorem zero_factor_hides_division :
    let e : Formula Float := .mul (.const 0) (.div (.const 1) (.const 0))
    let e' : Formula Float := .div (.const 1) (.mul (.const 1e308) (.const 10))
    (e.isConstant = true ∧ e.eval 1 = .error (.divisionByZero 1) ∧ e.simplify.eval 1 = .ok 0) ∧
      e'.isConstant = true ∧ e'.eval 1 = .error (.nonFinite 1) ∧ e'.simplify.eval 1 = .ok 0 := by
  intro e e'
  have he : e.simplify = joinMul (.const 0) (joinDiv (.const 1) (.const 0)) := by
    simp only [e, simplify_mul, simplify_div, simplify_const]
  have he' : e'.simplify = joinDiv (.const 1) (joinMul (.const 1e308) (.const 10)) := by
    simp only [e', simplify_mul, simplify_div, simplify_const]
  rw [he, he']
  exact ⟨⟨isConstant_iff.2 rfl, by decide +kernel, by decide +kernel⟩, isConstant_iff.2 rfl,
    by decide +kernel, by decide +kernel⟩

end Binary

end NumericMethods.Formula
