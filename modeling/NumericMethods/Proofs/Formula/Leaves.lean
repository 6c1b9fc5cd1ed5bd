/-
  NumericMethods/Proofs/Formula/Leaves.lean
  =========================================
  **Where the names and numbers of a simple form come from.**

  A rule of simplification either makes a single number, or keeps leaves that its operands
  have and adds none.  So a property of names and numbers that the formula has goes over to
  its simple form, if the parts that become numbers become numbers with that property
  (`HasLeaves.simplify`).  Every name of the simple form is a name of the formula
  (`occurrences_simplify_subset`).
-/
import NumericMethods.Proofs.Formula.SimpleForm

namespace NumericMethods.Formula

/-! ### Operands -/

section Operands

variable {α : Type} {e o s : Formula α}

/-- The formulas that an operation is applied to. -/
def operands : Formula α → List (Formula α)
  | .var _ => []
  | .const _ => []
  | .add l r => [l, r]
  | .sub l r => [l, r]
  | .mul l r => [l, r]
  | .div l r => [l, r]
  | .pow l r => [l, r]
  | .neg u => [u]
  | .apply _ u => [u]

/-- What holds of a formula if it holds of its operands holds of all formulas. -/
theorem induction_on_operands {motive : Formula α → Prop} (e : Formula α)
    (h : ∀ e, (∀ o ∈ e.operands, motive o) → motive e) : motive e := by
  induction e with
  | var n => exact h _ (by simp [operands])
  | const v => exact h _ (by simp [operands])
  | add l r ihl ihr => exact h _ (by simp [operands, ihl, ihr])
  | sub l r ihl ihr => exact h _ (by simp [operands, ihl, ihr])
  | mul l r ihl ihr => exact h _ (by simp [operands, ihl, ihr])
  | div l r ihl ihr => exact h _ (by simp [operands, ihl, ihr])
  | pow l r ihl ihr => exact h _ (by simp [operands, ihl, ihr])
  | neg u ih => exact h _ (by simp [operands, ih])
  | apply f u ih => exact h _ (by simp [operands, ih])

theorem mem_parts_iff : s ∈ e.parts ↔ s = e ∨ ∃ o ∈ e.operands, s ∈ o.parts := by
  cases e <;> simp [parts, operands]

theorem forall_mem_parts_iff {P : Formula α → Prop} :
    (∀ s ∈ e.parts, P s) ↔ P e ∧ ∀ o ∈ e.operands, ∀ s ∈ o.parts, P s := by
  constructor
  · intro h
    exact ⟨h e (self_mem_parts e), fun o ho s hs => h s (mem_parts_iff.2 (.inr ⟨o, ho, hs⟩))⟩
  · rintro ⟨he, hoperands⟩ s hs
    rcases mem_parts_iff.1 hs with rfl | ⟨o, ho, hs⟩
    · exact he
    · exact hoperands o ho s hs

theorem occurrences_of_mem_operands (he : e.occurrences = []) (ho : o ∈ e.operands) :
    o.occurrences = [] := by
  have hparts : o ∈ e.parts := mem_parts_iff.2 (.inr ⟨o, ho, self_mem_parts o⟩)
  exact List.subset_nil.1 (he ▸ (within_of_mem_parts hparts).occurrences)

theorem isConstant_iff : e.isConstant = true ↔ e.occurrences = [] := by
  have hmem : ∀ n, n ∈ e.variableNames ↔ n ∈ e.occurrences := by simp [variableNames]
  simp only [isConstant, List.isEmpty_iff, List.eq_nil_iff_forall_not_mem, hmem]

end Operands

/-! ### Leaves -/

/-- All names in the formula have the first property, and all numbers the second one. -/
structure HasLeaves {α : Type} (P : String → Prop) (Q : α → Prop) (e : Formula α) : Prop where
  names : ∀ n ∈ e.occurrences, P n
  numbers : ∀ v ∈ e.constants, Q v

namespace HasLeaves

variable {α : Type} {P : String → Prop} {Q : α → Prop} {l r u e : Formula α}

@[simp] theorem var_iff {n : String} : (Formula.var n : Formula α).HasLeaves P Q ↔ P n :=
  ⟨fun h => h.names n (List.mem_singleton.2 rfl),
    fun h => ⟨by simp [occurrences, h], by simp [constants]⟩⟩

@[simp] theorem const_iff {v : α} : (Formula.const v).HasLeaves P Q ↔ Q v :=
  ⟨fun h => h.numbers v (List.mem_singleton.2 rfl),
    fun h => ⟨by simp [occurrences], by simp [constants, h]⟩⟩

theorem operation_iff (hoccurrences : e.occurrences = l.occurrences ++ r.occurrences)
    (hconstants : e.constants = l.constants ++ r.constants) :
    e.HasLeaves P Q ↔ l.HasLeaves P Q ∧ r.HasLeaves P Q := by
  constructor
  · rintro ⟨hnames, hnumbers⟩
    rw [hoccurrences, List.forall_mem_append] at hnames
    rw [hconstants, List.forall_mem_append] at hnumbers
    exact ⟨⟨hnames.1, hnumbers.1⟩, ⟨hnames.2, hnumbers.2⟩⟩
  · rintro ⟨hl, hr⟩
    constructor
    · rw [hoccurrences, List.forall_mem_append]
      exact ⟨hl.names, hr.names⟩
    · rw [hconstants, List.forall_mem_append]
      exact ⟨hl.numbers, hr.numbers⟩

@[simp] theorem add_iff :
    (Formula.add l r).HasLeaves P Q ↔ l.HasLeaves P Q ∧ r.HasLeaves P Q :=
  operation_iff rfl rfl

@[simp] theorem sub_iff :
    (Formula.sub l r).HasLeaves P Q ↔ l.HasLeaves P Q ∧ r.HasLeaves P Q :=
  operation_iff rfl rfl

@[simp] theorem mul_iff :
    (Formula.mul l r).HasLeaves P Q ↔ l.HasLeaves P Q ∧ r.HasLeaves P Q :=
  operation_iff rfl rfl

@[simp] theorem div_iff :
    (Formula.div l r).HasLeaves P Q ↔ l.HasLeaves P Q ∧ r.HasLeaves P Q :=
  operation_iff rfl rfl

@[simp] theorem pow_iff :
    (Formula.pow l r).HasLeaves P Q ↔ l.HasLeaves P Q ∧ r.HasLeaves P Q :=
  operation_iff rfl rfl

@[simp] theorem neg_iff : (Formula.neg u).HasLeaves P Q ↔ u.HasLeaves P Q :=
  ⟨fun h => ⟨h.names, h.numbers⟩, fun h => ⟨h.names, h.numbers⟩⟩

@[simp] theorem apply_iff {f : Elementary} :
    (Formula.apply f u).HasLeaves P Q ↔ u.HasLeaves P Q :=
  ⟨fun h => ⟨h.names, h.numbers⟩, fun h => ⟨h.names, h.numbers⟩⟩

theorem cancelled (h : e.HasLeaves P Q) : e.cancelled.HasLeaves P Q := by
  induction e with
  | var n => exact h
  | const v => exact h
  | add l r ihl ihr => exact add_iff.2 ((add_iff.1 h).imp ihl ihr)
  | sub l r ihl ihr => exact sub_iff.2 ((sub_iff.1 h).imp ihl ihr)
  | mul l r ihl ihr => exact mul_iff.2 ((mul_iff.1 h).imp ihl ihr)
  | div l r ihl ihr => exact div_iff.2 ((div_iff.1 h).imp ihl ihr)
  | pow l r ihl ihr => exact pow_iff.2 ((pow_iff.1 h).imp ihl ihr)
  | apply f u ih => exact apply_iff.2 (ih (apply_iff.1 h))
  | neg u ih =>
    have hu := ih (neg_iff.1 h)
    obtain ⟨w, hw, he⟩ | ⟨-, he⟩ := cancelled_neg_cases u
    · rw [hw, neg_iff] at hu
      rw [he]
      exact hu
    · rw [he, neg_iff]
      exact hu

/-! Each rule keeps leaves, or makes a number. -/

section Rules

variable [Scalar α]

theorem joinAdd (hl : l.HasLeaves P Q) (hr : r.HasLeaves P Q)
    (hnumber : ∀ v, joinAdd l r = .const v → Q v) : (joinAdd l r).HasLeaves P Q := by
  obtain ⟨a, c, -, -, h⟩ | ⟨a, -, -, -, h⟩ | ⟨c, -, -, -, h⟩ | ⟨-, -, h⟩ := joinAdd_cases l r
  · rw [h]
    exact const_iff.2 (hnumber _ h)
  all_goals rw [h]
  · exact hr
  · exact hl
  · exact add_iff.2 ⟨hl, hr⟩

theorem joinSub (hl : l.HasLeaves P Q) (hr : r.HasLeaves P Q)
    (hnumber : ∀ v, joinSub l r = .const v → Q v) : (joinSub l r).HasLeaves P Q := by
  obtain ⟨a, c, -, -, h⟩ | ⟨c, -, -, -, h⟩ | ⟨-, -, h⟩ := joinSub_cases l r
  · rw [h]
    exact const_iff.2 (hnumber _ h)
  all_goals rw [h]
  · exact hl
  · exact sub_iff.2 ⟨hl, hr⟩

theorem joinMul (hl : l.HasLeaves P Q) (hr : r.HasLeaves P Q)
    (hnumber : ∀ v, joinMul l r = .const v → Q v) : (joinMul l r).HasLeaves P Q := by
  obtain ⟨a, c, -, -, h⟩ | ⟨a, u, hu, -, h⟩ | ⟨-, -, h⟩ := joinMul_cases l r
  · rw [h]
    exact const_iff.2 (hnumber _ h)
  · have hother : u.HasLeaves P Q := by rcases hu with ⟨-, rfl⟩ | ⟨rfl, -⟩ <;> assumption
    rcases h with ⟨-, h⟩ | ⟨-, h⟩ | ⟨-, h⟩ <;> rw [h]
    · exact const_iff.2 (hnumber _ h)
    · exact hother
    · exact neg_iff.2 hother
  · rw [h]
    exact mul_iff.2 ⟨hl, hr⟩

theorem joinDiv (hl : l.HasLeaves P Q) (hr : r.HasLeaves P Q)
    (hnumber : ∀ v, joinDiv l r = .const v → Q v) : (joinDiv l r).HasLeaves P Q := by
  obtain ⟨a, c, -, -, -, h⟩ | ⟨a, -, -, -, h⟩ | ⟨c, -, -, -, h⟩ | ⟨-, -, -, h⟩ :=
    joinDiv_cases l r
  · rw [h]
    exact const_iff.2 (hnumber _ h)
  · rw [h]
    exact const_iff.2 (hnumber _ h)
  all_goals rw [h]
  · exact hl
  · exact div_iff.2 ⟨hl, hr⟩

theorem joinPow (hl : l.HasLeaves P Q) (hr : r.HasLeaves P Q)
    (hnumber : ∀ v, joinPow l r = .const v → Q v) : (joinPow l r).HasLeaves P Q := by
  obtain ⟨a, c, w, -, -, -, h⟩ | ⟨-, ⟨c, -, -, h⟩ | ⟨c, -, -, h⟩ | ⟨-, h⟩⟩ := joinPow_cases l r
  · rw [h]
    exact const_iff.2 (hnumber _ h)
  · rw [h]
    exact const_iff.2 (hnumber _ h)
  all_goals rw [h]
  · exact hl
  · exact pow_iff.2 ⟨hl, hr⟩

theorem joinNeg (hu : u.HasLeaves P Q) (hnumber : ∀ v, joinNeg u = .const v → Q v) :
    (joinNeg u).HasLeaves P Q := by
  obtain ⟨v, -, h⟩ | ⟨w, rfl, h⟩ | ⟨-, -, h⟩ := joinNeg_cases u
  · rw [h]
    exact const_iff.2 (hnumber _ h)
  all_goals rw [h]
  · exact neg_iff.1 hu
  · exact neg_iff.2 hu

theorem joinApply {f : Elementary} (hu : u.HasLeaves P Q)
    (hnumber : ∀ v, joinApply f u = .const v → Q v) : (joinApply f u).HasLeaves P Q := by
  obtain ⟨v, -, -, h⟩ | ⟨-, h⟩ := joinApply_cases f u
  · rw [h]
    exact const_iff.2 (hnumber _ h)
  · rw [h]
    exact apply_iff.2 hu

/-- The leaves of a simple form have the properties of those of the formula, if the numbers
    that parts of the formula become have them. -/
theorem simplify (h : e.HasLeaves P Q)
    (hnumber : ∀ s ∈ e.parts, ∀ v, s.simplify = .const v → Q v) :
    e.simplify.HasLeaves P Q := by
  induction e with
  | var n =>
    rw [simplify_var]
    exact h
  | const v =>
    rw [simplify_const]
    exact h
  | add l r ihl ihr =>
    obtain ⟨he, hparts⟩ := forall_mem_parts_iff.1 hnumber
    simp only [operands, List.forall_mem_cons] at hparts
    rw [simplify_add] at he ⊢
    exact (ihl (add_iff.1 h).1 hparts.1).joinAdd (ihr (add_iff.1 h).2 hparts.2.1) he
  | sub l r ihl ihr =>
    obtain ⟨he, hparts⟩ := forall_mem_parts_iff.1 hnumber
    simp only [operands, List.forall_mem_cons] at hparts
    have hl := ihl (sub_iff.1 h).1 hparts.1
    have hr := ihr (sub_iff.1 h).2 hparts.2.1
    rw [simplify_sub_eq] at he ⊢
    split
    · rename_i hsign
      rw [if_pos hsign] at he
      exact hr.cancelled.joinNeg he
    · rename_i hsign
      rw [if_neg hsign] at he
      exact hl.joinSub hr he
  | mul l r ihl ihr =>
    obtain ⟨he, hparts⟩ := forall_mem_parts_iff.1 hnumber
    simp only [operands, List.forall_mem_cons] at hparts
    rw [simplify_mul] at he ⊢
    exact (ihl (mul_iff.1 h).1 hparts.1).joinMul (ihr (mul_iff.1 h).2 hparts.2.1) he
  | div l r ihl ihr =>
    obtain ⟨he, hparts⟩ := forall_mem_parts_iff.1 hnumber
    simp only [operands, List.forall_mem_cons] at hparts
    rw [simplify_div] at he ⊢
    exact (ihl (div_iff.1 h).1 hparts.1).joinDiv (ihr (div_iff.1 h).2 hparts.2.1) he
  | pow l r ihl ihr =>
    obtain ⟨he, hparts⟩ := forall_mem_parts_iff.1 hnumber
    simp only [operands, List.forall_mem_cons] at hparts
    rw [simplify_pow] at he ⊢
    exact (ihl (pow_iff.1 h).1 hparts.1).joinPow (ihr (pow_iff.1 h).2 hparts.2.1) he
  | neg u ih =>
    obtain ⟨he, hparts⟩ := forall_mem_parts_iff.1 hnumber
    simp only [operands, List.forall_mem_cons] at hparts
    rw [simplify_neg] at he ⊢
    exact (ih (neg_iff.1 h) hparts.1).joinNeg he
  | apply f u ih =>
    obtain ⟨he, hparts⟩ := forall_mem_parts_iff.1 hnumber
    simp only [operands, List.forall_mem_cons] at hparts
    rw [simplify_apply] at he ⊢
    exact (ih (apply_iff.1 h) hparts.1).joinApply he

end Rules

end HasLeaves

section Names

variable {α : Type} [Scalar α]

theorem occurrences_simplify_subset (e : Formula α) : e.simplify.occurrences ⊆ e.occurrences := by
  have hleaves : e.HasLeaves (· ∈ e.occurrences) fun _ => True :=
    ⟨fun _ hn => hn, fun _ _ => trivial⟩
  exact fun n hn => (hleaves.simplify fun _ _ _ _ => trivial).names n hn

end Names

end NumericMethods.Formula
