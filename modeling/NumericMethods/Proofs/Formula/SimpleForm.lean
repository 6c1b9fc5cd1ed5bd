/-
  NumericMethods/Proofs/Formula/SimpleForm.lean
  =============================================
  **The form that simplification reaches.**

  `IsSimple` describes the form without the simplifier: in a simple formula no operation
  has a neutral operand, no operation but a division by zero, a power without a finite
  value or a function outside its domain stands over numbers alone, and no number is
  negated.  Simplification always reaches it (`isSimple_simplify`).

  The form allows double negations, and a second pass does nothing but cancel them
  (`IsSimple.simplify_eq`).  Only one rule leaves one behind: a product with a factor minus
  one becomes the negation of the other factor, and that may be a negation already
  (`FlipsNegation`).  A difference from zero becomes a negation as well, but is simplified
  again.  So the first pass is not always the last one, while the second one is
  (`simplify_simplify_eq_iff`).

  What a rule makes of its operands is said once, in `joinAdd_cases` and its siblings; the
  theorems here and in the later modules split into those cases and do not open the rules.
-/
import Mathlib.Algebra.Order.Field.Basic
import NumericMethods.Proofs.Formula.Rereading
import NumericMethods.Proofs.Formula.Simplification

namespace NumericMethods.Formula

/-! ### What each rule does -/

section Rules

variable {α : Type} [Scalar α] {l r : Formula α}

omit [Scalar α] in
@[simp] theorem constant?_const (v : α) : (Formula.const v).constant? = some v := rfl

omit [Scalar α] in
theorem constant?_eq_some_iff {e : Formula α} {v : α} : e.constant? = some v ↔ e = .const v := by
  cases e <;> simp [constant?]

omit [Scalar α] in
theorem constant?_eq_none_iff {e : Formula α} : e.constant? = none ↔ ∀ v, e = .const v → False := by
  cases e <;> simp [constant?]

/-- Two numbers are folded, a zero is dropped, and everything else is kept. -/
theorem joinAdd_cases (l r : Formula α) :
    (∃ a c, l = .const a ∧ r = .const c ∧ joinAdd l r = .const (a + c)) ∨
      (∃ a, l = .const a ∧ (a == 0) = true ∧ r.constant? = none ∧ joinAdd l r = r) ∨
      (∃ c, r = .const c ∧ (c == 0) = true ∧ l.constant? = none ∧ joinAdd l r = l) ∨
      ((l.constant? = none ∨ r.constant? = none) ∧
        (∀ a, l.constant? = some a ∨ r.constant? = some a → (a == 0) = false) ∧
        joinAdd l r = .add l r) := by
  unfold joinAdd
  split
  · exact .inl ⟨_, _, rfl, rfl, rfl⟩
  · rename_i a hr
    rw [← constant?_eq_none_iff] at hr
    split_ifs with hzero
    · exact .inr (.inl ⟨a, rfl, hzero, hr, rfl⟩)
    · exact .inr (.inr (.inr ⟨.inr hr, by simp [hr, hzero], rfl⟩))
  · rename_i c hl
    rw [← constant?_eq_none_iff] at hl
    split_ifs with hzero
    · exact .inr (.inr (.inl ⟨c, rfl, hzero, hl, rfl⟩))
    · exact .inr (.inr (.inr ⟨.inl hl, by simp [hl, hzero], rfl⟩))
  · rename_i hl hr _
    rw [← constant?_eq_none_iff] at hl hr
    exact .inr (.inr (.inr ⟨.inl hl, by simp [hl, hr], rfl⟩))

theorem joinSub_cases (l r : Formula α) :
    (∃ a c, l = .const a ∧ r = .const c ∧ joinSub l r = .const (a - c)) ∨
      (∃ c, r = .const c ∧ (c == 0) = true ∧ l.constant? = none ∧ joinSub l r = l) ∨
      ((l.constant? = none ∨ r.constant? = none) ∧
        (∀ c, r.constant? = some c → (c == 0) = false) ∧ joinSub l r = .sub l r) := by
  unfold joinSub
  split
  · exact .inl ⟨_, _, rfl, rfl, rfl⟩
  · rename_i c hl
    rw [← constant?_eq_none_iff] at hl
    split_ifs with hzero
    · exact .inr (.inl ⟨c, rfl, hzero, hl, rfl⟩)
    · exact .inr (.inr ⟨.inl hl, by simp [hzero], rfl⟩)
  · rename_i hr _
    rw [← constant?_eq_none_iff] at hr
    exact .inr (.inr ⟨.inr hr, by simp [hr], rfl⟩)

theorem isNegation_iff :
    isNegation l r = true ↔ ∃ a, l = .const a ∧ (a == 0) = true ∧ r.constant? = none := by
  unfold isNegation
  split
  · simp
  · rename_i a hr
    rw [← constant?_eq_none_iff] at hr
    simp [hr]
  · rename_i hl _
    simpa using fun a h _ => (hl a h).elim

/-- A single number is looked at on either side: zero, one and minus one have rules. -/
theorem joinMul_cases (l r : Formula α) :
    (∃ a c, l = .const a ∧ r = .const c ∧ joinMul l r = .const (a * c)) ∨
      (∃ a u, (l = .const a ∧ r = u ∨ l = u ∧ r = .const a) ∧ u.constant? = none ∧
        ((a == 0) = true ∧ joinMul l r = .const 0 ∨ (a == 1) = true ∧ joinMul l r = u ∨
          (a == -1) = true ∧ joinMul l r = .neg u)) ∨
      ((l.constant? = none ∨ r.constant? = none) ∧
        (∀ a, l.constant? = some a ∨ r.constant? = some a →
          (a == 0) = false ∧ (a == 1) = false ∧ (a == -1) = false) ∧
        joinMul l r = .mul l r) := by
  unfold joinMul
  split
  · exact .inl ⟨_, _, rfl, rfl, rfl⟩
  · rename_i a hr
    rw [← constant?_eq_none_iff] at hr
    split_ifs with hzero hone hminus
    · exact .inr (.inl ⟨a, r, .inl ⟨rfl, rfl⟩, hr, .inl ⟨hzero, rfl⟩⟩)
    · exact .inr (.inl ⟨a, r, .inl ⟨rfl, rfl⟩, hr, .inr (.inl ⟨hone, rfl⟩)⟩)
    · exact .inr (.inl ⟨a, r, .inl ⟨rfl, rfl⟩, hr, .inr (.inr ⟨hminus, rfl⟩)⟩)
    · exact .inr (.inr ⟨.inr hr, by simp [hr, hzero, hone, hminus], rfl⟩)
  · rename_i c hl
    rw [← constant?_eq_none_iff] at hl
    split_ifs with hzero hone hminus
    · exact .inr (.inl ⟨c, l, .inr ⟨rfl, rfl⟩, hl, .inl ⟨hzero, rfl⟩⟩)
    · exact .inr (.inl ⟨c, l, .inr ⟨rfl, rfl⟩, hl, .inr (.inl ⟨hone, rfl⟩)⟩)
    · exact .inr (.inl ⟨c, l, .inr ⟨rfl, rfl⟩, hl, .inr (.inr ⟨hminus, rfl⟩)⟩)
    · exact .inr (.inr ⟨.inl hl, by simp [hl, hzero, hone, hminus], rfl⟩)
  · rename_i hl hr _
    rw [← constant?_eq_none_iff] at hl hr
    exact .inr (.inr ⟨.inl hl, by simp [hl, hr], rfl⟩)

/-- Two numbers are kept if the second one is zero. -/
theorem joinDiv_cases (l r : Formula α) :
    (∃ a c, l = .const a ∧ r = .const c ∧ (c == 0) = false ∧ joinDiv l r = .const (a / c)) ∨
      (∃ a, l = .const a ∧ (a == 0) = true ∧ r.constant? = none ∧ joinDiv l r = .const 0) ∨
      (∃ c, r = .const c ∧ (c == 1) = true ∧ l.constant? = none ∧ joinDiv l r = l) ∨
      ((∀ a c, l.constant? = some a → r.constant? = some c → (c == 0) = true) ∧
        (∀ a, l.constant? = some a → r.constant? = none → (a == 0) = false) ∧
        (∀ c, r.constant? = some c → l.constant? = none → (c == 1) = false) ∧
        joinDiv l r = .div l r) := by
  unfold joinDiv
  split
  · rename_i a c
    split_ifs with hzero
    · exact .inr (.inr (.inr ⟨by simp [hzero], by simp,
        by simp, rfl⟩))
    · exact .inl ⟨a, c, rfl, rfl, Bool.eq_false_iff.2 hzero, rfl⟩
  · rename_i a hr
    rw [← constant?_eq_none_iff] at hr
    split_ifs with hzero
    · exact .inr (.inl ⟨a, rfl, hzero, hr, rfl⟩)
    · exact .inr (.inr (.inr ⟨by simp [hr], by simp [hzero], by simp [hr], rfl⟩))
  · rename_i c hl
    rw [← constant?_eq_none_iff] at hl
    split_ifs with hone
    · exact .inr (.inr (.inl ⟨c, rfl, hone, hl, rfl⟩))
    · exact .inr (.inr (.inr ⟨by simp [hl], by simp [hl], by simp [hone], rfl⟩))
  · rename_i hl hr _
    rw [← constant?_eq_none_iff] at hl hr
    exact .inr (.inr (.inr ⟨by simp [hl], by simp [hl], by simp [hr], rfl⟩))

theorem joinPowConst_cases (u : Formula α) (c : α) :
    (c == 0) = true ∧ joinPowConst u c = .const 1 ∨ (c == 1) = true ∧ joinPowConst u c = u ∨
      ((c == 0) = false ∧ (c == 1) = false) ∧ joinPowConst u c = .pow u (.const c) := by
  rw [joinPowConst]
  cases c == 0 <;> cases c == 1 <;> simp

/-- Two numbers are folded if they have a finite power; otherwise only the exponent is
    looked at. -/
theorem joinPow_cases (l r : Formula α) :
    (∃ a c w, l = .const a ∧ r = .const c ∧ finitePower? a c = some w ∧
        joinPow l r = .const w) ∨
      ((∀ a c, l.constant? = some a → r.constant? = some c → finitePower? a c = none) ∧
        ((∃ c, r = .const c ∧ (c == 0) = true ∧ joinPow l r = .const 1) ∨
          (∃ c, r = .const c ∧ (c == 1) = true ∧ joinPow l r = l) ∨
          (∀ c, r.constant? = some c → (c == 0) = false ∧ (c == 1) = false) ∧
            joinPow l r = .pow l r)) := by
  have hrest : ∀ (u : Formula α) (c : α),
      (∃ d, Formula.const c = .const d ∧ (d == 0) = true ∧ joinPowConst u c = .const 1) ∨
        (∃ d, Formula.const c = .const d ∧ (d == 1) = true ∧ joinPowConst u c = u) ∨
        (∀ d, (Formula.const c).constant? = some d → (d == 0) = false ∧ (d == 1) = false) ∧
          joinPowConst u c = .pow u (.const c) := by
    intro u c
    rcases joinPowConst_cases u c with h | h | ⟨hne, h⟩
    · exact .inl ⟨c, rfl, h⟩
    · exact .inr (.inl ⟨c, rfl, h⟩)
    · exact .inr (.inr ⟨by rintro _ ⟨⟩; exact hne, h⟩)
  unfold joinPow
  split
  · rename_i a c
    split
    · rename_i w hw
      exact .inl ⟨a, c, w, rfl, rfl, hw, rfl⟩
    · rename_i hw
      exact .inr ⟨by rintro _ _ ⟨⟩ ⟨⟩; exact hw, hrest _ c⟩
  · rename_i c hl
    rw [← constant?_eq_none_iff] at hl
    exact .inr ⟨by simp [hl], hrest l c⟩
  · rename_i hr _
    rw [← constant?_eq_none_iff] at hr
    exact .inr ⟨by simp [hr], .inr (.inr ⟨by simp [hr], rfl⟩)⟩

theorem joinNeg_cases (u : Formula α) :
    (∃ v, u = .const v ∧ joinNeg u = .const (-v)) ∨ (∃ w, u = .neg w ∧ joinNeg u = w) ∨
      (u.constant? = none ∧ (∀ w, u ≠ .neg w) ∧ joinNeg u = .neg u) := by
  unfold joinNeg
  split
  · exact .inl ⟨_, rfl, rfl⟩
  · exact .inr (.inl ⟨_, rfl, rfl⟩)
  · rename_i hconst hneg
    exact .inr (.inr ⟨constant?_eq_none_iff.2 hconst, hneg, rfl⟩)

theorem joinApply_cases (f : Elementary) (u : Formula α) :
    (∃ v, u = .const v ∧ f.undefinedAt v = false ∧
        joinApply f u = .const (Scalar.elementary f v)) ∨
      ((∀ v, u.constant? = some v → f.undefinedAt v = true) ∧ joinApply f u = .apply f u) := by
  unfold joinApply Elementary.evalAt
  cases u with
  | const v => cases hf : f.undefinedAt v <;> simp [hf]
  | _ => simp [constant?]

end Rules

/-! ### The simple form -/

section Simple

variable {α : Type} [Scalar α] {l r u s : Formula α} {f : Elementary}

/-- No rule applies at any operation, a double negation apart. -/
inductive IsSimple : Formula α → Prop
  | var (n : String) : IsSimple (.var n)
  | const (v : α) : IsSimple (.const v)
  | add {l r : Formula α} (hl : IsSimple l) (hr : IsSimple r)
      (hnumbers : l.constant? = none ∨ r.constant? = none)
      (hneutral : ∀ a, l.constant? = some a ∨ r.constant? = some a → (a == 0) = false) :
      IsSimple (.add l r)
  | sub {l r : Formula α} (hl : IsSimple l) (hr : IsSimple r)
      (hnumbers : l.constant? = none ∨ r.constant? = none)
      (hneutral : ∀ a, l.constant? = some a ∨ r.constant? = some a → (a == 0) = false) :
      IsSimple (.sub l r)
  | mul {l r : Formula α} (hl : IsSimple l) (hr : IsSimple r)
      (hnumbers : l.constant? = none ∨ r.constant? = none)
      (hneutral : ∀ a, l.constant? = some a ∨ r.constant? = some a →
        (a == 0) = false ∧ (a == 1) = false ∧ (a == -1) = false) :
      IsSimple (.mul l r)
  | div {l r : Formula α} (hl : IsSimple l) (hr : IsSimple r)
      (hnumbers : ∀ a c, l.constant? = some a → r.constant? = some c → (c == 0) = true)
      (hzero : ∀ a, l.constant? = some a → r.constant? = none → (a == 0) = false)
      (hone : ∀ c, r.constant? = some c → l.constant? = none → (c == 1) = false) :
      IsSimple (.div l r)
  | pow {l r : Formula α} (hl : IsSimple l) (hr : IsSimple r)
      (hnumbers : ∀ a c, l.constant? = some a → r.constant? = some c → finitePower? a c = none)
      (hneutral : ∀ c, r.constant? = some c → (c == 0) = false ∧ (c == 1) = false) :
      IsSimple (.pow l r)
  | neg {u : Formula α} (hu : IsSimple u) (hnumber : u.constant? = none) : IsSimple (.neg u)
  | apply {f : Elementary} {u : Formula α} (hu : IsSimple u)
      (hnumber : ∀ v, u.constant? = some v → f.undefinedAt v = true) : IsSimple (.apply f u)

namespace IsSimple

/-! Each rule keeps the form. -/

theorem joinAdd (hl : l.IsSimple) (hr : r.IsSimple) : (joinAdd l r).IsSimple := by
  obtain ⟨a, c, -, -, h⟩ | ⟨a, -, -, -, h⟩ | ⟨c, -, -, -, h⟩ | ⟨hnumbers, hneutral, h⟩ :=
    joinAdd_cases l r
  all_goals rw [h]
  · exact .const _
  · exact hr
  · exact hl
  · exact .add hl hr hnumbers hneutral

theorem joinSub (hl : l.IsSimple) (hr : r.IsSimple) (hsign : isNegation l r = false) :
    (joinSub l r).IsSimple := by
  obtain ⟨a, c, -, -, h⟩ | ⟨c, -, -, -, h⟩ | ⟨hnumbers, hneutral, h⟩ := joinSub_cases l r
  all_goals rw [h]
  · exact .const _
  · exact hl
  · refine .sub hl hr hnumbers ?_
    rintro a (ha | ha)
    · -- a zero on the left would have made the difference a negation
      by_contra hzero
      rw [Bool.not_eq_false] at hzero
      have hr' : r.constant? = none := hnumbers.resolve_left (by rw [ha]; exact nofun)
      rw [isNegation_iff.2 ⟨a, constant?_eq_some_iff.1 ha, hzero, hr'⟩] at hsign
      cases hsign
    · exact hneutral a ha

theorem joinMul (hl : l.IsSimple) (hr : r.IsSimple) : (joinMul l r).IsSimple := by
  obtain ⟨a, c, -, -, h⟩ | ⟨a, u, hu, hnumber, h⟩ | ⟨hnumbers, hneutral, h⟩ := joinMul_cases l r
  · rw [h]
    exact .const _
  · have hsimple : u.IsSimple := by rcases hu with ⟨-, rfl⟩ | ⟨rfl, -⟩ <;> assumption
    rcases h with ⟨-, h⟩ | ⟨-, h⟩ | ⟨-, h⟩ <;> rw [h]
    · exact .const _
    · exact hsimple
    · exact .neg hsimple hnumber
  · rw [h]
    exact .mul hl hr hnumbers hneutral

theorem joinDiv (hl : l.IsSimple) (hr : r.IsSimple) : (joinDiv l r).IsSimple := by
  obtain ⟨a, c, -, -, -, h⟩ | ⟨a, -, -, -, h⟩ | ⟨c, -, -, -, h⟩ | ⟨hnumbers, hzero, hone, h⟩ :=
    joinDiv_cases l r
  all_goals rw [h]
  · exact .const _
  · exact .const _
  · exact hl
  · exact .div hl hr hnumbers hzero hone

theorem joinPow (hl : l.IsSimple) (hr : r.IsSimple) : (joinPow l r).IsSimple := by
  obtain ⟨a, c, w, -, -, -, h⟩ | ⟨hnumbers, ⟨c, -, -, h⟩ | ⟨c, -, -, h⟩ | ⟨hneutral, h⟩⟩ :=
    joinPow_cases l r
  all_goals rw [h]
  · exact .const _
  · exact .const _
  · exact hl
  · exact .pow hl hr hnumbers hneutral

theorem joinNeg (hu : u.IsSimple) : (joinNeg u).IsSimple := by
  obtain ⟨v, -, h⟩ | ⟨w, rfl, h⟩ | ⟨hnumber, -, h⟩ := joinNeg_cases u
  all_goals rw [h]
  · exact .const _
  · cases hu with
    | neg hw _ => exact hw
  · exact .neg hu hnumber

theorem joinApply (f : Elementary) (hu : u.IsSimple) : (joinApply f u).IsSimple := by
  obtain ⟨v, -, -, h⟩ | ⟨hnumber, h⟩ := joinApply_cases f u
  all_goals rw [h]
  · exact .const _
  · exact .apply hu hnumber

/-! No rule changes an operation in the form. -/

theorem joinAdd_eq (h : (Formula.add l r).IsSimple) : Formula.joinAdd l r = .add l r := by
  cases h with
  | add _ _ hnumbers hneutral =>
    obtain ⟨a, c, rfl, rfl, -⟩ | ⟨a, rfl, ha, -⟩ | ⟨c, rfl, hc, -⟩ | ⟨-, -, h⟩ :=
      joinAdd_cases l r
    · simp [constant?] at hnumbers
    · simp [hneutral a (.inl rfl)] at ha
    · simp [hneutral c (.inr rfl)] at hc
    · exact h

theorem joinSub_eq (h : (Formula.sub l r).IsSimple) :
    isNegation l r = false ∧ Formula.joinSub l r = .sub l r := by
  cases h with
  | sub _ _ hnumbers hneutral =>
    constructor
    · rw [Bool.eq_false_iff, Ne, isNegation_iff]
      rintro ⟨a, rfl, ha, -⟩
      simp [hneutral a (.inl rfl)] at ha
    · obtain ⟨a, c, rfl, rfl, -⟩ | ⟨c, rfl, hc, -⟩ | ⟨-, -, h⟩ := joinSub_cases l r
      · simp [constant?] at hnumbers
      · simp [hneutral c (.inr rfl)] at hc
      · exact h

theorem joinMul_eq (h : (Formula.mul l r).IsSimple) : Formula.joinMul l r = .mul l r := by
  cases h with
  | mul _ _ hnumbers hneutral =>
    obtain ⟨a, c, rfl, rfl, -⟩ | ⟨a, u, hu, -, ha⟩ | ⟨-, -, h⟩ := joinMul_cases l r
    · simp [constant?] at hnumbers
    · have hfactor : l.constant? = some a ∨ r.constant? = some a := by
        rcases hu with ⟨rfl, -⟩ | ⟨-, rfl⟩
        · exact .inl rfl
        · exact .inr rfl
      simp [hneutral a hfactor] at ha
    · exact h

theorem joinDiv_eq (h : (Formula.div l r).IsSimple) : Formula.joinDiv l r = .div l r := by
  cases h with
  | div _ _ hnumbers hzero hone =>
    obtain ⟨a, c, rfl, rfl, hc, -⟩ | ⟨a, rfl, ha, hr, -⟩ | ⟨c, rfl, hc, hl, -⟩ | ⟨-, -, -, h⟩ :=
      joinDiv_cases l r
    · simp [hnumbers a c rfl rfl] at hc
    · simp [hzero a rfl hr] at ha
    · simp [hone c rfl hl] at hc
    · exact h

theorem joinPow_eq (h : (Formula.pow l r).IsSimple) : Formula.joinPow l r = .pow l r := by
  cases h with
  | pow _ _ hnumbers hneutral =>
    obtain ⟨a, c, w, rfl, rfl, hw, -⟩ | ⟨-, ⟨c, rfl, hc, -⟩ | ⟨c, rfl, hc, -⟩ | ⟨-, h⟩⟩ :=
      joinPow_cases l r
    · simp [hnumbers a c rfl rfl] at hw
    · simp [hneutral c rfl] at hc
    · simp [hneutral c rfl] at hc
    · exact h

theorem joinApply_eq (h : (Formula.apply f u).IsSimple) : Formula.joinApply f u = .apply f u := by
  cases h with
  | apply _ hnumber =>
    obtain ⟨v, rfl, hv, -⟩ | ⟨-, h⟩ := joinApply_cases f u
    · simp [hnumber v rfl] at hv
    · exact h

end IsSimple

/-! ### Double negations -/

/-- Nothing is negated twice. -/
def NoDoubleNegation (e : Formula α) : Prop := ∀ u, .neg (.neg u) ∉ e.parts

/-- The formula with its double negations cancelled, from the leaves on. -/
def cancelled : Formula α → Formula α
  | .var n => .var n
  | .const v => .const v
  | .add l r => .add l.cancelled r.cancelled
  | .sub l r => .sub l.cancelled r.cancelled
  | .mul l r => .mul l.cancelled r.cancelled
  | .div l r => .div l.cancelled r.cancelled
  | .pow l r => .pow l.cancelled r.cancelled
  | .neg u =>
    match u.cancelled with
    | .neg w => w
    | u' => .neg u'
  | .apply f u => .apply f u.cancelled

namespace NoDoubleNegation

omit [Scalar α]

theorem operation_iff {e : Formula α} (hparts : e.parts = e :: (l.parts ++ r.parts))
    (hneg : ∀ u, e ≠ .neg u) :
    e.NoDoubleNegation ↔ l.NoDoubleNegation ∧ r.NoDoubleNegation := by
  simp only [NoDoubleNegation, hparts, List.mem_cons, List.mem_append, not_or, forall_and]
  exact and_iff_right fun u h => hneg _ h.symm

@[simp] theorem var (n : String) : (Formula.var n : Formula α).NoDoubleNegation := by
  simp [NoDoubleNegation, parts]

@[simp] theorem const (v : α) : (Formula.const v).NoDoubleNegation := by
  simp [NoDoubleNegation, parts]

@[simp] theorem add_iff :
    (Formula.add l r).NoDoubleNegation ↔ l.NoDoubleNegation ∧ r.NoDoubleNegation :=
  operation_iff rfl nofun

@[simp] theorem sub_iff :
    (Formula.sub l r).NoDoubleNegation ↔ l.NoDoubleNegation ∧ r.NoDoubleNegation :=
  operation_iff rfl nofun

@[simp] theorem mul_iff :
    (Formula.mul l r).NoDoubleNegation ↔ l.NoDoubleNegation ∧ r.NoDoubleNegation :=
  operation_iff rfl nofun

@[simp] theorem div_iff :
    (Formula.div l r).NoDoubleNegation ↔ l.NoDoubleNegation ∧ r.NoDoubleNegation :=
  operation_iff rfl nofun

@[simp] theorem pow_iff :
    (Formula.pow l r).NoDoubleNegation ↔ l.NoDoubleNegation ∧ r.NoDoubleNegation :=
  operation_iff rfl nofun

@[simp] theorem apply_iff : (Formula.apply f u).NoDoubleNegation ↔ u.NoDoubleNegation := by
  simp [NoDoubleNegation, parts]

@[simp] theorem neg_iff :
    (Formula.neg u).NoDoubleNegation ↔ (∀ w, u ≠ .neg w) ∧ u.NoDoubleNegation := by
  simp only [NoDoubleNegation, parts, List.mem_cons, Formula.neg.injEq, not_or, forall_and]
  exact and_congr_left fun _ => forall_congr' fun w => ne_comm

end NoDoubleNegation

section Cancelling

omit [Scalar α]

theorem cancelled_neg_cases (u : Formula α) :
    (∃ w, u.cancelled = .neg w ∧ (Formula.neg u).cancelled = w) ∨
      ((∀ w, u.cancelled ≠ .neg w) ∧ (Formula.neg u).cancelled = .neg u.cancelled) := by
  rw [cancelled]
  split
  · rename_i w hw
    exact .inl ⟨w, hw, rfl⟩
  · rename_i hw
    exact .inr ⟨hw, rfl⟩

theorem noDoubleNegation_cancelled (e : Formula α) : e.cancelled.NoDoubleNegation := by
  induction e with
  | var n => exact .var n
  | const v => exact .const v
  | add l r ihl ihr => exact NoDoubleNegation.add_iff.2 ⟨ihl, ihr⟩
  | sub l r ihl ihr => exact NoDoubleNegation.sub_iff.2 ⟨ihl, ihr⟩
  | mul l r ihl ihr => exact NoDoubleNegation.mul_iff.2 ⟨ihl, ihr⟩
  | div l r ihl ihr => exact NoDoubleNegation.div_iff.2 ⟨ihl, ihr⟩
  | pow l r ihl ihr => exact NoDoubleNegation.pow_iff.2 ⟨ihl, ihr⟩
  | apply f u ih => exact NoDoubleNegation.apply_iff.2 ih
  | neg u ih =>
    obtain ⟨w, hw, h⟩ | ⟨hw, h⟩ := cancelled_neg_cases u
    · rw [hw, NoDoubleNegation.neg_iff] at ih
      rw [h]
      exact ih.2
    · rw [h]
      exact NoDoubleNegation.neg_iff.2 ⟨hw, ih⟩

theorem cancelled_eq_self_iff {e : Formula α} : e.cancelled = e ↔ e.NoDoubleNegation := by
  constructor
  · intro h
    rw [← h]
    exact noDoubleNegation_cancelled e
  · intro h
    induction e with
    | var n => rfl
    | const v => rfl
    | neg u ih =>
      obtain ⟨hne, hu⟩ := NoDoubleNegation.neg_iff.1 h
      obtain ⟨w, hw, -⟩ | ⟨-, hneg⟩ := cancelled_neg_cases u
      · rw [ih hu] at hw
        exact absurd hw (hne w)
      · rw [hneg, ih hu]
    | apply f u ih => rw [cancelled, ih (NoDoubleNegation.apply_iff.1 h)]
    | add l r ihl ihr =>
      obtain ⟨hl, hr⟩ := NoDoubleNegation.add_iff.1 h
      rw [cancelled, ihl hl, ihr hr]
    | sub l r ihl ihr =>
      obtain ⟨hl, hr⟩ := NoDoubleNegation.sub_iff.1 h
      rw [cancelled, ihl hl, ihr hr]
    | mul l r ihl ihr =>
      obtain ⟨hl, hr⟩ := NoDoubleNegation.mul_iff.1 h
      rw [cancelled, ihl hl, ihr hr]
    | div l r ihl ihr =>
      obtain ⟨hl, hr⟩ := NoDoubleNegation.div_iff.1 h
      rw [cancelled, ihl hl, ihr hr]
    | pow l r ihl ihr =>
      obtain ⟨hl, hr⟩ := NoDoubleNegation.pow_iff.1 h
      rw [cancelled, ihl hl, ihr hr]

end Cancelling

/-- On a formula that is no number, the rule of a negation cancels a negation. -/
theorem cancelled_neg (hnumber : u.cancelled.constant? = none) :
    (Formula.neg u).cancelled = joinNeg u.cancelled := by
  obtain ⟨w, hw, h⟩ | ⟨hw, h⟩ := cancelled_neg_cases u
  · rw [h, hw, joinNeg]
  · obtain ⟨v, hv, -⟩ | ⟨w, hw', -⟩ | ⟨-, -, h'⟩ := joinNeg_cases u.cancelled
    · rw [hv] at hnumber
      cases hnumber
    · exact absurd hw' (hw w)
    · rw [h, h']

/-! ### The second pass -/

namespace IsSimple

/-- Cancelling keeps the form, and makes no number and none out of a number. -/
theorem cancelled (h : s.IsSimple) :
    s.cancelled.IsSimple ∧ s.cancelled.constant? = s.constant? := by
  induction h with
  | var n => exact ⟨.var n, rfl⟩
  | const v => exact ⟨.const v, rfl⟩
  | add _ _ hnumbers hneutral ihl ihr =>
    rw [← ihl.2, ← ihr.2] at hnumbers hneutral
    exact ⟨.add ihl.1 ihr.1 hnumbers hneutral, rfl⟩
  | sub _ _ hnumbers hneutral ihl ihr =>
    rw [← ihl.2, ← ihr.2] at hnumbers hneutral
    exact ⟨.sub ihl.1 ihr.1 hnumbers hneutral, rfl⟩
  | mul _ _ hnumbers hneutral ihl ihr =>
    rw [← ihl.2, ← ihr.2] at hnumbers hneutral
    exact ⟨.mul ihl.1 ihr.1 hnumbers hneutral, rfl⟩
  | div _ _ hnumbers hzero hone ihl ihr =>
    rw [← ihl.2, ← ihr.2] at hnumbers hzero hone
    exact ⟨.div ihl.1 ihr.1 hnumbers hzero hone, rfl⟩
  | pow _ _ hnumbers hneutral ihl ihr =>
    rw [← ihl.2, ← ihr.2] at hnumbers
    rw [← ihr.2] at hneutral
    exact ⟨.pow ihl.1 ihr.1 hnumbers hneutral, rfl⟩
  | @neg u _ hnumber ih =>
    rw [← ih.2] at hnumber
    obtain ⟨w, hw, h⟩ | ⟨-, h⟩ := cancelled_neg_cases u
    · -- below the inner negation stands no number
      rw [hw] at ih
      rw [h]
      cases ih.1 with
      | neg hsimple hnone => exact ⟨hsimple, hnone⟩
    · rw [h]
      exact ⟨.neg ih.1 hnumber, rfl⟩
  | apply _ hnumber ih =>
    rw [← ih.2] at hnumber
    exact ⟨.apply ih.1 hnumber, rfl⟩

theorem simplify_eq (h : s.IsSimple) : s.simplify = s.cancelled := by
  induction h with
  | var n => exact simplify_var n
  | const v => exact simplify_const v
  | add hl hr hnumbers hneutral ihl ihr =>
    rw [simplify_add, ihl, ihr]
    exact (add hl hr hnumbers hneutral).cancelled.1.joinAdd_eq
  | sub hl hr hnumbers hneutral ihl ihr =>
    obtain ⟨hsign, hkept⟩ := (sub hl hr hnumbers hneutral).cancelled.1.joinSub_eq
    rw [simplify_sub, ihl, ihr, hsign, if_neg Bool.false_ne_true]
    exact hkept
  | mul hl hr hnumbers hneutral ihl ihr =>
    rw [simplify_mul, ihl, ihr]
    exact (mul hl hr hnumbers hneutral).cancelled.1.joinMul_eq
  | div hl hr hnumbers hzero hone ihl ihr =>
    rw [simplify_div, ihl, ihr]
    exact (div hl hr hnumbers hzero hone).cancelled.1.joinDiv_eq
  | pow hl hr hnumbers hneutral ihl ihr =>
    rw [simplify_pow, ihl, ihr]
    exact (pow hl hr hnumbers hneutral).cancelled.1.joinPow_eq
  | neg hu hnumber ih =>
    rw [simplify_neg, ih, cancelled_neg (hu.cancelled.2.trans hnumber)]
  | apply hu hnumber ih =>
    rw [simplify_apply, ih]
    exact (apply hu hnumber).cancelled.1.joinApply_eq

end IsSimple

theorem isSimple_simplify (e : Formula α) : e.simplify.IsSimple := by
  induction e with
  | var n =>
    rw [simplify_var]
    exact .var n
  | const v =>
    rw [simplify_const]
    exact .const v
  | add l r ihl ihr =>
    rw [simplify_add]
    exact ihl.joinAdd ihr
  | sub l r ihl ihr =>
    rw [simplify_sub]
    split
    · -- the second operand is simplified a second time, below its sign
      rw [simplify_neg, ihr.simplify_eq]
      exact ihr.cancelled.1.joinNeg
    · rename_i hsign
      exact ihl.joinSub ihr (Bool.eq_false_iff.2 hsign)
  | mul l r ihl ihr =>
    rw [simplify_mul]
    exact ihl.joinMul ihr
  | div l r ihl ihr =>
    rw [simplify_div]
    exact ihl.joinDiv ihr
  | pow l r ihl ihr =>
    rw [simplify_pow]
    exact ihl.joinPow ihr
  | neg u ih =>
    rw [simplify_neg]
    exact ih.joinNeg
  | apply f u ih =>
    rw [simplify_apply]
    exact ih.joinApply f

theorem simplify_simplify (e : Formula α) : e.simplify.simplify = e.simplify.cancelled :=
  (isSimple_simplify e).simplify_eq

/-- A difference from zero, with the second pass over its operand carried out. -/
theorem simplify_sub_eq (l r : Formula α) :
    (Formula.sub l r).simplify =
      if isNegation l.simplify r.simplify then joinNeg r.simplify.cancelled
      else joinSub l.simplify r.simplify := by
  rw [simplify_sub, simplify_neg, simplify_simplify]

end Simple

/-! ### Where a double negation comes from -/

namespace NoDoubleNegation

variable {α : Type} [Scalar α] {l r u : Formula α}

theorem joinAdd (hl : l.NoDoubleNegation) (hr : r.NoDoubleNegation) :
    (joinAdd l r).NoDoubleNegation := by
  obtain ⟨a, c, -, -, h⟩ | ⟨a, -, -, -, h⟩ | ⟨c, -, -, -, h⟩ | ⟨-, -, h⟩ := joinAdd_cases l r
  all_goals rw [h]
  · exact .const _
  · exact hr
  · exact hl
  · exact add_iff.2 ⟨hl, hr⟩

theorem joinSub (hl : l.NoDoubleNegation) (hr : r.NoDoubleNegation) :
    (joinSub l r).NoDoubleNegation := by
  obtain ⟨a, c, -, -, h⟩ | ⟨c, -, -, -, h⟩ | ⟨-, -, h⟩ := joinSub_cases l r
  all_goals rw [h]
  · exact .const _
  · exact hl
  · exact sub_iff.2 ⟨hl, hr⟩

theorem joinDiv (hl : l.NoDoubleNegation) (hr : r.NoDoubleNegation) :
    (joinDiv l r).NoDoubleNegation := by
  obtain ⟨a, c, -, -, -, h⟩ | ⟨a, -, -, -, h⟩ | ⟨c, -, -, -, h⟩ | ⟨-, -, -, h⟩ :=
    joinDiv_cases l r
  all_goals rw [h]
  · exact .const _
  · exact .const _
  · exact hl
  · exact div_iff.2 ⟨hl, hr⟩

theorem joinPow (hl : l.NoDoubleNegation) (hr : r.NoDoubleNegation) :
    (joinPow l r).NoDoubleNegation := by
  obtain ⟨a, c, w, -, -, -, h⟩ | ⟨-, ⟨c, -, -, h⟩ | ⟨c, -, -, h⟩ | ⟨-, h⟩⟩ := joinPow_cases l r
  all_goals rw [h]
  · exact .const _
  · exact .const _
  · exact hl
  · exact pow_iff.2 ⟨hl, hr⟩

theorem joinNeg (hu : u.NoDoubleNegation) : (joinNeg u).NoDoubleNegation := by
  obtain ⟨v, -, h⟩ | ⟨w, rfl, h⟩ | ⟨-, hneg, h⟩ := joinNeg_cases u
  all_goals rw [h]
  · exact .const _
  · exact (neg_iff.1 hu).2
  · exact neg_iff.2 ⟨hneg, hu⟩

theorem joinApply (f : Elementary) (hu : u.NoDoubleNegation) :
    (joinApply f u).NoDoubleNegation := by
  obtain ⟨v, -, -, h⟩ | ⟨-, h⟩ := joinApply_cases f u
  all_goals rw [h]
  · exact .const _
  · exact apply_iff.2 hu

end NoDoubleNegation

section Exact

variable {K : Type} [Field K] [LinearOrder K] [IsStrictOrderedRing K] [ExactScalar K]
variable {l r u : Formula K}

/-- One factor becomes minus one, and the other one a negation. -/
def FlipsNegation (l r : Formula K) : Prop :=
  (l.simplify = .const (-1) ∧ ∃ u, r.simplify = .neg u) ∨
    ((∃ u, l.simplify = .neg u) ∧ r.simplify = .const (-1))

theorem simplify_of_flipsNegation (h : FlipsNegation l r) :
    ∃ u, (Formula.mul l r).simplify = .neg (.neg u) := by
  have hzero : ((-1 : K) == 0) = false := decide_eq_false (neg_ne_zero.2 one_ne_zero)
  have hone : ((-1 : K) == 1) = false := decide_eq_false (by linarith [zero_lt_one (α := K)])
  rw [simplify_mul]
  rcases h with ⟨hl, u, hr⟩ | ⟨⟨u, hl⟩, hr⟩
  · rw [hl, hr]
    exact ⟨u, by simp [joinMul, hzero, hone]⟩
  · rw [hl, hr]
    exact ⟨u, by simp [joinMul, hzero, hone]⟩

namespace NoDoubleNegation

theorem joinMul (hl : l.simplify.NoDoubleNegation) (hr : r.simplify.NoDoubleNegation)
    (hflip : ¬ FlipsNegation l r) : (joinMul l.simplify r.simplify).NoDoubleNegation := by
  obtain ⟨a, c, -, -, h⟩ | ⟨a, u, hu, -, h⟩ | ⟨-, -, h⟩ := joinMul_cases l.simplify r.simplify
  · rw [h]
    exact .const _
  · have hother : u.NoDoubleNegation := by
      rcases hu with ⟨-, rfl⟩ | ⟨rfl, -⟩ <;> assumption
    rcases h with ⟨-, h⟩ | ⟨-, h⟩ | ⟨ha, h⟩ <;> rw [h]
    · exact .const _
    · exact hother
    · refine neg_iff.2 ⟨?_, hother⟩
      rintro w rfl
      rw [ExactScalar.beq_iff] at ha
      subst ha
      rcases hu with ⟨hl', hr'⟩ | ⟨hl', hr'⟩
      · exact hflip (.inl ⟨hl', w, hr'⟩)
      · exact hflip (.inr ⟨⟨w, hl'⟩, hr'⟩)
  · rw [h]
    exact mul_iff.2 ⟨hl, hr⟩

end NoDoubleNegation

/-- Only a product can leave a double negation behind. -/
theorem noDoubleNegation_simplify (e : Formula K)
    (h : ∀ l r, .mul l r ∈ e.parts → ¬ FlipsNegation l r) : e.simplify.NoDoubleNegation := by
  induction e with
  | var n =>
    rw [simplify_var]
    exact .var n
  | const v =>
    rw [simplify_const]
    exact .const v
  | add l r ihl ihr =>
    rw [simplify_add]
    exact (ihl fun a b hab => h a b (by simp [parts, hab])).joinAdd
      (ihr fun a b hab => h a b (by simp [parts, hab]))
  | sub l r ihl ihr =>
    have hl := ihl fun a b hab => h a b (by simp [parts, hab])
    have hr := ihr fun a b hab => h a b (by simp [parts, hab])
    rw [simplify_sub_eq, cancelled_eq_self_iff.2 hr]
    split
    · exact hr.joinNeg
    · exact hl.joinSub hr
  | mul l r ihl ihr =>
    rw [simplify_mul]
    exact (ihl fun a b hab => h a b (by simp [parts, hab])).joinMul
      (ihr fun a b hab => h a b (by simp [parts, hab])) (h l r (self_mem_parts _))
  | div l r ihl ihr =>
    rw [simplify_div]
    exact (ihl fun a b hab => h a b (by simp [parts, hab])).joinDiv
      (ihr fun a b hab => h a b (by simp [parts, hab]))
  | pow l r ihl ihr =>
    rw [simplify_pow]
    exact (ihl fun a b hab => h a b (by simp [parts, hab])).joinPow
      (ihr fun a b hab => h a b (by simp [parts, hab]))
  | neg u ih =>
    rw [simplify_neg]
    exact (ih fun a b hab => h a b (by simp [parts, hab])).joinNeg
  | apply f u ih =>
    rw [simplify_apply]
    exact (ih fun a b hab => h a b (by simp [parts, hab])).joinApply f

/-- Another pass changes a simple form exactly if it has a double negation.  All parts of a
    formula reach their last form in one pass if and only if no product among them flips a
    negation, and two passes are always enough. -/
theorem simplify_simplify_eq_iff (e : Formula K) :
    (e.simplify.simplify = e.simplify ↔ e.simplify.NoDoubleNegation) ∧
      ((∀ s ∈ e.parts, s.simplify.simplify = s.simplify) ↔
        ∀ l r, .mul l r ∈ e.parts → ¬ FlipsNegation l r) ∧
      e.simplify.simplify.simplify = e.simplify.simplify := by
  have hpass : ∀ s : Formula K, s.simplify.simplify = s.simplify ↔ s.simplify.NoDoubleNegation := by
    intro s
    rw [simplify_simplify, cancelled_eq_self_iff]
  refine ⟨hpass e, ⟨?_, ?_⟩, ?_⟩
  · intro hall l r hmem hflip
    obtain ⟨u, hu⟩ := simplify_of_flipsNegation hflip
    have hnone := (hpass _).1 (hall _ hmem)
    rw [hu] at hnone
    exact hnone u (self_mem_parts _)
  · intro hflips s hs
    refine (hpass s).2 (noDoubleNegation_simplify s fun l r hmem => hflips l r ?_)
    exact (within_of_mem_parts hs).parts hmem
  · -- the second pass leaves no double negation for a third one
    rw [hpass, simplify_simplify]
    exact noDoubleNegation_cancelled _

/-- A difference from zero, of a product that becomes a negation: its double negation is
    cancelled at once. -/
theorem simplify_simplify_of_zero_sub :
    let e : Formula ℚ := .sub (.const 0) (.mul (.const (-1)) (.var "x"))
    e.simplify = .var "x" ∧ e.simplify.simplify = e.simplify := by
  intro e
  have hproduct : (Formula.mul (.const (-1)) (.var "x") : Formula ℚ).simplify = .neg (.var "x") := by
    rw [simplify_mul, simplify_const, simplify_var]
    rfl
  have he : e.simplify = .var "x" := by
    rw [simplify_sub_eq, simplify_const, hproduct]
    rfl
  refine ⟨he, (simplify_simplify_eq_iff e).1.2 ?_⟩
  rw [he]
  exact .var "x"

/-- Minus one times the negation of the variable takes two passes. -/
theorem product_with_minus_one_takes_two_passes :
    let e : Formula ℚ := .mul (.const (-1)) (.neg (.var "x"))
    e.simplify = .neg (.neg (.var "x")) ∧ e.simplify.simplify = .var "x" ∧
      e.simplify.simplify ≠ e.simplify := by
  intro e
  have hneg : (Formula.neg (.var "x") : Formula ℚ).simplify = .neg (.var "x") := by
    rw [simplify_neg, simplify_var]
    rfl
  have he : e.simplify = .neg (.neg (.var "x")) := by
    rw [simplify_mul, simplify_const, hneg]
    rfl
  have he' : e.simplify.simplify = .var "x" := by
    rw [simplify_simplify, he]
    rfl
  refine ⟨he, he', ?_⟩
  rw [he', he]
  exact nofun

end Exact

end NumericMethods.Formula
