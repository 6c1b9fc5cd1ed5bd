/-
  NumericMethods/Proofs/Formula/FiniteNumbers.lean
  ================================================
  **The numbers of a simplified formula, and whether its text is accepted.**

  A formula with finite numbers may be simplified to one with numbers that are not finite.
  All rules but that of powers fold two numbers without looking at the result, so any of them
  can overflow (`Overflows`), and nothing else makes such a number: the simple forms of all
  parts have finite numbers if and only if no part overflows
  (`simplify_hasFiniteNumbers_iff`).  The derivative of a formula with finite numbers has
  finite numbers before it is simplified, and the same holds of it then.

  A number that is not finite is printed as a name, `inf` or `NaN`.  The printed form is the
  one of a formula with these names as variables, which the reader refuses.  So the text of a
  formula in `x` is accepted if and only if its numbers are finite
  (`exists_read_text_iff_finite`).
-/
import Mathlib
import NumericMethods.Proofs.Formula.ConstantFolding
import NumericMethods.Proofs.Scalar.Finiteness

namespace NumericMethods.Formula

section Generic

variable {α : Type} [Scalar α] {l r u e s o : Formula α} {f : Elementary} {v : α}
variable {P : String → Prop}

/-! ### Overflow -/

/-- The operands become finite numbers, and the rule of the operation folds them to a number
    that is not finite. -/
def Overflows : Formula α → Prop
  | .add l r => ∃ a c, l.simplify = .const a ∧ r.simplify = .const c ∧
      Scalar.isFinite a = true ∧ Scalar.isFinite c = true ∧ Scalar.isFinite (a + c) = false
  | .sub l r => ∃ a c, l.simplify = .const a ∧ r.simplify = .const c ∧
      Scalar.isFinite a = true ∧ Scalar.isFinite c = true ∧ Scalar.isFinite (a - c) = false
  | .mul l r => ∃ a c, l.simplify = .const a ∧ r.simplify = .const c ∧
      Scalar.isFinite a = true ∧ Scalar.isFinite c = true ∧ Scalar.isFinite (a * c) = false
  | .div l r => ∃ a c, l.simplify = .const a ∧ r.simplify = .const c ∧
      Scalar.isFinite a = true ∧ Scalar.isFinite c = true ∧ (c == 0) = false ∧
        Scalar.isFinite (a / c) = false
  | .apply f u => ∃ a, u.simplify = .const a ∧ Scalar.isFinite a = true ∧
      f.undefinedAt a = false ∧ Scalar.isFinite (Scalar.elementary f a) = false
  | _ => False

/-- If the simple form is a number, it is finite. -/
def IsFiniteIfNumber (e : Formula α) : Prop :=
  ∀ v, e.simplify = .const v → Scalar.isFinite v = true

/-- All numbers of the formula are finite. -/
def HasFiniteNumbers (e : Formula α) : Prop := ∀ v ∈ e.constants, Scalar.isFinite v = true

/-- An operation that folds two numbers without a look at the result, and makes finite numbers
    in all other cases. -/
theorem isFiniteIfNumber_operation_iff {op : α → α → α} {Other : α → Prop}
    (hrule : ∀ v, e.simplify = .const v ↔
      (∃ a c, l.simplify = .const a ∧ r.simplify = .const c ∧ op a c = v) ∨ Other v)
    (hother : ∀ v, Other v → Scalar.isFinite v = true) (hl : l.IsFiniteIfNumber)
    (hr : r.IsFiniteIfNumber) :
    e.IsFiniteIfNumber ↔ ¬ ∃ a c, l.simplify = .const a ∧ r.simplify = .const c ∧
      Scalar.isFinite a = true ∧ Scalar.isFinite c = true ∧ Scalar.isFinite (op a c) = false := by
  constructor
  · rintro h ⟨a, c, ha, hc, -, -, hinfinite⟩
    rw [h _ ((hrule _).2 (.inl ⟨a, c, ha, hc, rfl⟩))] at hinfinite
    cases hinfinite
  · intro h v hv
    rcases (hrule v).1 hv with ⟨a, c, ha, hc, rfl⟩ | hv
    · by_contra hinfinite
      exact h ⟨a, c, ha, hc, hl a ha, hr c hc, Bool.eq_false_iff.2 hinfinite⟩
    · exact hother v hv

section Laws

variable [Scalar.TracksFiniteness α]

open Scalar.TracksFiniteness

/-- With operands that are finite where they are numbers, only an overflow makes a number
    that is not. -/
theorem isFiniteIfNumber_iff (he : e.HasFiniteNumbers)
    (hoperands : ∀ o ∈ e.operands, o.IsFiniteIfNumber) :
    e.IsFiniteIfNumber ↔ ¬ e.Overflows := by
  cases e with
  | var n => simp [IsFiniteIfNumber, Overflows]
  | const a =>
    refine ⟨fun _ => id, fun _ v hv => ?_⟩
    rw [simplify_const] at hv
    cases hv
    exact he a (List.mem_singleton.2 rfl)
  | add l r =>
    simp only [operands, List.forall_mem_cons] at hoperands
    refine isFiniteIfNumber_operation_iff (fun v => ?_) (fun v => False.elim) hoperands.1
      hoperands.2.1
    rw [simplify_add_eq_const_iff, or_false]
  | sub l r =>
    simp only [operands, List.forall_mem_cons] at hoperands
    refine isFiniteIfNumber_operation_iff (fun v => ?_) (fun v => False.elim) hoperands.1
      hoperands.2.1
    rw [simplify_sub_eq_const_iff, or_false]
  | mul l r =>
    simp only [operands, List.forall_mem_cons] at hoperands
    refine isFiniteIfNumber_operation_iff (fun v => simplify_mul_eq_const_iff) (fun v => ?_)
      hoperands.1 hoperands.2.1
    rintro ⟨-, rfl⟩
    exact isFinite_zero
  | div l r =>
    simp only [operands, List.forall_mem_cons] at hoperands
    constructor
    · rintro h ⟨a, c, hl, hr, -, -, hc, hinfinite⟩
      rw [h _ (simplify_div_eq_const_iff.2 (.inl ⟨a, c, hl, hr, hc, rfl⟩))] at hinfinite
      cases hinfinite
    · intro h v hv
      rcases simplify_div_eq_const_iff.1 hv with ⟨a, c, hl, hr, hc, rfl⟩ | ⟨-, rfl⟩
      · by_contra hinfinite
        exact h ⟨a, c, hl, hr, hoperands.1 a hl, hoperands.2.1 c hr, hc,
          Bool.eq_false_iff.2 hinfinite⟩
      · exact isFinite_zero
  | pow l r =>
    -- the one rule that looks at its result
    simp only [operands, List.forall_mem_cons] at hoperands
    refine ⟨fun _ => id, fun _ v hv => ?_⟩
    rcases simplify_pow_eq_const_iff.1 hv with ⟨a, c, -, -, hw⟩ | ⟨c, -, -, ⟨-, rfl⟩ | ⟨-, -, hl⟩⟩
    · exact (finitePower?_eq_some_iff.1 hw).2
    · exact isFinite_one
    · exact hoperands.1 v hl
  | neg u =>
    simp only [operands, List.forall_mem_cons] at hoperands
    refine ⟨fun _ => id, fun _ v hv => ?_⟩
    obtain ⟨a, hu, rfl⟩ := simplify_neg_eq_const_iff.1 hv
    rw [isFinite_neg]
    exact hoperands.1 a hu
  | apply f u =>
    simp only [operands, List.forall_mem_cons] at hoperands
    constructor
    · rintro h ⟨a, hu, -, hf, hinfinite⟩
      rw [h _ (simplify_apply_eq_const_iff.2 ⟨a, hu, hf, rfl⟩)] at hinfinite
      cases hinfinite
    · intro h v hv
      obtain ⟨a, hu, hf, rfl⟩ := simplify_apply_eq_const_iff.1 hv
      by_contra hinfinite
      exact h ⟨a, hu, hoperands.1 a hu, hf, Bool.eq_false_iff.2 hinfinite⟩

omit [Scalar.TracksFiniteness α] in
theorem HasFiniteNumbers.of_mem_parts (he : e.HasFiniteNumbers) (hs : s ∈ e.parts) :
    s.HasFiniteNumbers :=
  fun v hv => he v ((within_of_mem_parts hs).constants hv)

theorem forall_isFiniteIfNumber_iff (he : e.HasFiniteNumbers) :
    (∀ s ∈ e.parts, s.IsFiniteIfNumber) ↔ ∀ s ∈ e.parts, ¬ s.Overflows := by
  induction e using induction_on_operands with
  | h e ih =>
    have hfinite : ∀ o ∈ e.operands, o.HasFiniteNumbers := fun o ho =>
      he.of_mem_parts (mem_parts_iff.2 (.inr ⟨o, ho, self_mem_parts o⟩))
    have hparts : (∀ o ∈ e.operands, ∀ s ∈ o.parts, s.IsFiniteIfNumber) ↔
        ∀ o ∈ e.operands, ∀ s ∈ o.parts, ¬ s.Overflows :=
      forall₂_congr fun o ho => ih o ho (hfinite o ho)
    rw [forall_mem_parts_iff, forall_mem_parts_iff, ← hparts]
    refine and_congr_left fun h => ?_
    exact isFiniteIfNumber_iff he fun o ho => h o ho o (self_mem_parts o)

/-- The simple forms of all parts have finite numbers if and only if no part overflows. -/
theorem simplify_hasFiniteNumbers_iff (he : e.HasFiniteNumbers) :
    (∀ s ∈ e.parts, s.simplify.HasFiniteNumbers) ↔ ∀ s ∈ e.parts, ¬ s.Overflows := by
  rw [← forall_isFiniteIfNumber_iff he]
  constructor
  · intro h s hs v hv
    have hnumbers := h s hs
    rw [hv] at hnumbers
    exact hnumbers v (List.mem_singleton.2 rfl)
  · intro h s hs
    have hleaves : s.HasLeaves (fun _ => True) fun v => Scalar.isFinite v = true :=
      ⟨fun _ _ => trivial, he.of_mem_parts hs⟩
    exact (hleaves.simplify fun t ht => h t ((within_of_mem_parts hs).parts ht)).numbers

/-! ### The derivative -/

/-- The rules of the derivative bring in the numbers zero, one, minus one and two. -/
theorem HasLeaves.derivative (he : e.HasLeaves P fun v => Scalar.isFinite v = true)
    (name : String) : (e.derivative name).HasLeaves P fun v => Scalar.isFinite v = true := by
  have hzero : Scalar.isFinite (0 : α) = true := isFinite_zero
  have hone : Scalar.isFinite (1 : α) = true := isFinite_one
  have htwo : Scalar.isFinite (Scalar.ofNat 2 : α) = true := isFinite_two
  have hminus : Scalar.isFinite (-1 : α) = true := (isFinite_neg 1).trans hone
  induction e with
  | var n =>
    rw [Formula.derivative]
    split
    · exact const_iff.2 hone
    · exact const_iff.2 hzero
  | const v => exact const_iff.2 hzero
  | add l r ihl ihr => simp_all [Formula.derivative]
  | sub l r ihl ihr => simp_all [Formula.derivative]
  | mul l r ihl ihr => simp_all [Formula.derivative]
  | div l r ihl ihr => simp_all [Formula.derivative]
  | pow l r ihl ihr =>
    rw [Formula.derivative]
    split_ifs <;> simp_all
  | neg u ih => simp_all [Formula.derivative]
  | apply f u ih => cases f <;> simp_all [Formula.derivative, Elementary.derivative]

end Laws

end Generic

/-! ### Binary floating point -/

section Binary

open Binary64 (Library withLibrary)

variable {e : Formula Float} {P : String → Prop} {Q : Float → Prop}

/-- The text of a number that is not finite has no digits. -/
theorem constantText_cases {v : Float} (h : ¬ v.isFinite = true) :
    constantText v = "NaN" ∨ constantText v = "inf" ∨ constantText v = "(-inf)" := by
  rw [Bool.not_eq_true] at h
  obtain hv | ⟨s, hv⟩ := Binary64.eq_of_isFinite_eq_false h
  · have hnan : v.isNaN = true := by
      change v.toModel.unpack.isNaN = true
      rw [hv]
      rfl
    have hnot : ¬ v < 0 := by
      rw [Binary64.lt_iff_unpack, hv]
      exact Bool.false_ne_true
    have htext : Scalar.text v = "NaN" := if_pos hnan
    exact .inl (by rw [constantText, if_neg hnot, htext])
  · rcases Binary64.eq_infinity_or_of_unpack hv with rfl | rfl
    · exact .inr (.inl (by decide +kernel))
    · exact .inr (.inr (by decide +kernel))

/-- A finite number, or a variable that is called like the number. -/
def spelledNumber (v : Float) : Formula Float :=
  if v.isFinite then .const v
  else if constantText v = "(-inf)" then .neg (.var "inf")
  else .var (constantText v)

/-- The formula with names in place of the numbers that are not finite. -/
def spelledOut : Formula Float → Formula Float
  | .var n => .var n
  | .const v => spelledNumber v
  | .add l r => .add l.spelledOut r.spelledOut
  | .sub l r => .sub l.spelledOut r.spelledOut
  | .mul l r => .mul l.spelledOut r.spelledOut
  | .div l r => .div l.spelledOut r.spelledOut
  | .pow l r => .pow l.spelledOut r.spelledOut
  | .neg u => .neg u.spelledOut
  | .apply f u => .apply f u.spelledOut

theorem text_spelledOut (lib : Library) (e : Formula Float) :
    let _ := withLibrary lib
    e.spelledOut.text = e.text := by
  intro _
  induction e with
  | const v =>
    rw [spelledOut, spelledNumber]
    split_ifs with hfinite hminus
    · rfl
    · exact hminus.symm
    · rfl
  | _ => simp_all [spelledOut, text]

theorem hasLeaves_spelledOut_iff :
    e.spelledOut.HasLeaves P Q ↔ e.HasLeaves P fun v => (spelledNumber v).HasLeaves P Q := by
  induction e with
  | const v => rw [spelledOut, HasLeaves.const_iff]
  | var n => simp [spelledOut]
  | _ => simp_all [spelledOut]

theorem isSymbol_inf : IsSymbol "inf" :=
  ⟨⟨'i', ['n', 'f'], rfl, by simp [Phrase.continuesName]⟩, rfl, by decide, by decide, by decide⟩

theorem isSymbol_NaN : IsSymbol "NaN" :=
  ⟨⟨'N', ['a', 'N'], rfl, by simp [Phrase.continuesName]⟩, rfl, by decide, by decide, by decide⟩

theorem spelledNumber_hasLeaves_iff (v : Float) :
    (spelledNumber v).HasLeaves (· = "x") (fun _ => True) ↔ v.isFinite = true := by
  rw [spelledNumber]
  split_ifs with hfinite hminus
  · simp [hfinite]
  · simp [hfinite]
  · rcases constantText_cases hfinite with h | h | h
    · simp [h, hfinite]
    · simp [h, hfinite]
    · exact absurd h hminus

theorem spelledNumber_hasLeaves (v : Float) :
    (spelledNumber v).HasLeaves IsSymbol fun w => w.isFinite = true := by
  rw [spelledNumber]
  split_ifs with hfinite hminus
  · simpa using hfinite
  · simpa using isSymbol_inf
  · rcases constantText_cases hfinite with h | h | h
    · simpa [h] using isSymbol_NaN
    · simpa [h] using isSymbol_inf
    · exact absurd h hminus

/-- The printed form of a formula in `x` is accepted if and only if its numbers are finite. -/
theorem exists_read_text_iff_finite (lib : Library) (hx : ∀ n ∈ e.occurrences, n = "x") :
    let _ := withLibrary lib
    (∃ e' : Formula Float, read e.text = .ok e') ↔ e.HasFiniteNumbers := by
  intro _
  have hleaves : e.spelledOut.HasLeaves IsSymbol fun w => w.isFinite = true :=
    hasLeaves_spelledOut_iff.2
      ⟨fun n hn => hx n hn ▸ isSymbol_x, fun v _ => spelledNumber_hasLeaves v⟩
  have hnames : (∀ n ∈ e.spelledOut.occurrences, n = "x") ↔ e.HasFiniteNumbers := by
    have hiff := hasLeaves_spelledOut_iff (e := e) (P := (· = "x")) (Q := fun _ => True)
    simp only [spelledNumber_hasLeaves_iff] at hiff
    constructor
    · exact fun h => (hiff.1 ⟨h, fun _ _ => trivial⟩).numbers
    · exact fun h => (hiff.2 ⟨hx, h⟩).names
  have htext : e.spelledOut.text = e.text := text_spelledOut lib e
  rw [← htext, ← hnames]
  exact exists_read_text_iff _ hleaves.names fun v hv =>
    readsBack_of_isFinite lib (hleaves.numbers v hv)

/-- Let the numbers of a formula in `x` be finite.  Those in the simple forms of its parts are
    finite as well if and only if no part overflows, and the same holds of its derivative.  The
    text of the simplified derivative is accepted if and only if its numbers are finite. -/
theorem finite_numbers_kept_iff (lib : Library) :
    let _ := withLibrary lib
    ∀ e : Formula Float, (∀ n ∈ e.occurrences, n = "x") → e.HasFiniteNumbers →
      ((∀ s ∈ e.parts, s.simplify.HasFiniteNumbers) ↔ ∀ s ∈ e.parts, ¬ s.Overflows) ∧
        ((∀ s ∈ (e.derivative "x").parts, s.simplify.HasFiniteNumbers) ↔
          ∀ s ∈ (e.derivative "x").parts, ¬ s.Overflows) ∧
        ((∃ e' : Formula Float, read e.differentiate.text = .ok e') ↔
          e.differentiate.HasFiniteNumbers) := by
  intro _ e hx he
  have _ := Binary64.tracksFiniteness lib
  have hleaves : e.HasLeaves (· = "x") fun v => Scalar.isFinite v = true := ⟨hx, he⟩
  have hderivative := hleaves.derivative "x"
  refine ⟨simplify_hasFiniteNumbers_iff he,
    simplify_hasFiniteNumbers_iff hderivative.numbers, ?_⟩
  refine exists_read_text_iff_finite lib fun n hn => ?_
  exact hderivative.names n (occurrences_simplify_subset _ hn)

/-- The derivative of a multiple of the variable. -/
theorem finite_numbers_kept_of_multiple :
    let e : Formula Float := .mul (.var "x") (.const 2.5)
    (∀ n ∈ e.occurrences, n = "x") ∧ e.HasFiniteNumbers ∧ e.differentiate.HasFiniteNumbers ∧
      ∃ e' : Formula Float, read e.differentiate.text = .ok e' := by
  intro e
  have hx : ∀ n ∈ e.occurrences, n = "x" := by simp [e, occurrences]
  have hfinite : e.HasFiniteNumbers := by
    simp only [HasFiniteNumbers]
    decide +kernel
  have hderivative : e.derivative "x" =
      .add (.mul (.const 1) (.const 2.5)) (.mul (.var "x") (.const 0)) := by
    decide +kernel
  have hproduct : (Formula.mul (.const 1) (.const 2.5) : Formula Float).simplify = .const 2.5 := by
    rw [simplify_mul, simplify_const, simplify_const]
    decide +kernel
  have hzero : (Formula.mul (.var "x") (.const 0) : Formula Float).simplify = .const 0 := by
    rw [simplify_mul, simplify_var, simplify_const]
    decide +kernel
  have hoverflows : ∀ s ∈ (e.derivative "x").parts, ¬ s.Overflows := by
    rw [hderivative]
    simp only [parts, List.forall_mem_append, List.forall_mem_singleton, List.forall_mem_cons]
    refine ⟨?_, ⟨?_, id, id⟩, ?_, id, id⟩
    · rintro ⟨a, c, ha, hc, -, -, hinfinite⟩
      rw [hproduct] at ha
      rw [hzero] at hc
      cases ha
      cases hc
      exact absurd hinfinite (by decide +kernel)
    · rintro ⟨a, c, ha, hc, -, -, hinfinite⟩
      rw [simplify_const] at ha hc
      cases ha
      cases hc
      exact absurd hinfinite (by decide +kernel)
    · rintro ⟨a, -, ha, -⟩
      rw [simplify_var] at ha
      cases ha
  obtain ⟨-, hkept, haccepted⟩ := finite_numbers_kept_iff Binary64.platform e hx hfinite
  have hnumbers := hkept.2 hoverflows _ (self_mem_parts _)
  exact ⟨hx, hfinite, hnumbers, haccepted.2 hnumbers⟩

/-- The factors of the variable are multiplied to a number that is not finite. -/
theorem derivative_of_large_factors_is_refused :
    let e : Formula Float := .mul (.mul (.var "x") (.const 1e308)) (.const 10)
    (∀ n ∈ e.occurrences, n = "x") ∧ e.HasFiniteNumbers ∧
      e.differentiate = .const (1 / 0) ∧ ¬ e.differentiate.HasFiniteNumbers ∧
        e.differentiate.text = "inf" ∧
          ¬ ∃ e' : Formula Float, read e.differentiate.text = .ok e' := by
  intro e
  have hx : ∀ n ∈ e.occurrences, n = "x" := by simp [e, occurrences]
  have hfinite : e.HasFiniteNumbers := by
    simp only [HasFiniteNumbers]
    decide +kernel
  have he : e.differentiate = .const (1 / 0) := by
    have hderivative : e.derivative "x" =
        .add (.mul (.add (.mul (.const 1) (.const 1e308)) (.mul (.var "x") (.const 0)))
          (.const 10)) (.mul (.mul (.var "x") (.const 1e308)) (.const 0)) := by
      decide +kernel
    have hsimple : e.differentiate =
        joinAdd (joinMul (joinAdd (joinMul (.const 1) (.const 1e308))
          (joinMul (.var "x") (.const 0))) (.const 10))
          (joinMul (joinMul (.var "x") (.const 1e308)) (.const 0)) := by
      rw [differentiate, variableName, hderivative]
      simp only [simplify_add, simplify_mul, simplify_const, simplify_var]
    rw [hsimple]
    decide +kernel
  have hnot : ¬ e.differentiate.HasFiniteNumbers := by
    rw [he]
    intro h
    exact absurd (h (1 / 0) (List.mem_singleton.2 rfl)) (by decide +kernel)
  have hrefused : ¬ ∃ e' : Formula Float, read e.differentiate.text = .ok e' := by
    have hnames : ∀ n ∈ e.differentiate.occurrences, n = "x" := by
      rw [he]
      exact List.forall_mem_nil _
    exact fun h => hnot ((exists_read_text_iff_finite Binary64.platform hnames).1 h)
  exact ⟨hx, hfinite, he, hnot, by rw [he]; decide +kernel, hrefused⟩

end Binary

end NumericMethods.Formula
