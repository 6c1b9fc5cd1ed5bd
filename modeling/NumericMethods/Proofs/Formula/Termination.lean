/-
  NumericMethods/Proofs/Formula/Termination.lean
  ==============================================
  **Simplification ends, and the tree does not grow.**

  Simplification does not follow the tree: where the first operand of a difference becomes
  zero, the negation of the second one is simplified, a formula that is made on the way and
  holds a simple form already.  `SimplifiesIn` states the recursion as a relation that says
  nothing about its end, and counts the formulas that it goes through.  Nothing is known
  about the numbers.

    * A result has no more nodes than the formula (`SimplifiesIn.nodes_le`).  Only because of
      this is the new negation smaller than the difference, and every call is one on fewer
      nodes (`Calls.nodes_lt`).
    * A simple form is gone through once, with no further negation on the way
      (`IsSimple.exists_simplifiesIn`).  So the operands that are gone through again add no
      more than their size, and the whole recursion takes no more calls than the square of
      the number of nodes (`exists_simplifiesIn`).
-/
import NumericMethods.Proofs.Formula.Leaves

namespace NumericMethods.Formula

variable {α : Type} [Scalar α] {e s : Formula α} {k : ℕ}

/-! ### The recursion as a relation -/

/-- The formula becomes the other one in a recursion through `k` formulas. -/
inductive SimplifiesIn : ℕ → Formula α → Formula α → Prop
  | var (n : String) : SimplifiesIn 1 (.var n) (.var n)
  | const (v : α) : SimplifiesIn 1 (.const v) (.const v)
  | add {j k : ℕ} {l r l' r' : Formula α} (hl : SimplifiesIn j l l')
      (hr : SimplifiesIn k r r') : SimplifiesIn (j + k + 1) (.add l r) (joinAdd l' r')
  | sub {j k : ℕ} {l r l' r' : Formula α} (hl : SimplifiesIn j l l')
      (hr : SimplifiesIn k r r') (hsign : isNegation l' r' = false) :
      SimplifiesIn (j + k + 1) (.sub l r) (joinSub l' r')
  | negation {i j k : ℕ} {l r l' r' s : Formula α} (hl : SimplifiesIn j l l')
      (hr : SimplifiesIn k r r') (hsign : isNegation l' r' = true)
      (hs : SimplifiesIn i (.neg r') s) : SimplifiesIn (j + k + i + 1) (.sub l r) s
  | mul {j k : ℕ} {l r l' r' : Formula α} (hl : SimplifiesIn j l l')
      (hr : SimplifiesIn k r r') : SimplifiesIn (j + k + 1) (.mul l r) (joinMul l' r')
  | div {j k : ℕ} {l r l' r' : Formula α} (hl : SimplifiesIn j l l')
      (hr : SimplifiesIn k r r') : SimplifiesIn (j + k + 1) (.div l r) (joinDiv l' r')
  | pow {j k : ℕ} {l r l' r' : Formula α} (hl : SimplifiesIn j l l')
      (hr : SimplifiesIn k r r') : SimplifiesIn (j + k + 1) (.pow l r) (joinPow l' r')
  | neg {k : ℕ} {u u' : Formula α} (hu : SimplifiesIn k u u') :
      SimplifiesIn (k + 1) (.neg u) (joinNeg u')
  | apply {k : ℕ} {u u' : Formula α} (f : Elementary) (hu : SimplifiesIn k u u') :
      SimplifiesIn (k + 1) (.apply f u) (joinApply f u')

/-- The simple form of the second formula asks for the one of the first: of an operand, or of
    the negation that a difference becomes. -/
inductive Calls : Formula α → Formula α → Prop
  | operand {o e : Formula α} (ho : o ∈ e.operands) : Calls o e
  | negation {j k : ℕ} {l r l' r' : Formula α} (hl : SimplifiesIn j l l')
      (hr : SimplifiesIn k r r') (hsign : isNegation l' r' = true) :
      Calls (.neg r') (.sub l r)

/-! ### Sizes -/

theorem SimplifiesIn.nodes_le (h : SimplifiesIn k e s) : s.nodes ≤ e.nodes := by
  induction h with
  | var n => exact le_rfl
  | const v => exact le_rfl
  | add _ _ ihl ihr => exact le_of_operands (nodes_joinAdd_le _ _) ihl ihr
  | sub _ _ _ ihl ihr => exact le_of_operands (nodes_joinSub_le _ _) ihl ihr
  | negation _ _ _ _ _ ihr ihs =>
    simp only [nodes] at ihs ⊢
    omega
  | mul _ _ ihl ihr => exact le_of_operands (nodes_joinMul_le _ _) ihl ihr
  | div _ _ ihl ihr => exact le_of_operands (nodes_joinDiv_le _ _) ihl ihr
  | pow _ _ ihl ihr => exact le_of_operands (nodes_joinPow_le _ _) ihl ihr
  | neg _ ihu => exact le_of_operand (nodes_joinNeg_le _) ihu
  | apply f _ ihu => exact le_of_operand (nodes_joinApply_le f _) ihu

omit [Scalar α] in
theorem nodes_lt_of_mem_operands {o : Formula α} (ho : o ∈ e.operands) : o.nodes < e.nodes := by
  cases e <;> simp only [operands, List.mem_cons, List.not_mem_nil, or_false] at ho
  case neg | apply =>
    subst ho
    simp only [nodes]
    omega
  all_goals
    rcases ho with rfl | rfl <;> simp only [nodes] <;> omega

theorem Calls.nodes_lt (h : Calls s e) : s.nodes < e.nodes := by
  cases h with
  | operand ho => exact nodes_lt_of_mem_operands ho
  | @negation _ _ l _ _ _ hl hr _ =>
    have hle := hr.nodes_le
    have hpos := nodes_pos l
    simp only [nodes]
    omega

theorem wellFounded_calls : WellFounded (Calls (α := α)) :=
  Subrelation.wf Calls.nodes_lt (measure nodes).wf

/-! ### Results -/

/-- There is one result, whatever the way to it. -/
theorem SimplifiesIn.eq_simplify (h : SimplifiesIn k e s) : s = e.simplify := by
  induction h with
  | var n => exact (simplify_var n).symm
  | const v => exact (simplify_const v).symm
  | add _ _ ihl ihr => rw [simplify_add, ihl, ihr]
  | sub _ _ hsign ihl ihr =>
    rw [ihl, ihr] at hsign ⊢
    rw [simplify_sub, if_neg (Bool.eq_false_iff.1 hsign)]
  | negation _ _ hsign _ ihl ihr ihs =>
    rw [ihl, ihr] at hsign
    rw [simplify_sub, if_pos hsign, ihs, ihr]
  | mul _ _ ihl ihr => rw [simplify_mul, ihl, ihr]
  | div _ _ ihl ihr => rw [simplify_div, ihl, ihr]
  | pow _ _ ihl ihr => rw [simplify_pow, ihl, ihr]
  | neg _ ihu => rw [simplify_neg, ihu]
  | apply f _ ihu => rw [simplify_apply, ihu]

/-- A simple form is gone through once. -/
theorem IsSimple.exists_simplifiesIn (h : e.IsSimple) : ∃ s, SimplifiesIn e.nodes e s := by
  induction h with
  | var n => exact ⟨_, .var n⟩
  | const v => exact ⟨_, .const v⟩
  | add _ _ _ _ ihl ihr =>
    obtain ⟨_, hl'⟩ := ihl
    obtain ⟨_, hr'⟩ := ihr
    exact ⟨_, .add hl' hr'⟩
  | sub hl hr hnumbers hneutral ihl ihr =>
    obtain ⟨_, hl'⟩ := ihl
    obtain ⟨_, hr'⟩ := ihr
    -- the first operand is no zero, and does not become one
    have hsign := (IsSimple.sub hl hr hnumbers hneutral).cancelled.1.joinSub_eq.1
    rw [← hl.simplify_eq, ← hr.simplify_eq, ← hl'.eq_simplify, ← hr'.eq_simplify] at hsign
    exact ⟨_, .sub hl' hr' hsign⟩
  | mul _ _ _ _ ihl ihr =>
    obtain ⟨_, hl'⟩ := ihl
    obtain ⟨_, hr'⟩ := ihr
    exact ⟨_, .mul hl' hr'⟩
  | div _ _ _ _ _ ihl ihr =>
    obtain ⟨_, hl'⟩ := ihl
    obtain ⟨_, hr'⟩ := ihr
    exact ⟨_, .div hl' hr'⟩
  | pow _ _ _ _ ihl ihr =>
    obtain ⟨_, hl'⟩ := ihl
    obtain ⟨_, hr'⟩ := ihr
    exact ⟨_, .pow hl' hr'⟩
  | neg _ _ ihu =>
    obtain ⟨_, hu'⟩ := ihu
    exact ⟨_, .neg hu'⟩
  | apply _ _ ihu =>
    obtain ⟨_, hu'⟩ := ihu
    exact ⟨_, .apply _ hu'⟩

theorem calls_le {a b i j k : ℕ} (hj : j ≤ a ^ 2) (hk : k ≤ b ^ 2) (ha : 1 ≤ a)
    (hi : i ≤ b + 1) : j + k + i + 1 ≤ (a + b + 1) ^ 2 := by
  have hproduct : b ≤ a * b := Nat.le_mul_of_pos_left b ha
  have hsquare : (a + b + 1) ^ 2 = a ^ 2 + b ^ 2 + 2 * (a * b) + 2 * a + 2 * b + 1 := by ring
  omega

theorem calls_succ_le {a k : ℕ} (hk : k ≤ a ^ 2) : k + 1 ≤ (a + 1) ^ 2 := by
  have hsquare : (a + 1) ^ 2 = a ^ 2 + 2 * a + 1 := by ring
  omega

/-- Every formula has a result.  The calls for a difference that becomes a negation are those
    for its operands and, as the second one is simple by then, one for each of its nodes. -/
theorem exists_simplifiesIn (e : Formula α) : ∃ k ≤ e.nodes ^ 2, ∃ s, SimplifiesIn k e s := by
  induction e with
  | var n => exact ⟨1, le_rfl, _, .var n⟩
  | const v => exact ⟨1, le_rfl, _, .const v⟩
  | add l r ihl ihr =>
    obtain ⟨j, hj, l', hl⟩ := ihl
    obtain ⟨k, hk, r', hr⟩ := ihr
    exact ⟨_, calls_le hj hk (nodes_pos l) (Nat.zero_le _), _, .add hl hr⟩
  | sub l r ihl ihr =>
    obtain ⟨j, hj, l', hl⟩ := ihl
    obtain ⟨k, hk, r', hr⟩ := ihr
    cases hsign : isNegation l' r' with
    | false => exact ⟨_, calls_le hj hk (nodes_pos l) (Nat.zero_le _), _, .sub hl hr hsign⟩
    | true =>
      obtain ⟨-, -, -, hnumber⟩ := isNegation_iff.1 hsign
      have hsimple : r'.IsSimple := hr.eq_simplify ▸ isSimple_simplify r
      obtain ⟨s, hs⟩ := (IsSimple.neg hsimple hnumber).exists_simplifiesIn
      have hsize : (Formula.neg r').nodes ≤ r.nodes + 1 := Nat.succ_le_succ hr.nodes_le
      exact ⟨_, calls_le hj hk (nodes_pos l) hsize, s, .negation hl hr hsign hs⟩
  | mul l r ihl ihr =>
    obtain ⟨j, hj, l', hl⟩ := ihl
    obtain ⟨k, hk, r', hr⟩ := ihr
    exact ⟨_, calls_le hj hk (nodes_pos l) (Nat.zero_le _), _, .mul hl hr⟩
  | div l r ihl ihr =>
    obtain ⟨j, hj, l', hl⟩ := ihl
    obtain ⟨k, hk, r', hr⟩ := ihr
    exact ⟨_, calls_le hj hk (nodes_pos l) (Nat.zero_le _), _, .div hl hr⟩
  | pow l r ihl ihr =>
    obtain ⟨j, hj, l', hl⟩ := ihl
    obtain ⟨k, hk, r', hr⟩ := ihr
    exact ⟨_, calls_le hj hk (nodes_pos l) (Nat.zero_le _), _, .pow hl hr⟩
  | neg u ihu =>
    obtain ⟨k, hk, u', hu⟩ := ihu
    exact ⟨_, calls_succ_le hk, _, .neg hu⟩
  | apply f u ihu =>
    obtain ⟨k, hk, u', hu⟩ := ihu
    exact ⟨_, calls_succ_le hk, _, .apply f hu⟩

/-- Over any numbers, no chain of calls is endless, and every formula has one result, with no
    more nodes than it has itself, after no more calls than the square of its nodes. -/
theorem simplification_ends :
    WellFounded (Calls (α := α)) ∧ ∀ e : Formula α,
      (∃ k ≤ e.nodes ^ 2, SimplifiesIn k e e.simplify) ∧
        (∀ k s, SimplifiesIn k e s → s = e.simplify) ∧ e.simplify.nodes ≤ e.nodes := by
  refine ⟨wellFounded_calls, fun e => ?_⟩
  obtain ⟨k, hk, s, hs⟩ := exists_simplifiesIn e
  obtain rfl := hs.eq_simplify
  exact ⟨⟨k, hk, hs⟩, fun _ _ h => h.eq_simplify, hs.nodes_le⟩

end NumericMethods.Formula
