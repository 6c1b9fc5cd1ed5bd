/-
  NumericMethods/Formula/Simplify.lean
  ====================================
  **Simplification: folding of constants and removal of neutral operands.**

  Simplification works from the leaves to the root.  Each operation has a rule for operands
  that are already simple: it folds two numbers into one, drops a neutral operand, and keeps
  the operation otherwise.  An operation that has no finite value on its numbers is kept
  where the rule looks at the value, so that its evaluation still fails.

  A difference whose first operand is zero becomes the negation of the second operand, and
  that negation is simplified once more.  The recursion is well-founded because a simple
  form never has more nodes than the formula it comes from; the two facts are established
  together.
-/
import NumericMethods.Formula.Eval
import NumericMethods.Formula.Derivative

namespace NumericMethods.Formula

variable {α : Type} [Scalar α]

/-! ### The rule of each operation -/

/-- A sum of simple operands. -/
def joinAdd (l r : Formula α) : Formula α :=
  match l, r with
  | .const a, .const b => .const (a + b)
  | .const a, r => if a == 0 then r else .add (.const a) r
  | l, .const b => if b == 0 then l else .add l (.const b)
  | l, r => .add l r

/-- A difference of simple operands, the first of which is not a lone zero. -/
def joinSub (l r : Formula α) : Formula α :=
  match l, r with
  | .const a, .const b => .const (a - b)
  | l, .const b => if b == 0 then l else .sub l (.const b)
  | l, r => .sub l r

/-- A product of simple operands. -/
def joinMul (l r : Formula α) : Formula α :=
  match l, r with
  | .const a, .const b => .const (a * b)
  | .const a, r =>
    if a == 0 then .const 0
    else if a == 1 then r
    else if a == -1 then .neg r
    else .mul (.const a) r
  | l, .const b =>
    if b == 0 then .const 0
    else if b == 1 then l
    else if b == -1 then .neg l
    else .mul l (.const b)
  | l, r => .mul l r

/-- A quotient of simple operands.  A zero denominator is kept. -/
def joinDiv (l r : Formula α) : Formula α :=
  match l, r with
  | .const a, .const b => if b == 0 then .div (.const a) (.const b) else .const (a / b)
  | .const a, r => if a == 0 then .const 0 else .div (.const a) r
  | l, .const b => if b == 1 then l else .div l (.const b)
  | l, r => .div l r

/-- The finite power of two numbers, if there is one. -/
def finitePower? (a b : α) : Option α :=
  (Scalar.power a b).filter Scalar.isFinite

/-- A power with a constant exponent that is not folded. -/
def joinPowConst (base : Formula α) (b : α) : Formula α :=
  if b == 0 then .const 1
  else if b == 1 then base
  else .pow base (.const b)

/-- A power of simple operands. -/
def joinPow (base exponent : Formula α) : Formula α :=
  match base, exponent with
  | .const a, .const b =>
    match finitePower? a b with
    | some v => .const v
    | none => joinPowConst (.const a) b
  | base, .const b => joinPowConst base b
  | base, exponent => .pow base exponent

/-- The negation of a simple operand. -/
def joinNeg : Formula α → Formula α
  | .const v => .const (-v)
  | .neg u => u
  | u => .neg u

/-- An elementary function of a simple argument. -/
def joinApply (f : Elementary) (u : Formula α) : Formula α :=
  match u with
  | .const v =>
    match f.evalAt v v with
    | .ok w => .const w
    | .error _ => .apply f u
  | u => .apply f u

/-- Whether a difference of simple operands becomes a negation. -/
def isNegation (l r : Formula α) : Bool :=
  match l, r with
  | .const _, .const _ => false
  | .const a, _ => a == 0
  | _, _ => false

/-! ### No rule adds nodes -/

omit [Scalar α] in
theorem nodes_pos (e : Formula α) : 1 ≤ e.nodes := by
  cases e <;> simp [nodes]

theorem nodes_joinAdd_le (l r : Formula α) : (joinAdd l r).nodes ≤ l.nodes + r.nodes + 1 := by
  unfold joinAdd; grind [nodes]

theorem nodes_joinSub_le (l r : Formula α) : (joinSub l r).nodes ≤ l.nodes + r.nodes + 1 := by
  unfold joinSub; grind [nodes]

theorem nodes_joinMul_le (l r : Formula α) : (joinMul l r).nodes ≤ l.nodes + r.nodes + 1 := by
  have hl := nodes_pos l
  have hr := nodes_pos r
  unfold joinMul; grind [nodes]

theorem nodes_joinDiv_le (l r : Formula α) : (joinDiv l r).nodes ≤ l.nodes + r.nodes + 1 := by
  unfold joinDiv; grind [nodes]

theorem nodes_joinPowConst_le (l : Formula α) (b : α) :
    (joinPowConst l b).nodes ≤ l.nodes + 2 := by
  unfold joinPowConst; grind [nodes]

theorem nodes_joinPow_le (l r : Formula α) : (joinPow l r).nodes ≤ l.nodes + r.nodes + 1 := by
  have hc := nodes_joinPowConst_le (α := α)
  unfold joinPow; grind [nodes]

theorem nodes_joinNeg_le (u : Formula α) : (joinNeg u).nodes ≤ u.nodes + 1 := by
  unfold joinNeg; grind [nodes]

theorem nodes_joinApply_le (f : Elementary) (u : Formula α) :
    (joinApply f u).nodes ≤ u.nodes + 1 := by
  unfold joinApply; grind [nodes]

/-- A rule that adds no nodes to simple operands adds none to the operands they come
    from. -/
theorem le_of_operands {k l r l' r' : Nat} (h : k ≤ l' + r' + 1) (hl : l' ≤ l) (hr : r' ≤ r) :
    k ≤ l + r + 1 := by omega

theorem le_of_operand {k u u' : Nat} (h : k ≤ u' + 1) (hu : u' ≤ u) : k ≤ u + 1 := by omega

/-! ### The recursion -/

/-- The simple form of a formula, together with the bound on its size. -/
def simplified (e : Formula α) : { s : Formula α // s.nodes ≤ e.nodes } :=
  match e with
  | .var n => ⟨.var n, Nat.le_refl _⟩
  | .const v => ⟨.const v, Nat.le_refl _⟩
  | .add l r =>
    let l' := simplified l
    let r' := simplified r
    ⟨joinAdd l'.1 r'.1, le_of_operands (nodes_joinAdd_le _ _) l'.2 r'.2⟩
  | .sub l r =>
    let l' := simplified l
    let r' := simplified r
    if isNegation l'.1 r'.1 then
      have hlt : (Formula.neg r'.1).nodes < (Formula.sub l r).nodes :=
        Nat.succ_lt_succ (Nat.lt_of_le_of_lt r'.2 (Nat.lt_add_of_pos_left (nodes_pos l)))
      let s := simplified (.neg r'.1)
      ⟨s.1, Nat.le_trans s.2 (Nat.le_of_lt hlt)⟩
    else
      ⟨joinSub l'.1 r'.1, le_of_operands (nodes_joinSub_le _ _) l'.2 r'.2⟩
  | .mul l r =>
    let l' := simplified l
    let r' := simplified r
    ⟨joinMul l'.1 r'.1, le_of_operands (nodes_joinMul_le _ _) l'.2 r'.2⟩
  | .div l r =>
    let l' := simplified l
    let r' := simplified r
    ⟨joinDiv l'.1 r'.1, le_of_operands (nodes_joinDiv_le _ _) l'.2 r'.2⟩
  | .pow l r =>
    let l' := simplified l
    let r' := simplified r
    ⟨joinPow l'.1 r'.1, le_of_operands (nodes_joinPow_le _ _) l'.2 r'.2⟩
  | .neg u =>
    let u' := simplified u
    ⟨joinNeg u'.1, le_of_operand (nodes_joinNeg_le _) u'.2⟩
  | .apply f u =>
    let u' := simplified u
    ⟨joinApply f u'.1, le_of_operand (nodes_joinApply_le f _) u'.2⟩
termination_by e.nodes
decreasing_by
  all_goals first | exact hlt | (simp only [nodes]; omega)

/-- The simple form of a formula. -/
def simplify (e : Formula α) : Formula α := (simplified e).1

/-- The simplified derivative with respect to `x`. -/
def differentiate (e : Formula α) : Formula α := (e.derivative variableName).simplify

end NumericMethods.Formula
