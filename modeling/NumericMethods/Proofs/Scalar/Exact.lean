/-
  NumericMethods/Proofs/Scalar/Exact.lean
  =======================================
  **Exact arithmetic: the numbers of an ordered field as `Scalar`s.**

  The four operations, the order, the test for equality and the magnitude are those of the
  field, and every number is finite.  What a field does not have (powers, the elementary
  functions, rounding, texts, the scale that balances a row) is left open: it is given by
  an instance of `ExactScalar`, which asks for three laws only.  A theorem about a method
  that is stated for `ExactScalar` holds whatever those functions are.

    * The scale that balances a magnitude is not zero (`balance_ne_zero`).
    * Where they are defined, `u ^ 0 = 1` and `u ^ 1 = u` (`power_zero`, `power_one`).

  A power may be undefined anywhere; that those with natural exponents are defined is asked
  for apart (`ExactScalar.HasNaturalPowers`).  An elementary function has some value
  everywhere, and evaluation refuses the arguments outside its domain
  (`Elementary.undefinedAt`).

  The rational numbers are an instance in which everything can be computed.
-/
import Mathlib.Algebra.BigOperators.Fin
import Mathlib.Algebra.Order.Ring.Abs
import Mathlib.Data.Int.Log
import Mathlib.Data.Rat.Floor
import NumericMethods.Scalar

namespace NumericMethods

/-- What exact arithmetic in an ordered field has beside the operations of the field. -/
class ExactScalar (K : Type) [Field K] [LinearOrder K] [IsStrictOrderedRing K] where
  pi : K
  euler : K
  round : K → K
  power : K → K → Option K
  elementary : Elementary → K → K
  balance : K → K
  text : K → String
  scientific : K → String
  power_zero : ∀ {u v : K}, power u 0 = some v → v = 1
  power_one : ∀ {u v : K}, power u 1 = some v → v = u
  balance_ne_zero : ∀ m, balance m ≠ 0

namespace ExactScalar

variable {K : Type} [Field K] [LinearOrder K] [IsStrictOrderedRing K] [ExactScalar K]

instance toScalar : Scalar K where
  beq a b := decide (a = b)
  decLt := inferInstance
  decLe := inferInstance
  ofDecimal m e := m * ((10 : ℕ) : K) ^ e
  pi := pi
  euler := euler
  abs x := |x|
  round := round
  isFinite _ := true
  power := power
  elementary := elementary
  balance := balance
  totalLe a b := decide (a ≤ b)
  text := text
  scientific := scientific

/-! ### The rational numbers -/

/-- The power of two whose exponent is nearest to minus the binary logarithm of `m`, which
    is read off the logarithm of `m ^ 2`.  A power is defined for an integer exponent,
    unless it divides by zero.  The elementary functions of rational numbers are irrational
    but for single points, and nothing that is stated over the rational numbers uses them
    or a text. -/
instance : ExactScalar ℚ where
  pi := 22 / 7
  euler := 19 / 7
  round x := if 0 ≤ x then ⌊x + 1 / 2⌋ else ⌈x - 1 / 2⌉
  power b e := if e.den = 1 ∧ ¬ (b = 0 ∧ e < 0) then some (b ^ e.num) else none
  elementary _ x := x
  balance m := if m = 0 then 1 else 2 ^ (-((Int.log 2 (m * m) + 1) / 2))
  text _ := ""
  scientific _ := ""
  power_zero h := by
    obtain ⟨-, h⟩ := Option.ite_none_right_eq_some.1 h
    simpa using h.symm
  power_one h := by
    obtain ⟨-, h⟩ := Option.ite_none_right_eq_some.1 h
    simpa using h.symm
  balance_ne_zero m := by
    split
    · exact one_ne_zero
    · exact zpow_ne_zero _ two_ne_zero

/-! ### The operations -/

theorem beq_iff {a b : K} : (a == b) = true ↔ a = b := decide_eq_true_iff

theorem beq_eq_false_iff {a b : K} : (a == b) = false ↔ a ≠ b := decide_eq_false_iff_not

theorem ofNat_eq (n : ℕ) : (Scalar.ofNat n : K) = n := by
  change (n : K) * 10 ^ (0 : ℤ) = n
  rw [zpow_zero, mul_one]

theorem epsilon_nonneg : 0 ≤ (Scalar.epsilon : K) := by
  rw [Scalar.epsilon, ofNat_eq]
  exact div_nonneg zero_le_one (Nat.cast_nonneg _)

/-- Every number equals itself. -/
theorem isUndefined_eq (x : K) : Scalar.isUndefined x = false := by
  rw [Scalar.isUndefined, beq_iff.2 rfl]
  rfl

theorem larger_eq_max (a b : K) : Scalar.larger a b = max a b := by
  rw [Scalar.larger, isUndefined_eq, isUndefined_eq, max_def_lt]
  rfl

theorem natPowFrom_eq (acc base : K) (n : ℕ) :
    Scalar.natPowFrom acc base n = acc * base ^ n := by
  induction n using Nat.strong_induction_on generalizing acc base with
  | _ n ih =>
    -- the last binary digit is multiplied in, the others belong to the square
    have hdigit : (if n % 2 = 1 then acc * base else acc) = acc * base ^ (n % 2) := by
      rcases Nat.mod_two_eq_zero_or_one n with h | h <;> simp [h]
    have hsplit : base ^ n = base ^ (n % 2) * (base * base) ^ (n / 2) := by
      rw [← pow_two, ← pow_mul, ← pow_add, Nat.mod_add_div]
    unfold Scalar.natPowFrom
    rw [hdigit, hsplit, ← mul_assoc]
    split
    · rename_i hlast
      rw [hlast, pow_zero, mul_one]
    · exact ih (n / 2) (by omega) _ _

theorem natPow_eq_pow (base : K) (n : ℕ) : Scalar.natPow base n = base ^ n := by
  rw [Scalar.natPow, natPowFrom_eq, one_mul]

theorem total_eq_sum (xs : List K) : Scalar.total xs = xs.sum := by
  rw [Scalar.total, List.sum_eq_foldl, neg_zero]

theorem accumulated_eq_sum (xs : List K) : Scalar.accumulated xs = xs.sum := by
  cases xs with
  | nil => rfl
  | cons x xs =>
    rw [Scalar.accumulated, List.sum_cons]
    induction xs generalizing x with
    | nil => exact (add_zero x).symm
    | cons y ys ih =>
      rw [List.foldl_cons, ih, List.sum_cons, add_comm y x, add_assoc]

/-- The maximum so far only grows. -/
theorem le_foldl_larger (m : K) (xs : List K) :
    m ≤ xs.foldl (fun m y => Scalar.larger m (Scalar.abs y)) m := by
  induction xs generalizing m with
  | nil => exact le_rfl
  | cons y ys ih =>
    rw [List.foldl_cons]
    apply le_trans _ (ih _)
    rw [larger_eq_max]
    exact le_max_left _ _

theorem peakMagnitude_nonneg (xs : List K) : 0 ≤ Scalar.peakMagnitude xs := by
  cases xs with
  | nil => exact le_rfl
  | cons x xs => exact (abs_nonneg x).trans (le_foldl_larger _ xs)

/-! ### Powers with natural exponents -/

/-- Powers with natural exponents are defined, and are those of the field. -/
class HasNaturalPowers (K : Type) [Field K] [LinearOrder K] [IsStrictOrderedRing K]
    [ExactScalar K] : Prop where
  power_eq : ∀ (u : K) (n : ℕ), power u n = some (u ^ n)

theorem power_natCast [HasNaturalPowers K] (u : K) (n : ℕ) :
    Scalar.power u n = some (u ^ n) := HasNaturalPowers.power_eq u n

instance : HasNaturalPowers ℚ where
  power_eq u n := by
    have hdefined : (n : ℚ).den = 1 ∧ ¬ (u = 0 ∧ (n : ℚ) < 0) :=
      ⟨Rat.den_natCast n, fun h => (Nat.cast_nonneg n).not_gt h.2⟩
    change (if _ then _ else _) = _
    rw [if_pos hdefined, Rat.num_natCast, zpow_natCast]

end ExactScalar

/-! ### Results that are computed -/

/-- A result that passes a test exists. -/
theorem exists_ok_of_any {ε τ : Type} {x : Except ε τ} {p : τ → Prop} [DecidablePred p]
    (h : x.toOption.any (fun v => decide (p v)) = true) : ∃ v, x = .ok v ∧ p v := by
  cases x with
  | error e => cases h
  | ok v => exact ⟨v, rfl, of_decide_eq_true h⟩

/-- A failure that passes a test exists. -/
theorem exists_error_of_any {ε τ : Type} {x : Except ε τ} {p : ε → Prop} [DecidablePred p]
    (h : (match x with
      | .error e => decide (p e)
      | .ok _ => false) = true) : ∃ e, x = .error e ∧ p e := by
  cases x with
  | error e => exact ⟨e, rfl, of_decide_eq_true h⟩
  | ok v => cases h

end NumericMethods
