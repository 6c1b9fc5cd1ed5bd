/-
  NumericMethods/Proofs/Scalar/Real.lean
  ======================================
  **The real numbers as `Scalar`s.**

  Exact arithmetic: every operation is the one of the real numbers, every value is finite,
  and an elementary function is the real function of its name.  A power is defined for a
  positive base, for the base zero with an exponent that is not negative, and for a
  negative base with an integer exponent.

  The function `tan` has the value zero at its poles here.  A formula that evaluates with
  `tan` left undefined there therefore evaluates to the same number.
-/
import Mathlib.Analysis.SpecialFunctions.Log.Base
import Mathlib.Analysis.SpecialFunctions.Pow.Real
import Mathlib.Analysis.SpecialFunctions.Trigonometric.Arctan
import Mathlib.Analysis.SpecialFunctions.Trigonometric.Inverse
import NumericMethods.Proofs.Scalar.Exact

namespace NumericMethods.RealNumber

/-- Where a power of real numbers is defined. -/
def PowerDefined (b e : ℝ) : Prop := 0 < b ∨ (b = 0 ∧ 0 ≤ e) ∨ (b < 0 ∧ ∃ n : ℤ, e = n)

/-- The real function that an elementary function stands for. -/
noncomputable def elementary : Elementary → ℝ → ℝ
  | .exp => Real.exp
  | .ln => Real.log
  | .sin => Real.sin
  | .cos => Real.cos
  | .tan => Real.tan
  | .sqrt => Real.sqrt
  | .asin => Real.arcsin
  | .acos => Real.arccos
  | .atan => Real.arctan

open Classical in
/-- Real numbers have no decimal text; that of every number is empty here, and nothing that
    is stated over the real numbers mentions a text. -/
noncomputable instance : Scalar ℝ where
  beq a b := decide (a = b)
  decLt := inferInstance
  decLe := inferInstance
  ofDecimal m e := m * 10 ^ e
  pi := Real.pi
  euler := Real.exp 1
  abs x := |x|
  round x := if 0 ≤ x then ⌊x + 1 / 2⌋ else ⌈x - 1 / 2⌉
  isFinite _ := true
  power b e := if PowerDefined b e then some (b ^ e) else none
  elementary := elementary
  balance m := 2 ^ (-⌊Real.logb 2 m + 1 / 2⌋)
  totalLe a b := decide (a ≤ b)
  text _ := ""
  scientific _ := ""

theorem beq_iff {a b : ℝ} : (BEq.beq a b) = true ↔ a = b := decide_eq_true_iff

open Classical in
theorem power_eq_some_iff {b e w : ℝ} :
    Scalar.power b e = some w ↔ PowerDefined b e ∧ b ^ e = w := by
  change (if PowerDefined b e then some (b ^ e) else none) = some w ↔ _
  rw [Option.ite_none_right_eq_some, Option.some.injEq]

theorem ofNat_eq (n : ℕ) : (Scalar.ofNat n : ℝ) = n := by
  change (n : ℝ) * 10 ^ (0 : ℤ) = n
  rw [zpow_zero, mul_one]

/-- Real arithmetic is exact arithmetic in an ordered field. -/
noncomputable abbrev exactScalar : ExactScalar ℝ where
  pi := Scalar.pi
  euler := Scalar.euler
  round := Scalar.round
  power := Scalar.power
  elementary := Scalar.elementary
  balance := Scalar.balance
  text := Scalar.text
  scientific := Scalar.scientific
  power_zero h := by
    obtain ⟨-, rfl⟩ := power_eq_some_iff.1 h
    exact Real.rpow_zero _
  power_one h := by
    obtain ⟨-, rfl⟩ := power_eq_some_iff.1 h
    exact Real.rpow_one _
  balance_ne_zero _ := zpow_ne_zero _ two_ne_zero

theorem toScalar_exactScalar :
    @ExactScalar.toScalar ℝ _ _ _ exactScalar = (inferInstance : Scalar ℝ) := rfl

theorem hasNaturalPowers : @ExactScalar.HasNaturalPowers ℝ _ _ _ exactScalar := by
  refine @ExactScalar.HasNaturalPowers.mk ℝ _ _ _ exactScalar fun u n => ?_
  refine power_eq_some_iff.2 ⟨?_, Real.rpow_natCast u n⟩
  rcases lt_trichotomy u 0 with hneg | hzero | hpos
  · exact .inr (.inr ⟨hneg, n, (Int.cast_natCast n).symm⟩)
  · exact .inr (.inl ⟨hzero, Nat.cast_nonneg n⟩)
  · exact .inl hpos

end NumericMethods.RealNumber
