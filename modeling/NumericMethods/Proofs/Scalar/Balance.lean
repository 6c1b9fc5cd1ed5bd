/-
  NumericMethods/Proofs/Scalar/Balance.lean
  =========================================
  **Scales that are powers of two.**

  The scale of a magnitude is the power of two nearest to its inverse, on the logarithmic
  scale.  The magnitude times its scale is then balanced: its binary logarithm is at most
  one half in magnitude.  So two balanced numbers differ at most by the factor two
  (`IsBalanced.le_two_mul`).

  The class `NearestPowerBalance` asks this of exact arithmetic.  A magnitude halfway between
  two powers of two may have either of the two scales, so it does not follow that the scale of
  a magnitude times a power of two is that of the magnitude divided by the power.  That is
  the class `ShiftingBalance`.  The rational numbers and the real numbers have both.
-/
import Mathlib.Tactic.Linarith
import NumericMethods.Proofs.Scalar.Exact
import NumericMethods.Proofs.Scalar.Real

namespace NumericMethods

/-- A number whose binary logarithm lies between `-1/2` and `1/2`. -/
structure IsBalanced {K : Type} [Field K] [LinearOrder K] (x : K) : Prop where
  pos : 0 < x
  half_le_sq : 1 ≤ 2 * x ^ 2
  sq_le_two : x ^ 2 ≤ 2

/-- The scale that balances a magnitude is the power of two nearest to its inverse, and
    zero keeps its scale. -/
class NearestPowerBalance (K : Type) [Field K] [LinearOrder K] [IsStrictOrderedRing K]
    [ExactScalar K] : Prop where
  balance_zero : Scalar.balance (0 : K) = 1
  balance_of_pos : ∀ m : K, 0 < m → ∃ e : ℤ, Scalar.balance m = 2 ^ e ∧ IsBalanced (m * 2 ^ e)

/-- A power of two in the magnitude is taken out by the scale. -/
class ShiftingBalance (K : Type) [Field K] [LinearOrder K] [IsStrictOrderedRing K]
    [ExactScalar K] : Prop extends NearestPowerBalance K where
  balance_zpow_mul : ∀ (e : ℤ) (m : K), 0 < m →
    Scalar.balance (2 ^ e * m) = 2 ^ (-e) * Scalar.balance m

section Balanced

variable {K : Type} [Field K] [LinearOrder K] [IsStrictOrderedRing K] {x y m : K}

theorem IsBalanced.le_two_mul (hx : IsBalanced x) (hy : IsBalanced y) : x ≤ 2 * y := by
  have hx' := hx.sq_le_two
  have hy' := hy.half_le_sq
  by_contra hlt
  have hpos := hy.pos
  nlinarith

/-- The bounds of the square as bounds by powers of two. -/
theorem isBalanced_mul_zpow {e : ℤ} (hm : 0 < m) (hlow : (2 : K) ^ (2 * e - 1) ≤ m ^ 2)
    (hhigh : m ^ 2 ≤ 2 ^ (2 * e + 1)) : IsBalanced (m * 2 ^ (-e)) := by
  have htwo : (0 : K) < 2 := two_pos
  have hsquare : (m * 2 ^ (-e)) ^ 2 = m ^ 2 / 2 ^ (2 * e) := by
    rw [mul_pow, ← zpow_natCast (2 ^ (-e)), ← zpow_mul, div_eq_mul_inv, ← zpow_neg]
    congr 2
    push_cast
    ring
  have hpow : (0 : K) < 2 ^ (2 * e) := zpow_pos htwo _
  refine ⟨mul_pos hm (zpow_pos htwo _), ?_, ?_⟩
  · rw [zpow_sub₀ htwo.ne', zpow_one, div_le_iff₀ htwo] at hlow
    rw [hsquare, ← mul_div_assoc, one_le_div hpow]
    linarith
  · rw [zpow_add₀ htwo.ne', zpow_one] at hhigh
    rw [hsquare, div_le_iff₀ hpow]
    linarith

/-- A number times the scale of a magnitude that bounds it does not see a power of two in
    both of them. -/
theorem balance_mul_zpow_mul [ExactScalar K] [ShiftingBalance K] (hle : |x| ≤ m) (e : ℤ) :
    Scalar.balance (2 ^ e * m) * (2 ^ e * x) = Scalar.balance m * x := by
  rcases (abs_nonneg x).trans hle |>.eq_or_lt with rfl | hm
  · rw [abs_nonpos_iff.1 hle, mul_zero, mul_zero]
  · rw [ShiftingBalance.balance_zpow_mul e m hm, zpow_neg]
    field_simp

/-- The logarithm of a multiple by a power of two. -/
theorem log_zpow_mul [FloorSemiring K] (hm : 0 < m) (e : ℤ) :
    Int.log 2 (2 ^ e * m) = e + Int.log 2 m := by
  have hpow : (0 : K) < 2 ^ e := zpow_pos two_pos e
  have hshift : ∀ z : ℤ, z ≤ Int.log 2 (2 ^ e * m) ↔ z ≤ e + Int.log 2 m := by
    intro z
    rw [← Int.zpow_le_iff_le_log one_lt_two (mul_pos hpow hm), ← sub_le_iff_le_add',
      ← Int.zpow_le_iff_le_log one_lt_two hm, Nat.cast_two, zpow_sub₀ two_ne_zero,
      div_le_iff₀' hpow]
  exact eq_of_forall_le_iff hshift

end Balanced

/-! ### The rational and the real numbers -/

instance : NearestPowerBalance ℚ where
  balance_zero := rfl
  balance_of_pos m hm := by
    refine ⟨-((Int.log 2 (m * m) + 1) / 2), if_neg hm.ne', ?_⟩
    have hsquare : 0 < m * m := mul_pos hm hm
    have hlow := Int.zpow_log_le_self one_lt_two hsquare
    have hhigh := Int.lt_zpow_succ_log_self one_lt_two (m * m)
    rw [← sq] at hlow hhigh ⊢
    apply isBalanced_mul_zpow hm
    · apply le_trans _ hlow
      exact zpow_le_zpow_right₀ one_le_two (by omega)
    · apply hhigh.le.trans
      exact zpow_le_zpow_right₀ one_le_two (by omega)

instance : ShiftingBalance ℚ where
  balance_zpow_mul e m hm := by
    have hpow : (0 : ℚ) < 2 ^ e := zpow_pos two_pos e
    have hsquare : 2 ^ e * m * (2 ^ e * m) = 2 ^ (2 * e) * (m * m) := by
      rw [mul_comm 2 e, zpow_mul, zpow_two]
      ring
    have hlog : Int.log 2 (2 ^ e * m * (2 ^ e * m)) = 2 * e + Int.log 2 (m * m) := by
      rw [hsquare, log_zpow_mul (mul_pos hm hm)]
    change (if _ then _ else _) = _ * (if _ then _ else _)
    rw [if_neg (mul_pos hpow hm).ne', if_neg hm.ne', hlog, ← zpow_add₀ two_ne_zero]
    congr 1
    omega

theorem RealNumber.nearestPowerBalance :
    @NearestPowerBalance ℝ _ _ _ RealNumber.exactScalar := by
  refine @NearestPowerBalance.mk ℝ _ _ _ RealNumber.exactScalar ?_ ?_
  · change (2 : ℝ) ^ (-⌊Real.logb 2 0 + 1 / 2⌋) = 1
    have hfloor : ⌊Real.logb 2 0 + 1 / 2⌋ = 0 := by
      rw [Real.logb_zero, Int.floor_eq_zero_iff]
      norm_num
    rw [hfloor, neg_zero, zpow_zero]
  · intro m hm
    refine ⟨-⌊Real.logb 2 m + 1 / 2⌋, rfl, ?_⟩
    have hlow := Int.floor_le (Real.logb 2 m + 1 / 2)
    have hhigh := Int.lt_floor_add_one (Real.logb 2 m + 1 / 2)
    have hlog : Real.logb 2 (m ^ 2) = 2 * Real.logb 2 m := by
      rw [Real.logb_pow]
      rfl
    apply isBalanced_mul_zpow hm
    · rw [← Real.rpow_intCast, ← Real.le_logb_iff_rpow_le one_lt_two (sq_pos_of_pos hm), hlog]
      push_cast
      linarith
    · rw [← Real.rpow_intCast, ← Real.logb_le_iff_le_rpow one_lt_two (sq_pos_of_pos hm), hlog]
      push_cast
      linarith

theorem RealNumber.shiftingBalance : @ShiftingBalance ℝ _ _ _ RealNumber.exactScalar := by
  refine @ShiftingBalance.mk ℝ _ _ _ RealNumber.exactScalar RealNumber.nearestPowerBalance ?_
  intro e m hm
  change (2 : ℝ) ^ (-⌊Real.logb 2 (2 ^ e * m) + 1 / 2⌋) =
    2 ^ (-e) * 2 ^ (-⌊Real.logb 2 m + 1 / 2⌋)
  have hlog : Real.logb 2 (2 ^ e * m) = e + Real.logb 2 m := by
    rw [Real.logb_mul (zpow_ne_zero e two_ne_zero) hm.ne', ← Real.rpow_intCast,
      Real.logb_rpow two_pos one_lt_two.ne']
  rw [hlog, add_assoc, Int.floor_intCast_add, neg_add, zpow_add₀ two_ne_zero]

end NumericMethods
