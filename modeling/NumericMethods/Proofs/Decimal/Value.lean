/-
  NumericMethods/Proofs/Decimal/Value.lean
  ========================================
  **The number that a decimal stands for.**

  Decimals are compared through their values, which are rational numbers: leading and
  trailing zeros of a layout change the digits and the exponent of what is read, but not
  its value.
-/
import NumericMethods.Decimal
import Mathlib.Algebra.Order.Field.Basic
import Mathlib.Algebra.Order.Field.Power
import Mathlib.Data.Rat.Cast.Order
import Mathlib.Tactic.Linarith
import Mathlib.Tactic.Positivity
import Mathlib.Tactic.Ring

namespace NumericMethods.Decimal

/-- The number a decimal stands for. -/
def toRat (d : Decimal) : ℚ := d.digits * 10 ^ d.exponent

/-! ### Lists of digits -/

theorem digitsValue_eq_ofDigitChars (ds : List Char) :
    digitsValue ds = Nat.ofDigitChars 10 ds 0 :=
  Nat.ofDigitChars_eq_foldl.symm

theorem digitsValue_digitsOf (n : Nat) : digitsValue (digitsOf n) = n := by
  rw [digitsValue_eq_ofDigitChars]
  exact Nat.ofDigitChars_ten_toDigits

theorem digitsValue_append_zeros (ds : List Char) (n : Nat) :
    digitsValue (ds ++ List.replicate n '0') = 10 ^ n * digitsValue ds := by
  rw [digitsValue_eq_ofDigitChars, digitsValue_eq_ofDigitChars, Nat.ofDigitChars_append,
    Nat.ofDigitChars_replicate_zero]

theorem digitsValue_zeros_append (ds : List Char) (n : Nat) :
    digitsValue (List.replicate n '0' ++ ds) = digitsValue ds := by
  rw [digitsValue_eq_ofDigitChars, digitsValue_eq_ofDigitChars, Nat.ofDigitChars_append,
    Nat.ofDigitChars_replicate_zero, Nat.mul_zero]

/-! ### The size of a number is the number of its digits -/

theorem length_digitsOf_pos (n : Nat) : 0 < (digitsOf n).length := Nat.length_toDigits_pos

theorem lt_pow_length_digitsOf (n : Nat) : n < 10 ^ (digitsOf n).length :=
  (Nat.length_toDigits_le_iff (by decide) (length_digitsOf_pos n)).1 le_rfl

theorem pow_length_digitsOf_le {n : Nat} (h : n ≠ 0) : 10 ^ ((digitsOf n).length - 1) ≤ n := by
  by_contra hlt
  rw [not_le] at hlt
  rcases Nat.eq_zero_or_pos ((digitsOf n).length - 1) with hzero | hpos
  · rw [hzero, pow_zero] at hlt
    omega
  · have hlength := (Nat.length_toDigits_le_iff (by decide) hpos).2 hlt
    have hlength' : (digitsOf n).length ≤ (digitsOf n).length - 1 := hlength
    omega

theorem toRat_pos {d : Decimal} (h : d.digits ≠ 0) : 0 < d.toRat := by
  have hdigits : (0 : ℚ) < d.digits := by exact_mod_cast Nat.pos_of_ne_zero h
  exact mul_pos hdigits (zpow_pos (by norm_num) _)

theorem toRat_lt (d : Decimal) : d.toRat < 10 ^ (d.exponent + (digitsOf d.digits).length) := by
  have hlt : (d.digits : ℚ) < 10 ^ (digitsOf d.digits).length := by
    exact_mod_cast lt_pow_length_digitsOf d.digits
  have hpos : (0 : ℚ) < 10 ^ d.exponent := zpow_pos (by norm_num) _
  rw [toRat, zpow_add₀ (by norm_num), zpow_natCast, mul_comm]
  exact mul_lt_mul_of_pos_left hlt hpos

theorem le_toRat {d : Decimal} (h : d.digits ≠ 0) :
    (10 : ℚ) ^ (d.exponent + (digitsOf d.digits).length - 1) ≤ d.toRat := by
  have hle : (10 : ℚ) ^ ((digitsOf d.digits).length - 1) ≤ d.digits := by
    exact_mod_cast pow_length_digitsOf_le h
  have hpos : (0 : ℚ) < 10 ^ d.exponent := zpow_pos (by norm_num) _
  have hlength := length_digitsOf_pos d.digits
  have hexponent : d.exponent + (digitsOf d.digits).length - 1 =
      ((digitsOf d.digits).length - 1 : Nat) + d.exponent := by omega
  rw [hexponent, zpow_add₀ (by norm_num), zpow_natCast, toRat]
  exact mul_le_mul_of_nonneg_right hle hpos.le

/-! ### The layouts keep the value -/

theorem toRat_trailing_zeros (n zeros : Nat) :
    (Numeral.toDecimal ⟨digitsOf n ++ List.replicate zeros '0', [], 0⟩).toRat =
      toRat ⟨n, zeros⟩ := by
  simp only [Numeral.toDecimal, List.append_nil, digitsValue_append_zeros, digitsValue_digitsOf,
    toRat, List.length_nil, Nat.cast_zero, sub_zero, zpow_zero, zpow_natCast, mul_one]
  push_cast
  ring

theorem toDecimal_point {n places : Nat} (h : places ≤ (digitsOf n).length) :
    Numeral.toDecimal ⟨(digitsOf n).take ((digitsOf n).length - places),
      (digitsOf n).drop ((digitsOf n).length - places), 0⟩ = ⟨n, -(places : Int)⟩ := by
  rw [Numeral.toDecimal, List.take_append_drop, digitsValue_digitsOf, List.length_drop,
    Nat.sub_sub_self h, Int.zero_sub]

theorem toDecimal_leading_zeros {n places : Nat} (h : (digitsOf n).length ≤ places) :
    Numeral.toDecimal ⟨['0'], List.replicate (places - (digitsOf n).length) '0' ++ digitsOf n, 0⟩ =
      ⟨n, -(places : Int)⟩ := by
  have hvalue := digitsValue_zeros_append (digitsOf n) (places - (digitsOf n).length + 1)
  rw [List.replicate_succ, List.cons_append, digitsValue_digitsOf] at hvalue
  rw [Numeral.toDecimal, List.cons_append, List.nil_append, hvalue, List.length_append,
    List.length_replicate, Nat.sub_add_cancel h, Int.zero_sub]

end NumericMethods.Decimal
