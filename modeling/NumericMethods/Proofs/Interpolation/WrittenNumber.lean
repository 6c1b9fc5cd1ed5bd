/-
  NumericMethods/Proofs/Interpolation/WrittenNumber.lean
  ======================================================
  **Numbers are written as what they are rounded to.**

  A rational number below the resolution is written as zero, and any other as the multiple
  of the resolution nearest to it, halves away from zero (`rounded`).  Such multiples are
  decimals, and are written with a minus sign exactly if they are less than zero
  (`number_eq`, `hasMagnitude_rounded`).
-/
import Mathlib
import NumericMethods.Proofs.Interpolation.Notation
import NumericMethods.Proofs.Scalar.Rational

namespace NumericMethods.Written

open Formula (Literal)

attribute [local instance] RationalNumber.exactScalar

variable {v : ℚ}

/-- The number that is written for `v`. -/
def rounded (v : ℚ) : ℚ :=
  if |v| < 1 / 10 ^ 10 then 0 else SignType.sign v * (⌊|v| * 10 ^ 10 + 1 / 2⌋ / 10 ^ 10)

theorem rounded_one : rounded 1 = 1 := by
  have hfloor : ⌊(1 : ℚ) * 10 ^ 10 + 1 / 2⌋ = 10 ^ 10 := by norm_num [Int.floor_eq_iff]
  rw [rounded, abs_one, hfloor]
  norm_num

theorem rounded_neg (v : ℚ) : rounded (-v) = -rounded v := by
  rw [rounded, rounded, abs_neg, Left.sign_neg]
  split <;> simp

theorem rounded_nonneg (h : 0 ≤ v) : 0 ≤ rounded v := by
  rw [rounded]
  split
  · exact le_rfl
  · have hsign : (0 : ℚ) ≤ SignType.sign v := by
      rcases h.eq_or_lt with rfl | hpos
      · simp
      · simp [sign_pos hpos]
    have hfloor : (0 : ℚ) ≤ ⌊|v| * 10 ^ 10 + 1 / 2⌋ := by
      exact_mod_cast Int.floor_nonneg.2 (by positivity)
    positivity

theorem abs_rounded (v : ℚ) : |rounded v| = rounded |v| := by
  rcases le_total 0 v with h | h
  · rw [abs_of_nonneg h, abs_of_nonneg (rounded_nonneg h)]
  · have hneg := rounded_nonneg (neg_nonneg.2 h)
    rw [abs_of_nonpos h, rounded_neg] at *
    rw [abs_of_nonpos (neg_nonneg.1 hneg)]

/-- What is written is a whole number of the last places. -/
theorem den_rounded_dvd (v : ℚ) : (rounded v).den ∣ 10 ^ 10 := by
  have hwhole : ∃ k : ℤ, rounded v = k / (10 ^ 10 : ℕ) := by
    rw [rounded]
    split
    · exact ⟨0, by simp⟩
    · refine ⟨SignType.sign v * ⌊|v| * 10 ^ 10 + 1 / 2⌋, ?_⟩
      rw [Int.cast_mul, SignType.intCast_cast, mul_div_assoc]
      norm_num
  obtain ⟨k, hk⟩ := hwhole
  have hden := Rat.den_dvd k (10 ^ 10 : ℕ)
  rw [Rat.divInt_eq_div, Int.cast_natCast, ← hk] at hden
  exact_mod_cast hden

theorem round_eq (v : ℚ) :
    (Scalar.round (v * unitsPerOne) / unitsPerOne + 0 : ℚ) =
      SignType.sign v * (⌊|v| * 10 ^ 10 + 1 / 2⌋ / 10 ^ 10) := by
  have hunits : (unitsPerOne : ℚ) = 10 ^ 10 := by
    change ((1 : ℕ) : ℚ) * ((10 : ℕ) : ℚ) ^ (10 : ℤ) = 10 ^ 10
    norm_num
  have hround : ∀ x : ℚ, Scalar.round x = if 0 ≤ x then (⌊x + 1 / 2⌋ : ℚ) else ⌈x - 1 / 2⌉ :=
    fun _ => rfl
  rw [hunits, hround, add_zero]
  rcases le_or_gt 0 v with h | h
  · have hsign : (SignType.sign v : ℚ) * (⌊v * 10 ^ 10 + 1 / 2⌋ : ℚ) = ⌊v * 10 ^ 10 + 1 / 2⌋ := by
      rcases h.eq_or_lt with rfl | hpos
      · norm_num
      · rw [sign_pos hpos, SignType.coe_one, one_mul]
    rw [if_pos (by positivity), abs_of_nonneg h, ← mul_div_assoc, hsign]
  · have hneg : ¬ 0 ≤ v * 10 ^ 10 := (mul_neg_of_neg_of_pos h (by norm_num)).not_ge
    -- rounding up below zero is rounding down the magnitude
    have hceil : ⌈v * 10 ^ 10 - 1 / 2⌉ = -⌊-v * 10 ^ 10 + 1 / 2⌋ := by
      rw [← Int.ceil_neg]
      congr 1
      ring
    rw [if_neg hneg, abs_of_neg h, sign_neg h, hceil, SignType.coe_neg_one, Int.cast_neg]
    ring

theorem number_eq (v : ℚ) : number v = RationalNumber.text (rounded v) := by
  have hresolution : (resolution : ℚ) = 1 / 10 ^ 10 := by
    change ((1 : ℕ) : ℚ) * ((10 : ℕ) : ℚ) ^ (-10 : ℤ) = 1 / 10 ^ 10
    norm_num
  have hzero : RationalNumber.text 0 = "0" := by decide +kernel
  have habs : (Scalar.abs v : ℚ) = |v| := rfl
  rw [number, rounded, hresolution, round_eq, habs]
  split
  · rw [hzero]
  · rfl

example : number (-2 / 3 : ℚ) = "-0.6666666667" := by decide +kernel

theorem hasMagnitude_rounded (v : ℚ) :
    HasMagnitude v |rounded v| ∧ isNegative v = decide (rounded v < 0) := by
  obtain ⟨l, hvalue, htext⟩ := RationalNumber.exists_literal_text (den_rounded_dvd v)
  have hnumber := htext (rounded v) rfl
  have hmagnitude := htext |rounded v| (abs_abs _)
  rw [← number_eq] at hnumber
  rw [if_neg (abs_nonneg _).not_gt, abs_rounded, ← number_eq, List.nil_append] at hmagnitude
  have hnegative : isNegative v = decide (rounded v < 0) := isNegative_eq (by simpa using hnumber)
  refine ⟨⟨l, hvalue, hmagnitude, ?_⟩, hnegative⟩
  rw [hnumber, hnegative]
  simp

/-- The magnitude that is written, with the sign that is written, is the rounded number. -/
theorem signed_rounded (v : ℚ) : signed v |rounded v| = rounded v := by
  rw [signed, (hasMagnitude_rounded v).2]
  by_cases h : rounded v < 0
  · rw [if_pos (decide_eq_true h), abs_of_neg h]
    exact neg_neg _
  · rw [if_neg (by simpa using h), abs_of_nonneg (not_lt.1 h)]

end NumericMethods.Written
