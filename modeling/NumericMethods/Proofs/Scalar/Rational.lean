/-
  NumericMethods/Proofs/Scalar/Rational.lean
  ==========================================
  **Rational numbers with their decimal texts.**

  A rational number whose denominator divides a power of ten is written as a decimal, with
  as few places as it needs.  A denominator divides a power of ten if and only if it divides
  the one whose exponent is the binary logarithm of the denominator (`dvd_ten_pow_log2`), so
  that the places are found by trying.  Other numbers have no decimal, and are written as
  fractions.
-/
import Mathlib
import NumericMethods.Proofs.Formula.Printing
import NumericMethods.Proofs.Scalar.Exact

namespace NumericMethods.RationalNumber

open Formula (Literal)

variable {v : ℚ} {n places : ℕ}

/-! ### Decimal texts -/

/-- The decimal that is the magnitude of the number, with the fewest places. -/
def decimal? (v : ℚ) : Option Decimal :=
  ((List.range (Nat.log2 v.den + 1)).find? fun places => v.den ∣ 10 ^ places).map
    fun (places : ℕ) => ⟨v.num.natAbs * 10 ^ places / v.den, -(places : ℤ)⟩

def text (v : ℚ) : String :=
  match decimal? v with
  | some d => String.ofList ((if v < 0 then ['-'] else []) ++ d.positional)
  | none => toString v

/-- The rational numbers as numbers of the methods, with their decimal texts. -/
abbrev exactScalar : ExactScalar ℚ :=
  { (inferInstance : ExactScalar ℚ) with text := text }

/-! ### Numbers that have one -/

theorem dvd_ten_pow_log2 (hn : n ≠ 0) (h : n ∣ 10 ^ places) : n ∣ 10 ^ Nat.log2 n := by
  have hten : ∀ k, 10 ^ k ≠ 0 := fun k => by positivity
  rw [← Nat.factorization_prime_le_iff_dvd hn (hten _)] at h ⊢
  intro p hp
  have hle := h p hp
  rw [Nat.factorization_pow, Finsupp.smul_apply, smul_eq_mul] at hle ⊢
  rcases Nat.eq_zero_or_pos (Nat.factorization 10 p) with hzero | hpos
  · rw [hzero, Nat.mul_zero] at hle
    exact hle.trans (Nat.zero_le _)
  · -- a power of `p` divides `n`, and the same power of two is not larger
    have hlog : n.factorization p ≤ Nat.log2 n := by
      rw [Nat.le_log2 hn]
      exact (Nat.pow_le_pow_left hp.two_le _).trans (Nat.ordProj_le p hn)
    exact hlog.trans (Nat.le_mul_of_pos_right _ hpos)

theorem abs_eq_natAbs_div (v : ℚ) : |v| = v.num.natAbs / v.den := by
  conv_lhs => rw [← Rat.num_div_den v]
  rw [abs_div, Nat.abs_cast, Nat.cast_natAbs, Int.cast_abs]

theorem exists_decimal (h : v.den ∣ 10 ^ places) : ∃ d, decimal? v = some d ∧ d.toRat = |v| := by
  have hfound : ((List.range (Nat.log2 v.den + 1)).find?
      fun places => v.den ∣ 10 ^ places).isSome := by
    rw [List.find?_isSome]
    exact ⟨Nat.log2 v.den, by simp, by simpa using dvd_ten_pow_log2 v.den_ne_zero h⟩
  obtain ⟨k, hk⟩ := Option.isSome_iff_exists.1 hfound
  obtain ⟨q, hq⟩ : v.den ∣ 10 ^ k := by simpa using List.find?_some hk
  refine ⟨⟨v.num.natAbs * 10 ^ k / v.den, -(k : ℤ)⟩, by rw [decimal?, hk]; rfl, ?_⟩
  have hden : (v.den : ℚ) ≠ 0 := by exact_mod_cast v.den_ne_zero
  have hpow : (10 : ℚ) ^ k = v.den * q := by exact_mod_cast hq
  have hq0 : (q : ℚ) ≠ 0 := by
    rintro hzero
    rw [hzero, mul_zero] at hpow
    exact absurd hpow (by positivity)
  have hdigits : v.num.natAbs * 10 ^ k / v.den = v.num.natAbs * q := by
    rw [hq, Nat.mul_left_comm, Nat.mul_div_cancel_left _ v.den_pos]
  rw [Decimal.toRat, hdigits, zpow_neg, zpow_natCast, hpow, abs_eq_natAbs_div]
  push_cast
  field_simp

/-- The text of a decimal is a literal for its magnitude, behind the sign. -/
theorem exists_literal_text (h : v.den ∣ 10 ^ places) :
    ∃ l : Literal, l.numeral.toDecimal.toRat = |v| ∧
      ∀ w : ℚ, |w| = |v| → (text w).toList = (if w < 0 then ['-'] else []) ++ l.text := by
  obtain ⟨d, hd, hvalue⟩ := exists_decimal h
  obtain ⟨l, hl, htext⟩ := Formula.exists_literal_positional d
  refine ⟨l, hl.trans hvalue, ?_⟩
  intro w hw
  have hsame : decimal? w = decimal? v := by
    rcases abs_eq_abs.1 hw with rfl | rfl
    · rfl
    · simp [decimal?]
  rw [text, hsame, hd, htext]
  simp

end NumericMethods.RationalNumber
