/-
  NumericMethods/Proofs/Scalar/Range.lean
  =======================================
  **Which results of floating point operations are finite.**

  A number is rounded to an infinite one from the middle between the largest finite number
  and the next power of two on: `(2 ^ 53 - 1 / 2) * 2 ^ 971` (`IsRounded.isFinite_iff`).
  Below it, a significand that is rounded up to the next power of two still has an exponent
  of the format; from it on, the tie is resolved upwards and the exponent is too large.
-/
import Mathlib
import NumericMethods.Proofs.Scalar.Equality

namespace NumericMethods.Binary64

open Float.Model Float.Model.UnpackedFloat

/-! ### Packing -/

theorem isFinite_unpack {b : BitVec Format.binary64.numBits} (h : unpackExponent b ≠ -1#_) :
    (UnpackedFloat.unpack Format.binary64 b).isFinite = true := by
  unfold UnpackedFloat.unpack
  dsimp only
  rw [if_neg h]
  split
  · split <;> rfl
  · rfl

/-- A number is packed as an infinite one if its exponent is too large. -/
theorem isFinite_pack_iff {s : Sign} {m : ℕ} {e : ℤ} (hm : 0 < m) (he : -1074 ≤ e) :
    (Float.Model.pack (.finite s m e hm)).unpack.isFinite = true ↔ e < 972 := by
  change (UnpackedFloat.unpack Format.binary64
    (UnpackedFloat.pack Format.binary64 (.finite s m e hm))).isFinite = true ↔ _
  have hbiased : (e + Format.binary64.exponentBias +
      Format.binary64.mantissaBitsWithoutImplicit).toNat = (e + 1075).toNat := by
    change (e + 1023 + 52).toNat = _
    omega
  simp only [UnpackedFloat.pack, hbiased]
  by_cases hlarge : 972 ≤ e
  · have hinf : 2 ^ Format.binary64.exponentBits ≤ (e + 1075).toNat + 1 := by
      change 2 ^ 11 ≤ _
      omega
    rw [if_pos hinf]
    refine iff_of_false ?_ (not_lt.2 hlarge)
    cases s <;> exact Bool.false_ne_true
  · have hfield : ¬ 2 ^ Format.binary64.exponentBits ≤ (e + 1075).toNat + 1 := by
      change ¬ 2 ^ 11 ≤ _
      omega
    rw [if_neg hfield]
    refine iff_of_true (isFinite_unpack ?_) (not_le.1 hlarge)
    split
    · rw [unpackExponent_packComponents]
      intro hones
      have hvalue := congrArg BitVec.toNat hones
      rw [BitVec.toNat_ofNat] at hvalue
      change _ % 2 ^ 11 = 2047 at hvalue
      omega
    · rw [unpackExponent_packComponents]
      decide

/-! ### Rounding -/

section Rounding

variable {y : ℚ} {t : ℤ} {n : ℕ} {s : Sign} {f : UnpackedFloat}

/-- A significand that is rounded to 54 binary places makes the exponent larger by one, so
    the largest exponent is exceeded from the middle below the next power of two on. -/
theorem lt_overflow_iff (hn : NearestEven (y / 2 ^ t) n) (hlt : y < 2 ^ (t + 53))
    (hsize : t = -1074 ∨ 2 ^ (t + 52) ≤ y) :
    y < (2 ^ 53 - 1 / 2) * 2 ^ (971 : ℤ) ↔ t < 971 ∨ t = 971 ∧ n < 2 ^ 53 := by
  have hpos : (0 : ℚ) < 2 ^ (971 : ℤ) := zpow_pos (by norm_num) _
  have hscale (k : ℕ) : (2 : ℚ) ^ (971 + k : ℤ) = 2 ^ k * 2 ^ (971 : ℤ) := by
    rw [zpow_add₀ (by norm_num), zpow_natCast, mul_comm]
  rcases lt_trichotomy t 971 with ht | rfl | ht
  · refine iff_of_true ?_ (.inl ht)
    calc y < 2 ^ (t + 53) := hlt
      _ ≤ 2 ^ (971 + (52 : ℕ) : ℤ) := zpow_le_zpow_right₀ (by norm_num) (by omega)
      _ = 2 ^ 52 * 2 ^ (971 : ℤ) := hscale 52
      _ ≤ (2 ^ 53 - 1 / 2) * 2 ^ (971 : ℤ) := by
        apply mul_le_mul_of_nonneg_right _ hpos.le
        norm_num
  · rw [← div_lt_iff₀ hpos]
    constructor
    · intro hy
      have hlow := hn.low
      exact .inr ⟨rfl, by exact_mod_cast (by linarith : (n : ℚ) < 2 ^ 53)⟩
    · rintro (ht | ⟨-, hlong⟩)
      · exact absurd ht (lt_irrefl _)
      -- of the largest significand and the next power of two, the latter is even
      by_cases hlast : n = 2 ^ 53 - 1
      · have hhigh := (hn.odd (by omega)).2
        rw [hlast] at hhigh
        norm_num at hhigh ⊢
        exact hhigh
      · have hle : (n : ℚ) + 2 ≤ 2 ^ 53 := by exact_mod_cast (by omega : n + 2 ≤ 2 ^ 53)
        linarith [hn.high]
  · refine iff_of_false ?_ (by omega)
    have hlarge := hsize.resolve_left (by omega)
    have hpow : 2 ^ 53 * 2 ^ (971 : ℤ) ≤ y := by
      rw [← hscale 53]
      exact (zpow_le_zpow_right₀ (by norm_num) (by omega)).trans hlarge
    refine not_lt.2 (le_trans ?_ hpow)
    apply mul_le_mul_of_nonneg_right _ hpos.le
    norm_num

/-- A number is rounded to a finite one exactly below the middle between the largest finite
    number and the next power of two. -/
theorem IsRounded.isFinite_iff (hf : IsRounded s y f) :
    (Float.Model.pack f).unpack.isFinite = true ↔ y < (2 ^ 53 - 1 / 2) * 2 ^ (971 : ℤ) := by
  obtain ⟨m, e, acc, rfl, hm, he⟩ := hf
  obtain ⟨em, hshift, hem⟩ := exists_shift hm rfl he
  obtain ⟨hleast, hlt, hsize⟩ := size_bounds hm rfl he
  generalize Format.binary64.targetExponent (totalExponent m e) = t at *
  obtain ⟨n, hrounded⟩ : ∃ n, em.roundedMantissa = n := ⟨_, rfl⟩
  have hn : NearestEven (y / 2 ^ t) n := hrounded ▸ hem.nearestEven
  rw [lt_overflow_iff hn hlt hsize]
  have hpos : (0 : ℚ) < 2 ^ t := zpow_pos (by norm_num) _
  have hle : n ≤ 2 ^ 53 := by
    have hquotient : y / 2 ^ t < 2 ^ 53 := by
      rw [div_lt_iff₀ hpos, ← zpow_natCast, ← zpow_add₀ (by norm_num), add_comm]
      exact hlt
    have hlow := hn.low
    have hnext : (n : ℚ) < 2 ^ 53 + 1 := by linarith
    exact Nat.lt_succ_iff.1 (by exact_mod_cast hnext)
  rcases hle.lt_or_eq with hshort | rfl
  · simp only [roundWithAccuracy, hshift, hrounded, shift_short hshort hleast]
    by_cases hzero : n = 0
    · rw [dif_pos hzero]
      refine iff_of_true (by cases s <;> rfl) (.inl ?_)
      -- a number of at least 53 binary places is not rounded to zero
      by_contra hlarge
      have hhigh := hn.high
      have hlow := hsize.resolve_left (by omega)
      rw [add_comm, zpow_add₀ (by norm_num), ← le_div_iff₀ hpos] at hlow
      rw [hzero] at hhigh
      norm_num at hlow hhigh
      linarith
    · rw [dif_neg hzero, isFinite_pack_iff (Nat.pos_of_ne_zero hzero) hleast]
      omega
  · simp only [roundWithAccuracy, hshift, hrounded, shift_long hleast]
    rw [dif_neg (by decide), isFinite_pack_iff (by decide) (by omega)]
    omega

end Rounding

/-! ### Products and quotients with a positive number -/

section Operations

variable {v w : Float} {m : ℕ} {e : ℤ} {hm : 0 < m} {s : Sign}

/-- The numbers of the format are finite themselves. -/
theorem lt_overflow {x : Decimal.Dyadic} (hx : x.IsBinary64) :
    (x.significand * 2 ^ x.exponent : ℚ) < (2 ^ 53 - 1 / 2) * 2 ^ (971 : ℤ) := by
  have hpos : (0 : ℚ) < 2 ^ (971 : ℤ) := zpow_pos (by norm_num) _
  have hsignificand : (x.significand : ℚ) + 1 ≤ 2 ^ 53 := by exact_mod_cast hx.lt
  have hexponent : (2 : ℚ) ^ x.exponent ≤ 2 ^ (971 : ℤ) :=
    zpow_le_zpow_right₀ (by norm_num) hx.greatest
  generalize (2 : ℚ) ^ (971 : ℤ) = bound at *
  calc (x.significand * 2 ^ x.exponent : ℚ) ≤ x.significand * bound :=
        mul_le_mul_of_nonneg_left hexponent (Nat.cast_nonneg _)
    _ < (2 ^ 53 - 1 / 2) * bound := mul_lt_mul_of_pos_right (by linarith) hpos

theorem isFinite_mul_iff (hfinite : v.isFinite = true) (hx : (magnitude v).IsBinary64)
    (hw : w.toModel.unpack = .finite .positive m e hm) (hlong : 2 ^ 52 ≤ m) :
    (v * w).isFinite = true ↔
      ((magnitude v).significand * 2 ^ (magnitude v).exponent * (m * 2 ^ e) : ℚ) <
        (2 ^ 53 - 1 / 2) * 2 ^ (971 : ℤ) := by
  change (Float.Model.pack (mul .binary64 v.toModel.unpack w.toModel.unpack)).unpack.isFinite =
    true ↔ _
  rw [unpack_of_isFinite hfinite hx, hw]
  exact (isRounded_mul hx.pos hm (hlong.trans (Nat.le_mul_of_pos_left _ hx.pos))).isFinite_iff

/-- A number becomes no larger when it is divided by one that is not below one. -/
theorem isFinite_div_of_one_le (hfinite : v.isFinite = true)
    (hw : w.toModel.unpack = .finite .positive m e hm) (hone : (1 : ℚ) ≤ m * 2 ^ e) :
    (v / w).isFinite = true := by
  change (Float.Model.pack (div .binary64 v.toModel.unpack w.toModel.unpack)).unpack.isFinite =
    true
  by_cases hzero : IsZero v
  · obtain ⟨t, ht⟩ := isZero_iff_unpack.1 hzero
    have hdiv : div .binary64 (.zero t) (.finite .positive m e hm) = .zero (t / .positive) := rfl
    rw [ht, hw, hdiv]
    exact isFinite_of_isZero (isZero_pack _)
  · have hx := isBinary64_magnitude hfinite hzero
    rw [unpack_of_isFinite hfinite hx, hw]
    refine (isRounded_div hx.pos hm).isFinite_iff.2 ?_
    exact (div_le_self (by positivity) hone).trans_lt (lt_overflow hx)

/-! ### Sums with zero and whole numbers -/

theorem isFinite_add_zero (hfinite : v.isFinite = true) : (v + 0).isFinite = true := by
  change (Float.Model.pack (add .binary64 v.toModel.unpack (.zero .positive))).unpack.isFinite =
    true
  have hunpack : v.toModel.unpack.isFinite = true := hfinite
  cases hv : v.toModel.unpack with
  | notANumber => rw [hv] at hunpack; cases hunpack
  | infinity s => rw [hv] at hunpack; cases hunpack
  | zero s => cases s <;> rfl
  | finite s m e hm =>
    change (Float.Model.pack (.finite s m e hm)).unpack.isFinite = true
    rw [← hv]
    have hpacked := congrArg Float.isFinite (pack_unpack (isNaN_of_isFinite hfinite))
    exact hpacked.trans hfinite

theorem significand_lt (v : Float) : (magnitude v).significand < 2 ^ 53 := by
  have hfraction := fractionOf_lt v
  rw [magnitude_eq]
  split <;> dsimp only <;> omega

/-- A significand with places behind the point does not grow when these are rounded away. -/
theorem nearest_lt (v : Float) {places : ℕ} (hplaces : places ≠ 0) :
    ((magnitude v).significand + Nat.pow 2 (places - 1)) / Nat.pow 2 places < 2 ^ 53 := by
  have hlt := significand_lt v
  obtain ⟨k, rfl⟩ := Nat.exists_eq_succ_of_ne_zero hplaces
  have hpos : 0 < 2 ^ k := Nat.two_pow_pos k
  have hpow : Nat.pow 2 k.succ = 2 ^ k * 2 := Nat.pow_succ ..
  rw [Nat.succ_sub_one, hpow, Nat.div_lt_iff_lt_mul (by omega)]
  change _ + 2 ^ k < _
  omega

theorem isFinite_toFloat {n : ℕ} (hn : n < 2 ^ 53) : n.toUInt64.toFloat.isFinite = true := by
  by_cases hzero : n = 0
  · rw [hzero]
    decide +kernel
  · rw [toFloat_eq hzero hn]
    exact congrArg UnpackedFloat.isFinite (unpack_ofParts _ (isBinary64_whole hzero hn))

/-- Rounding to a whole number does not leave the finite numbers. -/
theorem isFinite_nearestWhole (hfinite : v.isFinite = true) :
    (nearestWhole v).isFinite = true := by
  unfold nearestWhole
  dsimp only
  split
  · exact hfinite
  · rename_i hplaces
    rw [hfinite] at hplaces
    simp only [Bool.not_true, Bool.false_or, decide_eq_true_eq, not_le] at hplaces
    have hsize := isFinite_toFloat (nearest_lt v (by omega : (magnitude v).exponent.natAbs ≠ 0))
    split
    · exact isFinite_neg_of_isFinite hsize
    · exact hsize

end Operations

/-! ### The order of magnitudes -/

section Order

variable {x z : Decimal.Dyadic}

/-- Only at the smallest exponent the leading bit may be missing, so a larger exponent makes
    a larger number. -/
theorem value_lt_of_exponent_lt (hx : x.IsBinary64) (hz : z.IsBinary64)
    (h : x.exponent < z.exponent) :
    (x.significand * 2 ^ x.exponent : ℚ) < z.significand * 2 ^ z.exponent := by
  have hpos : (0 : ℚ) < 2 ^ x.exponent := zpow_pos (by norm_num) _
  have hshort : (x.significand : ℚ) < 2 ^ 53 := by exact_mod_cast hx.lt
  have hleast := hx.least
  have hleading : (2 : ℚ) ^ 52 ≤ z.significand := by
    exact_mod_cast hz.leading.resolve_left (by omega)
  calc (x.significand * 2 ^ x.exponent : ℚ) < 2 ^ 53 * 2 ^ x.exponent :=
        mul_lt_mul_of_pos_right hshort hpos
    _ = 2 ^ 52 * 2 ^ (1 + x.exponent) := by
        rw [zpow_one_add₀ (by norm_num), ← mul_assoc]
        norm_num
    _ ≤ 2 ^ 52 * 2 ^ z.exponent :=
        mul_le_mul_of_nonneg_left (zpow_le_zpow_right₀ (by norm_num) (by omega)) (by norm_num)
    _ ≤ z.significand * 2 ^ z.exponent :=
        mul_le_mul_of_nonneg_right hleading (zpow_pos (by norm_num) _).le

/-- Magnitudes are compared by their exponents first. -/
theorem value_le_iff (hx : x.IsBinary64) (hz : z.IsBinary64) :
    (x.significand * 2 ^ x.exponent : ℚ) ≤ z.significand * 2 ^ z.exponent ↔
      x.exponent < z.exponent ∨ x.exponent = z.exponent ∧ x.significand ≤ z.significand := by
  rcases lt_trichotomy x.exponent z.exponent with h | h | h
  · exact iff_of_true (value_lt_of_exponent_lt hx hz h).le (.inl h)
  · rw [h, mul_le_mul_iff_left₀ (zpow_pos (by norm_num) _), Nat.cast_le]
    simp
  · exact iff_of_false (not_le.2 (value_lt_of_exponent_lt hz hx h)) (by omega)

/-- Positive numbers are ordered as the values they stand for. -/
theorem ofParts_le_iff (hx : x.IsBinary64) (hz : z.IsBinary64) :
    ofParts .positive x hx ≤ ofParts .positive z hz ↔
      (x.significand * 2 ^ x.exponent : ℚ) ≤ z.significand * 2 ^ z.exponent := by
  rw [le_iff_unpack, le_iff_position, unpack_ofParts, unpack_ofParts, value_le_iff hx hz]
  simp [unpacked, position, Sign.apply, Prod.Lex.toLex_le_toLex]

theorem abs_eq_ofParts {v : Float} (hfinite : v.isFinite = true)
    (hx : (magnitude v).IsBinary64) : v.abs = ofParts .positive (magnitude v) hx := by
  change Float.ofModel (Float.Model.pack v.toModel.unpack.abs) = _
  rw [unpack_of_isFinite hfinite hx]
  rfl

theorem abs_of_isZero {v : Float} (h : IsZero v) : v.abs = 0 := by
  rcases h with rfl | rfl <;> decide +kernel

theorem isFinite_abs {v : Float} (hfinite : v.isFinite = true) : v.abs.isFinite = true := by
  by_cases hzero : IsZero v
  · rw [abs_of_isZero hzero]
    rfl
  · have hx := isBinary64_magnitude hfinite hzero
    rw [abs_eq_ofParts hfinite hx]
    exact congrArg UnpackedFloat.isFinite (unpack_ofParts _ hx)

theorem abs_abs {v : Float} (hfinite : v.isFinite = true) : v.abs.abs = v.abs := by
  by_cases hzero : IsZero v
  · rw [abs_of_isZero hzero]
    exact abs_zero
  · have hx := isBinary64_magnitude hfinite hzero
    rw [abs_eq_ofParts hfinite hx]
    change Float.ofModel (Float.Model.pack (ofParts .positive _ hx).toModel.unpack.abs) = _
    rw [unpack_ofParts]
    rfl

end Order

/-! ### Infinite numbers -/

section Infinite

variable {v w : Float} {m : ℕ} {e : ℤ} {hm : 0 < m} {s : Sign}

theorem exists_infinity_pack (s : Sign) :
    ∃ t, (Float.Model.pack (.infinity s)).unpack = .infinity t := by
  cases s <;> exact ⟨_, rfl⟩

theorem exists_infinity (hfinite : v.isFinite = false) (hdefined : v.isNaN = false) :
    ∃ s, v.toModel.unpack = .infinity s := by
  have hnan : v.toModel.unpack.isNaN = false := hdefined
  rcases eq_of_isFinite_eq_false hfinite with hv | hv
  · rw [hv] at hnan
    cases hnan
  · exact hv

theorem nearestWhole_of_infinity (hv : v.toModel.unpack = .infinity s) : nearestWhole v = v := by
  have hfinite : v.isFinite = false := congrArg UnpackedFloat.isFinite hv
  rw [nearestWhole, hfinite]
  rfl

theorem div_of_infinity (hv : v.toModel.unpack = .infinity s)
    (hw : w.toModel.unpack = .finite .positive m e hm) :
    ∃ t, (v / w).toModel.unpack = .infinity t := by
  change ∃ t, (Float.Model.pack (div .binary64 v.toModel.unpack w.toModel.unpack)).unpack = _
  have hdiv : div .binary64 (.infinity s) (.finite .positive m e hm) =
      .infinity (s / .positive) := rfl
  rw [hv, hw, hdiv]
  exact exists_infinity_pack _

theorem add_zero_of_infinity (hv : v.toModel.unpack = .infinity s) :
    ∃ t, (v + 0).toModel.unpack = .infinity t := by
  change ∃ t, (Float.Model.pack (add .binary64 v.toModel.unpack (.zero .positive))).unpack = _
  rw [hv]
  exact exists_infinity_pack s

/-- The text of an infinite number is its name after its sign. -/
theorem textIn_of_infinity (hv : v.toModel.unpack = .infinity s) (layout : Decimal → List Char) :
    textIn layout v = "inf" ∨ textIn layout v = "-inf" := by
  have hnan : v.isNaN = false := congrArg UnpackedFloat.isNaN hv
  have hinf : v.isInf = true := congrArg UnpackedFloat.isInf hv
  rw [textIn, hnan, hinf]
  cases isNegative v
  · exact .inl rfl
  · exact .inr rfl

end Infinite

end NumericMethods.Binary64
