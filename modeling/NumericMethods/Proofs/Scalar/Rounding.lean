/-
  NumericMethods/Proofs/Scalar/Rounding.lean
  ==========================================
  **Rounding gives the number whose rounding interval is met.**

  Products, quotients and decimals are rounded in one way: a significand that was cut off,
  with two bits that say where the exact number lies above it, is shifted to the exponent
  of its size, rounded to the nearest number and shifted again if it became too long.
  `Brackets` is what the two bits say.  From it follows for every number in the rounding
  interval of a 64 bit number that it is rounded to that number, also just below a power
  of two, where the exponent of its size is one less.

  `IsRounded` says of the result of an operation that it is the rounded form of an exact
  number; products, quotients and multiples of powers of two have it, and what rounding
  does to a number is said of `IsRounded` once.
-/
import Mathlib
import NumericMethods.Proofs.Decimal.Shortest
import NumericMethods.Scalar.Binary64

namespace NumericMethods.Binary64

open Float.Model Float.Model.UnpackedFloat

/-! ### Cut significands -/

/-- The place of a number above its cut significand. -/
def Brackets (em : ExtendedMantissa) (y : ℚ) : Prop :=
  match em with
  | ⟨m, false, false⟩ => y = m
  | ⟨m, false, true⟩ => m < y ∧ y < m + 1 / 2
  | ⟨m, true, false⟩ => y = m + 1 / 2
  | ⟨m, true, true⟩ => m + 1 / 2 < y ∧ y < m + 1

/-- A whole number nearest to the number, an even one if there are two. -/
structure NearestEven (y : ℚ) (n : Nat) : Prop where
  low : (n : ℚ) - 1 / 2 ≤ y
  high : y ≤ n + 1 / 2
  odd : n % 2 = 1 → n - 1 / 2 < y ∧ y < n + 1 / 2

/-- Of two neighbours one is odd, and the other one is nearest to what lies halfway. -/
theorem NearestEven.eq {y : ℚ} {m n : Nat} (hm : NearestEven y m) (hn : NearestEven y n) :
    m = n := by
  wlog hle : m ≤ n generalizing m n
  · exact (this hn hm (by omega)).symm
  have hlow := hn.low
  have hhigh := hm.high
  have hnext : n ≤ m + 1 := by exact_mod_cast (by linarith : (n : ℚ) ≤ m + 1)
  by_contra hne
  obtain rfl : n = m + 1 := by omega
  push_cast at hlow
  rcases Nat.mod_two_eq_zero_or_one m with heven | hodd
  · have hhalf := (hn.odd (by omega)).1
    push_cast at hhalf
    linarith
  · have hhalf := (hm.odd hodd).2
    linarith

namespace Brackets

variable {em : ExtendedMantissa} {y : ℚ}

theorem floor (h : Brackets em y) : em.mantissa ≤ y ∧ y < em.mantissa + 1 := by
  obtain ⟨m, r, t⟩ := em
  cases r <;> cases t <;> simp only [Brackets] at h ⊢ <;> constructor <;> linarith

/-- Whether a bit is shifted out of the significand decides about the first of the bits
    below it. -/
theorem shiftRightOne (h : Brackets em y) : Brackets em.shiftRightOne (y / 2) := by
  obtain ⟨m, r, t⟩ := em
  have hm : (m : ℚ) = 2 * (m / 2 : Nat) + (m % 2 : Nat) := by
    exact_mod_cast (Nat.div_add_mod m 2).symm
  rcases Nat.mod_two_eq_zero_or_one m with hbit | hbit
  · have hshift : (⟨m, r, t⟩ : ExtendedMantissa).shiftRightOne = ⟨m / 2, false, r || t⟩ := by
      rw [ExtendedMantissa.shiftRightOne, hbit]
      rfl
    rw [hbit, Nat.cast_zero] at hm
    rw [hshift]
    cases r <;> cases t <;> simp only [Brackets, Bool.or_false, Bool.or_true] at h ⊢ <;>
      first | linarith | (constructor <;> linarith)
  · have hshift : (⟨m, r, t⟩ : ExtendedMantissa).shiftRightOne = ⟨m / 2, true, r || t⟩ := by
      rw [ExtendedMantissa.shiftRightOne, hbit]
      rfl
    rw [hbit, Nat.cast_one] at hm
    rw [hshift]
    cases r <;> cases t <;> simp only [Brackets, Bool.or_false, Bool.or_true] at h ⊢ <;>
      first | linarith | (constructor <;> linarith)

theorem shiftRight (h : Brackets em y) (n : Nat) : Brackets (em >>> n) (y / 2 ^ n) := by
  change Brackets (n.repeat ExtendedMantissa.shiftRightOne em) _
  induction n with
  | zero => rwa [pow_zero, div_one]
  | succ n ih =>
    rw [pow_succ, ← div_div]
    exact ih.shiftRightOne

/-- The two bits are what rounding looks at. -/
theorem nearestEven (h : Brackets em y) : NearestEven y em.roundedMantissa := by
  obtain ⟨m, r, t⟩ := em
  cases r <;> cases t <;> simp only [Brackets] at h
  · change NearestEven y m
    exact ⟨by linarith, by linarith, fun _ => ⟨by linarith, by linarith⟩⟩
  · change NearestEven y m
    exact ⟨by linarith, by linarith, fun _ => ⟨by linarith, by linarith⟩⟩
  · -- a tie between two significands, of which one is even
    change NearestEven y (m + m % 2)
    rcases Nat.mod_two_eq_zero_or_one m with hbit | hbit
    · rw [hbit, Nat.add_zero]
      exact ⟨by linarith, by linarith, fun hodd => by omega⟩
    · rw [hbit]
      exact ⟨by push_cast; linarith, by push_cast; linarith, fun hodd => by omega⟩
  · change NearestEven y (m + 1)
    refine ⟨?_, ?_, fun _ => ⟨?_, ?_⟩⟩ <;> push_cast <;> linarith

theorem roundedMantissa_eq {n : Nat} (h : Brackets em y) (hn : NearestEven y n) :
    em.roundedMantissa = n :=
  h.nearestEven.eq hn

/-- The significand of a quotient and the comparison of its remainder with one half. -/
theorem quotient (a : Nat) {b : Nat} (hb : 0 < b) :
    Brackets (.ofMantissaAndAccuracy (a / b) (accuracyOfFraction (a % b) b)) (a / b) := by
  have hb' : (0 : ℚ) < b := by exact_mod_cast hb
  have ha : (a : ℚ) = b * (a / b : Nat) + (a % b : Nat) := by
    exact_mod_cast (Nat.div_add_mod a b).symm
  have hlt : ((a % b : Nat) : ℚ) < b := by exact_mod_cast Nat.mod_lt a hb
  have hy : (a : ℚ) / b = (a / b : Nat) + (a % b : Nat) / b := by
    rw [div_eq_iff hb'.ne', add_mul, div_mul_cancel₀ _ hb'.ne', mul_comm ((a / b : Nat) : ℚ)]
    exact ha
  rw [hy, accuracyOfFraction]
  by_cases hzero : a % b = 0
  · rw [if_pos hzero, hzero]
    simp [Brackets, ExtendedMantissa.ofMantissaAndAccuracy]
  · have hpos : (0 : ℚ) < (a % b : Nat) / b :=
      div_pos (by exact_mod_cast Nat.pos_of_ne_zero hzero) hb'
    have hone : ((a % b : Nat) : ℚ) / b < 1 := (div_lt_one hb').2 hlt
    rw [if_neg hzero]
    rcases hcompare : compare (2 * (a % b)) b with _ | _ | _
    · have hhalf : (2 * (a % b : Nat) : ℚ) < b := by exact_mod_cast compare_lt_iff_lt.1 hcompare
      have hhalf' : ((a % b : Nat) : ℚ) / b < 1 / 2 := (div_lt_iff₀ hb').2 (by linarith)
      exact ⟨by linarith, by linarith⟩
    · have hhalf : (2 * (a % b : Nat) : ℚ) = b := by exact_mod_cast compare_eq_iff_eq.1 hcompare
      have hhalf' : ((a % b : Nat) : ℚ) / b = 1 / 2 := (div_eq_iff hb'.ne').2 (by linarith)
      change _ = _
      rw [hhalf']
    · have hhalf : (b : ℚ) < 2 * (a % b : Nat) := by exact_mod_cast compare_gt_iff_gt.1 hcompare
      have hhalf' : 1 / 2 < ((a % b : Nat) : ℚ) / b := (lt_div_iff₀ hb').2 (by linarith)
      exact ⟨by linarith, by linarith⟩

end Brackets

/-! ### The exponent of the size of a number -/

theorem targetExponent_eq (m : Nat) (e : Int) :
    Format.binary64.targetExponent (totalExponent m e) = max (m.log2 + 1 + e - 53) (-1074) :=
  rfl

theorem mantissa_ofMantissaAndAccuracy (m : Nat) (acc : Accuracy) :
    (ExtendedMantissa.ofMantissaAndAccuracy m acc).mantissa = m := by
  rcases acc with _ | _ | _ | _ <;> rfl

section Size

variable {m : Nat} {e t : Int} {acc : Accuracy} {y : ℚ}

theorem exists_shift (h : Brackets (.ofMantissaAndAccuracy m acc) (y / 2 ^ e))
    (ht : Format.binary64.targetExponent (totalExponent m e) = t) (he : e ≤ t) :
    ∃ em, shiftToTargetExponent .binary64 m e acc = (em, t) ∧ Brackets em (y / 2 ^ t) := by
  have hexponent : e + ((t - e).toNat : Int) = t := by omega
  have hpow : (2 : ℚ) ^ t = 2 ^ e * 2 ^ (t - e).toNat := by
    rw [← zpow_natCast, ← zpow_add₀ (by norm_num), hexponent]
  refine ⟨ExtendedMantissa.ofMantissaAndAccuracy m acc >>> (t - e).toNat, ?_, ?_⟩
  · simp only [shiftToTargetExponent, shiftToExponent, ht, hexponent]
  · rw [hpow, ← div_div]
    exact h.shiftRight _

/-- A number has at most 53 binary places above the exponent of its size, and exactly 53
    unless that exponent is the smallest one. -/
theorem size_bounds (h : Brackets (.ofMantissaAndAccuracy m acc) (y / 2 ^ e))
    (ht : Format.binary64.targetExponent (totalExponent m e) = t) (he : e ≤ t) :
    -1074 ≤ t ∧ y < 2 ^ (t + 53) ∧ (t = -1074 ∨ 2 ^ (t + 52) ≤ y) := by
  have hpos : (0 : ℚ) < 2 ^ e := zpow_pos (by norm_num) _
  obtain ⟨hlow, hhigh⟩ := h.floor
  rw [mantissa_ofMantissaAndAccuracy, le_div_iff₀ hpos] at hlow
  rw [mantissa_ofMantissaAndAccuracy, div_lt_iff₀ hpos] at hhigh
  rw [targetExponent_eq] at ht
  refine ⟨by omega, ?_, ?_⟩
  · have hlog : (m : ℚ) + 1 ≤ 2 ^ (m.log2 + 1) := by exact_mod_cast Nat.lt_log2_self
    calc y < (m + 1) * 2 ^ e := hhigh
      _ ≤ 2 ^ (m.log2 + 1) * 2 ^ e := mul_le_mul_of_nonneg_right hlog hpos.le
      _ = 2 ^ (((m.log2 + 1 : Nat) : Int) + e) := by rw [zpow_add₀ (by norm_num), zpow_natCast]
      _ ≤ 2 ^ (t + 53) := zpow_le_zpow_right₀ (by norm_num) (by omega)
  · by_cases hleast : t = -1074
    · exact .inl hleast
    · have hm : m ≠ 0 := by
        rintro rfl
        rw [Nat.log2_zero] at ht
        omega
      have hlog : (2 : ℚ) ^ m.log2 ≤ m := by exact_mod_cast Nat.log2_self_le hm
      right
      calc (2 : ℚ) ^ (t + 52) = 2 ^ ((m.log2 : Int) + e) := by congr 1; omega
        _ = 2 ^ m.log2 * 2 ^ e := by rw [zpow_add₀ (by norm_num), zpow_natCast]
        _ ≤ m * 2 ^ e := mul_le_mul_of_nonneg_right hlog hpos.le
        _ ≤ y := hlow

end Size

section Interval

variable {x : Decimal.Dyadic} {y : ℚ} {t : Int}

theorem nearestEven_of_rounds (hx : x.IsBinary64) (h : x.Rounds y) :
    NearestEven (y / 2 ^ x.exponent) x.significand := by
  obtain ⟨hlow, hhigh, hodd⟩ := h.quarters
  have hcases := hx.lowQuarters_cases
  refine ⟨?_, by linarith, fun hone => ?_⟩
  · rcases hcases with ⟨-, hlow'⟩ | ⟨-, hlow'⟩ <;> linarith
  · obtain ⟨hlow, hhigh⟩ := hodd hone
    refine ⟨?_, by linarith⟩
    rcases hcases with ⟨-, hlow'⟩ | ⟨-, hlow'⟩ <;> linarith

/-- The exponent of the size of a number in the rounding interval is the one of the binary
    number, or one less just below a power of two. -/
theorem exponent_cases (hx : x.IsBinary64) (h : x.Rounds y) (hleast : -1074 ≤ t)
    (hlt : y < 2 ^ (t + 53)) (hsize : t = -1074 ∨ 2 ^ (t + 52) ≤ y) :
    t = x.exponent ∨ (t = x.exponent - 1 ∧ x.significand = 2 ^ 52 ∧ x.narrowBelow = true) := by
  have hpos : (0 : ℚ) < 2 ^ x.exponent := zpow_pos (by norm_num) _
  obtain ⟨hlow, hhigh, -⟩ := h.quarters
  have hy : y = y / 2 ^ x.exponent * 2 ^ x.exponent := (div_mul_cancel₀ y hpos.ne').symm
  generalize y / 2 ^ x.exponent = z at hlow hhigh hy
  have hscale (n : Nat) : (2 : ℚ) ^ (x.exponent + n) = 2 ^ n * 2 ^ x.exponent := by
    rw [zpow_add₀ (by norm_num), zpow_natCast, mul_comm]
  have hone : (1 : ℚ) < 2 := by norm_num
  have hle : t ≤ x.exponent := by
    rcases hsize with rfl | hsize
    · exact hx.least
    · have hs : (x.significand : ℚ) + 1 ≤ 2 ^ 53 := by exact_mod_cast hx.lt
      have hyhigh : y < 2 ^ (x.exponent + (53 : Nat)) := by
        rw [hscale, hy]
        exact mul_lt_mul_of_pos_right (by linarith) hpos
      have hexponent := (zpow_lt_zpow_iff_right₀ hone).1 (hsize.trans_lt hyhigh)
      omega
  by_cases heq : t = x.exponent
  · exact .inl heq
  have hleading : 2 ^ 52 ≤ x.significand := hx.leading.resolve_left (by omega)
  rcases hx.lowQuarters_cases with ⟨hnarrow, hlow'⟩ | ⟨hwide, hlow'⟩
  · have hs : (2 : ℚ) ^ 52 ≤ x.significand := by exact_mod_cast hleading
    have hdouble : (2 : ℚ) ^ 52 = 2 * 2 ^ 51 := by norm_num
    have hlarge : (1 : ℚ) ≤ 2 ^ 51 := by norm_num
    have hylow : 2 ^ (x.exponent + (51 : Nat)) < y := by
      rw [hscale, hy]
      exact mul_lt_mul_of_pos_right (by linarith) hpos
    have hexponent := (zpow_lt_zpow_iff_right₀ hone).1 (hylow.trans hlt)
    exact .inr ⟨by omega, (hx.narrow.1 hnarrow).1, hnarrow⟩
  · have hne : x.significand ≠ 2 ^ 52 := by
      intro hs
      have hnarrow := hx.narrow.2 ⟨hs, by omega⟩
      rw [hwide] at hnarrow
      cases hnarrow
    have hs : (2 : ℚ) ^ 52 + 1 ≤ x.significand := by
      exact_mod_cast (by omega : 2 ^ 52 + 1 ≤ x.significand)
    have hylow : 2 ^ (x.exponent + (52 : Nat)) ≤ y := by
      rw [hscale, hy]
      exact mul_le_mul_of_nonneg_right (by linarith) hpos.le
    have hexponent := (zpow_lt_zpow_iff_right₀ hone).1 (hylow.trans_lt hlt)
    omega

/-- Just below a power of two, the significand of the smaller exponent is rounded up to the
    power of two. -/
theorem nearestEven_of_narrow (hx : x.IsBinary64) (h : x.Rounds y)
    (hs : x.significand = 2 ^ 52) (hnarrow : x.narrowBelow = true)
    (hlt : y < 2 ^ (x.exponent - 1 + 53)) : NearestEven (y / 2 ^ (x.exponent - 1)) (2 ^ 53) := by
  have hpos : (0 : ℚ) < 2 ^ (x.exponent - 1) := zpow_pos (by norm_num) _
  have hhalf : y / 2 ^ (x.exponent - 1) = 2 * (y / 2 ^ x.exponent) := by
    rw [zpow_sub_one₀ (by norm_num)]
    ring
  have hhigh : y / 2 ^ (x.exponent - 1) < 2 ^ 53 := by
    rw [div_lt_iff₀ hpos, ← zpow_natCast, ← zpow_add₀ (by norm_num), add_comm]
    exact hlt
  obtain ⟨hlow, -, -⟩ := h.quarters
  rcases hx.lowQuarters_cases with ⟨-, hlow'⟩ | ⟨hwide, -⟩
  · rw [hlow', hs] at hlow
    push_cast at hlow
    have hdouble : (2 : ℚ) ^ 53 = 2 * 2 ^ 52 := by norm_num
    exact ⟨by push_cast; linarith, by push_cast; linarith, fun hodd => by omega⟩
  · rw [hnarrow] at hwide
    cases hwide

/-! ### Rounding -/

/-- The binary number with a sign, as an unpacked floating point number. -/
def unpacked (s : Sign) (x : Decimal.Dyadic) (hx : x.IsBinary64) : UnpackedFloat :=
  .finite s x.significand x.exponent hx.pos

theorem log2_significand (hx : x.IsBinary64) :
    x.significand.log2 < 53 ∧ (x.exponent = -1074 ∨ x.significand.log2 = 52) := by
  have hlt := (Nat.log2_lt hx.pos.ne').2 hx.lt
  refine ⟨hlt, hx.leading.imp_right fun hleading => ?_⟩
  have hle := (Nat.le_log2 hx.pos.ne').2 hleading
  omega

/-- A significand with at most 53 binary places stays. -/
theorem shift_short {n : Nat} (hn : n < 2 ^ 53) (ht : -1074 ≤ t) :
    shiftToTargetExponent .binary64 n t .exact = (⟨n, false, false⟩, t) := by
  have hlog : n.log2 ≤ 52 := by
    by_cases hzero : n = 0
    · rw [hzero, Nat.log2_zero]
      omega
    · have hlt := (Nat.log2_lt hzero).2 hn
      omega
  have hnone : (Format.binary64.targetExponent (totalExponent n t) - t).toNat = 0 := by
    rw [targetExponent_eq]
    omega
  rw [shiftToTargetExponent, shiftToExponent, hnone]
  exact congrArg _ (Int.add_zero _)

/-- A significand that was rounded up to 54 binary places loses the last one. -/
theorem shift_long (ht : -1074 ≤ t) :
    shiftToTargetExponent .binary64 (2 ^ 53) t .exact = (⟨2 ^ 52, false, false⟩, t + 1) := by
  have hone : (Format.binary64.targetExponent (totalExponent (2 ^ 53) t) - t).toNat = 1 := by
    rw [targetExponent_eq, Nat.log2_two_pow]
    omega
  rw [shiftToTargetExponent, shiftToExponent, hone]
  rfl

theorem shift_significand (hx : x.IsBinary64) :
    shiftToTargetExponent .binary64 x.significand x.exponent .exact =
      (⟨x.significand, false, false⟩, x.exponent) :=
  shift_short hx.lt hx.least

theorem shift_two_pow (hx : x.IsBinary64) (hs : x.significand = 2 ^ 52)
    (hne : x.exponent ≠ -1074) :
    shiftToTargetExponent .binary64 (2 ^ 53) (x.exponent - 1) .exact =
      (⟨x.significand, false, false⟩, x.exponent) := by
  have hleast := hx.least
  rw [shift_long (by omega), hs, Int.sub_add_cancel]

/-- A number in the rounding interval of a 64 bit number is rounded to it. -/
theorem roundWithAccuracy_eq (hx : x.IsBinary64) (h : x.Rounds y) (s : Sign) {m : Nat} {e : Int}
    {acc : Accuracy} (hm : Brackets (.ofMantissaAndAccuracy m acc) (y / 2 ^ e))
    (he : e ≤ Format.binary64.targetExponent (totalExponent m e)) :
    roundWithAccuracy .binary64 s m e acc = unpacked s x hx := by
  obtain ⟨em, hshift, hem⟩ := exists_shift hm rfl he
  obtain ⟨hleast, hlt, hsize⟩ := size_bounds hm rfl he
  generalize Format.binary64.targetExponent (totalExponent m e) = t at *
  have hround : shiftToTargetExponent .binary64 em.roundedMantissa t .exact =
      (⟨x.significand, false, false⟩, x.exponent) := by
    rcases exponent_cases hx h hleast hlt hsize with rfl | ⟨rfl, hs, hnarrow⟩
    · rw [hem.roundedMantissa_eq (nearestEven_of_rounds hx h), shift_significand hx]
    · rw [hem.roundedMantissa_eq (nearestEven_of_narrow hx h hs hnarrow hlt),
        shift_two_pow hx hs (hx.narrow.1 hnarrow).2]
  simp only [roundWithAccuracy, hshift, hround]
  exact dif_neg hx.pos.ne'

/-- The unpacked number is what a positive number is rounded to, with a sign. -/
def IsRounded (s : Sign) (y : ℚ) (f : UnpackedFloat) : Prop :=
  ∃ m e acc, f = roundWithAccuracy .binary64 s m e acc ∧
    Brackets (.ofMantissaAndAccuracy m acc) (y / 2 ^ e) ∧
    e ≤ Format.binary64.targetExponent (totalExponent m e)

theorem IsRounded.eq {s : Sign} {f : UnpackedFloat} (hf : IsRounded s y f) (hx : x.IsBinary64)
    (h : x.Rounds y) : f = unpacked s x hx := by
  obtain ⟨m, e, acc, rfl, hm, he⟩ := hf
  exact roundWithAccuracy_eq hx h s hm he

theorem rounds_self (hx : x.IsBinary64) : x.Rounds (x.significand * 2 ^ x.exponent) := by
  have hquarter : (0 : ℚ) < 2 ^ (x.exponent - 2) := zpow_pos (by norm_num) _
  have hpow : (x.significand * 2 ^ x.exponent : ℚ) =
      4 * x.significand * 2 ^ (x.exponent - 2) := by
    rw [zpow_sub₀ (by norm_num)]
    ring
  have hhigh : (x.highQuarters : ℚ) = 4 * x.significand + 2 := by
    rw [Decimal.Dyadic.highQuarters]
    norm_num
  have hlow : (x.lowQuarters : ℚ) < 4 * x.significand := by
    rcases hx.lowQuarters_cases with ⟨-, h⟩ | ⟨-, h⟩ <;> linarith
  have hinside : x.lowQuarters * 2 ^ (x.exponent - 2) < (x.significand * 2 ^ x.exponent : ℚ) ∧
      (x.significand * 2 ^ x.exponent : ℚ) < x.highQuarters * 2 ^ (x.exponent - 2) := by
    rw [hpow, hhigh]
    exact ⟨mul_lt_mul_of_pos_right hlow hquarter, mul_lt_mul_of_pos_right (by linarith) hquarter⟩
  unfold Decimal.Dyadic.Rounds
  split
  · exact ⟨hinside.1.le, hinside.2.le⟩
  · exact hinside

theorem log2_shiftLeft {m : Nat} (hm : 0 < m) (n : Nat) : (m <<< n).log2 = m.log2 + n := by
  induction n with
  | zero => rfl
  | succ n ih =>
    have hne : m <<< n ≠ 0 := by
      rw [Nat.shiftLeft_eq]
      exact (Nat.mul_pos hm (Nat.two_pow_pos n)).ne'
    rw [Nat.shiftLeft_succ, Nat.log2_two_mul hne, ih, Nat.add_assoc]

/-- A whole multiple of a power of two. -/
theorem isRounded_round (s : Sign) {m : Nat} (e : Int) (hm : 0 < m) :
    IsRounded s (m * 2 ^ e) (UnpackedFloat.round .binary64 s m e) := by
  obtain ⟨t, ht⟩ : ∃ t, t = Format.binary64.targetExponent (totalExponent m e) := ⟨_, rfl⟩
  obtain ⟨n, hn⟩ : ∃ n, n = (e - t).toNat := ⟨_, rfl⟩
  have hsize : Format.binary64.targetExponent (totalExponent (m <<< n) (e - n)) = t := by
    rw [ht, targetExponent_eq, targetExponent_eq, log2_shiftLeft hm]
    omega
  refine ⟨m <<< n, e - n, .exact, ?_, ?_, by omega⟩
  · simp only [UnpackedFloat.round, decreaseExponent, ← ht, ← hn]
  · change _ = _
    have hpow : (2 : ℚ) ^ e = 2 ^ n * 2 ^ (e - n) := by
      rw [← zpow_natCast, ← zpow_add₀ (by norm_num)]
      congr 1
      omega
    rw [hpow, ← mul_assoc, mul_div_cancel_right₀ _ (zpow_ne_zero _ (by norm_num)),
      Nat.shiftLeft_eq]
    push_cast
    rfl

theorem round_eq (hx : x.IsBinary64) (s : Sign) {m : Nat} {e : Int} (hm : 0 < m)
    (h : x.Rounds (m * 2 ^ e)) : UnpackedFloat.round .binary64 s m e = unpacked s x hx :=
  (isRounded_round s e hm).eq hx h

section Operations

variable {s₁ s₂ : Sign} {m₁ m₂ : Nat} {e₁ e₂ : Int}

/-- A product with at least 53 binary places. -/
theorem isRounded_mul (h₁ : 0 < m₁) (h₂ : 0 < m₂) (hlong : 2 ^ 52 ≤ m₁ * m₂) :
    IsRounded (s₁ * s₂) (m₁ * 2 ^ e₁ * (m₂ * 2 ^ e₂))
      (mul .binary64 (.finite s₁ m₁ e₁ h₁) (.finite s₂ m₂ e₂ h₂)) := by
  refine ⟨m₁ * m₂, e₁ + e₂, .exact, rfl, ?_, ?_⟩
  · have hpos : (2 : ℚ) ^ (e₁ + e₂) ≠ 0 := zpow_ne_zero _ (by norm_num)
    change _ = _
    rw [div_eq_iff hpos, zpow_add₀ (by norm_num)]
    push_cast
    ring
  · have hlog := (Nat.le_log2 (Nat.mul_pos h₁ h₂).ne').2 hlong
    rw [targetExponent_eq]
    omega

theorem mul_eq (hx : x.IsBinary64) {h₁ : 0 < m₁} {h₂ : 0 < m₂}
    (h : x.Rounds (m₁ * 2 ^ e₁ * (m₂ * 2 ^ e₂))) (hlong : 2 ^ 52 ≤ m₁ * m₂) :
    mul .binary64 (.finite s₁ m₁ e₁ h₁) (.finite s₂ m₂ e₂ h₂) = unpacked (s₁ * s₂) x hx :=
  (isRounded_mul h₁ h₂ hlong).eq hx h

/-- The quotient has at least 53 binary places, or goes down to the least exponent. -/
theorem exponent_quotient_le {n : Nat} {t : Int} (h₁ : 0 < m₁) (h₂ : 0 < m₂)
    (ht : t = min (e₁ - e₂) (Format.binary64.targetExponent
      (totalExponent m₁ e₁ - totalExponent m₂ e₂)))
    (hn : (n : Int) = e₁ - e₂ - t) :
    t ≤ Format.binary64.targetExponent (totalExponent (m₁ <<< n / m₂) t) := by
  have ht' : t = min (e₁ - e₂) (max (m₁.log2 + 1 + e₁ - (m₂.log2 + 1 + e₂) - 53) (-1074)) := ht
  rw [targetExponent_eq]
  by_cases hleast : t ≤ -1074
  · omega
  · have hlength : m₂.log2 + 1 + 52 ≤ m₁.log2 + n := by omega
    have hlong : 2 ^ 52 ≤ m₁ <<< n / m₂ := by
      rw [Nat.le_div_iff_mul_le h₂, Nat.shiftLeft_eq]
      calc 2 ^ 52 * m₂ ≤ 2 ^ 52 * 2 ^ (m₂.log2 + 1) :=
            Nat.mul_le_mul_left _ Nat.lt_log2_self.le
        _ = 2 ^ (m₂.log2 + 1 + 52) := by rw [← Nat.pow_add, Nat.add_comm]
        _ ≤ 2 ^ (m₁.log2 + n) := Nat.pow_le_pow_right (by decide) hlength
        _ = 2 ^ m₁.log2 * 2 ^ n := Nat.pow_add ..
        _ ≤ m₁ * 2 ^ n := Nat.mul_le_mul_right _ (Nat.log2_self_le h₁.ne')
    have hlog := (Nat.le_log2 (by omega)).2 hlong
    omega

theorem isRounded_div (h₁ : 0 < m₁) (h₂ : 0 < m₂) :
    IsRounded (s₁ / s₂) (m₁ * 2 ^ e₁ / (m₂ * 2 ^ e₂))
      (div .binary64 (.finite s₁ m₁ e₁ h₁) (.finite s₂ m₂ e₂ h₂)) := by
  obtain ⟨t, ht⟩ : ∃ t, t = min (e₁ - e₂) (Format.binary64.targetExponent
      (totalExponent m₁ e₁ - totalExponent m₂ e₂)) := ⟨_, rfl⟩
  obtain ⟨n, hn⟩ : ∃ n : Nat, e₁ - e₂ - t = n := Int.eq_ofNat_of_zero_le (by omega)
  have hcore : divCore .binary64 m₁ e₁ m₂ e₂ =
      (m₁ <<< n / m₂, t, accuracyOfFraction (m₁ <<< n % m₂) m₂) := by
    have hshift : (e₁ - e₂ - t).toNat = n := by omega
    simp only [divCore, ← ht, hshift]
  have hvalue : (m₁ * 2 ^ e₁ / (m₂ * 2 ^ e₂) / 2 ^ t : ℚ) = (m₁ <<< n : Nat) / m₂ := by
    have hexponent : e₁ = n + e₂ + t := by omega
    have hm₂ : (m₂ : ℚ) ≠ 0 := by exact_mod_cast h₂.ne'
    have htwo (k : Int) : (2 : ℚ) ^ k ≠ 0 := zpow_ne_zero _ (by norm_num)
    rw [hexponent, zpow_add₀ (by norm_num), zpow_add₀ (by norm_num), zpow_natCast,
      Nat.shiftLeft_eq, div_div, div_eq_div_iff (by simp [hm₂, htwo]) hm₂]
    push_cast
    ring
  refine ⟨m₁ <<< n / m₂, t, accuracyOfFraction (m₁ <<< n % m₂) m₂, ?_, ?_,
    exponent_quotient_le h₁ h₂ ht hn.symm⟩
  · simp only [UnpackedFloat.div, hcore]
  · rw [hvalue]
    exact .quotient _ h₂

theorem div_eq (hx : x.IsBinary64) {h₁ : 0 < m₁} {h₂ : 0 < m₂}
    (h : x.Rounds (m₁ * 2 ^ e₁ / (m₂ * 2 ^ e₂))) :
    div .binary64 (.finite s₁ m₁ e₁ h₁) (.finite s₂ m₂ e₂ h₂) = unpacked (s₁ / s₂) x hx :=
  (isRounded_div h₁ h₂).eq hx h

end Operations

end Interval

end NumericMethods.Binary64
