/-
  NumericMethods/Proofs/Scalar/ReadBack.lean
  ==========================================
  **A decimal in the rounding interval of a number is read as that number.**

  A finite number other than zero is its sign and its magnitude.  The reader takes a
  decimal apart in one of three ways: two exact binary numbers are multiplied, or divided,
  if the decimal is short, and otherwise the exact power of ten is computed.  All three
  end in one rounding, so the decimal chosen for a magnitude is read as that magnitude.
-/
import NumericMethods.Proofs.Scalar.Binary64
import NumericMethods.Proofs.Scalar.Rounding

namespace NumericMethods.Binary64

open Float.Model Float.Model.UnpackedFloat

variable {x : Decimal.Dyadic}

/-! ### A number is its sign and its magnitude -/

/-- The biased exponent. -/
def exponentField (x : Decimal.Dyadic) : Nat :=
  if x.significand < 2 ^ 52 then 0 else (x.exponent + 1075).toNat

theorem pack_unpacked (s : Sign) (hx : x.IsBinary64) :
    UnpackedFloat.pack .binary64 (unpacked s x hx) =
      packComponents .binary64 s (BitVec.ofNat 11 (exponentField x))
        (BitVec.ofNat 52 x.significand) := by
  have hleast := hx.least
  have hgreatest := hx.greatest
  have hbiased : (x.exponent + Format.binary64.exponentBias +
      Format.binary64.mantissaBitsWithoutImplicit).toNat = (x.exponent + 1075).toNat := by
    change (x.exponent + 1023 + 52).toNat = _
    omega
  simp only [unpacked, UnpackedFloat.pack, hbiased]
  rw [if_neg (by omega), exponentField]
  by_cases hlt : x.significand < 2 ^ 52
  · have hlog := (Nat.log2_lt hx.pos.ne').2 hlt
    have hshort : ¬ x.significand.log2 + 1 = Format.binary64.mantissaBits := by
      change ¬ x.significand.log2 + 1 = 53
      omega
    rw [if_neg hshort, if_pos hlt]
  · have hle := (Nat.le_log2 hx.pos.ne').2 (not_lt.1 hlt)
    have hlong : x.significand.log2 + 1 = Format.binary64.mantissaBits := by
      change x.significand.log2 + 1 = 53
      have hlog := (log2_significand hx).1
      omega
    rw [if_pos hlong, if_neg hlt]

theorem toNat_leading_append (m : BitVec 52) : (1#1 ++ m).toNat = 2 ^ 52 + m.toNat := by
  rw [BitVec.toNat_append, ← Nat.shiftLeft_add_eq_or_of_lt m.isLt]
  rfl

/-- The number with a given sign and magnitude. -/
def ofParts (s : Sign) (x : Decimal.Dyadic) (hx : x.IsBinary64) : Float :=
  .ofModel (Float.Model.pack (unpacked s x hx))

theorem bitsOf_ofParts (s : Sign) (hx : x.IsBinary64) :
    bitsOf (ofParts s x hx) = packComponents .binary64 s (BitVec.ofNat 11 (exponentField x))
      (BitVec.ofNat 52 x.significand) :=
  pack_unpacked s hx

theorem unpack_ofParts (s : Sign) (hx : x.IsBinary64) :
    (ofParts s x hx).toModel.unpack = unpacked s x hx := by
  have hpos := hx.pos
  have hlt := hx.lt
  have hleast := hx.least
  have hgreatest := hx.greatest
  change UnpackedFloat.unpack .binary64 (bitsOf (ofParts s x hx)) = _
  rw [bitsOf_ofParts, UnpackedFloat.unpack]
  simp only [unpackMantissa_packComponents, unpackExponent_packComponents,
    unpackSign_packComponents, sign_ofBitVec_toBitVec]
  by_cases hsub : x.significand < 2 ^ 52
  · have hfield : exponentField x = 0 := if_pos hsub
    have hexponent : x.exponent = -1074 := hx.leading.resolve_right (not_le.2 hsub)
    have hmantissa : (BitVec.ofNat 52 x.significand).toNat = x.significand := by
      rw [BitVec.toNat_ofNat, Nat.mod_eq_of_lt hsub]
    have hne : BitVec.ofNat 52 x.significand ≠ 0#_ := by
      intro hzero
      rw [hzero] at hmantissa
      exact hpos.ne hmantissa
    rw [hfield, if_neg (by decide), if_pos rfl, dif_neg hne]
    simp only [unpacked, UnpackedFloat.finite.injEq, true_and]
    exact ⟨hmantissa, hexponent.symm⟩
  · have hfield : exponentField x = (x.exponent + 1075).toNat := if_neg hsub
    have htoNat : (BitVec.ofNat 11 (exponentField x)).toNat = (x.exponent + 1075).toNat := by
      rw [BitVec.toNat_ofNat, hfield]
      omega
    have hinf : BitVec.ofNat 11 (exponentField x) ≠ -1#11 := by
      intro h
      rw [h] at htoNat
      change 2047 = _ at htoNat
      omega
    have hzero : BitVec.ofNat 11 (exponentField x) ≠ 0#11 := by
      intro h
      rw [h] at htoNat
      change 0 = _ at htoNat
      omega
    rw [if_neg hinf, if_neg hzero]
    simp only [unpacked, UnpackedFloat.finite.injEq, true_and]
    refine ⟨?_, ?_⟩
    · rw [toNat_leading_append, BitVec.toNat_ofNat]
      omega
    · rw [htoNat]
      change ((x.exponent + 1075).toNat : Int) - 1075 = _
      omega

/-- The stored bits of the significand. -/
def fractionOf (v : Float) : Nat := (unpackMantissa (bitsOf v)).toNat

/-- The stored exponent. -/
def fieldOf (v : Float) : Nat := (unpackExponent (bitsOf v)).toNat

theorem magnitude_eq (v : Float) : magnitude v =
    if fieldOf v = 0 then ⟨fractionOf v, -1074, false⟩
    else ⟨2 ^ 52 + fractionOf v, fieldOf v - 1075, fractionOf v = 0 && 1 < fieldOf v⟩ := by
  have hfraction : fractionOf v = (bitsOf v).toNat % 2 ^ 52 := by
    simp [fractionOf, unpackMantissa]
  have hfield : fieldOf v = (bitsOf v).toNat / 2 ^ 52 % 2 ^ 11 := by
    simp [fieldOf, unpackExponent, Nat.shiftRight_eq_div_pow]
  rw [hfraction, hfield]
  rfl

theorem fractionOf_lt (v : Float) : fractionOf v < 2 ^ 52 := (unpackMantissa (bitsOf v)).isLt

/-- The largest exponent field belongs to the numbers that are not finite. -/
theorem fieldOf_lt {v : Float} (h : v.isFinite = true) : fieldOf v < 2047 := by
  have hlt : fieldOf v < 2048 := (unpackExponent (bitsOf v)).isLt
  by_contra hge
  have hinf : unpackExponent (bitsOf v) = -1#_ := by
    apply BitVec.eq_of_toNat_eq
    change fieldOf v = 2047
    omega
  change (UnpackedFloat.unpack Format.binary64 (bitsOf v)).isFinite = true at h
  unfold UnpackedFloat.unpack at h
  simp only [hinf, if_true] at h
  split at h <;> cases h

theorem isZero_of_fields {v : Float} (hfield : fieldOf v = 0) (hfraction : fractionOf v = 0) :
    IsZero v := by
  have hexponent : unpackExponent (bitsOf v) = 0#_ := BitVec.eq_of_toNat_eq hfield
  have hmantissa : unpackMantissa (bitsOf v) = 0#_ := BitVec.eq_of_toNat_eq hfraction
  have hbits := packComponents_unpack (bitsOf v)
  rw [hexponent, hmantissa] at hbits
  have hpack : v = .ofModel (Float.Model.pack (.zero (signOf v))) := eq_of_bitsOf_eq hbits.symm
  rw [hpack]
  exact isZero_pack _

theorem isBinary64_magnitude {v : Float} (hfinite : v.isFinite = true) (hne : ¬ IsZero v) :
    (magnitude v).IsBinary64 := by
  have hfraction := fractionOf_lt v
  have hfield := fieldOf_lt hfinite
  rw [magnitude_eq]
  by_cases hsub : fieldOf v = 0
  · have hpos : 0 < fractionOf v :=
      Nat.pos_of_ne_zero fun hzero => hne (isZero_of_fields hsub hzero)
    rw [if_pos hsub]
    constructor <;> dsimp only <;> first | omega | simp
  · rw [if_neg hsub]
    constructor <;> dsimp only <;> first | omega | simp
    omega

/-- A finite number other than zero is put together from its sign and its magnitude. -/
theorem eq_ofParts {v : Float} (hfinite : v.isFinite = true) (hx : (magnitude v).IsBinary64) :
    v = ofParts (signOf v) (magnitude v) hx := by
  have hfraction := fractionOf_lt v
  have hfield := fieldOf_lt hfinite
  have hparts : exponentField (magnitude v) = fieldOf v ∧
      (magnitude v).significand % 2 ^ 52 = fractionOf v := by
    rw [magnitude_eq, exponentField]
    by_cases hsub : fieldOf v = 0
    · rw [if_pos hsub]
      exact ⟨by rw [if_pos hfraction, hsub], Nat.mod_eq_of_lt hfraction⟩
    · rw [if_neg hsub]
      exact ⟨by rw [if_neg (by simp)]; dsimp only; omega, by dsimp only; omega⟩
  apply eq_of_bitsOf_eq
  have hexponent : BitVec.ofNat 11 (exponentField (magnitude v)) = unpackExponent (bitsOf v) := by
    rw [hparts.1]
    exact BitVec.ofNat_toNat ..
  have hmantissa : BitVec.ofNat 52 (magnitude v).significand = unpackMantissa (bitsOf v) := by
    apply BitVec.eq_of_toNat_eq
    rw [BitVec.toNat_ofNat]
    exact hparts.2
  rw [bitsOf_ofParts, hexponent, hmantissa]
  exact (packComponents_unpack _).symm

theorem unpack_of_isFinite {v : Float} (hfinite : v.isFinite = true)
    (hx : (magnitude v).IsBinary64) :
    v.toModel.unpack = unpacked (signOf v) (magnitude v) hx := by
  conv_lhs => rw [eq_ofParts hfinite hx]
  exact unpack_ofParts _ hx

/-! ### A decimal is rounded once -/

theorem neg_ofParts (hx : x.IsBinary64) : -ofParts .positive x hx = ofParts .negative x hx := by
  change Float.ofModel (Float.Model.pack (ofParts .positive x hx).toModel.unpack.neg) = _
  rw [unpack_ofParts]
  rfl

theorem mul_of_unpack {v w : Float} {m₁ m₂ : Nat} {e₁ e₂ : Int} {h₁ : 0 < m₁} {h₂ : 0 < m₂}
    (hv : v.toModel.unpack = .finite .positive m₁ e₁ h₁)
    (hw : w.toModel.unpack = .finite .positive m₂ e₂ h₂) (hx : x.IsBinary64)
    (h : x.Rounds (m₁ * 2 ^ e₁ * (m₂ * 2 ^ e₂))) (hlong : 2 ^ 52 ≤ m₁ * m₂) :
    v * w = ofParts .positive x hx := by
  change Float.ofModel (Float.Model.pack
    (UnpackedFloat.mul .binary64 v.toModel.unpack w.toModel.unpack)) = _
  rw [hv, hw, mul_eq hx h hlong]
  rfl

theorem div_of_unpack {v w : Float} {m₁ m₂ : Nat} {e₁ e₂ : Int} {h₁ : 0 < m₁} {h₂ : 0 < m₂}
    (hv : v.toModel.unpack = .finite .positive m₁ e₁ h₁)
    (hw : w.toModel.unpack = .finite .positive m₂ e₂ h₂) (hx : x.IsBinary64)
    (h : x.Rounds (m₁ * 2 ^ e₁ / (m₂ * 2 ^ e₂))) : v / w = ofParts .positive x hx := by
  change Float.ofModel (Float.Model.pack
    (UnpackedFloat.div .binary64 v.toModel.unpack w.toModel.unpack)) = _
  rw [hv, hw, div_eq hx h]
  rfl

/-- A whole number with at most 53 binary places, as a binary number. -/
def whole (m : Nat) : Decimal.Dyadic where
  significand := m <<< (52 - m.log2)
  exponent := -((52 - m.log2 : Nat) : Int)
  narrowBelow := m <<< (52 - m.log2) = 2 ^ 52

theorem isBinary64_whole {m : Nat} (hm : m ≠ 0) (hlt : m < 2 ^ 53) : (whole m).IsBinary64 := by
  have hlog : m.log2 < 53 := (Nat.log2_lt hm).2 hlt
  have hpos : 0 < m <<< (52 - m.log2) := by
    rw [Nat.shiftLeft_eq]
    exact Nat.mul_pos (Nat.pos_of_ne_zero hm) (Nat.two_pow_pos _)
  have hsize : (m <<< (52 - m.log2)).log2 = 52 := by
    rw [log2_shiftLeft (Nat.pos_of_ne_zero hm)]
    omega
  constructor <;> dsimp only [whole]
  case pos => exact hpos
  case lt => exact (Nat.log2_lt hpos.ne').1 (by omega)
  case least => omega
  case greatest => omega
  case leading => exact .inr ((Nat.le_log2 hpos.ne').1 hsize.ge)
  case narrow =>
    rw [decide_eq_true_eq]
    exact ⟨fun h => ⟨h, by omega⟩, fun h => h.1⟩

theorem whole_value (m : Nat) :
    ((whole m).significand * 2 ^ (whole m).exponent : ℚ) = m := by
  rw [whole, Nat.shiftLeft_eq, zpow_neg, zpow_natCast]
  push_cast
  exact mul_inv_cancel_right₀ (by positivity) _

/-- A whole number with at most 53 binary places is exact. -/
theorem toFloat_eq {m : Nat} (hm : m ≠ 0) (hlt : m < 2 ^ 53) :
    m.toUInt64.toFloat = ofParts .positive (whole m) (isBinary64_whole hm hlt) := by
  have htoNat : m.toUInt64.toNat = m := by
    change m % 2 ^ 64 = m
    omega
  have hrounds : (whole m).Rounds (m * 2 ^ (0 : Int)) := by
    rw [zpow_zero, mul_one, ← whole_value m]
    exact rounds_self (isBinary64_whole hm hlt)
  have hround := round_eq (isBinary64_whole hm hlt) .positive (Nat.pos_of_ne_zero hm) hrounds
  change Float.ofModel (Float.Model.pack (UnpackedFloat.normalize .binary64
    (m.toUInt64.toNat : Int) 0 .positive)) = _
  rw [htoNat, UnpackedFloat.normalize]
  have hcompare : compare (m : Int) 0 = .gt := compare_gt_iff_gt.2 (by omega)
  rw [hcompare]
  simp only [Int.toNat_natCast, hround]
  rfl

/-- Whether a number is exactly `10 ^ e`, with a significand of 53 bits. -/
def isPowerOfTen (f : UnpackedFloat) (e : Nat) : Bool :=
  match f with
  | .finite .positive m k _ => m * 2 ^ k.toNat == 10 ^ e * 2 ^ (-k).toNat && 2 ^ 52 ≤ m
  | _ => false

theorem isPowerOfTen_table : ∀ e : Fin 23,
    isPowerOfTen (Float.exactlyRepresentablePowersOfTen[e]).toModel.unpack e = true := by
  decide +kernel

theorem unpack_of_isPowerOfTen {f : UnpackedFloat} {e : Nat} (h : isPowerOfTen f e = true) :
    ∃ m k hm, f = .finite .positive m k hm ∧ (m * 2 ^ k : ℚ) = 10 ^ e ∧ 2 ^ 52 ≤ m := by
  unfold isPowerOfTen at h
  split at h
  · rename_i m k hm
    rw [Bool.and_eq_true, beq_iff_eq, decide_eq_true_eq] at h
    obtain ⟨hvalue, hlong⟩ := h
    refine ⟨m, k, hm, rfl, ?_, hlong⟩
    have hcast : (m * 2 ^ k.toNat : ℚ) = 10 ^ e * 2 ^ (-k).toNat := by exact_mod_cast hvalue
    rw [Decimal.Dyadic.pow_toNat (by norm_num), ← mul_assoc] at hcast
    exact mul_right_cancel₀ (by positivity) hcast
  · cases h

/-- A short decimal is a product or a quotient of two exact numbers. -/
theorem ofScientific_short (hx : x.IsBinary64) {m e : Nat} (hm : m ≠ 0) (hlt : m < 2 ^ 53)
    (he : e ≤ 22) :
    (x.Rounds (m * 10 ^ e) → Float.ofScientific m false e = ofParts .positive x hx) ∧
      (x.Rounds (m / 10 ^ e) → Float.ofScientific m true e = ofParts .positive x hx) := by
  obtain ⟨p, k, hp, hpower, hvalue, hlong⟩ :=
    unpack_of_isPowerOfTen (isPowerOfTen_table ⟨e, by omega⟩)
  have hexact := unpack_ofParts .positive (isBinary64_whole hm hlt)
  have hwhole := whole_value m
  constructor
  · intro h
    rw [Float.ofScientific, dif_pos ⟨hlt, he⟩]
    simp only [Bool.false_eq_true, if_false]
    rw [toFloat_eq hm hlt]
    refine mul_of_unpack hexact hpower hx ?_ ?_
    · rwa [hwhole, hvalue]
    · exact hlong.trans (Nat.le_mul_of_pos_left _ (isBinary64_whole hm hlt).pos)
  · intro h
    rw [Float.ofScientific, dif_pos ⟨hlt, he⟩]
    simp only [if_true]
    rw [toFloat_eq hm hlt]
    refine div_of_unpack hexact hpower hx ?_
    rwa [hwhole, hvalue]

/-- A decimal of moderate size is a product or a quotient with the exact power of ten. -/
theorem ofScientific_unpacked (hx : x.IsBinary64) {m : Nat} {e : Int} (hm : m ≠ 0)
    (h : x.Rounds (m * 10 ^ e)) (hup : e ≤ 2 ^ 11) (hdown : -(2 ^ 11 + (m.log2 : Int)) ≤ e) :
    UnpackedFloat.ofScientific .binary64 m e = unpacked .positive x hx := by
  rw [UnpackedFloat.ofScientific, dif_neg hm, if_neg (not_lt.2 hup), if_neg (not_lt.2 hdown)]
  by_cases hsign : 0 ≤ e
  · rw [if_pos hsign]
    refine mul_eq hx ?_ ?_
    · have hten : (10 : ℚ) ^ e = (10 ^ e.toNat : Nat) := by
        rw [Nat.cast_pow, ← zpow_natCast, Int.toNat_of_nonneg hsign]
        rfl
      rw [hten] at h
      have hshift : ((m <<< Format.binary64.mantissaBits : Nat) *
          2 ^ (-(Format.binary64.mantissaBits : Int)) : ℚ) = m := by
        rw [Nat.shiftLeft_eq, zpow_neg, zpow_natCast]
        push_cast
        exact mul_inv_cancel_right₀ (by positivity) _
      rwa [hshift, zpow_zero, mul_one]
    · have hlarge : 2 ^ 52 ≤ m <<< Format.binary64.mantissaBits := by
        change 2 ^ 52 ≤ m <<< 53
        omega
      exact hlarge.trans (Nat.le_mul_of_pos_right _ (by positivity))
  · rw [if_neg hsign]
    refine div_eq hx ?_
    have hten : (10 : ℚ) ^ e = ((10 ^ (-e).toNat : Nat) : ℚ)⁻¹ := by
      rw [Nat.cast_pow, ← zpow_natCast, Int.toNat_of_nonneg (by omega), zpow_neg, inv_inv]
      rfl
    rwa [zpow_zero, mul_one, mul_one, div_eq_mul_inv, ← hten]

theorem ofScientific_eq (hx : x.IsBinary64) {m : Nat} {e : Int} (hm : m ≠ 0)
    (h : x.Rounds (m * 10 ^ e)) (hup : e ≤ 2 ^ 11) (hdown : -(2 ^ 11 + (m.log2 : Int)) ≤ e) :
    Float.ofScientific m (e < 0) e.natAbs = ofParts .positive x hx := by
  by_cases hshort : m < 2 ^ 53 ∧ e.natAbs ≤ 22
  · obtain ⟨hmul, hdiv⟩ := ofScientific_short hx hm hshort.1 hshort.2
    by_cases hsign : e < 0
    · rw [decide_eq_true hsign]
      refine hdiv ?_
      have hten : (10 : ℚ) ^ e = (10 ^ e.natAbs)⁻¹ := by
        rw [← zpow_natCast, ← zpow_neg]
        congr 1
        omega
      rwa [div_eq_mul_inv, ← hten]
    · rw [decide_eq_false hsign]
      refine hmul ?_
      have hten : (10 : ℚ) ^ e = 10 ^ e.natAbs := by
        rw [← zpow_natCast]
        congr 1
        omega
      rwa [← hten]
  · have hexponent : (if decide (e < 0) = true then Int.negOfNat e.natAbs
        else Int.ofNat e.natAbs) = e := by
      split <;> rename_i hsign <;> rw [decide_eq_true_eq] at hsign
      · rw [Int.negOfNat_eq, Int.ofNat_eq_natCast]
        omega
      · rw [Int.ofNat_eq_natCast]
        omega
    rw [Float.ofScientific, dif_neg hshort]
    simp only [hexponent, Float.Model.ofScientific, ofScientific_unpacked hx hm h hup hdown]
    rfl

/-! ### The size of a decimal in the interval -/

theorem bounds_of_rounds (hx : x.IsBinary64) {y : ℚ} (h : x.Rounds y) :
    2 ^ (-1075 : Int) ≤ y ∧ y < 2 ^ (1024 : Int) := by
  have hpos : (0 : ℚ) < 2 ^ x.exponent := zpow_pos (by norm_num) _
  obtain ⟨hlow, hhigh, -⟩ := h.quarters
  have hy : y = y / 2 ^ x.exponent * 2 ^ x.exponent := (div_mul_cancel₀ y hpos.ne').symm
  generalize y / 2 ^ x.exponent = z at hlow hhigh hy
  have hone : (1 : ℚ) ≤ x.significand := by exact_mod_cast hx.pos
  have hs : (x.significand : ℚ) + 1 ≤ 2 ^ 53 := by exact_mod_cast hx.lt
  have hhalf : 1 / 2 ≤ z := by
    rcases hx.lowQuarters_cases with ⟨-, h⟩ | ⟨-, h⟩ <;> linarith
  have hleast := hx.least
  have hgreatest := hx.greatest
  rw [hy]
  constructor
  · calc (2 : ℚ) ^ (-1075 : Int) ≤ 2 ^ (-1 + x.exponent) :=
          zpow_le_zpow_right₀ (by norm_num) (by omega)
      _ = 1 / 2 * 2 ^ x.exponent := by
        rw [zpow_add₀ (by norm_num), zpow_neg_one, one_div]
      _ ≤ z * 2 ^ x.exponent := mul_le_mul_of_nonneg_right hhalf hpos.le
  · calc z * 2 ^ x.exponent < 2 ^ 53 * 2 ^ x.exponent :=
          mul_lt_mul_of_pos_right (by linarith) hpos
      _ = 2 ^ ((53 : Nat) + x.exponent) := by rw [zpow_add₀ (by norm_num), zpow_natCast]
      _ ≤ 2 ^ (1024 : Int) := zpow_le_zpow_right₀ (by norm_num) (by omega)

/-- A decimal in the rounding interval of a number is read as that number. -/
theorem ofDecimal_eq (hx : x.IsBinary64) {d : Decimal} (h : x.Rounds d.toRat) :
    ofDecimal d.digits d.exponent = ofParts .positive x hx := by
  obtain ⟨hlow, hhigh⟩ := bounds_of_rounds hx h
  have hone : (1 : ℚ) < 10 := by norm_num
  have hd : d.digits ≠ 0 := by
    intro hzero
    rw [Decimal.toRat, hzero, Nat.cast_zero, zero_mul] at hlow
    exact absurd hlow (not_le.2 (zpow_pos (by norm_num) _))
  have hupper : d.exponent + (Decimal.digitsOf d.digits).length ≤ 320 := by
    have hpower : ((10 : ℚ) ^ (320 : Int))⁻¹ < (2 ^ (1024 : Int))⁻¹ := by
      rw [← zpow_neg, ← zpow_neg]
      exact Decimal.Dyadic.ten_zpow_lt_two_zpow (by decide) (by decide)
    rw [inv_lt_inv₀ (zpow_pos (by norm_num) _) (zpow_pos (by norm_num) _)] at hpower
    have hlt := (zpow_lt_zpow_iff_right₀ hone).1
      ((Decimal.le_toRat hd).trans_lt (hhigh.trans hpower))
    omega
  have hlower : -340 ≤ d.exponent + (Decimal.digitsOf d.digits).length := by
    have hpower : (10 : ℚ) ^ (-341 : Int) < 2 ^ (-1075 : Int) :=
      Decimal.Dyadic.ten_zpow_lt_two_zpow (by decide) (by decide)
    have hlt := (zpow_lt_zpow_iff_right₀ hone).1
      ((hpower.trans_le hlow).trans (Decimal.toRat_lt d))
    omega
  have hdigits : (Decimal.digitsOf d.digits).length - 1 ≤ d.digits.log2 := by
    rw [Nat.le_log2 hd]
    exact (Nat.pow_le_pow_left (by decide) _).trans (Decimal.pow_length_digitsOf_le hd)
  have hlength := Decimal.length_digitsOf_pos d.digits
  rw [ofDecimal, if_neg hd, if_neg (by omega), if_neg (by omega)]
  exact ofScientific_eq hx hd h (by omega) (by omega)

/-- The decimal printed for a finite number, after the sign of the number, is read as the
    number. -/
theorem ofDecimal_shortestDecimal {v : Float} (hfinite : v.isFinite = true) {d : Decimal}
    (h : d.toRat = (shortestDecimal v).toRat) :
    (if isNegative v then -ofDecimal d.digits d.exponent else ofDecimal d.digits d.exponent) =
      v := by
  by_cases hzero : IsZero v
  · have hshortest : (shortestDecimal v).toRat = 0 := by
      have hdecimal : shortestDecimal v = ⟨0, 0⟩ := by
        rcases hzero with rfl | rfl
        · decide +kernel
        · decide +kernel
      rw [hdecimal, Decimal.toRat, Nat.cast_zero, zero_mul]
    have hdigits : d.digits = 0 := by
      by_contra hd
      exact (Decimal.toRat_pos hd).ne' (h.trans hshortest)
    rw [ofDecimal, if_pos hdigits]
    rcases hzero with rfl | rfl <;> rfl
  · have hx := isBinary64_magnitude hfinite hzero
    have hshortest : shortestDecimal v = (magnitude v).shortest := if_neg hx.pos.ne'
    rw [hshortest] at h
    have hpositive : ofDecimal d.digits d.exponent = ofParts .positive (magnitude v) hx :=
      ofDecimal_eq hx (h ▸ Decimal.Dyadic.rounds_shortest hx)
    have hv := eq_ofParts hfinite hx
    rw [hpositive, neg_ofParts]
    split
    · rename_i hsign
      rw [(signOf_eq_negative_iff v).2 hsign] at hv
      exact hv.symm
    · rename_i hsign
      have hsign' : signOf v = .positive := by
        cases hs : signOf v with
        | positive => rfl
        | negative => exact absurd ((signOf_eq_negative_iff v).1 hs) hsign
      rw [hsign'] at hv
      exact hv.symm

end NumericMethods.Binary64
