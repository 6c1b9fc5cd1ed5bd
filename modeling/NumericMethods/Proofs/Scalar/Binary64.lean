/-
  NumericMethods/Proofs/Scalar/Binary64.lean
  ==========================================
  **Signs, zeros and library functions of binary floating point numbers.**

  The arithmetic of `Float` has a definition that proofs can open: a number is unpacked
  into a sign, a significand and an exponent.  The facts here are about the two zeros, which
  that arithmetic tells apart only by the sign of a zero result, and about the sign that a
  number is printed with.

  Powers and the elementary functions come from the platform's library and have no such
  definition.  `Binary64.withLibrary` makes them a parameter; the instance that the programs run
  on is the one over the functions of the platform.
-/
import Mathlib
import NumericMethods.Scalar.Binary64

namespace NumericMethods.Binary64

open Float.Model Float.Model.UnpackedFloat

/-! ### The bits of a number -/

theorem sign_ofBitVec_toBitVec (s : Sign) : Sign.ofBitVec s.toBitVec = s := by
  cases s <;> rfl

section Bits

variable (b : BitVec Format.binary64.numBits)

theorem append_bits :
    BitVec.extractLsb 63 63 b ++ BitVec.extractLsb 62 52 b ++ BitVec.extractLsb 51 0 b = b := by
  have hhigh : BitVec.extractLsb 63 63 b ++ BitVec.extractLsb 62 52 b =
      BitVec.extractLsb 63 52 b :=
    BitVec.extractLsb'_append_extractLsb'_eq_extractLsb' rfl
  have hwhole : BitVec.extractLsb 63 52 b ++ BitVec.extractLsb 51 0 b = BitVec.extractLsb 63 0 b :=
    BitVec.extractLsb'_append_extractLsb'_eq_extractLsb' rfl
  rw [hhigh]
  exact hwhole.trans BitVec.extractLsb'_eq_self

theorem packComponents_unpack :
    packComponents Format.binary64 (Sign.ofBitVec (unpackSign b)) (unpackExponent b)
      (unpackMantissa b) = b := by
  have hsign : ∀ s : BitVec 1, (Sign.ofBitVec s).toBitVec = s := by decide
  rw [packComponents, hsign]
  exact append_bits b

theorem unpackSign_eq_one_iff : unpackSign b = 1#1 ↔ 2 ^ 63 ≤ b.toNat := by
  have hlt : b.toNat < 2 ^ 64 := b.isLt
  have hsign : (unpackSign b).toNat = b.toNat / 2 ^ 63 % 2 := by
    simp [unpackSign, Nat.shiftRight_eq_div_pow]
  rw [← BitVec.toNat_inj, hsign]
  simp only [BitVec.toNat_ofNat]
  omega

end Bits

/-- The bits of a number. -/
def bitsOf (v : Float) : BitVec Format.binary64.numBits := v.toModel.toBits.toBitVec

/-- The sign of a number. -/
def signOf (v : Float) : Sign := Sign.ofBitVec (unpackSign (bitsOf v))

theorem ofBitVec_eq_negative_iff (s : BitVec 1) : Sign.ofBitVec s = .negative ↔ s = 1#1 := by
  rcases BitVec.eq_zero_or_eq_one s with rfl | rfl <;> simp [Sign.ofBitVec]

theorem signOf_eq_negative_iff (v : Float) : signOf v = .negative ↔ isNegative v = true := by
  rw [signOf, ofBitVec_eq_negative_iff, unpackSign_eq_one_iff, isNegative, decide_eq_true_eq]
  exact Iff.rfl

/-! ### The kinds of numbers -/

/-- A number is not finite, a zero, or has a positive significand. -/
theorem unpack_cases (v : Float) :
    v.isFinite = false ∨
      (unpackExponent (bitsOf v) = 0#_ ∧ unpackMantissa (bitsOf v) = 0#_ ∧
        v.toModel.unpack = .zero (signOf v)) ∨
      ∃ m e hm, v.toModel.unpack = .finite (signOf v) m e hm := by
  change v.toModel.unpack.isFinite = false ∨ _
  change (UnpackedFloat.unpack Format.binary64 (bitsOf v)).isFinite = false ∨
    (_ ∧ _ ∧ UnpackedFloat.unpack Format.binary64 (bitsOf v) = _) ∨
      ∃ m e hm, UnpackedFloat.unpack Format.binary64 (bitsOf v) = _
  unfold UnpackedFloat.unpack
  dsimp only
  by_cases hinf : unpackExponent (bitsOf v) = -1#_
  · rw [if_pos hinf]
    exact .inl (by split <;> rfl)
  · rw [if_neg hinf]
    by_cases hsub : unpackExponent (bitsOf v) = 0#_
    · rw [if_pos hsub]
      by_cases hzero : unpackMantissa (bitsOf v) = 0#_
      · rw [dif_pos hzero]
        exact .inr (.inl ⟨hsub, hzero, rfl⟩)
      · rw [dif_neg hzero]
        exact .inr (.inr ⟨_, _, Nat.pos_of_ne_zero fun h => hzero (BitVec.eq_of_toNat_eq h), rfl⟩)
    · rw [if_neg hsub]
      have hpos : 0 < (1#1 ++ unpackMantissa (bitsOf v)).toNat := by
        rw [BitVec.toNat_append]
        exact Nat.lt_of_lt_of_le (by decide) Nat.left_le_or
      exact .inr (.inr ⟨_, _, hpos, rfl⟩)

theorem eq_of_bitsOf_eq {v w : Float} (h : bitsOf v = bitsOf w) : v = w := by
  obtain ⟨⟨_, _⟩⟩ := v
  obtain ⟨⟨_, _⟩⟩ := w
  cases UInt64.toBitVec_inj.1 h
  rfl

/-- There are two zeros. -/
theorem eq_zero_or_of_unpack {v : Float} {s : Sign} (h : v.toModel.unpack = .zero s) :
    v = 0 ∨ v = -0 := by
  rcases unpack_cases v with hinf | ⟨hsub, hzero, -⟩ | ⟨m, e, hm, hfinite⟩
  · have hinf' : v.toModel.unpack.isFinite = false := hinf
    rw [h] at hinf'
    cases hinf'
  · have hbits := packComponents_unpack (bitsOf v)
    rw [hsub, hzero] at hbits
    cases hs : Sign.ofBitVec (unpackSign (bitsOf v)) with
    | positive =>
      rw [hs] at hbits
      exact .inl (eq_of_bitsOf_eq hbits.symm)
    | negative =>
      rw [hs] at hbits
      exact .inr (eq_of_bitsOf_eq hbits.symm)
  · rw [h] at hfinite
    cases hfinite

theorem unpack_zero : (0 : Float).toModel.unpack = .zero .positive := rfl

theorem unpack_minusZero : (-0 : Float).toModel.unpack = .zero .negative := rfl

theorem zero_ne_minusZero : (0 : Float) ≠ -0 := by
  intro h
  have hsign : signOf 0 = signOf (-0) := congrArg signOf h
  cases hsign

theorem lt_iff_unpack {v w : Float} :
    v < w ↔ v.toModel.unpack.lt w.toModel.unpack = true := by
  change decide (v.toModel.unpack.lt w.toModel.unpack = true) = true ↔ _
  rw [decide_eq_true_eq]

/-- Among the finite numbers, the negative ones and minus zero have a sign. -/
theorem isNegative_iff {v : Float} (h : v.isFinite = true) :
    isNegative v = true ↔ v < 0 ∨ v = -0 := by
  rw [← signOf_eq_negative_iff, lt_iff_unpack, unpack_zero]
  rcases unpack_cases v with hinf | ⟨-, -, hzero⟩ | ⟨m, e, hm, hfinite⟩
  · rw [h] at hinf
    cases hinf
  · rw [hzero]
    have hnot : (UnpackedFloat.zero (signOf v)).lt (.zero .positive) = false := rfl
    rw [hnot]
    rcases eq_zero_or_of_unpack hzero with rfl | rfl
    · have hsign : signOf 0 = .positive := rfl
      simp [hsign, zero_ne_minusZero]
    · have hsign : signOf (-0) = .negative := rfl
      simp [hsign]
  · have hne : v ≠ -0 := by
      rintro rfl
      rw [unpack_minusZero] at hfinite
      cases hfinite
    rw [hfinite]
    cases hs : signOf v with
    | negative =>
      have hyes : (UnpackedFloat.finite .negative m e hm).lt (.zero .positive) = true := rfl
      simp [hyes]
    | positive =>
      have hnot : (UnpackedFloat.finite .positive m e hm).lt (.zero .positive) = false := rfl
      simp [hnot, hne]

theorem isFinite_neg_eq_false {v : Float} (h : v.isFinite = false) : (-v).isFinite = false := by
  have hinfinite : v.toModel.unpack.isFinite = false := h
  change (pack v.toModel.unpack.neg).unpack.isFinite = false
  cases hv : v.toModel.unpack with
  | notANumber => rfl
  | infinity s => cases s <;> rfl
  | zero s => rw [hv] at hinfinite; cases hinfinite
  | finite s m e hm => rw [hv] at hinfinite; cases hinfinite

theorem isNaN_of_isFinite {v : Float} (h : v.isFinite = true) : v.isNaN = false := by
  change v.toModel.unpack.isNaN = false
  have hfinite : v.toModel.unpack.isFinite = true := h
  cases hv : v.toModel.unpack <;> first | rfl | (rw [hv] at hfinite; cases hfinite)

theorem isInf_of_isFinite {v : Float} (h : v.isFinite = true) : v.isInf = false := by
  change v.toModel.unpack.isInf = false
  have hfinite : v.toModel.unpack.isFinite = true := h
  cases hv : v.toModel.unpack <;> first | rfl | (rw [hv] at hfinite; cases hfinite)

/-- A finite number is printed as the layout of its magnitude, after its sign. -/
theorem toList_textIn {v : Float} (h : v.isFinite = true) (layout : Decimal → List Char) :
    (textIn layout v).toList =
      (if isNegative v then ['-'] else []) ++ layout (shortestDecimal v) := by
  rw [textIn, isNaN_of_isFinite h, isInf_of_isFinite h]
  cases isNegative v <;> simp

/-! ### Numbers that differ in the sign of zero at most -/

/-- The same unpacked number, or two zeros. -/
inductive SameUnpacked : UnpackedFloat → UnpackedFloat → Prop
  | refl (f : UnpackedFloat) : SameUnpacked f f
  | zero (s t : Sign) : SameUnpacked (.zero s) (.zero t)

namespace SameUnpacked

variable {f f' g g' : UnpackedFloat}

theorem trans (h : SameUnpacked f g) (h' : SameUnpacked g g') : SameUnpacked f g' := by
  cases h with
  | refl f => exact h'
  | zero s t => cases h' <;> exact .zero _ _

/-- A binary operation that cannot tell the zeros apart on either side. -/
theorem binary {op : UnpackedFloat → UnpackedFloat → UnpackedFloat}
    (hleft : ∀ s t g, SameUnpacked (op (.zero s) g) (op (.zero t) g))
    (hright : ∀ s t f, SameUnpacked (op f (.zero s)) (op f (.zero t)))
    (h : SameUnpacked f f') (h' : SameUnpacked g g') : SameUnpacked (op f g) (op f' g') := by
  have hl : SameUnpacked (op f g) (op f' g) := by
    cases h with
    | refl f => exact .refl _
    | zero s t => exact hleft s t g
  have hr : SameUnpacked (op f' g) (op f' g') := by
    cases h' with
    | refl g => exact .refl _
    | zero s t => exact hright s t f'
  exact hl.trans hr

theorem neg (h : SameUnpacked f g) : SameUnpacked f.neg g.neg := by
  cases h with
  | refl f => exact .refl _
  | zero s t => exact .zero _ _

theorem add (h : SameUnpacked f f') (h' : SameUnpacked g g') :
    SameUnpacked (add .binary64 f g) (add .binary64 f' g') := by
  refine binary (fun s t g => ?_) (fun s t f => ?_) h h'
  · cases g with
    | zero u => cases s <;> cases t <;> cases u <;> exact .zero _ _
    | _ => exact .refl _
  · cases f with
    | zero u => cases s <;> cases t <;> cases u <;> exact .zero _ _
    | _ => exact .refl _

theorem sub (h : SameUnpacked f f') (h' : SameUnpacked g g') :
    SameUnpacked (sub .binary64 f g) (sub .binary64 f' g') := by
  refine binary (fun s t g => ?_) (fun s t f => ?_) h h'
  · cases g with
    | zero u => cases s <;> cases t <;> cases u <;> exact .zero _ _
    | _ => exact .refl _
  · cases f with
    | zero u => cases s <;> cases t <;> cases u <;> exact .zero _ _
    | _ => exact .refl _

theorem mul (h : SameUnpacked f f') (h' : SameUnpacked g g') :
    SameUnpacked (mul .binary64 f g) (mul .binary64 f' g') := by
  refine binary (fun s t g => ?_) (fun s t f => ?_) h h'
  · cases g with
    | zero u => exact .zero _ _
    | finite u m e hm => exact .zero _ _
    | _ => exact .refl _
  · cases f with
    | zero u => exact .zero _ _
    | finite u m e hm => exact .zero _ _
    | _ => exact .refl _

/-- A quotient does not depend on the sign of a zero numerator; that of a zero denominator
    decides the sign of an infinite quotient. -/
theorem div (h : SameUnpacked f f') (g : UnpackedFloat) :
    SameUnpacked (div .binary64 f g) (div .binary64 f' g) := by
  cases h with
  | refl f => exact .refl _
  | zero s t =>
    cases g with
    | infinity u => exact .zero _ _
    | finite u m e hm => exact .zero _ _
    | _ => exact .refl _

theorem isFinite_eq (h : SameUnpacked f g) : f.isFinite = g.isFinite := by
  cases h <;> rfl

theorem beq (h : SameUnpacked f g) (hfinite : f.isFinite = true) : f.beq g = true := by
  cases h with
  | refl f =>
    cases f with
    | zero s => rfl
    | finite s m e hm => cases s <;> simp [UnpackedFloat.beq, UnpackedFloat.compare]
    | notANumber => cases hfinite
    | infinity s => cases hfinite
  | zero s t => rfl

end SameUnpacked

/-- One of the two zeros. -/
def IsZero (v : Float) : Prop := v = 0 ∨ v = -0

/-- The same number, or two zeros. -/
def Same (v w : Float) : Prop := v = w ∨ (IsZero v ∧ IsZero w)

theorem isZero_pack (s : Sign) : IsZero (.ofModel (pack (.zero s))) := by
  cases s with
  | positive => exact .inl rfl
  | negative => exact .inr rfl

theorem isZero_iff_unpack {v : Float} : IsZero v ↔ ∃ s, v.toModel.unpack = .zero s := by
  constructor
  · rintro (rfl | rfl)
    · exact ⟨_, unpack_zero⟩
    · exact ⟨_, unpack_minusZero⟩
  · rintro ⟨s, h⟩
    exact eq_zero_or_of_unpack h

/-- Only zeros compare as equal to a zero. -/
theorem eq_zero_of_beq {f : UnpackedFloat} {s : Sign}
    (h : f.beq (.zero s) = true ∨ (UnpackedFloat.zero s).beq f = true) : ∃ t, f = .zero t := by
  cases f with
  | zero t => exact ⟨t, rfl⟩
  | notANumber => rcases h with h | h <;> cases h
  | finite t m e hm => cases t <;> rcases h with h | h <;> cases h
  | infinity t => cases t <;> rcases h with h | h <;> cases h

theorem isZero_of_beq {v w : Float} (hv : IsZero v) (h : (v == w) = true) : IsZero w := by
  have hbeq : v.toModel.unpack.beq w.toModel.unpack = true := h
  obtain ⟨s, hs⟩ := isZero_iff_unpack.1 hv
  rw [hs] at hbeq
  exact isZero_iff_unpack.2 (eq_zero_of_beq (.inr hbeq))

theorem isZero_iff_beq {v : Float} : IsZero v ↔ (v == 0) = true := by
  have hbeq : (v == 0) = v.toModel.unpack.beq (.zero .positive) := rfl
  rw [hbeq]
  constructor
  · intro h
    obtain ⟨s, hs⟩ := isZero_iff_unpack.1 h
    rw [hs]
    rfl
  · exact fun h => isZero_iff_unpack.2 (eq_zero_of_beq (.inl h))

theorem IsZero.neg {v : Float} (h : IsZero v) : IsZero (-v) := by
  rcases h with rfl | rfl
  · exact .inr rfl
  · exact .inl rfl

namespace Same

variable {v w u v' w' : Float}

theorem refl (v : Float) : Same v v := .inl rfl

theorem symm (h : Same v w) : Same w v := by
  rcases h with rfl | ⟨hv, hw⟩
  · exact refl v
  · exact .inr ⟨hw, hv⟩

theorem isZero (h : Same v w) (hv : IsZero v) : IsZero w := by
  rcases h with rfl | ⟨-, hw⟩
  · exact hv
  · exact hw

theorem trans (h : Same v w) (h' : Same w u) : Same v u := by
  rcases h with rfl | ⟨hv, hw⟩
  · exact h'
  · exact .inr ⟨hv, h'.isZero hw⟩

theorem unpack (h : Same v w) : SameUnpacked v.toModel.unpack w.toModel.unpack := by
  rcases h with rfl | ⟨hv, hw⟩
  · exact .refl _
  · obtain ⟨s, hs⟩ := isZero_iff_unpack.1 hv
    obtain ⟨t, ht⟩ := isZero_iff_unpack.1 hw
    rw [hs, ht]
    exact .zero s t

theorem of_unpack {f g : UnpackedFloat} (h : SameUnpacked f g) :
    Same (.ofModel (pack f)) (.ofModel (pack g)) := by
  cases h with
  | refl f => exact refl _
  | zero s t => exact .inr ⟨isZero_pack s, isZero_pack t⟩

theorem neg (h : Same v w) : Same (-v) (-w) := of_unpack h.unpack.neg

theorem add (h : Same v v') (h' : Same w w') : Same (v + w) (v' + w') :=
  of_unpack (h.unpack.add h'.unpack)

theorem sub (h : Same v v') (h' : Same w w') : Same (v - w) (v' - w') :=
  of_unpack (h.unpack.sub h'.unpack)

theorem mul (h : Same v v') (h' : Same w w') : Same (v * w) (v' * w') :=
  of_unpack (h.unpack.mul h'.unpack)

theorem div (h : Same v v') (w : Float) : Same (v / w) (v' / w) :=
  of_unpack (h.unpack.div _)

theorem isFinite_eq (h : Same v w) : v.isFinite = w.isFinite :=
  h.unpack.isFinite_eq

/-- Finite numbers that are the same compare as equal. -/
theorem beq (h : Same v w) (hfinite : v.isFinite = true) : (v == w) = true :=
  h.unpack.beq hfinite

end Same

/-- A finite number is negative, a zero or positive. -/
theorem sign_cases {v : Float} (h : v.isFinite = true) : v < 0 ∨ IsZero v ∨ 0 < v := by
  have hfinite : v.toModel.unpack.isFinite = true := h
  rw [lt_iff_unpack, lt_iff_unpack, unpack_zero, isZero_iff_unpack]
  cases hv : v.toModel.unpack with
  | zero s => exact .inr (.inl ⟨s, rfl⟩)
  | finite s m e hm =>
    cases s with
    | negative => exact .inl rfl
    | positive => exact .inr (.inr rfl)
  | notANumber => rw [hv] at hfinite; cases hfinite
  | infinity s => rw [hv] at hfinite; cases hfinite

theorem not_lt_of_pos {v : Float} (h : 0 < v) : ¬ v < 0 := by
  rw [lt_iff_unpack, unpack_zero] at h ⊢
  cases hv : v.toModel.unpack with
  | finite s m e hm =>
    rw [hv] at h
    cases s with
    | negative => cases h
    | positive => exact Bool.false_ne_true
  | infinity s =>
    rw [hv] at h
    cases s with
    | negative => cases h
    | positive => exact Bool.false_ne_true
  | zero s => exact Bool.false_ne_true
  | notANumber => exact Bool.false_ne_true

theorem not_lt_of_isZero {v : Float} (h : IsZero v) : ¬ v < 0 := by
  rcases h with rfl | rfl <;> decide +kernel

/-! ### The library -/

/-- The functions of a platform's library. -/
structure Library where
  power : Float → Float → Option Float
  elementary : Elementary → Float → Float

/-- What is documented of the library about zeros: a power with the exponent zero is one, a
    positive power of a zero is a zero, and no function but the logarithm, which is undefined
    there, tells the two zeros apart. -/
structure Library.Documented (lib : Library) : Prop where
  power_zero : ∀ {b z : Float}, b.isFinite = true → IsZero z → lib.power b z = some 1
  zero_power : ∀ {z e : Float}, IsZero z → e.isFinite = true → 0 < e →
    ∃ w, lib.power z e = some w ∧ IsZero w
  elementary_zero : ∀ f, f ≠ .ln → Same (lib.elementary f 0) (lib.elementary f (-0))

/-- The library of the platform that the programs run on. -/
def platform : Library := ⟨power, elementary⟩

/-- The floating point numbers over a library. -/
@[reducible] def withLibrary (lib : Library) : Scalar Float :=
  { (inferInstance : Scalar Float) with power := lib.power, elementary := lib.elementary }

theorem withLibrary_platform : withLibrary platform = (inferInstance : Scalar Float) := rfl

end NumericMethods.Binary64
