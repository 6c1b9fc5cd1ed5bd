/-
  NumericMethods/Proofs/Scalar/Finiteness.lean
  ============================================
  **Which operations can make a number that is not finite finite again.**

  A sum, a difference, a product and a negation are finite only if their operands are, and so
  is the numerator of a finite quotient.  The denominator need not be: one divided by an
  infinite number is zero.  Powers and elementary functions can have finite values at infinite
  numbers as well, so nothing of the kind is asked of them.  These are the laws of
  `Scalar.TracksFiniteness`, with the finite numbers that the rules of formulas introduce.
  Binary floating point arithmetic has them over every library (`Binary64.tracksFiniteness`).

  What is documented of powers is the exponents zero and one, and that a negative power of a
  zero is not finite (`Scalar.HasPowers`, `Binary64.Library.DocumentsPowers`).
-/
import Mathlib
import NumericMethods.Proofs.Scalar.Overflow
import NumericMethods.Proofs.Scalar.ReadBack

namespace NumericMethods

namespace Scalar

/-- What finite results say about their operands. -/
class TracksFiniteness (α : Type) [Scalar α] : Prop where
  isFinite_zero : isFinite (0 : α) = true
  isFinite_one : isFinite (1 : α) = true
  isFinite_two : isFinite (ofNat 2 : α) = true
  isFinite_of_beq : ∀ {x y : α}, (x == y) = true → isFinite y = true → isFinite x = true
  isFinite_neg : ∀ x : α, isFinite (-x) = isFinite x
  isFinite_of_add : ∀ {x y : α}, isFinite (x + y) = true → isFinite x = true ∧ isFinite y = true
  isFinite_of_sub : ∀ {x y : α}, isFinite (x - y) = true → isFinite x = true ∧ isFinite y = true
  isFinite_of_mul : ∀ {x y : α}, isFinite (x * y) = true → isFinite x = true ∧ isFinite y = true
  isFinite_of_div : ∀ {x y : α}, isFinite (x / y) = true → isFinite x = true

/-- The powers that have a known value, or none. -/
class HasPowers (α : Type) [Scalar α] : Prop where
  power_zero : ∀ {x z : α}, isFinite x = true → (z == 0) = true → power x z = some 1
  power_one : ∀ {x y : α}, isFinite x = true → (y == 1) = true → power x y = some x
  isFinite_zero_power : ∀ {z y w : α}, (z == 0) = true → y < 0 → power z y = some w →
    isFinite w = false

end Scalar

namespace Binary64

open Float.Model Float.Model.UnpackedFloat

/-- What is documented of the powers of a library: a power with the exponent zero is one,
    one with the exponent one is its base, and a negative power of a zero is infinite. -/
structure Library.DocumentsPowers (lib : Library) : Prop where
  power_zero : ∀ {b z : Float}, b.isFinite = true → IsZero z → lib.power b z = some 1
  power_one : ∀ {b e : Float}, b.isFinite = true → (e == 1) = true → lib.power b e = some b
  zero_power : ∀ {z e w : Float}, IsZero z → e < 0 → lib.power z e = some w → w.isFinite = false

theorem hasPowers {lib : Library} (hlib : lib.DocumentsPowers) :
    @Scalar.HasPowers Float (withLibrary lib) := by
  let _ := withLibrary lib
  constructor
  case power_zero => exact fun hx hz => hlib.power_zero hx (isZero_iff_beq.2 hz)
  case power_one => exact fun hx hy => hlib.power_one hx hy
  case isFinite_zero_power => exact fun hz hy hw => hlib.zero_power (isZero_iff_beq.2 hz) hy hw

theorem isFinite_of_isZero {v : Float} (h : IsZero v) : v.isFinite = true := by
  rcases h with rfl | rfl <;> rfl

/-- Only finite numbers compare as equal to a finite one. -/
theorem isFinite_of_beq {v w : Float} (h : (v == w) = true) (hw : w.isFinite = true) :
    v.isFinite = true := by
  have hbeq : v.toModel.unpack.beq w.toModel.unpack = true := h
  have hfinite : w.toModel.unpack.isFinite = true := hw
  by_contra hv
  rw [Bool.not_eq_true] at hv
  cases hunpack : w.toModel.unpack with
  | notANumber => rw [hunpack] at hfinite; cases hfinite
  | infinity t => rw [hunpack] at hfinite; cases hfinite
  | _ =>
    rw [hunpack] at hbeq
    obtain hv | ⟨s, hv⟩ := eq_of_isFinite_eq_false hv
    · rw [hv] at hbeq
      cases hbeq
    · rw [hv] at hbeq
      cases s <;> cases hbeq

theorem not_lt_of_beq_one {v : Float} (h : (v == 1) = true) : ¬ v < 0 := by
  rw [lt_iff_unpack, unpack_zero]
  have hbeq : v.toModel.unpack.beq (1 : Float).toModel.unpack = true := h
  cases hunpack : v.toModel.unpack with
  | finite s m e hm =>
    rw [hunpack] at hbeq
    cases s with
    | positive => exact Bool.false_ne_true
    | negative => cases hbeq
  | infinity s =>
    rw [hunpack] at hbeq
    cases s with
    | positive => exact Bool.false_ne_true
    | negative => cases hbeq
  | _ => exact Bool.false_ne_true

/-- A finite number other than zero keeps its magnitude when its sign changes. -/
theorem isFinite_neg_of_isFinite {v : Float} (h : v.isFinite = true) : (-v).isFinite = true := by
  by_cases hzero : IsZero v
  · exact isFinite_of_isZero hzero.neg
  · have hx := isBinary64_magnitude h hzero
    have hneg : ∃ s, -v = ofParts s (magnitude v) hx := by
      change ∃ s, Float.ofModel (Float.Model.pack v.toModel.unpack.neg) = _
      rw [unpack_of_isFinite h hx]
      exact ⟨_, rfl⟩
    obtain ⟨s, hs⟩ := hneg
    change (-v).toModel.unpack.isFinite = true
    rw [hs, unpack_ofParts]
    rfl

theorem isFinite_neg (v : Float) : (-v).isFinite = v.isFinite := by
  cases h : v.isFinite with
  | true => exact isFinite_neg_of_isFinite h
  | false => exact isFinite_neg_eq_false h

/-- There are two infinite numbers. -/
theorem eq_infinity_or_of_unpack {v : Float} {s : Sign} (h : v.toModel.unpack = .infinity s) :
    v = 1 / 0 ∨ v = -1 / 0 := by
  change UnpackedFloat.unpack Format.binary64 (bitsOf v) = .infinity s at h
  unfold UnpackedFloat.unpack at h
  dsimp only at h
  split at h
  · rename_i hexponent
    split at h
    · rename_i hmantissa
      have hbits := packComponents_unpack (bitsOf v)
      rw [hexponent, hmantissa] at hbits
      have hpositive : bitsOf (1 / 0) = packComponents .binary64 .positive (-1#_) 0#_ := by
        decide +kernel
      have hnegative : bitsOf (-1 / 0) = packComponents .binary64 .negative (-1#_) 0#_ := by
        decide +kernel
      cases hs : Sign.ofBitVec (unpackSign (bitsOf v)) with
      | positive =>
        rw [hs, ← hpositive] at hbits
        exact .inl (eq_of_bitsOf_eq hbits.symm)
      | negative =>
        rw [hs, ← hnegative] at hbits
        exact .inr (eq_of_bitsOf_eq hbits.symm)
    · cases h
  · split at h
    · split at h <;> cases h
    · cases h

/-- What is not finite stays so when it is divided. -/
theorem isFinite_div (g : UnpackedFloat) {f : UnpackedFloat} (hf : f.isFinite = false) :
    (div .binary64 f g).isFinite = false := by
  obtain rfl | ⟨s, rfl⟩ := eq_of_isFinite_eq_false hf
  · rfl
  · cases g <;> rfl

theorem tracksFiniteness (lib : Library) : @Scalar.TracksFiniteness Float (withLibrary lib) := by
  let _ := withLibrary lib
  constructor
  case isFinite_zero => exact isFinite_of_isZero (.inl rfl)
  case isFinite_one => exact (by decide +kernel : (1 : Float).isFinite = true)
  case isFinite_two => exact (by decide +kernel : (ofDecimal 2 0).isFinite = true)
  case isFinite_of_beq => exact isFinite_of_beq
  case isFinite_neg => exact isFinite_neg
  case isFinite_of_add =>
    exact fun h => isFinite_of_operation (fun _ g hf => (isFinite_left g hf).1)
      (fun f _ hg => (isFinite_right f hg).1) h
  case isFinite_of_sub =>
    exact fun h => isFinite_of_operation (fun _ g hf => (isFinite_left g hf).2.1)
      (fun f _ hg => (isFinite_right f hg).2.1) h
  case isFinite_of_mul =>
    exact fun h => isFinite_of_operation (fun _ g hf => (isFinite_left g hf).2.2)
      (fun f _ hg => (isFinite_right f hg).2.2) h
  case isFinite_of_div =>
    intro v w h
    have hdiv : (Float.Model.pack (div .binary64 v.toModel.unpack w.toModel.unpack)).unpack.isFinite
        = true := h
    by_contra hv
    rw [Bool.not_eq_true] at hv
    have hfinite := isFinite_of_pack hdiv
    rw [isFinite_div _ hv] at hfinite
    cases hfinite

end Binary64

end NumericMethods
