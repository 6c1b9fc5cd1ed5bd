/-
  NumericMethods/Proofs/Scalar/Sign.lean
  ======================================
  **The signs of numbers and of their products.**

  Programs that look for a change of sign multiply two numbers and compare the product with
  zero.  What such a test can tell is stated in `Scalar.HasSigns`: a product has the sign
  that the rule of signs says, or it is zero.  In an ordered field the product of two
  numbers that are not zero never is; among binary floating point numbers it is zero where
  it is too small for the format (`Binary64.hasSigns`).  So a product below zero proves that
  the signs are opposite, and one that is not below zero proves nothing unless it is known
  not to vanish (`Scalar.mul_neg_iff`, `Scalar.mul_pos_iff`).

  The law holds over every library of powers and elementary functions, which have no part
  in it.
-/
import Mathlib
import NumericMethods.Proofs.Scalar.Exact
import NumericMethods.Proofs.Scalar.Order
import NumericMethods.Proofs.Scalar.Overflow

namespace NumericMethods

namespace Scalar

variable {α : Type} [Scalar α] {x y z : α}

/-- One of the numbers is below zero, and the other one above. -/
def OppositeSigns (x y : α) : Prop := x < 0 ∧ 0 < y ∨ 0 < x ∧ y < 0

/-- Both numbers are below zero, or both are above. -/
def SameSign (x y : α) : Prop := x < 0 ∧ y < 0 ∨ 0 < x ∧ 0 < y

/-- The rule of signs for an arithmetic in which a product may vanish. -/
class HasSigns (α : Type) [Scalar α] : Prop where
  sign_cases : ∀ {x : α}, isFinite x = true → x < 0 ∨ (x == 0) = true ∨ 0 < x
  not_lt_of_pos : ∀ {x : α}, 0 < x → ¬ x < 0
  not_lt_of_zero : ∀ {x : α}, (x == 0) = true → ¬ x < 0
  not_pos_of_zero : ∀ {x : α}, (x == 0) = true → ¬ 0 < x
  zero_le_iff : ∀ {x : α}, 0 ≤ x ↔ (x == 0) = true ∨ 0 < x
  mul_of_opposite : ∀ {x y : α}, OppositeSigns x y → (x * y == 0) = true ∨ x * y < 0
  mul_of_same : ∀ {x y : α}, SameSign x y → (x * y == 0) = true ∨ 0 < x * y

variable [HasSigns α]

theorem OppositeSigns.not_same (h : OppositeSigns x y) : ¬ SameSign x y := by
  rcases h with ⟨hx, hy⟩ | ⟨hx, hy⟩
  · rintro (⟨-, hy'⟩ | ⟨hx', -⟩)
    · exact HasSigns.not_lt_of_pos hy hy'
    · exact HasSigns.not_lt_of_pos hx' hx
  · rintro (⟨hx', -⟩ | ⟨-, hy'⟩)
    · exact HasSigns.not_lt_of_pos hx hx'
    · exact HasSigns.not_lt_of_pos hy' hy

omit [HasSigns α] in
/-- A number between two of opposite signs has the sign of one of them. -/
theorem OppositeSigns.split (h : OppositeSigns x z) (hy : y < 0 ∨ 0 < y) :
    OppositeSigns x y ∧ SameSign y z ∨ SameSign x y ∧ OppositeSigns y z := by
  rcases h with ⟨hx, hz⟩ | ⟨hx, hz⟩
  · rcases hy with hy | hy
    · exact .inr ⟨.inl ⟨hx, hy⟩, .inl ⟨hy, hz⟩⟩
    · exact .inl ⟨.inl ⟨hx, hy⟩, .inr ⟨hy, hz⟩⟩
  · rcases hy with hy | hy
    · exact .inl ⟨.inr ⟨hx, hy⟩, .inl ⟨hy, hz⟩⟩
    · exact .inr ⟨.inr ⟨hx, hy⟩, .inr ⟨hy, hz⟩⟩

/-- A product that does not vanish tells whether the signs are opposite. -/
theorem mul_neg_iff (h : OppositeSigns x y ∨ SameSign x y) :
    x * y < 0 ↔ OppositeSigns x y ∧ (x * y == 0) = false := by
  constructor
  · intro hneg
    have hne : (x * y == 0) = false :=
      Bool.eq_false_iff.2 fun h0 => HasSigns.not_lt_of_zero h0 hneg
    refine ⟨h.resolve_right fun hsame => ?_, hne⟩
    rcases HasSigns.mul_of_same hsame with h0 | hpos
    · exact HasSigns.not_lt_of_zero h0 hneg
    · exact HasSigns.not_lt_of_pos hpos hneg
  · rintro ⟨hopposite, hne⟩
    exact (HasSigns.mul_of_opposite hopposite).resolve_left (Bool.eq_false_iff.1 hne)

theorem mul_pos_iff (h : OppositeSigns x y ∨ SameSign x y) :
    0 < x * y ↔ SameSign x y ∧ (x * y == 0) = false := by
  constructor
  · intro hpos
    have hne : (x * y == 0) = false :=
      Bool.eq_false_iff.2 fun h0 => HasSigns.not_pos_of_zero h0 hpos
    refine ⟨h.resolve_left fun hopposite => ?_, hne⟩
    rcases HasSigns.mul_of_opposite hopposite with h0 | hneg
    · exact HasSigns.not_pos_of_zero h0 hpos
    · exact HasSigns.not_lt_of_pos hpos hneg
  · rintro ⟨hsame, hne⟩
    exact (HasSigns.mul_of_same hsame).resolve_left (Bool.eq_false_iff.1 hne)

theorem zero_le_mul_iff (h : OppositeSigns x y) : 0 ≤ x * y ↔ (x * y == 0) = true := by
  rw [HasSigns.zero_le_iff, mul_pos_iff (.inl h)]
  constructor
  · rintro (h0 | ⟨hsame, -⟩)
    · exact h0
    · exact absurd hsame h.not_same
  · exact .inl

end Scalar

section Exact

variable {K : Type} [Field K] [LinearOrder K] [IsStrictOrderedRing K] [ExactScalar K]

instance : Scalar.HasSigns K where
  sign_cases _ := by
    rw [ExactScalar.beq_iff]
    exact lt_trichotomy _ _
  not_lt_of_pos h := h.not_gt
  not_lt_of_zero h := by
    rw [ExactScalar.beq_iff.1 h]
    exact lt_irrefl _
  not_pos_of_zero h := by
    rw [ExactScalar.beq_iff.1 h]
    exact lt_irrefl _
  zero_le_iff := by
    intro x
    rw [ExactScalar.beq_iff, le_iff_eq_or_lt, eq_comm]
  mul_of_opposite := by
    rintro x y (⟨hx, hy⟩ | ⟨hx, hy⟩)
    · exact .inr (mul_neg_of_neg_of_pos hx hy)
    · exact .inr (mul_neg_of_pos_of_neg hx hy)
  mul_of_same := by
    rintro x y (⟨hx, hy⟩ | ⟨hx, hy⟩)
    · exact .inr (mul_pos_of_neg_of_neg hx hy)
    · exact .inr (mul_pos hx hy)

end Exact

namespace Binary64

open Float.Model Float.Model.UnpackedFloat

/-- The side of zero on which a number lies. -/
def side : UnpackedFloat → Option Sign
  | .notANumber => none
  | .zero _ => none
  | .infinity s => some s
  | .finite s _ _ _ => some s

/-- The comparisons with zero look at the side only. -/
theorem compare_zero_iff (f : UnpackedFloat) :
    (f.lt (.zero .positive) = true ↔ side f = some .negative) ∧
      ((UnpackedFloat.zero .positive).lt f = true ↔ side f = some .positive) ∧
        ((UnpackedFloat.zero .positive).le f = true ↔
          (∃ s, f = .zero s) ∨ side f = some .positive) := by
  rcases f with s | _ | s | ⟨s, m, e, hm⟩ <;> (try cases s) <;>
    simp [UnpackedFloat.lt, UnpackedFloat.le, UnpackedFloat.compare, side]

theorem neg_iff_side {v : Float} : v < 0 ↔ side v.toModel.unpack = some .negative := by
  rw [lt_iff_unpack]
  exact (compare_zero_iff _).1

theorem pos_iff_side {v : Float} : 0 < v ↔ side v.toModel.unpack = some .positive := by
  rw [lt_iff_unpack]
  exact (compare_zero_iff _).2.1

theorem zero_le_iff {v : Float} : 0 ≤ v ↔ (v == 0) = true ∨ 0 < v := by
  rw [← isZero_iff_beq, isZero_iff_unpack, pos_iff_side, le_iff_unpack]
  exact (compare_zero_iff _).2.2

theorem unpackSign_pack (s : Sign) (m : ℕ) (e : ℤ) (hm : 0 < m) :
    Sign.ofBitVec (unpackSign (UnpackedFloat.pack Format.binary64 (.finite s m e hm))) = s := by
  have hpack : unpackSign (UnpackedFloat.pack Format.binary64 (.finite s m e hm)) = s.toBitVec := by
    unfold UnpackedFloat.pack
    dsimp only
    split
    · exact unpackSign_packComponents _ _ _
    · split <;> exact unpackSign_packComponents _ _ _
  rw [hpack, sign_ofBitVec_toBitVec]

/-- A number that is defined is a zero or lies on the side that its sign bit says. -/
theorem side_unpack {b : BitVec Format.binary64.numBits}
    (h : (UnpackedFloat.unpack Format.binary64 b).isNaN = false) :
    (∃ s, UnpackedFloat.unpack Format.binary64 b = .zero s) ∨
      side (UnpackedFloat.unpack Format.binary64 b) = some (Sign.ofBitVec (unpackSign b)) := by
  revert h
  unfold UnpackedFloat.unpack
  dsimp only
  split
  · split
    · exact fun _ => .inr rfl
    · nofun
  · split
    · split
      · exact fun _ => .inl ⟨_, rfl⟩
      · exact fun _ => .inr rfl
    · exact fun _ => .inr rfl

/-- A number that is packed becomes a zero or keeps its side. -/
theorem side_pack {f : UnpackedFloat} {s : Sign} (h : side f = some s) :
    (∃ t, (Float.Model.pack f).unpack = .zero t) ∨ side (Float.Model.pack f).unpack = some s := by
  cases f with
  | notANumber => cases h
  | zero t => cases h
  | infinity t =>
    cases h
    cases s <;> exact .inr rfl
  | finite t m e hm =>
    cases h
    have hside := side_unpack (isNaN_pack (f := .finite s m e hm) rfl)
    change _ ∨ side _ = some (Sign.ofBitVec
      (unpackSign (UnpackedFloat.pack Format.binary64 (.finite s m e hm)))) at hside
    rwa [unpackSign_pack] at hside

theorem side_mul {f g : UnpackedFloat} {s t : Sign} (hf : side f = some s) (hg : side g = some t) :
    (∃ u, mul .binary64 f g = .zero u) ∨ side (mul .binary64 f g) = some (s * t) := by
  cases f with
  | notANumber => cases hf
  | zero _ => cases hf
  | infinity s =>
    cases hf
    cases g with
    | notANumber => cases hg
    | zero _ => cases hg
    | infinity t =>
      cases hg
      exact .inr rfl
    | finite t n k hn =>
      cases hg
      exact .inr rfl
  | finite s m e hm =>
    cases hf
    cases g with
    | notANumber => cases hg
    | zero _ => cases hg
    | infinity t =>
      cases hg
      exact .inr rfl
    | finite t n k hn =>
      cases hg
      change (∃ u, roundWithAccuracy _ _ _ _ _ = _) ∨ side (roundWithAccuracy _ _ _ _ _) = _
      unfold roundWithAccuracy
      dsimp only
      split
      · exact .inl ⟨_, rfl⟩
      · exact .inr rfl

/-- A product of two numbers on given sides vanishes or lies on the side that the rule of
    signs says. -/
theorem isZero_or_side_mul {v w : Float} {s t : Sign} (hv : side v.toModel.unpack = some s)
    (hw : side w.toModel.unpack = some t) :
    (v * w == 0) = true ∨ side (v * w).toModel.unpack = some (s * t) := by
  rw [← isZero_iff_beq, isZero_iff_unpack]
  change (∃ u, (Float.Model.pack (mul .binary64 v.toModel.unpack w.toModel.unpack)).unpack =
      .zero u) ∨
    side (Float.Model.pack (mul .binary64 v.toModel.unpack w.toModel.unpack)).unpack = _
  rcases side_mul hv hw with ⟨u, hzero⟩ | hside
  · rw [hzero]
    cases u <;> exact .inl ⟨_, rfl⟩
  · exact side_pack hside

theorem not_pos_of_isZero {v : Float} (h : IsZero v) : ¬ 0 < v := by
  rcases h with rfl | rfl <;> decide +kernel

theorem hasSigns (lib : Library) : @Scalar.HasSigns Float (withLibrary lib) := by
  let _ := withLibrary lib
  constructor
  case sign_cases =>
    intro v h
    rw [← isZero_iff_beq]
    exact sign_cases h
  case not_lt_of_pos => exact not_lt_of_pos
  case not_lt_of_zero => exact fun h => not_lt_of_isZero (isZero_iff_beq.2 h)
  case not_pos_of_zero => exact fun h => not_pos_of_isZero (isZero_iff_beq.2 h)
  case zero_le_iff => exact zero_le_iff
  case mul_of_opposite =>
    intro v w h
    rw [neg_iff_side]
    rcases h with ⟨hv, hw⟩ | ⟨hv, hw⟩
    · exact isZero_or_side_mul (neg_iff_side.1 hv) (pos_iff_side.1 hw)
    · exact isZero_or_side_mul (pos_iff_side.1 hv) (neg_iff_side.1 hw)
  case mul_of_same =>
    intro v w h
    rw [pos_iff_side]
    rcases h with ⟨hv, hw⟩ | ⟨hv, hw⟩
    · exact isZero_or_side_mul (neg_iff_side.1 hv) (neg_iff_side.1 hw)
    · exact isZero_or_side_mul (pos_iff_side.1 hv) (pos_iff_side.1 hw)

end Binary64

end NumericMethods
