/-
  NumericMethods/Proofs/Scalar/Equality.lean
  ==========================================
  **Which floating point numbers compare as equal.**

  A number that is defined is the packed form of what it unpacks to (`pack_unpack`), so it
  is determined by its place in the order, the zeros apart, which share one.  So two numbers
  compare as equal if they are the same number or both zeros, and defined (`beq_iff_same`).

  In the total order of all numbers, the two zeros follow each other.  So a number between
  two equal ones is one of them (`beq_of_between`).
-/
import Mathlib
import NumericMethods.Proofs.Scalar.Finiteness
import NumericMethods.Proofs.Scalar.Largest
import NumericMethods.Proofs.Scalar.TotalOrder

namespace NumericMethods.Binary64

open Float.Model Float.Model.UnpackedFloat

variable {v w u : Float} {f g : UnpackedFloat} {p : ℤ ×ₗ ℤ ×ₗ ℤ}

/-! ### Packed numbers -/

/-- An undefined number may have other bits than the one that its unpacked form is packed
    to. -/
theorem pack_unpack (h : v.isNaN = false) :
    Float.ofModel (Float.Model.pack v.toModel.unpack) = v := by
  have hnan : v.toModel.unpack.isNaN = false := h
  cases hv : v.toModel.unpack with
  | notANumber =>
    rw [hv] at hnan
    cases hnan
  | infinity s =>
    -- the sign of an infinite number shows in its comparison with zero
    rcases eq_infinity_or_of_unpack hv with rfl | rfl
    · cases s with
      | positive => decide +kernel
      | negative => exact absurd (neg_iff_side.2 (congrArg side hv)) (by decide +kernel)
    · cases s with
      | positive => exact absurd (pos_iff_side.2 (congrArg side hv)) (by decide +kernel)
      | negative => decide +kernel
  | zero s =>
    rcases eq_zero_or_of_unpack hv with rfl | rfl
    · cases hv
      rfl
    · cases hv
      rfl
  | finite s m e hm =>
    have hfinite : v.isFinite = true := by
      change v.toModel.unpack.isFinite = true
      rw [hv]
      rfl
    have hzero : ¬ IsZero v := by
      intro hzero
      obtain ⟨t, ht⟩ := isZero_iff_unpack.1 hzero
      rw [hv] at ht
      cases ht
    have hx := isBinary64_magnitude hfinite hzero
    rw [← hv, unpack_of_isFinite hfinite hx]
    exact (eq_ofParts hfinite hx).symm

/-! ### Places in the order -/

theorem beq_iff_position :
    f.beq g = true ↔ ∃ p, position f = some p ∧ position g = some p := by
  have hsame (s : Sign) : compare s s = .eq := by cases s <;> rfl
  have hsigns : compare Sign.negative Sign.positive = .lt := rfl
  have hsigns' : compare Sign.positive Sign.negative = .gt := rfl
  rcases f with s | _ | s | ⟨s, m, e, hm⟩ <;> rcases g with t | _ | t | ⟨t, n, k, hn⟩ <;>
    (try cases s) <;> (try cases t) <;>
    simp [UnpackedFloat.beq, UnpackedFloat.compare, position, Sign.apply, hsame, hsigns, hsigns'] <;>
    omega

/-- Only the zeros share a place. -/
theorem sameUnpacked_of_position (hf : position f = some p) (hg : position g = some p) :
    SameUnpacked f g := by
  rw [← hg] at hf
  rcases f with s | _ | s | ⟨s, m, e, hm⟩ <;> rcases g with t | _ | t | ⟨t, n, k, hn⟩ <;>
    (try cases s) <;> (try cases t) <;> simp [position, Sign.apply] at hf <;>
    first | exact .zero _ _ | (obtain ⟨rfl, rfl⟩ := hf; exact .refl _)

theorem beq_iff_same : (v == w) = true ↔ Same v w ∧ v.isNaN = false := by
  have hbeq : (v == w) = v.toModel.unpack.beq w.toModel.unpack := rfl
  have hnan : v.isNaN = v.toModel.unpack.isNaN := rfl
  rw [hbeq, beq_iff_position]
  constructor
  · rintro ⟨p, hv, hw⟩
    have hdefined := isNaN_of_position hv
    have hsame := Same.of_unpack (sameUnpacked_of_position hv hw)
    rw [pack_unpack hdefined, pack_unpack (isNaN_of_position hw)] at hsame
    exact ⟨hsame, hdefined⟩
  · rintro ⟨hsame, hdefined⟩
    rw [← beq_iff_position, ← hbeq]
    rcases hsame with rfl | ⟨hv, hw⟩
    · rw [hbeq, beq_self_eq, ← hnan, hdefined]
      rfl
    · exact Same.beq (.inr ⟨hv, hw⟩) (isFinite_of_isZero hv)

theorem beq_comm (v w : Float) : (v == w) = (w == v) := by
  have hposition (v w : Float) : (v == w) = v.toModel.unpack.beq w.toModel.unpack := rfl
  rw [Bool.eq_iff_iff, hposition, hposition, beq_iff_position, beq_iff_position]
  exact exists_congr fun _ => and_comm

/-! ### Places in the total order -/

/-- The zeros are at two places that follow each other. -/
theorem isZero_iff_orderKey : IsZero v ↔ orderKey v = 2 ^ 63 ∨ orderKey v = 2 ^ 63 - 1 := by
  have hzero : orderKey 0 = 2 ^ 63 := by decide +kernel
  have hminus : orderKey (-0) = 2 ^ 63 - 1 := by decide +kernel
  rw [← hminus, ← hzero, orderKey_injective.eq_iff, orderKey_injective.eq_iff]
  exact Iff.rfl

/-- What is between two equal numbers in the total order equals them. -/
theorem beq_of_between (h : (v == u) = true) (hvw : orderKey v ≤ orderKey w)
    (hwu : orderKey w ≤ orderKey u) : (v == w) = true := by
  obtain ⟨hsame, hdefined⟩ := beq_iff_same.1 h
  refine beq_iff_same.2 ⟨?_, hdefined⟩
  rcases hsame with rfl | ⟨hv, hu⟩
  · exact .inl (orderKey_injective (le_antisymm hvw hwu))
  · have hw : IsZero w := by
      rw [isZero_iff_orderKey] at hv hu ⊢
      omega
    exact .inr ⟨hv, hw⟩

end NumericMethods.Binary64
