/-
  NumericMethods/Proofs/Scalar/Largest.lean
  =========================================
  **The largest of numbers of which some may be undefined.**

  The larger of two numbers is the defined one if the other is undefined.  So the largest
  number of a list, found from the left with zero to begin with, is zero or a member of the
  list, it is defined, and it bounds exactly the members that are defined
  (`Scalar.isLargestDefined_foldl`).  A list of undefined numbers has the largest number
  zero.

  All that is asked of the numbers is that the defined ones are ordered linearly
  (`Scalar.OrdersDefined`).  In an ordered field every number is defined; binary floating
  point numbers have the laws whatever scale rows are balanced by
  (`Binary64.ordersDefined`).
-/
import Mathlib
import NumericMethods.Proofs.Scalar.Order
import NumericMethods.Proofs.Scalar.Sign

namespace NumericMethods

namespace Scalar

/-- The numbers that are defined are ordered linearly, and no other one compares.  Zero is
    defined, its own magnitude, and in the total order the least magnitude. -/
class OrdersDefined (α : Type) [Scalar α] : Prop where
  isDefined_zero : isUndefined (0 : α) = false
  abs_zero : abs (0 : α) = 0
  isUndefined_abs : ∀ x : α, isUndefined (abs x) = isUndefined x
  isDefined_of_le : ∀ {x y : α}, x ≤ y → isUndefined x = false
  le_refl : ∀ {x : α}, isUndefined x = false → x ≤ x
  le_trans : ∀ {x y z : α}, x ≤ y → y ≤ z → x ≤ z
  le_of_lt : ∀ {x y : α}, x < y → x ≤ y
  le_of_not_lt : ∀ {x y : α}, isUndefined x = false → isUndefined y = false → ¬ x < y → y ≤ x
  totalLe_abs : ∀ x : α, totalLe 0 (abs x) = true

variable {α : Type} [Scalar α] {m s x : α} {xs : List α}

/-- The largest of the members of a list that are defined, or zero in their place. -/
structure IsLargestDefined (s : α) (xs : List α) : Prop where
  isDefined : isUndefined s = false
  eq_zero_or_mem : s = 0 ∨ s ∈ xs
  zero_le : 0 ≤ s
  le_iff : ∀ x ∈ xs, x ≤ s ↔ isUndefined x = false

/-- Without a member that is defined there is only zero. -/
theorem IsLargestDefined.eq_zero (h : IsLargestDefined s xs)
    (hxs : ∀ x ∈ xs, isUndefined x = true) : s = 0 := by
  refine h.eq_zero_or_mem.resolve_right fun hmem => ?_
  have hdefined := h.isDefined
  rw [hxs s hmem] at hdefined
  cases hdefined

variable [OrdersDefined α]

theorem larger_cases (hm : isUndefined m = false) (x : α) :
    (larger m x = m ∨ larger m x = x ∧ isUndefined x = false) ∧ m ≤ larger m x ∧
      (x ≤ larger m x ↔ isUndefined x = false) := by
  rw [larger, hm, if_neg Bool.false_ne_true]
  cases hx : isUndefined x with
  | true =>
    rw [if_pos rfl]
    refine ⟨.inl rfl, OrdersDefined.le_refl hm, iff_of_false ?_ Bool.false_ne_true.symm⟩
    intro hle
    rw [OrdersDefined.isDefined_of_le hle] at hx
    cases hx
  | false =>
    rw [if_neg Bool.false_ne_true]
    split
    · rename_i hlt
      exact ⟨.inr ⟨rfl, rfl⟩, OrdersDefined.le_of_lt hlt,
        iff_of_true (OrdersDefined.le_refl hx) rfl⟩
    · rename_i hlt
      exact ⟨.inl rfl, OrdersDefined.le_refl hm,
        iff_of_true (OrdersDefined.le_of_not_lt hm hx hlt) rfl⟩

/-- The largest number so far stays, or gives way to a larger member of the list. -/
theorem foldl_larger (hm : isUndefined m = false) (xs : List α) :
    isUndefined (xs.foldl larger m) = false ∧
      (xs.foldl larger m = m ∨ xs.foldl larger m ∈ xs) ∧ m ≤ xs.foldl larger m ∧
      ∀ x ∈ xs, x ≤ xs.foldl larger m ↔ isUndefined x = false := by
  induction xs generalizing m with
  | nil => exact ⟨hm, .inl rfl, OrdersDefined.le_refl hm, nofun⟩
  | cons x xs ih =>
    obtain ⟨hcases, hm', hx⟩ := larger_cases hm x
    have hlarger : isUndefined (larger m x) = false := by
      rcases hcases with h | ⟨h, hdefined⟩ <;> rw [h] <;> assumption
    obtain ⟨hdefined, hmem, hle, hrest⟩ := ih hlarger
    rw [List.foldl_cons, List.forall_mem_cons]
    refine ⟨hdefined, ?_, OrdersDefined.le_trans hm' hle, ?_, hrest⟩
    · rcases hmem with h | h
      · rw [h]
        rcases hcases with h' | ⟨h', -⟩
        · exact .inl h'
        · rw [h']
          exact .inr List.mem_cons_self
      · exact .inr (List.mem_cons_of_mem x h)
    · exact ⟨OrdersDefined.isDefined_of_le, fun h => OrdersDefined.le_trans (hx.2 h) hle⟩

theorem isLargestDefined_foldl (xs : List α) : IsLargestDefined (xs.foldl larger 0) xs := by
  obtain ⟨hdefined, hmem, hzero, hle⟩ := foldl_larger OrdersDefined.isDefined_zero xs
  exact ⟨hdefined, hmem, hzero, hle⟩

end Scalar

/-! ### Exact arithmetic -/

section Exact

variable {K : Type} [Field K] [LinearOrder K] [IsStrictOrderedRing K] [ExactScalar K]

instance : Scalar.OrdersDefined K where
  isDefined_zero := ExactScalar.isUndefined_eq 0
  abs_zero := abs_zero
  isUndefined_abs _ := by rw [ExactScalar.isUndefined_eq, ExactScalar.isUndefined_eq]
  isDefined_of_le _ := ExactScalar.isUndefined_eq _
  le_refl _ := le_refl _
  le_trans := le_trans
  le_of_lt := le_of_lt
  le_of_not_lt _ _ := le_of_not_gt
  totalLe_abs x := decide_eq_true (abs_nonneg x)

end Exact

/-! ### Binary floating point numbers -/

namespace Binary64

open Float.Model Float.Model.UnpackedFloat

variable {f g : UnpackedFloat} {p q : ℤ ×ₗ ℤ ×ₗ ℤ} {v : Float}

theorem exists_position (h : f.isNaN = false) : ∃ p, position f = some p := by
  cases f with
  | notANumber => cases h
  | _ => exact ⟨_, rfl⟩

theorem isNaN_of_position (h : position f = some p) : f.isNaN = false := by
  cases f with
  | notANumber => cases h
  | _ => rfl

theorem isNaN_abs (v : Float) : v.abs.toModel.unpack.isNaN = v.toModel.unpack.isNaN := by
  change (Float.Model.pack v.toModel.unpack.abs).unpack.isNaN = _
  cases hv : v.toModel.unpack with
  | notANumber => rfl
  | _ => exact isNaN_pack rfl

/-- A magnitude has no sign. -/
theorem signOf_abs (v : Float) : signOf v.abs = .positive := by
  change Sign.ofBitVec (unpackSign
    (UnpackedFloat.pack Format.binary64 v.toModel.unpack.abs)) = .positive
  cases v.toModel.unpack with
  | notANumber => rfl
  | infinity s => cases s <;> rfl
  | zero s => cases s <;> rfl
  | finite s m e hm => exact unpackSign_pack .positive m e hm

theorem abs_zero : Float.abs 0 = 0 := by decide +kernel

theorem orderKey_abs (v : Float) : orderKey 0 ≤ orderKey v.abs := by
  have hsign : ¬ isNegative v.abs = true := by
    rw [← signOf_eq_negative_iff, signOf_abs]
    nofun
  have hbits : ¬ Nat.pow 2 63 ≤ v.abs.toBits.toNat := by
    simpa [isNegative] using hsign
  have hzero : orderKey 0 = Nat.pow 2 63 := by decide +kernel
  rw [hzero, orderKey]
  simp only [if_neg hbits]
  exact Nat.le_add_right _ _

theorem ordersDefined (balance : Float → Float) :
    @Scalar.OrdersDefined Float (withBalance balance) := by
  let _ := withBalance balance
  have hundefined (v : Float) : Scalar.isUndefined v = v.toModel.unpack.isNaN := isUndefined_eq
  constructor
  case isDefined_zero =>
    rw [hundefined]
    exact congrArg UnpackedFloat.isNaN unpack_zero
  case abs_zero => exact abs_zero
  case isUndefined_abs =>
    intro v
    rw [hundefined, hundefined]
    exact isNaN_abs v
  case isDefined_of_le =>
    intro v w h
    obtain ⟨p, -, hp, -, -⟩ := (le_iff_position _ _).1 (le_iff_unpack.1 h)
    rw [hundefined, isNaN_of_position hp]
  case le_refl =>
    intro v h
    rw [hundefined] at h
    obtain ⟨p, hp⟩ := exists_position h
    exact le_iff_unpack.2 ((le_iff_position _ _).2 ⟨p, p, hp, hp, le_rfl⟩)
  case le_trans =>
    intro v w u h h'
    obtain ⟨p, q, hp, hq, hpq⟩ := (le_iff_position _ _).1 (le_iff_unpack.1 h)
    obtain ⟨q', r, hq', hr, hqr⟩ := (le_iff_position _ _).1 (le_iff_unpack.1 h')
    obtain rfl : q = q' := Option.some.inj (hq.symm.trans hq')
    exact le_iff_unpack.2 ((le_iff_position _ _).2 ⟨p, r, hp, hr, hpq.trans hqr⟩)
  case le_of_lt =>
    intro v w h
    obtain ⟨p, q, hp, hq, hpq⟩ := (lt_iff_position _ _).1 (lt_iff_unpack.1 h)
    exact le_iff_unpack.2 ((le_iff_position _ _).2 ⟨p, q, hp, hq, hpq.le⟩)
  case le_of_not_lt =>
    intro v w hv hw h
    rw [hundefined] at hv hw
    obtain ⟨p, hp⟩ := exists_position hv
    obtain ⟨q, hq⟩ := exists_position hw
    refine le_iff_unpack.2 ((le_iff_position _ _).2 ⟨q, p, hq, hp, ?_⟩)
    by_contra hqp
    exact h (lt_iff_unpack.2 ((lt_iff_position _ _).2 ⟨p, q, hp, hq, not_le.1 hqp⟩))
  case totalLe_abs => exact fun v => decide_eq_true (orderKey_abs v)

end Binary64

end NumericMethods
