/-
  NumericMethods/Proofs/Scalar/Overflow.lean
  ==========================================
  **Infinite and undefined numbers do not disappear in sums and products.**

  An arithmetic that overflows has two kinds of numbers that are not finite: infinite ones,
  which compare, and undefined ones, which do not.  The laws of `Scalar.IsOverflowing` say
  how they spread: a finite sum, difference or product has finite operands, only what is
  undefined or infinite makes a difference undefined, and nothing lies above the magnitude
  of an infinite number.  Binary floating point arithmetic has these laws, whatever scale it
  balances rows by (`Binary64.isOverflowing`).

  An infinite member makes the largest magnitude of a list infinite; an undefined one is
  passed over (`Scalar.isTop_largestMagnitude`).
-/
import Mathlib
import NumericMethods.Proofs.Scalar.Binary64

namespace NumericMethods

namespace Scalar

variable {α : Type} [Scalar α]

/-- Defined and below no other number. -/
structure IsTop (x : α) : Prop where
  isDefined : isUndefined x = false
  not_lt : ∀ y, ¬ x < y

/-- How numbers that are not finite spread. -/
class IsOverflowing (α : Type) [Scalar α] : Prop where
  isFinite_of_add : ∀ {x y : α}, isFinite (x + y) = true → isFinite x = true ∧ isFinite y = true
  isFinite_of_sub : ∀ {x y : α}, isFinite (x - y) = true → isFinite x = true ∧ isFinite y = true
  isFinite_of_mul : ∀ {x y : α}, isFinite (x * y) = true → isFinite x = true ∧ isFinite y = true
  isDefined_sub : ∀ {x y : α}, isFinite x = true → isFinite y = true → isUndefined (x - y) = false
  isDefined_of_sub : ∀ {x y : α}, isUndefined (x - y) = false → isUndefined x = false
  isTop_abs : ∀ {x : α}, isFinite x = false → isUndefined x = false → IsTop (abs x)
  isTop_of_not_lt : ∀ {x y : α}, isUndefined x = false → IsTop y → ¬ x < y → IsTop x
  not_div_lt : ∀ {x y : α}, IsTop x → IsTop y → ∀ z, ¬ x / y < z

/-! ### Sums and largest magnitudes -/

theorem IsTop.larger_left {x : α} (hx : IsTop x) (y : α) : larger x y = x := by
  rw [larger, hx.isDefined, if_neg Bool.false_ne_true, if_neg (hx.not_lt y), ite_self]

variable [IsOverflowing α] {x : α} {xs : List α}

theorem isFinite_of_foldl {sum : α} (h : isFinite (xs.foldl (fun sum x => x + sum) sum) = true) :
    ∀ x ∈ sum :: xs, isFinite x = true := by
  induction xs generalizing sum with
  | nil => simpa using h
  | cons y ys ih =>
    have hall := ih h
    rw [List.forall_mem_cons] at hall ⊢
    obtain ⟨hy, hsum⟩ := IsOverflowing.isFinite_of_add hall.1
    exact ⟨hsum, List.forall_mem_cons.2 ⟨hy, hall.2⟩⟩

theorem isFinite_of_accumulated (h : isFinite (accumulated xs) = true) :
    ∀ x ∈ xs, isFinite x = true := by
  cases xs with
  | nil => exact nofun
  | cons y ys => exact isFinite_of_foldl h

theorem IsTop.larger_right {y : α} (hx : IsTop x) : IsTop (larger y x) := by
  rw [larger]
  split
  · exact hx
  rename_i hy
  rw [hx.isDefined, if_neg Bool.false_ne_true]
  split
  · exact hx
  · exact IsOverflowing.isTop_of_not_lt (Bool.eq_false_iff.2 hy) hx ‹_›

omit [IsOverflowing α] in
theorem IsTop.foldl_larger (hx : IsTop x) (ys : List α) :
    IsTop (ys.foldl (fun m y => larger m (abs y)) x) := by
  induction ys with
  | nil => exact hx
  | cons y ys ih => rwa [List.foldl_cons, hx.larger_left]

/-- One infinite member is enough. -/
theorem isTop_largestMagnitude (hx : x ∈ xs) (hinfinite : isFinite x = false)
    (hdefined : isUndefined x = false) : IsTop (largestMagnitude xs) := by
  obtain ⟨ys, zs, rfl⟩ := List.append_of_mem hx
  rw [largestMagnitude, List.foldl_append, List.foldl_cons]
  exact (IsOverflowing.isTop_abs hinfinite hdefined).larger_right.foldl_larger zs

end Scalar

/-! ### Binary floating point numbers -/

namespace Binary64

open Float.Model Float.Model.UnpackedFloat

/-- The floating point numbers with another scale that balances rows. -/
@[reducible] def withBalance (balance : Float → Float) : Scalar Float :=
  { (inferInstance : Scalar Float) with balance := balance }

theorem withBalance_balance : withBalance balance = (inferInstance : Scalar Float) := rfl

theorem isFinite_of_pack {f : UnpackedFloat} (h : (Float.Model.pack f).unpack.isFinite = true) :
    f.isFinite = true := by
  cases f with
  | notANumber => cases h
  | infinity s => cases s <;> cases h
  | zero s => rfl
  | finite s m e hm => rfl

theorem isNaN_unpack {b : BitVec Format.binary64.numBits}
    (h : unpackExponent b = -1#_ → unpackMantissa b = 0#_) :
    (UnpackedFloat.unpack Format.binary64 b).isNaN = false := by
  unfold UnpackedFloat.unpack
  dsimp only
  split
  · rw [if_pos (h ‹_›)]
    rfl
  · split
    · split <;> rfl
    · rfl

/-- Packing does not make a number undefined. -/
theorem isNaN_pack {f : UnpackedFloat} (h : f.isNaN = false) :
    (Float.Model.pack f).unpack.isNaN = false := by
  cases f with
  | notANumber => cases h
  | infinity s => cases s <;> rfl
  | zero s => cases s <;> rfl
  | finite s m e hm =>
    change (UnpackedFloat.unpack Format.binary64
      (UnpackedFloat.pack Format.binary64 (.finite s m e hm))).isNaN = false
    apply isNaN_unpack
    unfold UnpackedFloat.pack
    dsimp only
    split
    · intro _
      exact unpackMantissa_packComponents
    · intro hexponent
      exfalso
      revert hexponent
      split
      · rw [unpackExponent_packComponents]
        intro hexponent
        have hfield := congrArg BitVec.toNat hexponent
        rw [BitVec.toNat_ofNat] at hfield
        change _ % 2 ^ 11 = 2047 at hfield
        omega
      · rw [unpackExponent_packComponents]
        decide

theorem beq_self_eq (f : UnpackedFloat) : f.beq f = !f.isNaN := by
  cases f with
  | notANumber => rfl
  | infinity s => cases s <;> rfl
  | zero s => rfl
  | finite s m e hm => exact (SameUnpacked.refl _).beq rfl

theorem eq_of_isFinite_eq_false {f : UnpackedFloat} (h : f.isFinite = false) :
    f = .notANumber ∨ ∃ s, f = .infinity s := by
  cases f with
  | notANumber => exact .inl rfl
  | infinity s => exact .inr ⟨s, rfl⟩
  | zero s => cases h
  | finite s m e hm => cases h

/-! A result is not finite if the left operand, or the right one, is not. -/

theorem isFinite_left (g : UnpackedFloat) {f : UnpackedFloat} (hf : f.isFinite = false) :
    (add .binary64 f g).isFinite = false ∧ (sub .binary64 f g).isFinite = false ∧
      (mul .binary64 f g).isFinite = false := by
  obtain rfl | ⟨s, rfl⟩ := eq_of_isFinite_eq_false hf
  · exact ⟨rfl, rfl, rfl⟩
  · cases g with
    | infinity t => cases s <;> cases t <;> exact ⟨rfl, rfl, rfl⟩
    | _ => exact ⟨rfl, rfl, rfl⟩

theorem isFinite_right (f : UnpackedFloat) {g : UnpackedFloat} (hg : g.isFinite = false) :
    (add .binary64 f g).isFinite = false ∧ (sub .binary64 f g).isFinite = false ∧
      (mul .binary64 f g).isFinite = false := by
  obtain rfl | ⟨t, rfl⟩ := eq_of_isFinite_eq_false hg
  · cases f <;> exact ⟨rfl, rfl, rfl⟩
  · cases f with
    | infinity s => cases s <;> cases t <;> exact ⟨rfl, rfl, rfl⟩
    | _ => exact ⟨rfl, rfl, rfl⟩

theorem isFinite_of_operation {op : UnpackedFloat → UnpackedFloat → UnpackedFloat}
    (hleft : ∀ f g, f.isFinite = false → (op f g).isFinite = false)
    (hright : ∀ f g, g.isFinite = false → (op f g).isFinite = false) {v w : Float}
    (h : (Float.Model.pack (op v.toModel.unpack w.toModel.unpack)).unpack.isFinite = true) :
    v.isFinite = true ∧ w.isFinite = true := by
  have hop := isFinite_of_pack h
  constructor
  · by_contra hv
    rw [hleft _ _ (Bool.eq_false_iff.2 hv)] at hop
    cases hop
  · by_contra hw
    rw [hright _ _ (Bool.eq_false_iff.2 hw)] at hop
    cases hop

theorem isNaN_roundWithAccuracy (spec : Format) (s : Sign) (m : ℕ) (e : ℤ) (acc : Accuracy) :
    (roundWithAccuracy spec s m e acc).isNaN = false := by
  unfold roundWithAccuracy
  dsimp only
  split <;> rfl

theorem isNaN_normalize (spec : Format) (m e : ℤ) (s : Sign) :
    (UnpackedFloat.normalize spec m e s).isNaN = false := by
  unfold UnpackedFloat.normalize
  split
  · exact isNaN_roundWithAccuracy _ _ _ _ _
  · rfl
  · exact isNaN_roundWithAccuracy _ _ _ _ _

/-- A product of finite numbers may be infinite and is not undefined. -/
theorem isNaN_mul {f g : UnpackedFloat} (hf : f.isFinite = true) (hg : g.isFinite = true) :
    (mul .binary64 f g).isNaN = false := by
  cases f with
  | notANumber => cases hf
  | infinity s => cases hf
  | zero s =>
    cases g with
    | notANumber => cases hg
    | infinity t => cases hg
    | _ => rfl
  | finite s m e hm =>
    cases g with
    | notANumber => cases hg
    | infinity t => cases hg
    | zero t => rfl
    | finite t n k hn => exact isNaN_roundWithAccuracy _ _ _ _ _

/-- A finite number that is subtracted makes nothing undefined. -/
theorem isNaN_sub {f g : UnpackedFloat} (hf : f.isNaN = false) (hg : g.isFinite = true) :
    (sub .binary64 f g).isNaN = false := by
  cases f with
  | notANumber => cases hf
  | infinity s =>
    cases g with
    | notANumber => cases hg
    | infinity t => cases hg
    | _ => rfl
  | zero s =>
    cases g with
    | notANumber => cases hg
    | infinity t => cases hg
    | zero t => cases s <;> cases t <;> rfl
    | finite t n k hn => rfl
  | finite s m e hm =>
    cases g with
    | notANumber => cases hg
    | infinity t => cases hg
    | zero t => rfl
    | finite t n k hn => exact isNaN_normalize _ _ _ _

theorem eq_infinity_of_not_lt {f : UnpackedFloat} (hdefined : f.isNaN = false)
    (h : ¬ f.lt (.infinity .positive) = true) : f = .infinity .positive := by
  cases f with
  | notANumber => cases hdefined
  | infinity s =>
    cases s with
    | positive => rfl
    | negative => exact absurd rfl h
  | zero s => exact absurd rfl h
  | finite s m e hm => exact absurd rfl h

section Laws

variable {balance : Float → Float} {v w : Float}

theorem isUndefined_eq :
    @Scalar.isUndefined Float (withBalance balance) v = v.toModel.unpack.isNaN := by
  change (!v.toModel.unpack.beq v.toModel.unpack) = _
  rw [beq_self_eq, Bool.not_not]

/-- The one number that is above all others. -/
theorem isTop_iff :
    @Scalar.IsTop Float (withBalance balance) v ↔ v.toModel.unpack = .infinity .positive := by
  let _ := withBalance balance
  constructor
  · intro h
    have hdefined := h.isDefined
    rw [isUndefined_eq] at hdefined
    refine eq_infinity_of_not_lt hdefined fun hlt => ?_
    exact h.not_lt (.ofModel (Float.Model.pack (.infinity .positive))) (lt_iff_unpack.2 hlt)
  · intro h
    constructor
    · rw [isUndefined_eq, h]
      rfl
    · intro w hlt
      have hlt' := lt_iff_unpack.1 hlt
      rw [h] at hlt'
      cases hw : w.toModel.unpack with
      | infinity s =>
        rw [hw] at hlt'
        cases s <;> cases hlt'
      | _ =>
        rw [hw] at hlt'
        cases hlt'

theorem isNaN_of_isNaN_sub (h : (v - w).toModel.unpack.isNaN = false) :
    v.toModel.unpack.isNaN = false := by
  have hsub (g : UnpackedFloat) : sub .binary64 .notANumber g = .notANumber := by
    cases g <;> rfl
  cases hv : v.toModel.unpack with
  | notANumber =>
    change (Float.Model.pack (sub .binary64 v.toModel.unpack w.toModel.unpack)).unpack.isNaN =
      false at h
    rw [hv, hsub] at h
    cases h
  | _ => rfl

theorem isNaN_sub_eq (hw : w.isFinite = true) :
    (v - w).toModel.unpack.isNaN = v.toModel.unpack.isNaN := by
  cases hv : v.toModel.unpack.isNaN with
  | false => exact isNaN_pack (isNaN_sub hv hw)
  | true =>
    by_contra hne
    rw [isNaN_of_isNaN_sub (Bool.eq_false_iff.2 hne)] at hv
    cases hv

theorem unpack_abs (hfinite : v.isFinite = false) (hdefined : v.toModel.unpack.isNaN = false) :
    v.abs.toModel.unpack = .infinity .positive := by
  change (Float.Model.pack v.toModel.unpack.abs).unpack = _
  obtain hv | ⟨s, hv⟩ := eq_of_isFinite_eq_false hfinite
  · rw [hv] at hdefined
    cases hdefined
  · rw [hv]
    cases s <;> rfl

theorem unpack_div (hv : v.toModel.unpack = .infinity .positive)
    (hw : w.toModel.unpack = .infinity .positive) : (v / w).toModel.unpack = .notANumber := by
  change (Float.Model.pack (div .binary64 v.toModel.unpack w.toModel.unpack)).unpack = _
  rw [hv, hw]
  rfl

/-- Binary floating point arithmetic overflows, whatever scale rows are balanced by. -/
theorem isOverflowing (balance : Float → Float) :
    @Scalar.IsOverflowing Float (withBalance balance) := by
  let _ := withBalance balance
  constructor
  case isFinite_of_add =>
    exact fun h => isFinite_of_operation (fun _ g hf => (isFinite_left g hf).1)
      (fun f _ hg => (isFinite_right f hg).1) h
  case isFinite_of_sub =>
    exact fun h => isFinite_of_operation (fun _ g hf => (isFinite_left g hf).2.1)
      (fun f _ hg => (isFinite_right f hg).2.1) h
  case isFinite_of_mul =>
    exact fun h => isFinite_of_operation (fun _ g hf => (isFinite_left g hf).2.2)
      (fun f _ hg => (isFinite_right f hg).2.2) h
  case isDefined_sub =>
    intro v w hv hw
    rw [isUndefined_eq]
    exact isNaN_pack (isNaN_sub (isNaN_of_isFinite hv) hw)
  case isDefined_of_sub =>
    intro v w h
    rw [isUndefined_eq] at h ⊢
    exact isNaN_of_isNaN_sub h
  case isTop_abs =>
    intro v hfinite hdefined
    rw [isUndefined_eq] at hdefined
    exact isTop_iff.2 (unpack_abs hfinite hdefined)
  case isTop_of_not_lt =>
    intro v w hdefined hw hlt
    rw [isUndefined_eq] at hdefined
    refine isTop_iff.2 (eq_infinity_of_not_lt hdefined fun hlt' => hlt (lt_iff_unpack.2 ?_))
    rwa [isTop_iff.1 hw]
  case not_div_lt =>
    intro v w hv hw z hlt
    have hlt' := lt_iff_unpack.1 hlt
    rw [unpack_div (isTop_iff.1 hv) (isTop_iff.1 hw)] at hlt'
    cases hlt'

end Laws

end Binary64

end NumericMethods
