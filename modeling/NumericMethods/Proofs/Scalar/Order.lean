/-
  NumericMethods/Proofs/Scalar/Order.lean
  =======================================
  **The one law of order that a tolerance needs.**

  What lies below a tolerance lies below every larger one (`Scalar.HasTransitiveOrder`).
  The law holds in every ordered field, and for binary floating point numbers, where an
  undefined number is neither below nor above any other: the comparisons of the remaining
  ones are those of a linear order, by the sign, then the exponent, then the significand
  (`Binary64.lt_iff_position`, `Binary64.le_iff_position`).
-/
import Mathlib
import NumericMethods.Proofs.Scalar.Binary64
import NumericMethods.Proofs.Scalar.Exact

namespace NumericMethods

/-- What is below a number is below the ones above it. -/
class Scalar.HasTransitiveOrder (α : Type) [Scalar α] : Prop where
  lt_of_lt_of_le : ∀ {x y z : α}, x < y → y ≤ z → x < z

instance {K : Type} [Field K] [LinearOrder K] [IsStrictOrderedRing K] [ExactScalar K] :
    Scalar.HasTransitiveOrder K := ⟨fun hxy hyz => hxy.trans_le hyz⟩

namespace Binary64

open Float.Model Float.Model.UnpackedFloat

/-- The place of a number in the order; an undefined one has none. -/
def position : UnpackedFloat → Option (ℤ ×ₗ ℤ ×ₗ ℤ)
  | .notANumber => none
  | .infinity s => some (toLex (s.apply 2, toLex (0, 0)))
  | .zero _ => some (toLex (0, toLex (0, 0)))
  | .finite s m e _ => some (toLex (s.apply 1, toLex (s.apply e, s.apply m)))

theorem then_eq_lt_iff {e k : ℤ} {m n : ℕ} :
    (compare e k).then (compare m n) = .lt ↔ e < k ∨ e = k ∧ m < n := by
  rw [Ordering.then_eq_lt, compare_lt_iff_lt, compare_eq_iff_eq, compare_lt_iff_lt]

theorem then_eq_gt_iff {e k : ℤ} {m n : ℕ} :
    (compare e k).then (compare m n) = .gt ↔ k < e ∨ e = k ∧ n < m := by
  rw [Ordering.then_eq_gt, compare_gt_iff_gt, compare_eq_iff_eq, compare_gt_iff_gt]

theorem then_isLE_iff {e k : ℤ} {m n : ℕ} :
    ((compare e k).then (compare m n)).isLE = true ↔ e < k ∨ e = k ∧ m ≤ n := by
  rw [Ordering.isLE_iff_ne_gt, then_eq_gt_iff]
  omega

theorem then_isGE_iff {e k : ℤ} {m n : ℕ} :
    ((compare e k).then (compare m n)).isGE = true ↔ k < e ∨ e = k ∧ n ≤ m := by
  rw [Ordering.isGE_iff_ne_lt, then_eq_lt_iff]
  omega

/-- Less means placed before. -/
theorem lt_iff_position (f g : UnpackedFloat) :
    f.lt g = true ↔ ∃ p q, position f = some p ∧ position g = some q ∧ p < q := by
  have hsigns : compare Sign.negative Sign.positive = .lt := rfl
  rcases f with s | _ | s | ⟨s, m, e, hm⟩ <;> rcases g with t | _ | t | ⟨t, n, k, hn⟩ <;>
    (try cases s) <;> (try cases t) <;>
    simp [UnpackedFloat.lt, UnpackedFloat.compare, position, Prod.Lex.toLex_lt_toLex, Sign.apply,
      then_eq_lt_iff, then_eq_gt_iff, hsigns]

theorem le_iff_position (f g : UnpackedFloat) :
    f.le g = true ↔ ∃ p q, position f = some p ∧ position g = some q ∧ p ≤ q := by
  have hsame (s : Sign) : compare s s = .eq := by cases s <;> rfl
  have hsigns : compare Sign.negative Sign.positive = .lt := rfl
  have hsigns' : compare Sign.positive Sign.negative = .gt := rfl
  rcases f with s | _ | s | ⟨s, m, e, hm⟩ <;> rcases g with t | _ | t | ⟨t, n, k, hn⟩ <;>
    (try cases s) <;> (try cases t) <;>
    simp [UnpackedFloat.le, UnpackedFloat.compare, position, Prod.Lex.toLex_le_toLex, Sign.apply,
      then_isLE_iff, then_isGE_iff, hsame, hsigns, hsigns']

theorem le_iff_unpack {v w : Float} :
    v ≤ w ↔ v.toModel.unpack.le w.toModel.unpack = true := by
  change decide (v.toModel.unpack.le w.toModel.unpack = true) = true ↔ _
  rw [decide_eq_true_eq]

theorem lt_asymm {v w : Float} (h : v < w) : ¬ w < v := by
  intro h'
  obtain ⟨p, q, hp, hq, hpq⟩ := (lt_iff_position _ _).1 (lt_iff_unpack.1 h)
  obtain ⟨q', p', hq', hp', hqp⟩ := (lt_iff_position _ _).1 (lt_iff_unpack.1 h')
  obtain rfl : p = p' := Option.some.inj (hp.symm.trans hp')
  obtain rfl : q = q' := Option.some.inj (hq.symm.trans hq')
  exact hpq.asymm hqp

instance : Scalar.HasTransitiveOrder Float where
  lt_of_lt_of_le {x y z} hxy hyz := by
    obtain ⟨p, q, hp, hq, hpq⟩ := (lt_iff_position _ _).1 (lt_iff_unpack.1 hxy)
    obtain ⟨q', r, hq', hr, hqr⟩ := (le_iff_position _ _).1 (le_iff_unpack.1 hyz)
    obtain rfl : q = q' := Option.some.inj (hq.symm.trans hq')
    exact lt_iff_unpack.2 ((lt_iff_position _ _).2 ⟨p, r, hp, hr, hpq.trans_le hqr⟩)

end Binary64

end NumericMethods
