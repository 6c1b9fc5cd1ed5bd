/-
  NumericMethods/Proofs/Interpolation/PointCheck.lean
  ===================================================
  **The check of points is exact.**

  Equal abscissae are looked for among the neighbours of a list that is sorted by another
  order than the one in which they are equal: the sorting tells the two zeros apart and
  places undefined numbers, and the test for equality does neither.  The two relations fit
  together, since only equal numbers are between equal ones.  So a repeated abscissa is
  found wherever its two places are in the given list (`hasEqualNeighbours_sorted_iff`),
  and the outcome says which of the three conditions fails first
  (`check_reports_first_fault`).
-/
import Mathlib
import NumericMethods.Proofs.Interpolation.Points
import NumericMethods.Proofs.Scalar.Equality

namespace NumericMethods

instance : Scalar.HasTotalOrder Float where
  totalLe_trans := Scalar.HasTotalPreorder.totalLe_trans
  totalLe_total := Scalar.HasTotalPreorder.totalLe_total
  beq_comm := Binary64.beq_comm
  beq_of_between h hxy hyz :=
    Binary64.beq_of_between h (of_decide_eq_true hxy) (of_decide_eq_true hyz)

namespace Points

open Scalar (HasTotalOrder)

section Places

variable {α : Type} [Scalar α] {xs ys : List α} {least : ℕ}

/-- The order of the two places does not matter, since equality is symmetric. -/
theorem hasEqualNeighbours_sorted_iff [HasTotalOrder α] :
    hasEqualNeighbours (sorted xs) = true ↔
      ∃ i j : Fin xs.length, i ≠ j ∧ (xs.get i == xs.get j) = true := by
  rw [← Bool.not_eq_false, hasEqualNeighbours_sorted, List.pairwise_iff_get]
  constructor
  · intro h
    by_contra hnone
    exact h fun i j hij => Bool.eq_false_iff.2 fun hequal => hnone ⟨i, j, hij.ne, hequal⟩
  · rintro ⟨i, j, hne, hequal⟩ h
    rcases lt_or_gt_of_ne hne with hij | hji
    · rw [h i j hij] at hequal
      cases hequal
    · rw [HasTotalOrder.beq_comm, h j i hji] at hequal
      cases hequal

end Places

/-! ### Floating point numbers -/

/-- Two places hold the same number or both zeros, and no undefined number. -/
def HasRepetition (xs : List Float) : Prop :=
  ∃ i j : Fin xs.length, i ≠ j ∧ Binary64.Same (xs.get i) (xs.get j) ∧ (xs.get i).isNaN = false

theorem hasRepetition_iff {xs : List Float} :
    HasRepetition xs ↔ hasEqualNeighbours (sorted xs) = true := by
  rw [hasEqualNeighbours_sorted_iff]
  simp only [HasRepetition, Binary64.beq_iff_same]

/-- Points are admitted exactly if there are as many ordinates as abscissae, there are enough
    of them, and no abscissa is repeated; what is reported is the first of the three conditions
    that fails. -/
theorem check_reports_first_fault (xs ys : List Float) (least : ℕ) :
    (check xs ys least = .ok () ↔
        xs.length = ys.length ∧ least ≤ xs.length ∧ ¬ HasRepetition xs) ∧
      (check xs ys least = .error (.linear (.pointCount xs.length ys.length)) ↔
        xs.length ≠ ys.length) ∧
      (check xs ys least = .error (.invalid (.tooFewPoints least)) ↔
        xs.length = ys.length ∧ xs.length < least) ∧
      (check xs ys least = .error (.invalid .duplicateAbscissae) ↔
        xs.length = ys.length ∧ least ≤ xs.length ∧ HasRepetition xs) := by
  rw [hasRepetition_iff]
  rcases check_cases xs ys least with ⟨hlength, hcheck⟩ | ⟨hlength, hcount, hcheck⟩ |
      ⟨hlength, hcount, hequal, hcheck⟩ | ⟨hlength, hcount, hequal, hcheck⟩
  · simp [hcheck, hlength]
  · rw [hlength] at hcount ⊢
    simp [hcheck, hcount]
  · rw [hlength] at hcount ⊢
    simp [hcheck, hcount, hequal]
  · rw [hlength] at hcount ⊢
    simp [hcheck, hcount, hequal]

end Points

end NumericMethods
