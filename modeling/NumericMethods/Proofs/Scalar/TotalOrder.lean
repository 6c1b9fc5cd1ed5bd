/-
  NumericMethods/Proofs/Scalar/TotalOrder.lean
  ============================================
  **The total order in which numbers are sorted.**

  Beside the comparison `≤`, which leaves undefined numbers out, numbers have an order that
  places all of them.  Two laws of it are told apart here: it compares any two numbers and
  is transitive (`Scalar.HasTotalPreorder`), and no two numbers share a place in it
  (`Scalar.HasLinearOrder`).  With the second one a list has one sorted form only.

  Binary floating point numbers have both: their order is that of a natural number that
  is read off the bits, and different numbers have different ones
  (`Binary64.orderKey_injective`).
-/
import Mathlib
import NumericMethods.Proofs.Scalar.Binary64
import NumericMethods.Proofs.Scalar.Exact

namespace NumericMethods

/-- The total order compares any two numbers and is transitive. -/
class Scalar.HasTotalPreorder (α : Type) [Scalar α] : Prop where
  totalLe_trans : ∀ x y z : α, totalLe x y = true → totalLe y z = true → totalLe x z = true
  totalLe_total : ∀ x y : α, (totalLe x y || totalLe y x) = true

/-- Two numbers that are each before the other one are the same. -/
class Scalar.HasLinearOrder (α : Type) [Scalar α] : Prop extends Scalar.HasTotalPreorder α where
  totalLe_antisymm : ∀ {x y : α}, totalLe x y = true → totalLe y x = true → x = y

/-- Binary floating point numbers are ordered by a natural number, the undefined ones too. -/
instance : Scalar.HasTotalPreorder Float where
  totalLe_trans x y z hxy hyz := by
    have hxy : Binary64.orderKey x ≤ Binary64.orderKey y := of_decide_eq_true hxy
    have hyz : Binary64.orderKey y ≤ Binary64.orderKey z := of_decide_eq_true hyz
    exact decide_eq_true (hxy.trans hyz)
  totalLe_total x y := by
    rw [Bool.or_eq_true]
    rcases Nat.le_total (Binary64.orderKey x) (Binary64.orderKey y) with h | h
    · exact .inl (decide_eq_true h)
    · exact .inr (decide_eq_true h)

/-- The negative numbers are counted down from the middle, and the others up from it. -/
theorem Binary64.orderKey_injective : Function.Injective Binary64.orderKey := by
  intro x y h
  have hx : x.toBits.toNat < 2 ^ 64 := x.toBits.toNat_lt
  have hy : y.toBits.toNat < 2 ^ 64 := y.toBits.toNat_lt
  have hbits : x.toBits.toNat = y.toBits.toNat := by
    simp only [Binary64.orderKey, Nat.pow_eq] at h
    split at h <;> split at h <;> omega
  exact Binary64.eq_of_bitsOf_eq (BitVec.eq_of_toNat_eq hbits)

instance : Scalar.HasLinearOrder Float where
  totalLe_antisymm hxy hyx :=
    Binary64.orderKey_injective (le_antisymm (of_decide_eq_true hxy) (of_decide_eq_true hyx))

namespace ExactScalar

variable {K : Type} [Field K] [LinearOrder K] [IsStrictOrderedRing K] [ExactScalar K]

theorem totalLe_iff {x y : K} : Scalar.totalLe x y = true ↔ x ≤ y := decide_eq_true_iff

instance : Scalar.HasLinearOrder K where
  totalLe_trans x y z hxy hyz := totalLe_iff.2 ((totalLe_iff.1 hxy).trans (totalLe_iff.1 hyz))
  totalLe_total x y := by
    rw [Bool.or_eq_true, totalLe_iff, totalLe_iff]
    exact le_total x y
  totalLe_antisymm hxy hyx := le_antisymm (totalLe_iff.1 hxy) (totalLe_iff.1 hyx)

end ExactScalar

end NumericMethods
