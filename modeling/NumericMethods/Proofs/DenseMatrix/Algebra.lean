/-
  NumericMethods/Proofs/DenseMatrix/Algebra.lean
  ==============================================
  **Dense matrices as matrices of linear algebra.**

  A dense matrix is read as a function of row and column (`toMatrix`), and a vector as a
  function of its index (`coordinates`).  Over exact arithmetic the operations on dense
  matrices become those of matrix algebra under this reading; in particular both orders of
  summation that `DenseMatrix.mul` uses give the same product (`toMatrix_mul`).

  Both readings are injective, so that an equation between dense matrices may be proved as
  an equation of matrix algebra.
-/
import Mathlib
import NumericMethods.DenseMatrix
import NumericMethods.Proofs.Scalar.Exact

namespace NumericMethods.DenseMatrix

open Matrix

section Reading

variable {α : Type} {m n : ℕ}

/-- The entries as a function of row and column. -/
def toMatrix (A : DenseMatrix α m n) : Matrix (Fin m) (Fin n) α := Matrix.of A.entry

/-- The components as a function of the index. -/
def coordinates (v : Vector α n) : Fin n → α := v.get

@[simp] theorem toMatrix_apply (A : DenseMatrix α m n) (i : Fin m) (j : Fin n) :
    A.toMatrix i j = A.entry i j := rfl

@[simp] theorem coordinates_apply (v : Vector α n) (i : Fin n) : coordinates v i = v.get i := rfl

@[simp] theorem toMatrix_ofFn (f : Fin m → Fin n → α) : (ofFn f).toMatrix = Matrix.of f := by
  ext i j
  exact entry_ofFn f i j

@[simp] theorem coordinates_ofFn (f : Fin n → α) : coordinates (Vector.ofFn f) = f := by
  ext i
  simp

theorem coordinates_injective : Function.Injective (coordinates : Vector α n → Fin n → α) := by
  intro u v h
  apply Vector.ext
  intro i hi
  exact congrFun h ⟨i, hi⟩

theorem toMatrix_injective :
    Function.Injective (toMatrix : DenseMatrix α m n → Matrix (Fin m) (Fin n) α) := by
  intro A B h
  apply Vector.ext
  intro i hi
  apply coordinates_injective
  exact congrFun h ⟨i, hi⟩

theorem get_set_self (v : Vector α n) (k : Fin n) (x : α) : (v.set k x k.isLt).get k = x :=
  Vector.getElem_set_self k.isLt

theorem get_set_of_ne {i k : Fin n} (v : Vector α n) (x : α) (h : i ≠ k) :
    (v.set k x k.isLt).get i = v.get i :=
  Vector.getElem_set_ne k.isLt i.isLt (Fin.val_ne_of_ne h.symm)

/-- Row `i` of the matrix after an exchange of two rows. -/
theorem entry_swap (A : DenseMatrix α m n) (p k i : Fin m) (j : Fin n) :
    entry (A.swap p k p.isLt k.isLt) i j = A.entry (Equiv.swap p k i) j := by
  simp only [entry, Vector.getElem_swap, Equiv.swap_apply_def, Fin.getElem_fin]
  split_ifs <;> grind

end Reading

variable {K : Type} [Field K] [LinearOrder K] [IsStrictOrderedRing K] [ExactScalar K]
variable {l m n : ℕ}

/-- The identity matrix. -/
def identity : DenseMatrix K n n := ofFn fun i j => if i = j then 1 else 0

theorem toMatrix_identity : (identity : DenseMatrix K n n).toMatrix = 1 := by
  ext i j
  rw [identity, toMatrix_ofFn, of_apply, one_apply]

theorem get_eq_getD (v : Vector K n) (i : Fin n) : v.get i = v.toList.getD i 0 := by
  obtain ⟨⟨l⟩, rfl⟩ := v
  exact (List.getD_eq_getElem l 0 i.isLt).symm

theorem sum_products (u v : Vector K n) :
    (products u v).sum = coordinates u ⬝ᵥ coordinates v := by
  rw [products, dotProduct, Fin.sum_univ_def]
  congr 1
  apply List.ext_getElem
  · simp
  · intro i h h'
    simp [Vector.get_eq_getElem]

theorem coordinates_mulVec (A : DenseMatrix K m n) (v : Vector K n) :
    coordinates (A.mulVec v) = A.toMatrix *ᵥ coordinates v := by
  ext i
  rw [mulVec, coordinates_apply, Vector.get_map, ExactScalar.accumulated_eq_sum, sum_products]
  rfl

theorem toMatrix_mul (A : DenseMatrix K m l) (B : DenseMatrix K l n) :
    (A.mul B).toMatrix = A.toMatrix * B.toMatrix := by
  have hsum : ∀ xs : List K, (if 5 < m ∧ 5 < l ∧ 5 < n then fun xs : List K => xs.foldl (· + ·) 0
      else Scalar.accumulated) xs = xs.sum := by
    intro xs
    split
    · exact List.sum_eq_foldl.symm
    · exact ExactScalar.accumulated_eq_sum xs
  ext i j
  simp only [mul, toMatrix_ofFn, of_apply, hsum, sum_products]
  rw [mul_apply']
  congr 1
  ext t
  simp [column, entry, Vector.get_eq_getElem]

theorem toMatrix_add (A B : DenseMatrix K m n) :
    (A.add B).toMatrix = A.toMatrix + B.toMatrix := by
  rw [add, toMatrix_ofFn]
  rfl

theorem toMatrix_sub (A B : DenseMatrix K m n) :
    (A.sub B).toMatrix = A.toMatrix - B.toMatrix := by
  rw [sub, toMatrix_ofFn]
  rfl

theorem toMatrix_negate (A : DenseMatrix K m n) : A.negate.toMatrix = -A.toMatrix := by
  rw [negate, toMatrix_ofFn]
  rfl

theorem toMatrix_scale (A : DenseMatrix K m n) (c : K) :
    (A.scale c).toMatrix = c • A.toMatrix := by
  rw [scale, toMatrix_ofFn]
  ext i j
  exact mul_comm _ _

theorem coordinates_addVec (u v : Vector K n) :
    coordinates (addVec u v) = coordinates u + coordinates v := by
  ext i
  simp [addVec, Vector.get_eq_getElem]

theorem coordinates_subVec (u v : Vector K n) :
    coordinates (subVec u v) = coordinates u - coordinates v := by
  ext i
  simp [subVec, Vector.get_eq_getElem]

theorem coordinates_scaleVec (v : Vector K n) (c : K) :
    coordinates (scaleVec v c) = c • coordinates v := by
  ext i
  simp [scaleVec, mul_comm]

/-- A matrix is the sum of its diagonal and its two triangles. -/
theorem toMatrix_eq_parts (A : DenseMatrix K m n) :
    A.toMatrix = A.diagonalPart.toMatrix + A.lowerPart.toMatrix + A.upperPart.toMatrix := by
  ext i j
  simp only [Matrix.add_apply, toMatrix_apply, diagonalPart, lowerPart, upperPart, entry_ofFn]
  rcases lt_trichotomy i.val j.val with h | h | h
  · simp [h, h.ne, h.not_gt]
  · simp [h]
  · simp [h, h.ne', h.not_gt]

end NumericMethods.DenseMatrix
