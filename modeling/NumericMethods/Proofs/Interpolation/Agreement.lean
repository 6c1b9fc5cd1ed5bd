/-
  NumericMethods/Proofs/Interpolation/Agreement.lean
  ==================================================
  **Three methods, one polynomial.**

  The forms of Newton and of Lagrange exist for all points with different abscissae, and
  both are the polynomial of least degree through the points (`NewtonForm.evaluate_eq`,
  `LagrangeForm.passesThrough`).  The system of Vandermonde says that its solution is such a
  polynomial, as a list of coefficients (`VandermondeForm.passesThrough`); a solution that
  is found is therefore the list of coefficients of Lagrange.
-/
import Mathlib
import NumericMethods.Proofs.DenseMatrix.Substitution
import NumericMethods.Proofs.Interpolation.DividedDifference
import NumericMethods.Proofs.Interpolation.LagrangeBasis

namespace NumericMethods

open DenseMatrix Polynomial

variable {K : Type} [Field K] [LinearOrder K] [IsStrictOrderedRing K] [ExactScalar K]
variable {xs ys : List K} {n : ℕ}

/-! ### The system of Vandermonde -/

theorem horner_toList (a : Vector K n) (x : K) :
    horner a.toList x = ∑ j, a.get j * x ^ j.val := by
  obtain ⟨⟨l⟩, rfl⟩ := a
  exact horner_eq_sum l x

namespace VandermondeForm

/-- Row by row, the system asks for the given values. -/
theorem get_powers_mulVec (nodes a : Vector K n) (i : Fin n) :
    ((powers nodes).mulVec a).get i = horner a.toList (nodes.get i) := by
  rw [← coordinates_apply, coordinates_mulVec, Matrix.mulVec, dotProduct, horner_toList, powers,
    toMatrix_ofFn]
  apply Finset.sum_congr rfl
  intro j _
  rw [Matrix.of_apply, coordinates_apply, ExactScalar.natPow_eq_pow, mul_comm]

theorem passesThrough {V : VandermondeForm K} (h : ofPoints xs ys = .ok V) :
    V.coefficients.length = xs.length ∧ PassesThrough xs ys V.coefficients := by
  obtain ⟨-, -, h⟩ := bind_eq_ok_iff.1 h
  dsimp only at h
  split at h
  · cases h
  rename_i b hb
  obtain ⟨a, ha, h⟩ := bind_eq_ok_iff.1 h
  cases h
  have hsystem := mulVec_of_solve (mapError_eq_ok ha)
  have hvalues : b.toList = ys := by
    unfold vectorOfLength? at hb
    split at hb
    · cases hb
      rfl
    · cases hb
  refine ⟨by simp, fun i hi => ?_⟩
  have hrow := congrArg (fun v => v.get ⟨i, by simpa using hi⟩) hsystem
  rwa [get_powers_mulVec, get_eq_getD, get_eq_getD, hvalues] at hrow

end VandermondeForm

/-! ### The three forms -/

theorem LagrangeForm.passesThrough {L : LagrangeForm K} (h : ofPoints xs ys = .ok L)
    (hlength : xs.length = ys.length) (hdistinct : xs.Nodup) :
    L.coefficients.length = xs.length ∧ PassesThrough xs ys L.coefficients := by
  refine ⟨(horner_coefficients h 0).1, fun i hi => ?_⟩
  rw [(horner_coefficients h _).2]
  exact evaluate_node h hlength hdistinct hi

/-- The forms are one function through the points, and have the same coefficients. -/
structure FormsAgree (xs ys : List K) (N : NewtonForm K) (L : LagrangeForm K) : Prop where
  newton : ∀ x, N.evaluate x = L.evaluate x
  coefficients : ∀ x, horner L.coefficients x = L.evaluate x
  passes : ∀ x y, (x, y) ∈ xs.zip ys → N.evaluate x = y ∧ L.evaluate x = y
  vandermonde : ∀ V, VandermondeForm.ofPoints xs ys = .ok V →
    V.coefficients = L.coefficients ∧ ∀ x, V.evaluate x = N.evaluate x ∧
      V.evaluate x = L.evaluate x

/-- Through points with different abscissae passes one polynomial, whatever the form. -/
theorem interpolants_agree (xs ys : List K) (hlength : xs.length = ys.length)
    (hpos : 1 ≤ xs.length) (hdistinct : xs.Nodup) :
    ∃ N L, NewtonForm.ofPoints xs ys = .ok N ∧ LagrangeForm.ofPoints xs ys = .ok L ∧
      FormsAgree xs ys N L := by
  have hcheck : Points.check xs ys 1 = .ok () :=
    Points.check_eq_ok_iff_nodup.2 ⟨hlength, hpos, hdistinct⟩
  obtain ⟨N, hN⟩ := NewtonForm.exists_of_check hcheck
  obtain ⟨L, hL⟩ := LagrangeForm.exists_of_check hcheck
  obtain ⟨hcount, hpasses⟩ := LagrangeForm.passesThrough hL hlength hdistinct
  have hcoefficients : ∀ x, horner L.coefficients x = L.evaluate x :=
    fun x => (LagrangeForm.horner_coefficients hL x).2
  have hnewton : ∀ x, N.evaluate x = L.evaluate x := by
    intro x
    rw [NewtonForm.evaluate_eq hN hdistinct hlength, ← hcoefficients,
      hpasses.horner_eq hdistinct hcount]
  refine ⟨N, L, hN, hL, hnewton, hcoefficients, ?_, ?_⟩
  · intro x y hmem
    obtain ⟨i, hi, heq⟩ := List.mem_iff_getElem.1 hmem
    obtain ⟨hi', hi''⟩ : i < xs.length ∧ i < ys.length := by simpa using hi
    obtain ⟨rfl, rfl⟩ : xs[i] = x ∧ ys[i] = y := by simpa using heq
    have hvalue := LagrangeForm.evaluate_node hL hlength hdistinct hi'
    rw [List.getD_eq_getElem _ _ hi', List.getD_eq_getElem _ _ hi''] at hvalue
    exact ⟨(hnewton _).trans hvalue, hvalue⟩
  · intro V hV
    obtain ⟨hcount', hpasses'⟩ := VandermondeForm.passesThrough hV
    have hsame : V.coefficients = L.coefficients :=
      hpasses'.unique hpasses hdistinct hcount' hcount
    have hvalue : ∀ x, V.evaluate x = L.evaluate x := by
      intro x
      rw [← hcoefficients, VandermondeForm.evaluate, hsame]
    exact ⟨hsame, fun x => ⟨(hvalue x).trans (hnewton x).symm, hvalue x⟩⟩

/-- The parabola through three points that are not sorted. -/
theorem interpolants_agree_parabola :
    let xs : List ℚ := [2, 0, 1]
    let ys : List ℚ := [7, 1, 2]
    xs.length = ys.length ∧ 1 ≤ xs.length ∧ xs.Nodup ∧
      (∃ V, VandermondeForm.ofPoints xs ys = .ok V ∧ V.coefficients = [1, -1, 2]) ∧
        ∃ N L, NewtonForm.ofPoints xs ys = .ok N ∧ LagrangeForm.ofPoints xs ys = .ok L ∧
          FormsAgree xs ys N L := by
  intro xs ys
  have hlength : xs.length = ys.length := by decide
  have hpos : 1 ≤ xs.length := by decide
  have hdistinct : xs.Nodup := by decide +kernel
  refine ⟨hlength, hpos, hdistinct, ?_, interpolants_agree xs ys hlength hpos hdistinct⟩
  unfold VandermondeForm.ofPoints
  rw [Points.check_eq_ok_iff_nodup.2 ⟨hlength, hpos, hdistinct⟩]
  exact exists_ok_of_any (by decide +kernel)

end NumericMethods
