/-
  NumericMethods/Proofs/Interpolation/SplineSymmetry.lean
  =======================================================
  **What a spline does not see of its points: their order, and where the origin is.**

  The points are sorted before anything else is done with them.  Whether they are admitted
  does not depend on the order in which they are given, and admitted points have one sorted
  form; so in every arithmetic with a linear order the result is the same for all
  permutations, be it a spline or a failure (`spline_of_permuted_points`).

  In exact arithmetic, abscissae that are all moved by the same distance are sorted in the
  same way, and their distances from the first one are what they were.  So the system that
  is solved is the same, and with it a failure to solve it; the pieces of the spline are
  moved (`Spline.throughSorted_moved`), and so is the choice between them
  (`Spline.pieceAt_moved`).
-/
import Mathlib
import NumericMethods.Proofs.Interpolation.SplineSystem

namespace NumericMethods

/-! ### The order of the points -/

section Order

variable {α : Type} [Scalar α] [Scalar.HasLinearOrder α] {points points' : List (α × α)}

namespace Points

omit [Scalar α] [Scalar.HasLinearOrder α] in
theorem zip_abscissae_ordinates (points : List (α × α)) :
    (points.map Prod.fst).zip (points.map Prod.snd) = points := by
  rw [← List.unzip_fst, ← List.unzip_snd, List.zip_unzip]

theorem check_perm (hperm : points.Perm points') (least : ℕ) :
    check (points.map Prod.fst) (points.map Prod.snd) least =
      check (points'.map Prod.fst) (points'.map Prod.snd) least := by
  apply check_congr (hperm.map Prod.fst).length_eq (hperm.map Prod.snd).length_eq
  rw [sorted_eq_of_perm (hperm.map Prod.fst)]

theorem byAbscissa_congr (hperm : points.Perm points')
    (hdistinct : (points.map Prod.fst).Nodup) :
    byAbscissa (points.map Prod.fst) (points.map Prod.snd) =
      byAbscissa (points'.map Prod.fst) (points'.map Prod.snd) := by
  have hsorted := byAbscissa_perm (points'.map Prod.fst) (points'.map Prod.snd)
  rw [zip_abscissae_ordinates] at hsorted
  have hperm' := hsorted.trans hperm.symm
  apply byAbscissa_eq_of_sorted _ (pairwise_byAbscissa _ _)
  · exact (hperm'.map Prod.fst).nodup_iff.2 hdistinct
  · rwa [zip_abscissae_ordinates]

end Points

/-- The spline through points, or the failure to find it, does not depend on the order in
    which they are given. -/
theorem spline_of_permuted_points (kind : SplineKind) (points points' : List (α × α))
    (hperm : points.Perm points') (hdefined : ∀ q ∈ points, Scalar.isUndefined q.1 = false) :
    Spline.ofPoints kind (points.map Prod.fst) (points.map Prod.snd) =
      Spline.ofPoints kind (points'.map Prod.fst) (points'.map Prod.snd) := by
  have hcheck := Points.check_perm hperm 2
  cases hresult : Points.check (points.map Prod.fst) (points.map Prod.snd) 2 with
  | error e => rw [Spline.ofPoints_of_error hresult, Spline.ofPoints_of_error (hcheck ▸ hresult)]
  | ok _ =>
    obtain ⟨-, -, hneighbours⟩ := Points.check_eq_ok_iff_hasEqualNeighbours.1 hresult
    have hsame := Points.byAbscissa_congr hperm
      (Points.nodup_of_hasEqualNeighbours (List.forall_mem_map.2 hdefined) hneighbours)
    obtain ⟨s, us, vs, hus, hvs⟩ := Spline.exists_sorted_of_check hresult
    rw [Spline.ofPoints_of_check us vs hresult hus hvs,
      Spline.ofPoints_of_check us vs (hcheck ▸ hresult) (hsame ▸ hus) (hsame ▸ hvs)]

/-- Three points that are not sorted, one of them at minus zero, and another order of them;
    the numbers are those of binary floating point. -/
theorem spline_of_permuted_points_tent :
    let points : List (Float × Float) := [(2, 0), (-0, 1), (1, 3)]
    let points' : List (Float × Float) := [(1, 3), (2, 0), (-0, 1)]
    points.Perm points' ∧ (∀ q ∈ points, Scalar.isUndefined q.1 = false) ∧
      Spline.ofPoints .cubic (points.map Prod.fst) (points.map Prod.snd) =
        Spline.ofPoints .cubic (points'.map Prod.fst) (points'.map Prod.snd) := by
  intro points points'
  have hperm : points.Perm points' := by decide +kernel
  have hdefined : ∀ q ∈ points, Scalar.isUndefined q.1 = false := by decide +kernel
  exact ⟨hperm, hdefined, spline_of_permuted_points .cubic points points' hperm hdefined⟩

end Order

/-! ### The origin of the abscissae -/

section Origin

variable {K : Type} [Field K] [LinearOrder K] [IsStrictOrderedRing K] [ExactScalar K] {d x : K}

namespace SplinePiece

/-- A piece that is moved by `d`. -/
def moved (d : K) (q : SplinePiece K) : SplinePiece K :=
  ⟨q.low + d, q.high + d, q.origin + d, q.shifted⟩

theorem evaluate_moved (q : SplinePiece K) : (q.moved d).evaluate (x + d) = q.evaluate x := by
  rw [evaluate, evaluate, moved, add_sub_add_right_eq_sub]

theorem derivative_moved (q : SplinePiece K) :
    (q.moved d).derivative (x + d) = q.derivative x := by
  rw [derivative, derivative, moved, add_sub_add_right_eq_sub]

theorem secondDerivative_moved (q : SplinePiece K) :
    (q.moved d).secondDerivative (x + d) = q.secondDerivative x := by
  rw [secondDerivative, secondDerivative, moved, add_sub_add_right_eq_sub]

end SplinePiece

namespace Spline

variable {s : ℕ} {kind : SplineKind} {us vs : Vector K (s + 2)} {p q : Spline K}

/-- The second spline takes the values of the first one, and its derivatives, at a
    distance of `d`. -/
structure IsMovedBy (d : K) (p q : Spline K) : Prop where
  evaluate : ∀ z, q.evaluate (z + d) = p.evaluate z
  derivative : ∀ z, q.derivative (z + d) = p.derivative z
  secondDerivative : ∀ z, q.secondDerivative (z + d) = p.secondDerivative z

/-- The piece in use moves with the pieces. -/
theorem pieceAt_moved (h : q.pieces = p.pieces.map (SplinePiece.moved d)) (z : K) :
    q.pieceAt (z + d) = (p.pieceAt z).moved d := by
  have hbefore : (fun piece : SplinePiece K => decide (z + d ≤ piece.high)) ∘ SplinePiece.moved d =
      fun piece => decide (z ≤ piece.high) := by
    funext piece
    exact decide_eq_decide.2 (add_le_add_iff_right d)
  simp only [pieceAt, h, List.find?_map, hbefore, List.getLast_map]
  exact Option.getD_map _ _ _

theorem isMovedBy (h : q.pieces = p.pieces.map (SplinePiece.moved d)) : p.IsMovedBy d q where
  evaluate z := by
    rw [evaluate, pieceAt_moved h]
    exact SplinePiece.evaluate_moved _
  derivative z := by
    rw [derivative, pieceAt_moved h]
    exact SplinePiece.derivative_moved _
  secondDerivative z := by
    rw [secondDerivative, pieceAt_moved h]
    exact SplinePiece.secondDerivative_moved _

/-- The distances from the first knot do not change. -/
theorem localSolution_moved :
    localSolution kind s (us.map (· + d)) vs = localSolution kind s us vs := by
  have hmeasured : measuredFrom ((us.map (· + d)).get 0) (us.map (· + d)) =
      measuredFrom (us.get 0) us := by
    rw [measuredFrom, measuredFrom, Vector.map_map, Vector.get_map]
    exact congrArg (us.map ·) (funext fun x => add_sub_add_right_eq_sub x _ d)
  rw [localSolution, hmeasured]
  rfl

/-- A spline through moved knots fails in the same way, or its pieces are moved. -/
theorem throughSorted_moved (kind : SplineKind) (us vs : Vector K (s + 2)) (d : K) :
    (∃ e, throughSorted kind s us vs = .error e ∧
        throughSorted kind s (us.map (· + d)) vs = .error e) ∨
      ∃ p q, throughSorted kind s us vs = .ok p ∧
        throughSorted kind s (us.map (· + d)) vs = .ok q ∧
          q.pieces = p.pieces.map (SplinePiece.moved d) := by
  cases hsolution : localSolution kind s us vs with
  | error e =>
    exact .inl ⟨_, throughSorted_of_error hsolution,
      throughSorted_of_error (localSolution_moved.trans hsolution)⟩
  | ok a =>
    obtain ⟨p, hp, hpieces, -⟩ := throughSorted_of_ok hsolution
    obtain ⟨q, hq, hpieces', -⟩ := throughSorted_of_ok (localSolution_moved.trans hsolution)
    refine .inr ⟨p, q, hp, hq, ?_⟩
    rw [hpieces, hpieces', List.map_ofFn]
    refine congrArg List.ofFn (funext fun i => ?_)
    simp only [pieceOf, Vector.get_map]
    rfl

end Spline

/-- The spline through points that are moved by `d` is the spline through the points, moved
    by `d`, and it is not found for the same reason. -/
theorem spline_of_moved_points (kind : SplineKind) (xs ys : List K) (d : K) :
    (∃ e, Spline.ofPoints kind xs ys = .error e ∧
        Spline.ofPoints kind (xs.map (· + d)) ys = .error e) ∨
      ∃ p q, Spline.ofPoints kind xs ys = .ok p ∧
        Spline.ofPoints kind (xs.map (· + d)) ys = .ok q ∧ p.IsMovedBy d q := by
  have horder : ∀ x y : K, Scalar.totalLe (x + d) (y + d) = Scalar.totalLe x y :=
    fun x y => decide_eq_decide.2 (add_le_add_iff_right d)
  have hequal : ∀ x y : K, (x + d == y + d) = (x == y) :=
    fun x y => decide_eq_decide.2 (add_left_inj d)
  have hcheck : Points.check (xs.map (· + d)) ys 2 = Points.check xs ys 2 :=
    Points.check_map horder hequal xs ys
  cases hresult : Points.check xs ys 2 with
  | error e =>
    exact .inl ⟨e, Spline.ofPoints_of_error hresult,
      Spline.ofPoints_of_error (hcheck.trans hresult)⟩
  | ok _ =>
    obtain ⟨s, us, vs, hus, hvs⟩ := Spline.exists_sorted_of_check hresult
    have hmoved := Points.byAbscissa_map horder xs ys
    have hus' : (Points.byAbscissa (xs.map (· + d)) ys).map Prod.fst = (us.map (· + d)).toList := by
      rw [hmoved, List.map_map, Vector.toList_map, ← hus, List.map_map]
      rfl
    have hvs' : (Points.byAbscissa (xs.map (· + d)) ys).map Prod.snd = vs.toList := by
      rw [hmoved, List.map_map, ← hvs]
      rfl
    rw [Spline.ofPoints_of_check us vs hresult hus hvs,
      Spline.ofPoints_of_check _ vs (hcheck.trans hresult) hus' hvs']
    rcases Spline.throughSorted_moved kind us vs d with hfails | ⟨p, q, hp, hq, hpieces⟩
    · exact .inl hfails
    · exact .inr ⟨p, q, hp, hq, Spline.isMovedBy hpieces⟩

/-- The spline through three points that are not sorted, and through the same points two
    thousand to the right. -/
theorem spline_of_moved_points_tent :
    let xs : List ℚ := [2, 0, 1]
    let ys : List ℚ := [0, 0, 1]
    ∃ p q, Spline.ofPoints .cubic xs ys = .ok p ∧
      Spline.ofPoints .cubic (xs.map (· + 2000)) ys = .ok q ∧ p.evaluate (1 / 2) = 11 / 16 ∧
        p.IsMovedBy 2000 q := by
  intro xs ys
  have hthrough : Spline.ofPoints .cubic xs ys =
      Spline.throughSorted .cubic 1 #v[0, 1, 2] #v[0, 1, 0] :=
    Spline.ofPoints_of_perm _ _ (by decide) (by decide +kernel)
      (List.sortedLT_iff_pairwise.2 (by decide +kernel))
  obtain ⟨p, hp, hvalue⟩ : ∃ p : Spline ℚ, Spline.ofPoints .cubic xs ys = .ok p ∧
      p.evaluate (1 / 2) = 11 / 16 := by
    rw [hthrough]
    exact exists_ok_of_any (by decide +kernel)
  rcases spline_of_moved_points .cubic xs ys 2000 with ⟨e, he, -⟩ | ⟨p', q, hp', hq, hmoved⟩
  · cases he.symm.trans hp
  · obtain rfl := Except.ok.inj (hp.symm.trans hp')
    exact ⟨p, q, hp, hq, hvalue, hmoved⟩

end Origin

end NumericMethods
