/-
  NumericMethods/Proofs/Interpolation/ShownSystem.lean
  ====================================================
  **The system that a spline shows is solved by the coefficients that it shows.**

  A spline solves its system in the distance from the first knot, and shows the one in `x`.
  The equations of both are conditions on the polynomials of the pieces: which values they
  take at the knots, where their derivatives agree, and where the second ones vanish
  (`SplineKind.Fits`, `SplineKind.forall_holds_iff`).  Polynomials that meet the conditions at
  the distances of the knots meet them at the knots, once they are written in `x`
  (`SplineKind.Fits.shift`), and the coefficients that are shown are those of the polynomials
  so written.

  The coefficients of all pieces, one after the other, are therefore a vector that the
  matrix sends to the right-hand side (`Spline.solvesShown`).
-/
import Mathlib
import NumericMethods.Proofs.Interpolation.SplinePiece
import NumericMethods.Proofs.Interpolation.SplineSystem

namespace NumericMethods

open DenseMatrix Polynomial
open SplinePiece (descending)

variable {K : Type} [Field K] [LinearOrder K] [IsStrictOrderedRing K] [ExactScalar K]

namespace SplineKind

variable {order s : ℕ} {kind : SplineKind} {ts ys : Vector K (s + 2)} {c : ℕ → ℕ → K}
variable {P : Fin (s + 1) → K[X]}

/-! ### The equations as conditions on polynomials -/

/-- Neighbouring polynomials agree in the first two derivatives where they meet, and the
    second derivative vanishes at both ends. -/
structure JoinSmoothly (s : ℕ) (ts : Vector K (s + 2)) (P : Fin (s + 1) → K[X]) : Prop where
  slope : ∀ i : Fin s, (derivative (P i.castSucc)).eval (ts.get i.succ.castSucc) =
    (derivative (P i.succ)).eval (ts.get i.succ.castSucc)
  bend : ∀ i : Fin s, (derivative (derivative (P i.castSucc))).eval (ts.get i.succ.castSucc) =
    (derivative (derivative (P i.succ))).eval (ts.get i.succ.castSucc)
  first : (derivative (derivative (P 0))).eval (ts.get 0) = 0
  last : (derivative (derivative (P (Fin.last s)))).eval (ts.get (Fin.last (s + 1))) = 0

/-- Each polynomial takes the values at both ends of its interval, and those of a cubic
    spline join smoothly. -/
structure Fits (kind : SplineKind) (s : ℕ) (ts ys : Vector K (s + 2)) (P : Fin (s + 1) → K[X]) :
    Prop where
  left : ∀ i : Fin (s + 1), (P i).eval (ts.get i.castSucc) = ys.get i.castSucc
  right : ∀ i : Fin (s + 1), (P i).eval (ts.get i.succ) = ys.get i.succ
  smooth : kind = .cubic → JoinSmoothly s ts P

/-- The polynomials with given coefficients, by the piece and the place in it. -/
noncomputable def polynomials (order s : ℕ) (c : ℕ → ℕ → K) (i : Fin (s + 1)) : K[X] :=
  descending ((List.range order).map (c i))

theorem forall_holds_passing_iff :
    (∀ e ∈ passing order (s + 1) ts ys, e.Holds order (s + 1) c) ↔
      (∀ i : Fin (s + 1), (polynomials order s c i).eval (ts.get i.castSucc) =
        ys.get i.castSucc) ∧
        ∀ i : Fin (s + 1), (polynomials order s c i).eval (ts.get i.succ) = ys.get i.succ := by
  have hvalue : ∀ (i : Fin (s + 1)) (t y : K), (passes order i t y).Holds order (s + 1) c ↔
      (polynomials order s c i).eval t = y := by
    intro i t y
    rw [holds_passes_iff i.isLt, SplinePiece.foldl_zero]
    rfl
  rw [forall_mem_passing]
  simp only [hvalue]

theorem holds_slope_iff (i : Fin s) (t : K) :
    (agrees (fun sign => slopeFactor sign t) i).Holds 4 (s + 1) c ↔
      (derivative (polynomials 4 s c i.castSucc)).eval t =
        (derivative (polynomials 4 s c i.succ)).eval t := by
  rw [holds_agrees_iff (Nat.succ_lt_succ i.isLt) fun sign => measures_slope sign t,
    SplinePiece.derivativeFrom_zero, SplinePiece.derivativeFrom_zero]
  rfl

theorem holds_bend_iff (i : Fin s) (t : K) :
    (agrees (fun sign => bendFactor sign t) i).Holds 4 (s + 1) c ↔
      (derivative (derivative (polynomials 4 s c i.castSucc))).eval t =
        (derivative (derivative (polynomials 4 s c i.succ))).eval t := by
  rw [holds_agrees_iff (Nat.succ_lt_succ i.isLt) fun sign => measures_bend sign t,
    SplinePiece.secondDerivativeFrom_zero, SplinePiece.secondDerivativeFrom_zero]
  rfl

theorem holds_end_iff (i : Fin (s + 1)) (t : K) :
    (straight i t).Holds 4 (s + 1) c ↔
      (derivative (derivative (polynomials 4 s c i))).eval t = 0 := by
  rw [holds_straight_iff i.isLt (measures_bend 1 t), SplinePiece.secondDerivativeFrom_zero]
  rfl

theorem forall_holds_smooth_iff :
    (∀ e ∈ smooth s ts, e.Holds 4 (s + 1) c) ↔ JoinSmoothly s ts (polynomials 4 s c) := by
  rw [forall_mem_smooth]
  simp only [holds_slope_iff, holds_bend_iff]
  constructor
  · rintro ⟨hslope, hbend, hfirst, hlast⟩
    exact ⟨hslope, hbend, (holds_end_iff 0 _).1 hfirst, (holds_end_iff (Fin.last s) _).1 hlast⟩
  · rintro ⟨hslope, hbend, hfirst, hlast⟩
    exact ⟨hslope, hbend, (holds_end_iff 0 _).2 hfirst, (holds_end_iff (Fin.last s) _).2 hlast⟩

/-- The equations of a spline say that the polynomials of the pieces fit. -/
theorem forall_holds_iff :
    (∀ e ∈ kind.equations s ts ys, e.Holds kind.order (s + 1) c) ↔
      kind.Fits s ts ys (polynomials kind.order s c) := by
  cases kind with
  | linear =>
    exact forall_holds_passing_iff.trans
      ⟨fun h => ⟨h.1, h.2, nofun⟩, fun h => ⟨h.left, h.right⟩⟩
  | cubic =>
    have hequations : equations .cubic s ts ys = passing 4 (s + 1) ts ys ++ smooth s ts := rfl
    rw [hequations, List.forall_mem_append]
    exact (forall_holds_passing_iff.and forall_holds_smooth_iff).trans
      ⟨fun h => ⟨h.1.1, h.1.2, fun _ => h.2⟩, fun h => ⟨⟨h.left, h.right⟩, h.smooth rfl⟩⟩

/-! ### The origin -/

theorem eval_shift (Q : K[X]) (origin x : K) :
    (Q.comp (X - C origin)).eval x = Q.eval (x - origin) := by
  rw [eval_comp, eval_sub, eval_X, eval_C]

omit [LinearOrder K] [IsStrictOrderedRing K] [ExactScalar K] in
theorem derivative_shift (Q : K[X]) (origin : K) :
    derivative (Q.comp (X - C origin)) = (derivative Q).comp (X - C origin) := by
  rw [derivative_comp, derivative_sub, derivative_X, derivative_C, sub_zero, one_mul]

/-- Polynomials that fit the distances from an origin fit the knots, written in `x`. -/
theorem Fits.shift {us : Vector K (s + 2)} {origin : K}
    (h : kind.Fits s (Spline.measuredFrom origin us) ys P) :
    kind.Fits s us ys fun i => (P i).comp (X - C origin) := by
  obtain ⟨hleft, hright, hsmooth⟩ := h
  simp only [Spline.get_measuredFrom] at hleft hright
  constructor
  case left => simpa only [eval_shift] using hleft
  case right => simpa only [eval_shift] using hright
  case smooth =>
    intro hcubic
    obtain ⟨hslope, hbend, hfirst, hlast⟩ := hsmooth hcubic
    simp only [Spline.get_measuredFrom] at hslope hbend hfirst hlast
    constructor
    case slope => simpa only [derivative_shift, eval_shift] using hslope
    case bend => simpa only [derivative_shift, eval_shift] using hbend
    case first => simpa only [derivative_shift, eval_shift] using hfirst
    case last => simpa only [derivative_shift, eval_shift] using hlast

end SplineKind

/-! ### The system that is shown -/

namespace Spline

variable {s : ℕ} {kind : SplineKind} {us vs : Vector K (s + 2)} {p : Spline K}

omit [Field K] [LinearOrder K] [IsStrictOrderedRing K] [ExactScalar K] in
theorem chunks_flatten {order : ℕ} {lists : List (List K)}
    (h : ∀ cs ∈ lists, cs.length = order) : chunks order lists.length lists.flatten = lists := by
  induction lists with
  | nil => rfl
  | cons cs lists ih =>
    have hcs : cs.length = order := h cs List.mem_cons_self
    rw [List.length_cons, chunks, List.flatten_cons, List.take_left' hcs, List.drop_left' hcs,
      ih fun cs' hcs' => h cs' (List.mem_cons_of_mem _ hcs')]

theorem measuredFrom_zero (xs : Vector K (s + 2)) : measuredFrom 0 xs = xs := by
  rw [measuredFrom]
  simp only [sub_zero]
  exact Vector.map_id xs

/-- The coefficients that a spline shows, one piece after the other. -/
def shownCoefficients (p : Spline K) : List K := p.pieces.flatMap SplinePiece.coefficients

/-- A spline shows the system of given points, written in `x`, and coefficients that solve
    it. -/
structure SolvesShown (kind : SplineKind) (s : ℕ) (us vs : Vector K (s + 2)) (p : Spline K) :
    Prop where
  matrix : p.matrix = (kind.matrix s us vs).toRows
  values : p.values = (kind.rightSide s us vs).toList
  solution : ∃ a : Vector K (kind.order * (s + 1)), a.toList = p.shownCoefficients ∧
    (kind.matrix s us vs).mulVec a = kind.rightSide s us vs
  evaluate : ∀ q ∈ p.pieces, ∀ x, (descending q.coefficients).eval x = q.evaluate x

theorem length_coefficients_pieceOf {order : ℕ} {c : ℕ → ℕ → K} (i : Fin (s + 1)) :
    (pieceOf order us c i).coefficients.length = order := by
  rw [SplinePiece.length_coefficients, pieceOf, List.length_map, List.length_range]

/-- The coefficients of the pieces, one piece after the other. -/
theorem exists_toList_eq_flatten {order : ℕ} (lists : Fin (s + 1) → List K)
    (h : ∀ i, (lists i).length = order) :
    ∃ a : Vector K (order * (s + 1)), a.toList = (List.ofFn lists).flatten ∧
      ∀ i : Fin (s + 1), (List.range order).map (SplineKind.cut order a.toList i) = lists i := by
  have hlists : ∀ cs ∈ List.ofFn lists, cs.length = order := List.forall_mem_ofFn_iff.2 h
  have hlength : (List.ofFn lists).flatten.length = order * (s + 1) := by
    rw [List.length_flatten, List.sum_eq_card_nsmul _ order (List.forall_mem_map.2 hlists),
      List.length_map, List.length_ofFn, smul_eq_mul, Nat.mul_comm]
  refine ⟨⟨(List.ofFn lists).flatten.toArray, hlength⟩, rfl, fun i => ?_⟩
  have hchunks := chunks_flatten hlists
  rw [chunks_eq, List.length_ofFn] at hchunks
  have hchunk : (List.map _ _)[i.val]? = _ := congrArg (fun l => l[i.val]?) hchunks
  rw [List.getElem?_map, List.getElem?_range i.isLt, List.getElem?_ofFn, dif_pos i.isLt] at hchunk
  have hle : order * i + order ≤ (List.ofFn lists).flatten.length := by
    rw [hlength, ← Nat.mul_succ]
    exact Nat.mul_le_mul_left order i.isLt
  change (List.range order).map (SplineKind.cut order (List.ofFn lists).flatten i) = lists i
  rw [← take_drop_eq_cut hle]
  exact Option.some.inj hchunk

theorem solvesShown (h : throughSorted kind s us vs = .ok p) : p.SolvesShown kind s us vs := by
  cases hsolution : localSolution kind s us vs with
  | error e =>
    rw [throughSorted_of_error hsolution] at h
    cases h
  | ok a =>
    obtain ⟨q, hq, hpieces, hmatrix, hvalues⟩ := throughSorted_of_ok hsolution
    obtain rfl := Except.ok.inj (hq.symm.trans h)
    rw [measuredFrom_zero] at hmatrix hvalues
    set piece := pieceOf kind.order us (SplineKind.cut kind.order a.toList) with hpiece
    obtain ⟨b, hb, hcut⟩ := exists_toList_eq_flatten (fun i => (piece i).coefficients)
      length_coefficients_pieceOf
    refine ⟨hmatrix, hvalues, ⟨b, ?_, ?_⟩, ?_⟩
    · rw [hb, shownCoefficients, hpieces, List.flatMap_def, List.map_ofFn]
      rfl
    · have hfits := (SplineKind.forall_holds_iff.1
        ((SplineKind.mulVec_matrix_eq_iff a).1 (mulVec_of_solve hsolution))).shift
      have hpolynomials : SplineKind.polynomials kind.order s (SplineKind.cut kind.order b.toList) =
          fun i => (piece i).polynomial := by
        funext i
        rw [SplineKind.polynomials, hcut, SplinePiece.descending_coefficients]
      rw [SplineKind.mulVec_matrix_eq_iff, SplineKind.forall_holds_iff, hpolynomials]
      exact hfits
    · intro q _ x
      rw [SplinePiece.descending_coefficients, SplinePiece.evaluate_eq]

end Spline

/-- The system that a spline shows is that of the sorted points, and the coefficients that it
    shows solve it and give its values. -/
theorem shown_coefficients_solve_shown_system (kind : SplineKind) (xs ys : List K) (p : Spline K)
    (h : Spline.ofPoints kind xs ys = .ok p) :
    ∃ (s : ℕ) (us vs : Vector K (s + 2)), (us.toList.zip vs.toList).Perm (xs.zip ys) ∧
      StrictMono us.get ∧ p.SolvesShown kind s us vs := by
  obtain ⟨-, s, us, vs, hincreasing, hpoints, hthrough⟩ := Spline.ofPoints_eq_ok h
  refine ⟨s, us, vs, ?_, hincreasing, Spline.solvesShown hthrough⟩
  rw [hpoints]
  exact Points.byAbscissa_perm xs ys

/-- The spline through three points that are not sorted and lie away from zero. -/
theorem shown_coefficients_solve_shown_system_tent :
    let xs : List ℚ := [3, 1, 2]
    let ys : List ℚ := [0, 0, 1]
    ∃ p, Spline.ofPoints .cubic xs ys = .ok p ∧
      p.shownCoefficients = [-1 / 2, 3 / 2, 0, -1, 1 / 2, -9 / 2, 12, -9] ∧
        ∃ (s : ℕ) (us vs : Vector ℚ (s + 2)), (us.toList.zip vs.toList).Perm (xs.zip ys) ∧
          StrictMono us.get ∧ p.SolvesShown .cubic s us vs := by
  intro xs ys
  have hthrough : Spline.ofPoints .cubic xs ys =
      Spline.throughSorted .cubic 1 #v[1, 2, 3] #v[0, 1, 0] :=
    Spline.ofPoints_of_perm _ _ (by decide) (by decide +kernel)
      (List.sortedLT_iff_pairwise.2 (by decide +kernel))
  obtain ⟨p, hp, hshown⟩ : ∃ p : Spline ℚ, Spline.ofPoints .cubic xs ys = .ok p ∧
      p.shownCoefficients = [-1 / 2, 3 / 2, 0, -1, 1 / 2, -9 / 2, 12, -9] := by
    rw [hthrough]
    exact exists_ok_of_any (by decide +kernel)
  exact ⟨p, hp, hshown, shown_coefficients_solve_shown_system .cubic xs ys p hp⟩

end NumericMethods
