/-
  NumericMethods/Proofs/Interpolation/NaturalSpline.lean
  ======================================================
  **The cubic spline is the natural one.**

  What a natural cubic spline through given points is, is said without the system that it
  is found by (`Spline.IsNatural`): cubic polynomials on the gaps between the sorted
  abscissae, which pass through the points, agree with their neighbours up to the second
  derivative, and have none at both ends; and the piece in use at a point is the one whose
  gap contains the point.

  The equations of the system are these conditions, piece by piece (`Solves.passes`,
  `Solves.joinsSmoothly`, `Solves.straight`), and the evaluators of a piece are a polynomial and
  its derivatives.  Since a knot is an end of every piece that is used there, the values at
  the points are those of the spline as a whole (`IsNatural.evaluate`).
-/
import Mathlib
import NumericMethods.Proofs.Interpolation.SplineLookup
import NumericMethods.Proofs.Interpolation.SplinePiece
import NumericMethods.Proofs.Interpolation.SplineSystem

namespace NumericMethods

open Polynomial

variable {K : Type} [Field K] [LinearOrder K] [IsStrictOrderedRing K] [ExactScalar K]

namespace SplinePiece

/-- The evaluators of the piece are a cubic polynomial and its first two derivatives. -/
def IsCubic (q : SplinePiece K) : Prop :=
  ∃ P : K[X], P.natDegree ≤ 3 ∧ ∀ x, q.evaluate x = P.eval x ∧
    q.derivative x = (Polynomial.derivative P).eval x ∧
      q.secondDerivative x = (Polynomial.derivative (Polynomial.derivative P)).eval x

/-- The second piece begins where the first one ends, and goes on smoothly. -/
structure JoinsSmoothly (q q' : SplinePiece K) : Prop where
  knot : q.high = q'.low
  value : q.evaluate q.high = q'.evaluate q.high
  derivative : q.derivative q.high = q'.derivative q.high
  secondDerivative : q.secondDerivative q.high = q'.secondDerivative q.high

end SplinePiece

namespace Spline

/-- The leftmost piece. -/
def first (p : Spline K) : SplinePiece K := p.pieces.head p.pieces_ne_nil

/-- The rightmost piece. -/
def last (p : Spline K) : SplinePiece K := p.pieces.getLast p.pieces_ne_nil

/-- A natural cubic spline through points that are sorted by their abscissae. -/
structure IsNatural (points : List (K × K)) (p : Spline K) : Prop where
  count : p.pieces.length + 1 = points.length
  gaps : p.pieces.map (fun q => (q.low, q.high)) = intervals (points.map Prod.fst)
  cubic : ∀ q ∈ p.pieces, q.IsCubic
  passes : ∀ q ∈ p.pieces,
    (q.low, q.evaluate q.low) ∈ points ∧ (q.high, q.evaluate q.high) ∈ points
  joins : p.pieces.IsChain SplinePiece.JoinsSmoothly
  straight : p.first.secondDerivative p.first.low = 0 ∧ p.last.secondDerivative p.last.high = 0
  natural : p.secondDerivative p.first.low = 0 ∧ p.secondDerivative p.last.high = 0
  evaluate : ∀ x y, (x, y) ∈ points → p.evaluate x = y
  inside : ∀ x, p.first.low ≤ x → x ≤ p.last.high →
    p.pieceAt x ∈ p.pieces ∧ (p.pieceAt x).contains x = true
  before : ∀ x, x < p.first.low → p.pieceAt x = p.first
  after : ∀ x, p.last.high < x → p.pieceAt x = p.last

section Solution

variable {s : ℕ} {xs ys : Vector K (s + 2)} {c : ℕ → ℕ → K} {p : Spline K}

theorem isCubic_pieceOf (i : Fin (s + 1)) : (pieceOf 4 xs c i).IsCubic := by
  refine ⟨(pieceOf 4 xs c i).polynomial, ?_, fun x => ?_⟩
  · have hdegree := (pieceOf 4 xs c i).natDegree_polynomial_le
    simpa [pieceOf] using hdegree
  · exact ⟨SplinePiece.evaluate_eq _ x, SplinePiece.derivative_eq _ x,
      SplinePiece.secondDerivative_eq _ x⟩

theorem Solves.hasKnots {kind : SplineKind} (h : p.Solves kind s xs ys c)
    (hincreasing : StrictMono xs.get) : p.HasKnots xs (pieceOf kind.order xs c) where
  pieces := h.pieces
  low _ := rfl
  high _ := rfl
  increasing := hincreasing

/-- The spline as a whole takes the given values at its knots. -/
theorem Solves.evaluate_knot {kind : SplineKind} (h : p.Solves kind s xs ys c)
    (hincreasing : StrictMono xs.get) (k : Fin (s + 2)) : p.evaluate (xs.get k) = ys.get k := by
  obtain ⟨i, heq, rfl | rfl⟩ := (h.hasKnots hincreasing).pieceAt_knot k
  · rw [Spline.evaluate, heq]
    exact (h.passes i).1
  · rw [Spline.evaluate, heq]
    exact (h.passes i).2

theorem Solves.holds_smooth (h : p.Solves .cubic s xs ys c) :
    ∀ e ∈ SplineKind.smooth s (measuredFrom (xs.get 0) xs), e.Holds 4 (s + 1) c :=
  fun e he => h.equations e (List.mem_append_right _ he)

theorem Solves.joinsSmoothly (h : p.Solves .cubic s xs ys c) (i : Fin s) :
    (pieceOf 4 xs c i.castSucc).JoinsSmoothly (pieceOf 4 xs c i.succ) := by
  obtain ⟨hslope, hbend, -⟩ := SplineKind.forall_mem_smooth.1 h.holds_smooth
  have hjoint : i.val + 1 < s + 1 := Nat.succ_lt_succ i.isLt
  constructor
  case knot => rfl
  case value =>
    exact (h.passes i.castSucc).2.trans (h.passes i.succ).1.symm
  case derivative =>
    have hsame := (SplineKind.holds_agrees_iff hjoint fun sign =>
      SplineKind.measures_slope sign _).1 (hslope i)
    rwa [get_measuredFrom] at hsame
  case secondDerivative =>
    have hsame := (SplineKind.holds_agrees_iff hjoint fun sign =>
      SplineKind.measures_bend sign _).1 (hbend i)
    rwa [get_measuredFrom] at hsame

theorem Solves.straight (h : p.Solves .cubic s xs ys c) :
    (pieceOf 4 xs c 0).secondDerivative (xs.get 0) = 0 ∧
      (pieceOf 4 xs c (Fin.last s)).secondDerivative (xs.get (Fin.last (s + 1))) = 0 := by
  obtain ⟨-, -, hfirst, hlast⟩ := SplineKind.forall_mem_smooth.1 h.holds_smooth
  constructor
  · have hzero := (SplineKind.holds_straight_iff (Nat.succ_pos s)
      (SplineKind.measures_bend 1 _)).1 hfirst
    rwa [get_measuredFrom] at hzero
  · have hzero := (SplineKind.holds_straight_iff (Nat.lt_succ_self s)
      (SplineKind.measures_bend 1 _)).1 hlast
    rwa [get_measuredFrom] at hzero

omit [Field K] [LinearOrder K] [IsStrictOrderedRing K] [ExactScalar K] in
theorem mem_zip_toList_iff {n : ℕ} {us vs : Vector K n} {x y : K} :
    (x, y) ∈ us.toList.zip vs.toList ↔ ∃ k, us.get k = x ∧ vs.get k = y := by
  rw [List.mem_iff_getElem]
  constructor
  · rintro ⟨i, hi, heq⟩
    have hi' : i < n := by simpa using hi
    exact ⟨⟨i, hi'⟩, by simpa [Vector.get_eq_getElem] using heq⟩
  · rintro ⟨k, rfl, rfl⟩
    exact ⟨k, by simp, by simp [Vector.get_eq_getElem]⟩

/-- What the equations say about the pieces makes the spline a natural one. -/
theorem Solves.isNatural (h : p.Solves .cubic s xs ys c) (hincreasing : StrictMono xs.get) :
    p.IsNatural (xs.toList.zip ys.toList) := by
  have hknots : p.HasKnots xs (pieceOf 4 xs c) := h.hasKnots hincreasing
  have hfirst : p.first = pieceOf 4 xs c 0 := hknots.head_pieces
  have hlast : p.last = pieceOf 4 xs c (Fin.last s) := hknots.getLast_pieces
  have hlow : p.first.low = xs.get 0 := by
    rw [hfirst]
    rfl
  have hhigh : p.last.high = xs.get (Fin.last (s + 1)) := by
    rw [hlast]
    rfl
  have hpieces : ∀ {P : SplinePiece K → Prop},
      (∀ i, P (pieceOf 4 xs c i)) → ∀ q ∈ p.pieces, P q := by
    intro P hP
    rw [h.pieces]
    exact List.forall_mem_ofFn_iff.2 hP
  constructor
  case count =>
    rw [h.pieces]
    simp
  case gaps =>
    rw [h.pieces, List.map_ofFn, List.map_fst_zip (by simp)]
    apply List.ext_getElem
    · simp [intervals]
    · intro i hi hi'
      rw [List.getElem_ofFn]
      simp [intervals, pieceOf, Vector.get_eq_getElem]
  case cubic => exact hpieces isCubic_pieceOf
  case passes =>
    refine hpieces fun i => ?_
    obtain ⟨hleft, hright⟩ := h.passes i
    exact ⟨mem_zip_toList_iff.2 ⟨i.castSucc, rfl, hleft.symm⟩,
      mem_zip_toList_iff.2 ⟨i.succ, rfl, hright.symm⟩⟩
  case joins =>
    rw [h.pieces, List.isChain_ofFn]
    intro i hi
    exact h.joinsSmoothly ⟨i, Nat.lt_of_succ_lt_succ hi⟩
  case straight =>
    rw [hlow, hhigh, hfirst, hlast]
    exact h.straight
  case natural =>
    rw [hlow, hhigh]
    constructor
    · obtain ⟨i, heq, hi | hi⟩ := hknots.pieceAt_knot 0
      · obtain rfl : i = 0 := Fin.castSucc_eq_zero_iff.1 hi.symm
        rw [Spline.secondDerivative, heq]
        exact h.straight.1
      · exact absurd hi.symm (Fin.succ_ne_zero i)
    · obtain ⟨i, heq, hi | hi⟩ := hknots.pieceAt_knot (Fin.last (s + 1))
      · exact absurd hi.symm (Fin.castSucc_ne_last i)
      · obtain rfl : i = Fin.last s := Fin.succ_eq_last_succ.1 hi.symm
        rw [Spline.secondDerivative, heq]
        exact h.straight.2
  case evaluate =>
    intro x y hmem
    obtain ⟨k, rfl, rfl⟩ := mem_zip_toList_iff.1 hmem
    exact h.evaluate_knot hincreasing k
  case inside =>
    rw [hlow, hhigh]
    exact fun x hleft hright => ⟨hknots.pieceAt_mem x, hknots.contains_pieceAt hleft hright⟩
  case before =>
    rw [hlow, hfirst]
    exact fun x => hknots.pieceAt_below
  case after =>
    rw [hhigh, hlast]
    exact fun x => hknots.pieceAt_above

end Solution

end Spline

/-- A cubic spline that is found is the natural one through the sorted points. -/
theorem natural_cubic_spline (xs ys : List K) (p : Spline K)
    (h : Spline.ofPoints .cubic xs ys = .ok p) :
    p.pieces.length + 1 = xs.length ∧ ∃ points : List (K × K), points.Perm (xs.zip ys) ∧
      (points.map Prod.fst).SortedLT ∧ p.IsNatural points := by
  obtain ⟨points, hperm, hsorted, hlength, hnatural⟩ :=
    Spline.exists_sorted (P := fun points => p.IsNatural points) h Spline.Solves.isNatural
  exact ⟨hnatural.count.trans hlength, points, hperm, hsorted, hnatural⟩

/-- The spline through three points that are not sorted. -/
theorem natural_cubic_spline_tent :
    let xs : List ℚ := [2, 0, 1]
    let ys : List ℚ := [0, 0, 1]
    ∃ p, Spline.ofPoints .cubic xs ys = .ok p ∧
      p.pieces.map SplinePiece.shifted = [[-1 / 2, 0, 3 / 2, 0], [1 / 2, -3, 9 / 2, -1]] ∧
        p.pieces.length + 1 = xs.length ∧ ∃ points : List (ℚ × ℚ), points.Perm (xs.zip ys) ∧
          (points.map Prod.fst).SortedLT ∧ p.IsNatural points := by
  intro xs ys
  have hthrough : Spline.ofPoints .cubic xs ys =
      Spline.throughSorted .cubic 1 #v[0, 1, 2] #v[0, 1, 0] :=
    Spline.ofPoints_of_perm _ _ (by decide) (by decide +kernel)
      (List.sortedLT_iff_pairwise.2 (by decide +kernel))
  obtain ⟨p, hp, hpieces⟩ : ∃ p : Spline ℚ, Spline.ofPoints .cubic xs ys = .ok p ∧
      p.pieces.map SplinePiece.shifted = [[-1 / 2, 0, 3 / 2, 0], [1 / 2, -3, 9 / 2, -1]] := by
    rw [hthrough]
    exact exists_ok_of_any (by decide +kernel)
  exact ⟨p, hp, hpieces, natural_cubic_spline xs ys p hp⟩

end NumericMethods
