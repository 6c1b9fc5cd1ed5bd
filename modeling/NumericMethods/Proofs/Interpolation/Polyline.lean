/-
  NumericMethods/Proofs/Interpolation/Polyline.lean
  =================================================
  **The linear spline is the polyline through the points.**

  What the polyline through sorted points is, is said without the system that it is found
  by (`Spline.IsPolyline`): between neighbouring points it is the chord through both, and
  before the first point and after the last one the outermost chord goes on.

  The slopes come out of one system for all pieces, in the distance from the first knot.  A
  piece has two coefficients and passes through the points at both ends of its interval,
  which leaves the chord only (`SplinePiece.eq_chord`); expanded in powers of `x`, its
  coefficients are the slope and the intercept.
-/
import Mathlib
import NumericMethods.Proofs.Interpolation.NaturalSpline

namespace NumericMethods

variable {K : Type} [Field K]

/-! ### Chords -/

/-- The line through two points. -/
structure Chord (K : Type) where
  left : K × K
  right : K × K

namespace Chord

def slope (e : Chord K) : K := (e.right.2 - e.left.2) / (e.right.1 - e.left.1)

def intercept (e : Chord K) : K := e.left.2 - e.slope * e.left.1

def value (e : Chord K) (x : K) : K := e.left.2 + e.slope * (x - e.left.1)

theorem value_left (e : Chord K) : e.value e.left.1 = e.left.2 := by
  rw [value, sub_self, mul_zero, add_zero]

end Chord

variable [LinearOrder K] [IsStrictOrderedRing K] [ExactScalar K]

namespace SplinePiece

variable {q : SplinePiece K} {m d : K}

theorem evaluate_line (hq : q.shifted = [m, d]) (x : K) :
    q.evaluate x = m * (x - q.origin) + d := by
  rw [evaluate, hq, List.foldl_cons, List.foldl_cons, List.foldl_nil, zero_mul, zero_add]

theorem coefficients_line (hq : q.shifted = [m, d]) :
    q.coefficients = [m, d - q.origin * m] := by
  rw [coefficients, hq]
  change [0 + m, 0 - q.origin * (0 + m) + d] = _
  rw [zero_add, zero_sub, neg_add_eq_sub]

/-- A piece with two coefficients that passes through two points is the chord. -/
theorem eq_chord {e : Chord K} (hq : q.shifted = [m, d]) (hne : e.left.1 ≠ e.right.1)
    (hleft : q.evaluate e.left.1 = e.left.2) (hright : q.evaluate e.right.1 = e.right.2) :
    q.coefficients = [e.slope, e.intercept] ∧ ∀ x, q.evaluate x = e.value x := by
  rw [evaluate_line hq] at hleft hright
  have hslope : m = e.slope := by
    rw [Chord.slope, eq_div_iff (sub_ne_zero.2 hne.symm), ← hleft, ← hright]
    ring
  constructor
  · rw [coefficients_line hq, Chord.intercept, ← hslope, ← hleft]
    congr 2
    ring
  · intro x
    rw [evaluate_line hq, Chord.value, ← hslope, ← hleft]
    ring

end SplinePiece

/-! ### Polylines -/

namespace Spline

/-- The chords between neighbouring points. -/
def chords (points : List (K × K)) : List (Chord K) := List.zipWith Chord.mk points points.tail

/-- The polyline through points that are sorted by their abscissae. -/
structure IsPolyline (points : List (K × K)) (p : Spline K) : Prop where
  count : p.pieces.length + 1 = points.length
  gaps : p.pieces.map (fun q => (q.low, q.high)) =
    (chords points).map fun e => (e.left.1, e.right.1)
  coefficients : p.pieces.map SplinePiece.coefficients =
    (chords points).map fun e => [e.slope, e.intercept]
  inside : ∀ e ∈ chords points, ∀ x, e.left.1 ≤ x → x ≤ e.right.1 → p.evaluate x = e.value x
  before : ∀ e, (chords points).head? = some e → ∀ x, x < e.left.1 → p.evaluate x = e.value x
  after : ∀ e, (chords points).getLast? = some e →
    ∀ x, e.right.1 < x → p.evaluate x = e.value x

section Solution

variable {s : ℕ} {xs ys : Vector K (s + 2)} {c : ℕ → ℕ → K} {p : Spline K}

/-- The chord between two neighbouring points. -/
def chordOf (xs ys : Vector K (s + 2)) (i : Fin (s + 1)) : Chord K where
  left := (xs.get i.castSucc, ys.get i.castSucc)
  right := (xs.get i.succ, ys.get i.succ)

omit [Field K] [LinearOrder K] [IsStrictOrderedRing K] [ExactScalar K] in
theorem chords_zip (xs ys : Vector K (s + 2)) :
    chords (xs.toList.zip ys.toList) = List.ofFn (chordOf xs ys) := by
  apply List.ext_getElem
  · simp [chords]
  · intro i hi hi'
    rw [List.getElem_ofFn]
    simp [chords, chordOf, Vector.get_eq_getElem]

theorem Solves.eq_chord (h : p.Solves .linear s xs ys c) (hincreasing : StrictMono xs.get)
    (i : Fin (s + 1)) :
    (pieceOf 2 xs c i).coefficients = [(chordOf xs ys i).slope, (chordOf xs ys i).intercept] ∧
      ∀ x, (pieceOf 2 xs c i).evaluate x = (chordOf xs ys i).value x := by
  obtain ⟨hleft, hright⟩ := h.passes i
  have hne : xs.get i.castSucc ≠ xs.get i.succ := (hincreasing Fin.castSucc_lt_succ).ne
  exact SplinePiece.eq_chord (e := chordOf xs ys i) (m := c i 0) (d := c i 1) rfl hne hleft hright

/-- What the equations say about the pieces makes the spline the polyline. -/
theorem Solves.isPolyline (h : p.Solves .linear s xs ys c) (hincreasing : StrictMono xs.get) :
    p.IsPolyline (xs.toList.zip ys.toList) := by
  have hknots : p.HasKnots xs (pieceOf 2 xs c) := h.hasKnots hincreasing
  have hline := h.eq_chord hincreasing
  constructor
  case count =>
    rw [h.pieces]
    simp
  case gaps =>
    rw [chords_zip, h.pieces, List.map_ofFn, List.map_ofFn]
    rfl
  case coefficients =>
    rw [chords_zip, h.pieces, List.map_ofFn, List.map_ofFn]
    exact congrArg List.ofFn (funext fun i => (hline i).1)
  case inside =>
    rw [chords_zip, List.forall_mem_ofFn_iff]
    intro i x hleft hright
    rcases eq_or_lt_of_le hleft with hknot | hlt
    · -- the piece before may be in use at a knot
      rw [← hknot, Chord.value_left]
      exact h.evaluate_knot hincreasing i.castSucc
    · rw [Spline.evaluate, hknots.pieceAt_between hlt hright, (hline i).2]
  case before =>
    rw [chords_zip, List.ofFn_succ, List.head?_cons]
    rintro _ ⟨⟩ x hx
    rw [Spline.evaluate, hknots.pieceAt_below hx, (hline 0).2]
  case after =>
    rw [chords_zip, List.ofFn_succ_last, List.getLast?_concat]
    rintro _ ⟨⟩ x hx
    rw [Spline.evaluate, hknots.pieceAt_above hx, (hline _).2]

end Solution

end Spline

/-- A linear spline that is found is the polyline through the sorted points. -/
theorem linear_spline_is_polyline (xs ys : List K) (p : Spline K)
    (h : Spline.ofPoints .linear xs ys = .ok p) :
    p.pieces.length + 1 = xs.length ∧ ∃ points : List (K × K), points.Perm (xs.zip ys) ∧
      (points.map Prod.fst).SortedLT ∧ p.IsPolyline points := by
  obtain ⟨points, hperm, hsorted, hlength, hpolyline⟩ :=
    Spline.exists_sorted (P := fun points => p.IsPolyline points) h Spline.Solves.isPolyline
  exact ⟨hpolyline.count.trans hlength, points, hperm, hsorted, hpolyline⟩

/-- The polyline through four points that are not sorted. -/
theorem linear_spline_is_polyline_zigzag :
    let xs : List ℚ := [3, 1, 2, 5]
    let ys : List ℚ := [0, 1, 4, 1]
    ∃ p, Spline.ofPoints .linear xs ys = .ok p ∧
      p.pieces.map SplinePiece.coefficients = [[3, -2], [-4, 12], [1 / 2, -3 / 2]] ∧
        p.pieces.length + 1 = xs.length ∧ ∃ points : List (ℚ × ℚ), points.Perm (xs.zip ys) ∧
          (points.map Prod.fst).SortedLT ∧ p.IsPolyline points := by
  intro xs ys
  have hthrough : Spline.ofPoints .linear xs ys =
      Spline.throughSorted .linear 2 #v[1, 2, 3, 5] #v[1, 4, 0, 1] :=
    Spline.ofPoints_of_perm _ _ (by decide) (by decide +kernel)
      (List.sortedLT_iff_pairwise.2 (by decide +kernel))
  obtain ⟨p, hp, hpieces⟩ : ∃ p : Spline ℚ, Spline.ofPoints .linear xs ys = .ok p ∧
      p.pieces.map SplinePiece.coefficients = [[3, -2], [-4, 12], [1 / 2, -3 / 2]] := by
    rw [hthrough]
    exact exists_ok_of_any (by decide +kernel)
  exact ⟨p, hp, hpieces, linear_spline_is_polyline xs ys p hp⟩

end NumericMethods
