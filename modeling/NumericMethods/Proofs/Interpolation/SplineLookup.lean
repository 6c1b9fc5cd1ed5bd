/-
  NumericMethods/Proofs/Interpolation/SplineLookup.lean
  =====================================================
  **Which piece of a spline is used at a point.**

  The pieces of a spline lie between neighbouring knots, which increase (`HasKnots`).  The
  piece that is looked up is the first one that ends at the point or to the right of it,
  and the last one to the right of all knots (`HasKnots.pieceAt_cases`).  So inside the
  range of the knots it is a piece that contains the point, and outside the nearest one; and
  at a knot it is a piece that begins or ends there (`HasKnots.pieceAt_knot`).
-/
import Mathlib
import NumericMethods.Interpolation.Spline
import NumericMethods.Proofs.Scalar.Exact

namespace NumericMethods.Spline

variable {K : Type} [Field K] [LinearOrder K] [IsStrictOrderedRing K] [ExactScalar K]
variable {s : ℕ} {p : Spline K} {xs : Vector K (s + 2)} {piece : Fin (s + 1) → SplinePiece K}
variable {x : K}

/-- The pieces of the spline are given ones, between neighbours of increasing knots. -/
structure HasKnots (p : Spline K) (xs : Vector K (s + 2)) (piece : Fin (s + 1) → SplinePiece K) :
    Prop where
  pieces : p.pieces = List.ofFn piece
  low : ∀ i, (piece i).low = xs.get i.castSucc
  high : ∀ i, (piece i).high = xs.get i.succ
  increasing : StrictMono xs.get

namespace HasKnots

omit [Field K] [IsStrictOrderedRing K] [ExactScalar K] in
theorem mem_pieces (h : p.HasKnots xs piece) (i : Fin (s + 1)) : piece i ∈ p.pieces := by
  rw [h.pieces]
  exact List.mem_ofFn.2 ⟨i, rfl⟩

omit [Field K] [IsStrictOrderedRing K] [ExactScalar K] in
theorem getLast_pieces (h : p.HasKnots xs piece) :
    p.pieces.getLast p.pieces_ne_nil = piece (Fin.last s) := by
  simp only [h.pieces, List.getLast_ofFn]
  rfl

omit [Field K] [IsStrictOrderedRing K] [ExactScalar K] in
theorem head_pieces (h : p.HasKnots xs piece) : p.pieces.head p.pieces_ne_nil = piece 0 := by
  simp only [h.pieces, List.head_ofFn]
  rfl

/-- The first piece that does not end before the point, or the last piece. -/
theorem pieceAt_cases (h : p.HasKnots xs piece) (x : K) :
    (∃ i : Fin (s + 1), p.pieceAt x = piece i ∧ x ≤ xs.get i.succ ∧
        ∀ j < i, xs.get j.succ < x) ∨
      p.pieceAt x = piece (Fin.last s) ∧ xs.get (Fin.last (s + 1)) < x := by
  cases hfind : p.pieces.find? (fun piece => decide (x ≤ piece.high)) with
  | none =>
    refine .inr ⟨?_, ?_⟩
    · rw [pieceAt, hfind, Option.getD_none, h.getLast_pieces]
    · have hlast := List.find?_eq_none.1 hfind (piece (Fin.last s)) (h.mem_pieces _)
      rw [decide_eq_true_eq, h.high, not_le] at hlast
      exact hlast
  | some q =>
    obtain ⟨hq, i, hi, hget, hearlier⟩ := List.find?_eq_some_iff_getElem.1 hfind
    have hlength : p.pieces.length = s + 1 := by rw [h.pieces, List.length_ofFn]
    have hpiece : ∀ j (hj : j < p.pieces.length), p.pieces[j] = piece ⟨j, hlength ▸ hj⟩ := by
      intro j hj
      simp only [h.pieces, List.getElem_ofFn]
    rw [hpiece] at hget
    subst hget
    refine .inl ⟨⟨i, hlength ▸ hi⟩, ?_, ?_, ?_⟩
    · rw [pieceAt, hfind, Option.getD_some]
    · rwa [decide_eq_true_eq, h.high] at hq
    · intro j hj
      have hbefore := hearlier j hj
      rw [hpiece, h.high] at hbefore
      simpa using hbefore

theorem pieceAt_mem (h : p.HasKnots xs piece) (x : K) : p.pieceAt x ∈ p.pieces := by
  rcases h.pieceAt_cases x with ⟨i, heq, -⟩ | ⟨heq, -⟩
  · rw [heq]
    exact h.mem_pieces i
  · rw [heq]
    exact h.mem_pieces _

theorem contains_pieceAt (h : p.HasKnots xs piece) (hfirst : xs.get 0 ≤ x)
    (hlast : x ≤ xs.get (Fin.last (s + 1))) : (p.pieceAt x).contains x = true := by
  rcases h.pieceAt_cases x with ⟨i, heq, hhigh, hearlier⟩ | ⟨-, hbeyond⟩
  · rw [heq, SplinePiece.contains, h.low, h.high, Bool.and_eq_true, decide_eq_true_eq,
      decide_eq_true_eq]
    refine ⟨?_, hhigh⟩
    cases i using Fin.cases with
    | zero => exact hfirst
    | succ j => exact (hearlier j.castSucc (Fin.castSucc_lt_succ)).le
  · exact absurd hlast (not_le.2 hbeyond)

/-- To the right of the knot where a piece begins, and up to the one where it ends, that
    piece is used. -/
theorem pieceAt_between (h : p.HasKnots xs piece) {i : Fin (s + 1)} (hlow : xs.get i.castSucc < x)
    (hhigh : x ≤ xs.get i.succ) : p.pieceAt x = piece i := by
  rcases h.pieceAt_cases x with ⟨j, heq, hend, hearlier⟩ | ⟨-, hbeyond⟩
  · rcases lt_trichotomy j i with hlt | rfl | hlt
    · have hbefore : j.succ ≤ i.castSucc := hlt
      exact absurd (hend.trans (h.increasing.monotone hbefore)) hlow.not_ge
    · exact heq
    · exact absurd (hearlier i hlt) hhigh.not_gt
  · exact absurd ((h.increasing.monotone (Fin.le_last _)).trans_lt hbeyond) hhigh.not_gt

theorem pieceAt_below (h : p.HasKnots xs piece) (hbelow : x < xs.get 0) :
    p.pieceAt x = piece 0 := by
  have hknots : ∀ k, x < xs.get k := fun k =>
    hbelow.trans_le (h.increasing.monotone (Fin.zero_le k))
  rcases h.pieceAt_cases x with ⟨i, heq, -, hearlier⟩ | ⟨-, hbeyond⟩
  · cases i using Fin.cases with
    | zero => exact heq
    | succ j => exact absurd (hearlier j.castSucc (Fin.castSucc_lt_succ)) (hknots _).not_gt
  · exact absurd hbeyond (hknots _).not_gt

theorem pieceAt_above (h : p.HasKnots xs piece) (habove : xs.get (Fin.last (s + 1)) < x) :
    p.pieceAt x = piece (Fin.last s) := by
  rcases h.pieceAt_cases x with ⟨i, -, hhigh, -⟩ | ⟨heq, -⟩
  · exact absurd ((h.increasing.monotone (Fin.le_last _)).trans_lt habove) hhigh.not_gt
  · exact heq

/-- At a knot a piece is used that begins or ends there. -/
theorem pieceAt_knot (h : p.HasKnots xs piece) (k : Fin (s + 2)) :
    ∃ i : Fin (s + 1), p.pieceAt (xs.get k) = piece i ∧ (k = i.castSucc ∨ k = i.succ) := by
  rcases h.pieceAt_cases (xs.get k) with ⟨i, heq, hhigh, hearlier⟩ | ⟨-, hbeyond⟩
  · have hle : k ≤ i.succ := h.increasing.le_iff_le.1 hhigh
    refine ⟨i, heq, ?_⟩
    rcases eq_or_lt_of_le hle with heq' | hlt
    · exact .inr heq'
    cases i using Fin.cases with
    | zero =>
      have hzero : k.val < 1 := hlt
      exact .inl (Fin.ext (Nat.lt_one_iff.1 hzero))
    | succ j =>
      have hbetween : j.val + 1 < k.val ∧ k.val < j.val + 2 :=
        ⟨h.increasing.lt_iff_lt.1 (hearlier j.castSucc (Fin.castSucc_lt_succ)), hlt⟩
      omega
  · exact absurd (h.increasing.lt_iff_lt.1 hbeyond) (Fin.le_last k).not_gt

end HasKnots

end NumericMethods.Spline
