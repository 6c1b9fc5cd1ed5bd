/-
  NumericMethods/Proofs/DenseMatrix/Rows.lean
  ===========================================
  **Matrices and their lists of rows.**

  The check of the shape accepts the rows of every matrix that has a row and a column, and
  gives the matrix back (`ofRows_toRows`).  It accepts nothing else: the matrix it answers
  with has the rows that it was given (`toRows_of_ofRows`), and they stay the same when the
  matrix is seen to be square (`toRows_of_square`).
-/
import Mathlib.Logic.Basic
import NumericMethods.DenseMatrix

namespace NumericMethods.DenseMatrix

variable {α : Type} {m n : Nat}

theorem rowsOf_map_toList (i : Nat) (vs : List (Vector α n)) :
    rowsOf n i (vs.map Vector.toList) = .ok vs := by
  induction vs generalizing i with
  | nil => rfl
  | cons v vs ih =>
    rw [List.map_cons, rowsOf, dif_pos v.length_toList, ih]
    rfl

theorem map_toList_of_rowsOf {i : Nat} {rows : List (List α)} {vs : List (Vector α n)}
    (h : rowsOf n i rows = .ok vs) : vs.map Vector.toList = rows := by
  induction rows generalizing i vs with
  | nil =>
    cases h
    rfl
  | cons row rows ih =>
    unfold rowsOf at h
    split at h
    · cases hrest : rowsOf n (i + 1) rows with
      | error e =>
        rw [hrest] at h
        cases h
      | ok rest =>
        rw [hrest] at h
        cases h
        rw [List.map_cons, ih hrest]
        rfl
    · cases h

theorem ofRows_cons {row : List α} {rows : List (List α)} {vs : List (Vector α n)}
    (hrow : row.length = n) (hn : n ≠ 0) (h : rowsOf n 0 (row :: rows) = .ok vs) :
    ofRows (row :: rows) = .ok ⟨vs.length, n, ⟨vs.toArray, rfl⟩⟩ := by
  subst hrow
  cases row with
  | nil => exact absurd rfl hn
  | cons x xs => simp only [ofRows, List.isEmpty_cons, Bool.false_eq_true, if_false, h]

theorem ofRows_toRows (A : DenseMatrix α m n) (hm : m ≠ 0) (hn : n ≠ 0) :
    ofRows A.toRows = .ok ⟨m, n, A⟩ := by
  obtain ⟨⟨rows⟩, hsize⟩ := A
  cases rows with
  | nil => exact absurd hsize.symm hm
  | cons row rows =>
    subst hsize
    exact ofRows_cons row.length_toList hn (rowsOf_map_toList 0 (row :: rows))

theorem toRows_of_ofRows {rows : List (List α)} {S : Shaped α} (h : ofRows rows = .ok S) :
    S.matrix.toRows = rows := by
  cases rows with
  | nil => cases h
  | cons row rows =>
    simp only [ofRows] at h
    split at h
    · cases h
    · cases hvs : rowsOf row.length 0 (row :: rows) with
      | error e =>
        rw [hvs] at h
        cases h
      | ok vs =>
        rw [hvs] at h
        cases h
        exact map_toList_of_rowsOf hvs

theorem square_of_square (A : DenseMatrix α n n) :
    Shaped.square? ⟨n, n, A⟩ = some ⟨n, A⟩ := by
  simp [Shaped.square?]

theorem toRows_of_square {S : Shaped α} {q : Square α} (h : S.square? = some q) :
    q.matrix.toRows = S.matrix.toRows := by
  obtain ⟨m, n, A⟩ := S
  unfold Shaped.square? at h
  split at h
  · rename_i heq
    obtain rfl : n = m := heq
    cases h
    simp
  · cases h

theorem vectorOfLength_toList (v : Vector α n) : vectorOfLength? n v.toList = some v := by
  rw [vectorOfLength?, dif_pos v.length_toList]
  rfl

theorem toList_of_vectorOfLength {xs : List α} {v : Vector α n}
    (h : vectorOfLength? n xs = some v) : v.toList = xs := by
  unfold vectorOfLength? at h
  split at h
  · cases h
    rfl
  · cases h

end NumericMethods.DenseMatrix
