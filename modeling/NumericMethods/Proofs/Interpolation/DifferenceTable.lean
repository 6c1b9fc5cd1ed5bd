/-
  NumericMethods/Proofs/Interpolation/DifferenceTable.lean
  ========================================================
  **The table of divided differences, and its growth by one point.**

  The table is filled column by column, and each entry is a quotient of two neighbours in
  the column before.  Whatever the arithmetic is, numbers that follow this recursion are
  the entries of the table (`IsDifferences.columns_eq`), and the row and the column of an
  entry tell which points it is made of.

  The nested form is read off the table: a square with zeros above the diagonal, and the
  diagonal as coefficients (`isFormOf`).  The recursion for some points is a part of the one
  for more points (`IsDifferences.of_append`).  So the table of the first points is the corner
  of the table of all points, and a nested form is continued by new coefficients only
  (`isContinuedBy_append`).
-/
import Mathlib
import NumericMethods.Interpolation.Polynomial
import NumericMethods.Proofs.Interpolation.Points
import NumericMethods.Proofs.NumericError

namespace NumericMethods

namespace NewtonForm

variable {α : Type} [Scalar α] {xs ys us vs : List α} {d : ℕ → ℕ → α} {N N' : NewtonForm α}

/-! ### The recursion -/

/-- The number `d order i` is the difference of the points from index `i` to index
    `i + order`: a value, or a quotient of two differences of the order below. -/
structure IsDifferences (xs ys : List α) (d : ℕ → ℕ → α) : Prop where
  value : ∀ {i}, i < ys.length → d 0 i = ys.getD i 0
  quotient : ∀ {order i}, i + (order + 1) < xs.length →
    d (order + 1) i = (d order (i + 1) - d order i) / (xs.getD (i + (order + 1)) 0 - xs.getD i 0)

/-- The difference of given points by the recursion alone. -/
def recursiveDifference (xs ys : List α) : (order i : ℕ) → α
  | 0, i => ys.getD i 0
  | order + 1, i =>
    (recursiveDifference xs ys order (i + 1) - recursiveDifference xs ys order i) /
      (xs.getD (i + (order + 1)) 0 - xs.getD i 0)

theorem isDifferences_recursive (xs ys : List α) :
    IsDifferences xs ys (recursiveDifference xs ys) where
  value _ := rfl
  quotient _ := rfl

/-- A difference of the first points does not see the points after them. -/
theorem IsDifferences.of_append (h : IsDifferences (xs ++ us) (ys ++ vs) d) :
    IsDifferences xs ys d where
  value {i} hi := by
    rw [h.value (by rw [List.length_append]; omega), List.getD_append _ _ _ _ hi]
  quotient {order i} hi := by
    rw [h.quotient (by rw [List.length_append]; omega), List.getD_append _ _ _ _ hi,
      List.getD_append _ _ _ _ (by omega)]

/-! ### The columns -/

/-- Column `order` of the table: the differences of that order, at all nodes with enough
    points after. -/
def columnOf (n : ℕ) (d : ℕ → ℕ → α) (order : ℕ) : List α :=
  (List.range (n - order)).map (d order)

theorem nextColumn_eq (h : IsDifferences xs ys d) {order : ℕ} (horder : order < xs.length) :
    nextColumn xs (order + 1) (columnOf xs.length d order) =
      columnOf xs.length d (order + 1) := by
  apply List.ext_getElem
  · simp only [nextColumn, columnOf, List.length_zipWith, List.length_tail, List.length_map,
      List.length_range, List.length_drop]
    omega
  · intro i hi hi'
    have hlast : i + (order + 1) < xs.length := by
      rw [columnOf, List.length_map, List.length_range] at hi'
      omega
    have hfirst : i < xs.length := by omega
    simp only [nextColumn, columnOf, List.getElem_zipWith, List.getElem_tail, List.getElem_map,
      List.getElem_range, List.getElem_drop]
    rw [h.quotient hlast, List.getD_eq_getElem _ _ hlast, List.getD_eq_getElem _ _ hfirst]
    simp only [Nat.add_comm]

theorem columnsFrom_eq (h : IsDifferences xs ys d) (count order : ℕ)
    (hcount : order + count ≤ xs.length) :
    columnsFrom xs count order (columnOf xs.length d order) =
      (List.range' order count).map (columnOf xs.length d) := by
  induction count generalizing order with
  | zero => rfl
  | succ count ih =>
    rw [columnsFrom, nextColumn_eq h (by omega), ih (order + 1) (by omega), List.range'_succ,
      List.map_cons]

/-- The columns hold the differences of all orders. -/
theorem IsDifferences.columns_eq (h : IsDifferences xs ys d) (hlength : xs.length = ys.length) :
    columns xs ys = (List.range xs.length).map (columnOf xs.length d) := by
  have hvalues : columnOf xs.length d 0 = ys := by
    apply List.ext_getElem
    · simp [columnOf, hlength]
    · intro i hi hi'
      simp only [columnOf]
      rw [List.getElem_map, List.getElem_range, h.value hi', List.getD_eq_getElem _ _ hi']
  rw [columns, List.range_eq_range', ← columnsFrom_eq h _ 0 (by omega), hvalues]

/-! ### The nested form -/

theorem exists_of_check (h : Points.check xs ys 1 = .ok ()) : ∃ N, ofPoints xs ys = .ok N :=
  ⟨_, bind_eq_ok_iff.2 ⟨(), h, rfl⟩⟩

/-- Row `i` of the table: the differences that end at node `i`. -/
def rowOf (n : ℕ) (d : ℕ → ℕ → α) (i : ℕ) : List α :=
  (List.range n).map fun order => if order ≤ i then d order (i - order) else 0

/-- The parts of a nested form, by the differences of its points. -/
theorem IsDifferences.ofPoints_eq_ok (hd : IsDifferences xs ys d)
    (hlength : xs.length = ys.length) (h : ofPoints xs ys = .ok N) :
    N.nodes = xs ∧ N.coefficients = (List.range xs.length).map (fun order => d order 0) ∧
      N.table = (List.range xs.length).map (rowOf xs.length d) := by
  have hcolumns := hd.columns_eq hlength
  obtain ⟨-, -, h⟩ := bind_eq_ok_iff.1 h
  cases h
  refine ⟨rfl, ?_, ?_⟩
  · simp only [hcolumns, List.map_map]
    refine List.map_congr_left fun order horder => ?_
    have hpos : 0 < xs.length - order := Nat.sub_pos_of_lt (List.mem_range.1 horder)
    obtain ⟨count, hcount⟩ := Nat.exists_eq_add_one_of_ne_zero hpos.ne'
    simp [columnOf, hcount, List.range_succ_eq_map]
  · refine List.map_congr_left fun i hi => ?_
    have hi' : i < xs.length := List.mem_range.1 hi
    apply List.ext_getElem
    · simp [tableRow, rowOf, hcolumns]
    · intro order _ horder
      have horder' : order < xs.length := by simpa [rowOf] using horder
      simp only [tableRow, rowOf, hcolumns, columnOf, List.getElem_mapIdx, List.getElem_map,
        List.getElem_range]
      split
      · rw [List.getD_eq_getElem _ _ (by rw [List.length_map, List.length_range]; omega),
          List.getElem_map, List.getElem_range]
      · rfl

/-- The entry of the table in row `i` and column `j`. -/
def entryAt? (N : NewtonForm α) (i j : ℕ) : Option α := N.table[i]?.bind fun row => row[j]?

/-- The parts of a nested form through given points: a square table with the differences of
    the points up to the diagonal and zeros above it, and the diagonal as coefficients. -/
structure IsFormOf (xs ys : List α) (N : NewtonForm α) : Prop where
  nodes : N.nodes = xs
  rows : N.table.length = xs.length
  columns : ∀ row ∈ N.table, row.length = xs.length
  differences : ∃ d, IsDifferences xs ys d ∧
    ∀ i order, order ≤ i → i < xs.length → N.entryAt? i order = some (d order (i - order))
  zeros : ∀ i j, i < j → j < xs.length → N.entryAt? i j = some 0
  diagonal : N.coefficients.map some = (List.range xs.length).map fun i => N.entryAt? i i

theorem isFormOf (hlength : xs.length = ys.length) (h : ofPoints xs ys = .ok N) :
    N.IsFormOf xs ys := by
  have hd := isDifferences_recursive xs ys
  obtain ⟨hnodes, hcoefficients, htable⟩ := hd.ofPoints_eq_ok hlength h
  have hentry : ∀ i j, i < xs.length → j < xs.length → N.entryAt? i j =
      some (if j ≤ i then recursiveDifference xs ys j (i - j) else 0) := by
    intro i j hi hj
    simp [entryAt?, htable, rowOf, hi, hj]
  constructor
  case nodes => exact hnodes
  case rows => rw [htable, List.length_map, List.length_range]
  case columns => simp [htable, rowOf]
  case differences =>
    refine ⟨_, hd, fun i order hle hi => ?_⟩
    rw [hentry i order hi (hle.trans_lt hi), if_pos hle]
  case zeros =>
    intro i j hlt hj
    rw [hentry i j (hlt.trans hj) hj, if_neg hlt.not_ge]
  case diagonal =>
    rw [hcoefficients, List.map_map]
    refine List.map_congr_left fun i hi => ?_
    have hi' : i < xs.length := List.mem_range.1 hi
    rw [hentry i i hi' hi', if_pos le_rfl, Nat.sub_self]
    rfl

/-- The second form continues the first one: its table has the first one in the corner, and
    its coefficients and nodes begin with the first ones. -/
structure IsContinuedBy (N N' : NewtonForm α) : Prop where
  table : (N'.table.take N.nodes.length).map (List.take N.nodes.length) = N.table
  coefficients : N.coefficients <+: N'.coefficients
  nodes : N.nodes <+: N'.nodes

/-- More points continue the form of the first ones. -/
theorem isContinuedBy_append (hlength : xs.length = ys.length)
    (hlength' : (xs ++ us).length = (ys ++ vs).length) (h : ofPoints xs ys = .ok N)
    (h' : ofPoints (xs ++ us) (ys ++ vs) = .ok N') : N.IsContinuedBy N' := by
  have hd := isDifferences_recursive (xs ++ us) (ys ++ vs)
  obtain ⟨hnodes', hcoefficients', htable'⟩ := hd.ofPoints_eq_ok hlength' h'
  obtain ⟨hnodes, hcoefficients, htable⟩ := hd.of_append.ofPoints_eq_ok hlength h
  have hrange : (List.range (xs ++ us).length).take xs.length = List.range xs.length := by
    rw [List.take_range, List.length_append, min_eq_left (Nat.le_add_right _ _)]
  refine ⟨?_, ?_, ?_⟩
  · rw [hnodes, htable, htable', ← List.map_take, hrange, List.map_map]
    refine List.map_congr_left fun i _ => ?_
    rw [Function.comp_apply, rowOf, ← List.map_take, hrange]
    rfl
  · rw [hcoefficients, hcoefficients', ← hrange]
    refine List.IsPrefix.map _ ?_
    exact List.take_prefix _ _
  · rw [hnodes, hnodes']
    exact List.prefix_append xs us

end NewtonForm

/-- A further point, different from all the others, continues the form of the points
    before it. -/
theorem newton_form_continues {α : Type} [Scalar α] (xs ys : List α) (x y : α)
    (hlength : xs.length = ys.length) (hpos : 1 ≤ xs.length)
    (hdistinct : Points.AreDistinct (xs ++ [x])) :
    ∃ N N', NewtonForm.ofPoints xs ys = .ok N ∧
      NewtonForm.ofPoints (xs ++ [x]) (ys ++ [y]) = .ok N' ∧ N.IsFormOf xs ys ∧
        N'.IsFormOf (xs ++ [x]) (ys ++ [y]) ∧ N.IsContinuedBy N' := by
  have hdistinct' : Points.AreDistinct xs := (List.pairwise_append.1 hdistinct).1
  have hlength' : (xs ++ [x]).length = (ys ++ [y]).length := by simp [hlength]
  obtain ⟨N, hN⟩ := NewtonForm.exists_of_check
    (Points.check_eq_ok_of_areDistinct hlength hpos hdistinct')
  obtain ⟨N', hN'⟩ := NewtonForm.exists_of_check
    (Points.check_eq_ok_of_areDistinct hlength' (by simp) hdistinct)
  exact ⟨N, N', hN, hN', NewtonForm.isFormOf hlength hN, NewtonForm.isFormOf hlength' hN',
    NewtonForm.isContinuedBy_append hlength hlength' hN hN'⟩

/-- A third point for a line through two points that is to become a parabola; the numbers
    are those of binary floating point. -/
theorem newton_form_continues_parabola :
    let xs : List Float := [2, 0]
    let ys : List Float := [7, 1]
    xs.length = ys.length ∧ 1 ≤ xs.length ∧ Points.AreDistinct (xs ++ [1]) ∧
      (∃ N', NewtonForm.ofPoints (xs ++ [1]) (ys ++ [2]) = .ok N' ∧
        N'.coefficients = [7, 3, 2] ∧ N'.table = [[7, 0, 0], [1, 3, 0], [2, 1, 2]]) ∧
        ∃ N N', NewtonForm.ofPoints xs ys = .ok N ∧
          NewtonForm.ofPoints (xs ++ [1]) (ys ++ [2]) = .ok N' ∧ N.IsFormOf xs ys ∧
            N'.IsFormOf (xs ++ [1]) (ys ++ [2]) ∧ N.IsContinuedBy N' := by
  intro xs ys
  have hdistinct : Points.AreDistinct (xs ++ [1]) := by
    unfold Points.AreDistinct
    decide +kernel
  have hlength : xs.length = ys.length := by decide
  have hpos : 1 ≤ xs.length := by decide
  refine ⟨hlength, hpos, hdistinct, ?_, newton_form_continues xs ys 1 2 hlength hpos hdistinct⟩
  have hlength' : (xs ++ [1]).length = (ys ++ [2]).length := by decide
  have hcheck : Points.check (xs ++ [1]) (ys ++ [2]) 1 = .ok () :=
    Points.check_eq_ok_of_areDistinct hlength' (by decide) hdistinct
  unfold NewtonForm.ofPoints
  rw [hcheck]
  exact exists_ok_of_any (by decide +kernel)

end NumericMethods
