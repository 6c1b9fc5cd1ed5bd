/-
  NumericMethods/Proofs/Stationary/Record.lean
  ============================================
  **The trace of a solved linear system is the history of its run.**

  The rows of a history are numbered from zero.  The first one holds the initial vector and
  the initial error, and every other one the image of the vector before, with the error that
  was measured between the two (`Stationary.IsHistory`).  States that follow each other by
  steps of the map leave such rows (`Stationary.isHistory_of_isChain`).

  So do the states of a run that ends and those of a run that is given up.  The trace of a
  solution stops at the first row whose error is below the tolerance; a run that is given up
  has used the whole budget, and no row of its history, which is not kept, has such an error
  (`Stationary.trace_isFaithful`).  No law of arithmetic is used.
-/
import Mathlib
import NumericMethods.Proofs.Control.StepCheck
import NumericMethods.Proofs.Scalar.Exact

namespace NumericMethods.Stationary

open DenseMatrix

variable {α : Type} [Scalar α] {n : ℕ} {g : AffineMap α n} {c : Control α} {x₀ : Vector α n}
variable {t : State α n} {states : List (State α n)}

/-- The rows of the vectors that a map sends an initial vector to, one after the other. -/
structure IsHistory (c : Control α) (g : AffineMap α n) (x₀ : List α)
    (rows : List (VectorRow α)) : Prop where
  head : rows.head? = some ⟨0, x₀, Control.initialError⟩
  index : rows.map VectorRow.index = List.range rows.length
  next : rows.IsChain fun r r' =>
    (∃ x : Vector α n, x.toList = r.point ∧ r'.point = (g.apply x).toList) ∧
      VectorRow.IsMeasured c r r'

/-- A solution and the trace of the run that has led to it. -/
structure IsFaithful (c : Control α) (x₀ : List α) (solution : StationarySolution α) : Prop where
  history : IsHistory c solution.map x₀ solution.trace.rows
  last : ∃ r, solution.trace.rows.getLast? = some r ∧ r.point = solution.x.toList ∧
    r.error < c.tolerance
  not_met : ∀ r ∈ solution.trace.rows.dropLast, ¬ r.error < c.tolerance
  length_le : solution.trace.rows.length ≤ c.maxIterations + 1

/-! ### States and rows -/

theorem map_index_of_isChain (hhead : states.head? = some t)
    (hchain : states.IsChain fun t t' => (process g c).step t = .ok t') :
    states.map State.index = List.range' t.index states.length := by
  induction states generalizing t with
  | nil => cases hhead
  | cons u states ih =>
    obtain rfl : u = t := Option.some.inj hhead
    cases states with
    | nil => rfl
    | cons u' states =>
      have hstep := (List.isChain_cons_cons.1 hchain).1
      rw [List.map_cons, ih rfl hchain.of_cons, (step_eq_ok_iff.1 hstep).1]
      rfl

/-- States that follow each other by steps leave a history. -/
theorem isHistory_of_isChain (hhead : states.head? = some (start x₀))
    (hchain : states.IsChain fun t t' => (process g c).step t = .ok t') :
    IsHistory c g x₀.toList (states.map State.row) := by
  constructor
  case head =>
    rw [List.head?_map, hhead]
    rfl
  case index =>
    have hindex := map_index_of_isChain hhead hchain
    rw [List.map_map, List.length_map, List.range_eq_range']
    exact hindex
  case next =>
    rw [List.isChain_map]
    refine hchain.imp fun t t' hstep => ⟨⟨t.x, rfl, ?_⟩, isMeasured_row hstep⟩
    change t'.x.toList = _
    rw [(step_eq_ok_iff.1 hstep).2.1]

theorem not_lt_of_isDone (h : (process g c).isDone c t = false) :
    ¬ t.row.error < c.tolerance := by
  rw [← Bool.not_eq_true, isDone_iff] at h
  exact h

/-! ### Runs that end -/

theorem isFaithful_of_runs (s : Stationary α) (h : (process g c).Runs c (start x₀) states)
    (hlength : states.length ≤ c.maxIterations + 1) :
    IsFaithful c x₀.toList (s.solutionOf g x₀ states) := by
  obtain ⟨t, hlast, hdone⟩ := h.getLast?_eq
  constructor
  case history =>
    apply isHistory_of_isChain h.head?_eq
    exact (h.isChain trivial fun _ _ _ _ => trivial).imp fun _ _ hstep => hstep.2
  case last =>
    refine ⟨t.row, ?_, ?_, isDone_iff.1 hdone⟩
    · rw [solutionOf, List.getLast?_map, hlast]
      rfl
    · change t.x.toList = (states.getLastD (start x₀)).x.toList
      rw [List.getLastD_eq_getLast?, hlast]
      rfl
  case not_met =>
    rw [solutionOf, ← List.map_dropLast, List.forall_mem_map]
    exact fun t ht => not_lt_of_isDone (h.isDone_of_mem_dropLast t ht)
  case length_le =>
    rw [solutionOf, List.length_map]
    exact hlength

/-! ### Runs that are given up -/

/-- No step of the map reports the budget. -/
theorem step_ne_noConvergence (t : State α n) (k : ℕ) :
    (process g c).step t ≠ .error (.noConvergence k) := by
  intro h
  obtain ⟨e, he⟩ := step_eq_error h
  cases he

theorem exists_history_of_run {k : ℕ}
    (h : (process g c).run c c.maxIterations (start x₀) = .error (.noConvergence k)) :
    k = c.maxIterations ∧ ∃ rows, IsHistory c g x₀.toList rows ∧
      rows.length = c.maxIterations + 1 ∧ ∀ r ∈ rows, ¬ r.error < c.tolerance := by
  obtain ⟨hk, states, hstates, hlength⟩ :=
    (Process.run_eq_noConvergence_iff step_ne_noConvergence).1 h
  refine ⟨hk, states.map State.row, isHistory_of_isChain hstates.head?_eq hstates.isChain, ?_, ?_⟩
  · rw [List.length_map, hlength]
  · rw [List.forall_mem_map]
    exact fun t ht => not_lt_of_isDone (hstates.isDone_eq t ht)

/-! ### Systems -/

/-- The trace of a solution is the history of the map that is returned with it, up to the
    first row whose error is below the tolerance.  A run that is given up reports the budget,
    and has a history of that many steps without such a row. -/
theorem trace_isFaithful (s : Stationary α) (A : List (List α)) (b x₀ : List α) (c : Control α) :
    (∀ solution, s.solve A b x₀ c = .ok solution → IsFaithful c x₀ solution ∧
      ∃ (M : DenseMatrix α solution.size solution.size) (v : Vector α solution.size),
        M.toRows = A ∧ v.toList = b ∧ s.affineMap M v = .ok solution.map) ∧
    ∀ k, s.solve A b x₀ c = .error (.noConvergence k) → k = c.maxIterations ∧
      ∃ (n : ℕ) (M : DenseMatrix α n n) (v : Vector α n) (g : AffineMap α n)
        (rows : List (VectorRow α)),
        M.toRows = A ∧ v.toList = b ∧ s.affineMap M v = .ok g ∧ IsHistory c g x₀ rows ∧
          rows.length = c.maxIterations + 1 ∧ ∀ r ∈ rows, ¬ r.error < c.tolerance := by
  constructor
  · intro solution h
    obtain ⟨n, M, v, x₀, hM, hv, rfl, hsolve⟩ := exists_of_solve_eq_ok h
    obtain ⟨-, -, g, hmap, hrun⟩ := solveSquare_eq_ok_iff.1 hsolve
    obtain ⟨states, ⟨hruns, hlength⟩, rfl⟩ := iterate_eq_ok_iff.1 hrun
    exact ⟨isFaithful_of_runs s hruns hlength, M, v, hM, hv, hmap⟩
  · intro k h
    obtain ⟨n, M, v, x₀, g, hM, hv, rfl, hmap, hrun⟩ := exists_of_solve_eq_noConvergence h
    obtain ⟨hk, rows, hhistory, hlength, hnone⟩ := exists_history_of_run hrun
    exact ⟨hk, n, M, v, g, rows, hM, hv, hmap, hhistory, hlength, hnone⟩

/-- The system is solved within ten steps, and given up after two. -/
theorem trace_isFaithful_gaussSeidel :
    let s : Stationary ℚ := .gaussSeidel
    let c : Control ℚ := ⟨1 / 100, 10, true⟩
    let c' : Control ℚ := ⟨1 / 100, 2, true⟩
    (∃ solution, s.solve [[4, 1], [1, 3]] [1, 2] [0, 0] c = .ok solution ∧
        3 < solution.trace.rows.length ∧ IsFaithful c [0, 0] solution) ∧
      s.solve [[4, 1], [1, 3]] [1, 2] [0, 0] c' = .error (.noConvergence 2) ∧
        ∃ (n : ℕ) (g : AffineMap ℚ n) (rows : List (VectorRow ℚ)),
          IsHistory c' g [0, 0] rows ∧ rows.length = 3 ∧ ∀ r ∈ rows, ¬ r.error < c'.tolerance := by
  intro s c c'
  obtain ⟨solution, hsolve, hlength⟩ : ∃ solution : StationarySolution ℚ,
      s.solve [[4, 1], [1, 3]] [1, 2] [0, 0] c = .ok solution ∧
        3 < solution.trace.rows.length :=
    exists_ok_of_any (by decide +kernel)
  obtain ⟨e, hfails, rfl⟩ : ∃ e, s.solve [[4, 1], [1, 3]] [1, 2] [0, 0] c' = .error e ∧
      e = .noConvergence 2 :=
    exists_error_of_any (by decide +kernel)
  obtain ⟨-, n, -, -, g, rows, -, -, -, hhistory, hrows, hnone⟩ :=
    (trace_isFaithful s _ _ _ c').2 2 hfails
  exact ⟨⟨solution, hsolve, hlength, ((trace_isFaithful s _ _ _ c).1 solution hsolve).1⟩,
    hfails, n, g, rows, hhistory, hrows, hnone⟩

end NumericMethods.Stationary
