/-
  NumericMethods/Proofs/Control/StepCheck.lean
  ============================================
  **When a run that ends has checked a step.**

  The rows of the seeds carry the initial error, a number that no step was measured by.  It
  is compared with the tolerance like every other error.  If it is not below the tolerance,
  a run ends in an exact root or by a step that was measured; if it is, the seeds alone
  count as a converged run, whatever the formula or the system (`ends_by_step_of_initial`).
  So a tolerance of more than the initial error is met by a bracket that was never halved
  (`bisection_converges_without_step`).
-/
import Mathlib
import NumericMethods.Proofs.RootFinding.Record
import NumericMethods.Proofs.Stationary.Run
import NumericMethods.Scalar.Binary64

namespace NumericMethods

variable {α : Type} [Scalar α] {f : Formula α} {c : Control α}

/-! ### The last step of a trace -/

/-- The last row is not one of the seeds, comes by a measured step from the row before, and
    its error is below the tolerance. -/
def EndsByStep {ρ : Type} [TraceRow ρ α] (c : Control α) (seeds : ℕ)
    (IsMeasured : ρ → ρ → Prop) (rows : List ρ) : Prop :=
  ∃ earlier r r', rows = earlier ++ [r, r'] ∧ seeds ≤ earlier.length + 1 ∧ IsMeasured r r' ∧
    TraceRow.error r' < c.tolerance

/-- The value in the last row is zero. -/
def EndsExactly (rows : List (PointRow α)) : Prop :=
  ∃ r, rows.getLast? = some r ∧ (r.value == 0) = true

/-- The error of the row is the one of the step between the points. -/
def PointRow.IsMeasured (c : Control α) (r r' : PointRow α) : Prop :=
  c.stepError r'.point r.point = .ok r'.error

/-- The error of the row is measured by the largest components of the step and the vector. -/
def VectorRow.IsMeasured (c : Control α) (r r' : VectorRow α) : Prop :=
  c.measure (Scalar.largestMagnitude (List.zipWith (· - ·) r'.point r.point))
    (Scalar.largestMagnitude r'.point) = .ok r'.error

omit [Scalar α] in
theorem exists_eq_append_pair {τ : Type} {l : List τ} (h : 1 < l.length) :
    ∃ l' a b, l = l' ++ [a, b] := by
  obtain rfl | ⟨l, b, rfl⟩ := List.eq_nil_or_concat l
  · simp at h
  obtain rfl | ⟨l, a, rfl⟩ := List.eq_nil_or_concat l
  · simp at h
  · exact ⟨l, a, b, by simp⟩

/-! ### Root finders -/

section Record

variable {seeds : ℕ} {rows : List (PointRow α)} {root : α}

/-- The error of the last seed was compared with the tolerance before the first step. -/
theorem IsRecord.length_le_seeds (h : IsRecord f c seeds rows root) (hseeds : 0 < seeds)
    (hinitial : (Control.initialError : α) < c.tolerance) : rows.length ≤ seeds := by
  by_contra hlength
  have hlt : seeds - 1 < rows.length := by omega
  have hseed : rows[seeds - 1] ∈ rows.take seeds :=
    List.mem_take_iff_getElem.2 ⟨seeds - 1, by omega, rfl⟩
  have hnext : rows.drop (seeds - 1 + 1) ≠ [] := by
    rw [Ne, List.drop_eq_nil_iff]
    omega
  rw [← h.seedError _ hseed] at hinitial
  refine h.not_met _ ?_ hinitial
  rw [List.drop_eq_getElem_cons hlt, List.dropLast_cons_of_ne_nil hnext]
  exact List.mem_cons_self

theorem IsRecord.endsByStep (h : IsRecord f c seeds rows root) (hseeds : 0 < seeds)
    (hinitial : ¬ (Control.initialError : α) < c.tolerance) :
    EndsExactly rows ∨ EndsByStep c seeds (PointRow.IsMeasured c) rows := by
  obtain ⟨r', hlast, -, hzero | hmet⟩ := h.last
  · exact .inl ⟨r', hlast, hzero⟩
  right
  -- a seed would carry the initial error
  have hlength : seeds < rows.length := by
    by_contra hle
    have hseed : r' ∈ rows.take seeds := by
      rw [List.take_of_length_le (Nat.le_of_not_lt hle)]
      exact List.mem_of_getLast? hlast
    rw [h.seedError r' hseed] at hmet
    exact hinitial hmet
  obtain ⟨earlier, r, r'', rfl⟩ := exists_eq_append_pair (by omega : 1 < rows.length)
  obtain rfl : r'' = r' := by simpa using hlast
  simp only [List.length_append, List.length_cons, List.length_nil] at hlength
  refine ⟨earlier, r, r'', rfl, by omega, ?_, hmet⟩
  have hchain := h.stepError
  rw [List.drop_append_of_le_length (by omega)] at hchain
  exact List.isChain_pair.1 hchain.right_of_append

end Record

omit [Scalar α] in
theorem RootSearch.seeds_pos (s : RootSearch α) : 0 < s.seeds := by
  cases s with
  | secant => exact Nat.two_pos
  | _ => exact Nat.one_pos

/-! ### Stationary iterations -/

namespace Stationary

open DenseMatrix

variable {n : ℕ} {g : AffineMap α n} {x₀ : Vector α n} {states : List (State α n)}

theorem isMeasured_row {t t' : State α n} (h : (process g c).step t = .ok t') :
    VectorRow.IsMeasured c t.row t'.row := by
  obtain ⟨-, -, hmeasure⟩ := step_eq_ok_iff.1 h
  rwa [normInf, normInf, subVec, Vector.toList_zipWith] at hmeasure

theorem length_le_one_of_runs (h : (process g c).Runs c (start x₀) states)
    (hinitial : (Control.initialError : α) < c.tolerance) : states.length ≤ 1 := by
  by_contra hlength
  have hgoes := h.isDone_of_one_lt_length (Nat.lt_of_not_le hlength)
  rw [isDone_iff.2 hinitial] at hgoes
  cases hgoes

theorem endsByStep_of_runs (h : (process g c).Runs c (start x₀) states)
    (hinitial : ¬ (Control.initialError : α) < c.tolerance) :
    EndsByStep c 1 (VectorRow.IsMeasured c) (states.map State.row) := by
  have hgoes : (process g c).isDone c (start x₀) = false := by
    rw [← Bool.not_eq_true, isDone_iff]
    exact hinitial
  obtain ⟨earlier, t, t', rfl, hstep, hdone⟩ := h.exists_eq_append (h.one_lt_length hgoes)
  refine ⟨earlier.map State.row, t.row, t'.row, by simp, by simp, isMeasured_row hstep, ?_⟩
  exact isDone_iff.1 hdone

end Stationary

/-! ### All iterative methods -/

/-- If the initial error is not below the tolerance, a run that ends has ended in an exact
    root or by a step that was measured; otherwise the seeds are all that it shows. -/
theorem ends_by_step_of_initial (c : Control α) :
    (∀ (s : RootSearch α) answer rows, s.answer c = .ok answer → answer.rows? = some rows →
      if (Control.initialError : α) < c.tolerance then rows.length ≤ s.seeds
      else EndsExactly rows ∨ EndsByStep c s.seeds (PointRow.IsMeasured c) rows) ∧
    ∀ (s : Stationary α) A b x₀ solution, s.solve A b x₀ c = .ok solution →
      if (Control.initialError : α) < c.tolerance then solution.trace.rows.length ≤ 1
      else EndsByStep c 1 (VectorRow.IsMeasured c) solution.trace.rows := by
  constructor
  · intro s answer rows hanswer hrows
    obtain ⟨hrecord, -⟩ := ((s.answer_isFaithful c).1 answer hanswer).record rows hrows
    split
    · exact hrecord.length_le_seeds s.seeds_pos ‹_›
    · exact hrecord.endsByStep s.seeds_pos ‹_›
  · intro s A b x₀ solution h
    obtain ⟨n, A, b, x₀, rfl, rfl, rfl, hsolve⟩ := Stationary.exists_of_solve_eq_ok h
    obtain ⟨-, -, g, -, hrun⟩ := Stationary.solveSquare_eq_ok_iff.1 hsolve
    obtain ⟨states, ⟨hruns, -⟩, rfl⟩ := Stationary.iterate_eq_ok_iff.1 hrun
    split
    · rw [Stationary.solutionOf, List.length_map]
      exact Stationary.length_le_one_of_runs hruns ‹_›
    · exact Stationary.endsByStep_of_runs hruns ‹_›

/-- Runs with a small tolerance, which end by a step, and with a tolerance of 200, which end
    before the first one. -/
theorem ends_by_step_of_initial_rational :
    let c : Control ℚ := ⟨1 / 10, 10, false⟩
    let c' : Control ℚ := ⟨200, 10, false⟩
    let s : RootSearch ℚ := .bisection (.sub (.mul (.var "x") (.var "x")) (.const 2)) 1 2
    let m : Stationary ℚ := .gaussSeidel
    (∃ answer rows, s.answer c = .ok answer ∧ answer.rows? = some rows ∧
        ¬ Control.initialError < c.tolerance ∧
          (EndsExactly rows ∨ EndsByStep c s.seeds (PointRow.IsMeasured c) rows)) ∧
      (∃ answer rows, s.answer c' = .ok answer ∧ answer.rows? = some rows ∧
        Control.initialError < c'.tolerance ∧ rows.length ≤ s.seeds) ∧
      (∃ solution, m.solve [[4, 1], [1, 3]] [1, 2] [0, 0] c = .ok solution ∧
        ¬ Control.initialError < c.tolerance ∧
          EndsByStep c 1 (VectorRow.IsMeasured c) solution.trace.rows) ∧
      ∃ solution, m.solve [[4, 1], [1, 3]] [1, 2] [0, 0] c' = .ok solution ∧
        Control.initialError < c'.tolerance ∧ solution.trace.rows.length ≤ 1 := by
  intro c c' s m
  have hc : ¬ Control.initialError < c.tolerance := by decide +kernel
  have hc' : Control.initialError < c'.tolerance := by decide +kernel
  refine ⟨?_, ?_, ?_, ?_⟩
  · obtain ⟨answer, hanswer, hsome⟩ : ∃ answer, s.answer c = .ok answer ∧
        answer.rows?.isSome = true := exists_ok_of_any (by decide +kernel)
    obtain ⟨rows, hrows⟩ := Option.isSome_iff_exists.1 hsome
    have hends := (ends_by_step_of_initial c).1 s answer rows hanswer hrows
    exact ⟨answer, rows, hanswer, hrows, hc, by rwa [if_neg hc] at hends⟩
  · obtain ⟨answer, hanswer, hsome⟩ : ∃ answer, s.answer c' = .ok answer ∧
        answer.rows?.isSome = true := exists_ok_of_any (by decide +kernel)
    obtain ⟨rows, hrows⟩ := Option.isSome_iff_exists.1 hsome
    have hends := (ends_by_step_of_initial c').1 s answer rows hanswer hrows
    exact ⟨answer, rows, hanswer, hrows, hc', by rwa [if_pos hc'] at hends⟩
  · obtain ⟨solution, hsolve, -⟩ : ∃ solution,
        m.solve [[4, 1], [1, 3]] [1, 2] [0, 0] c = .ok solution ∧ True :=
      exists_ok_of_any (by decide +kernel)
    have hends := (ends_by_step_of_initial c).2 m _ _ _ solution hsolve
    exact ⟨solution, hsolve, hc, by rwa [if_neg hc] at hends⟩
  · obtain ⟨solution, hsolve, -⟩ : ∃ solution,
        m.solve [[4, 1], [1, 3]] [1, 2] [0, 0] c' = .ok solution ∧ True :=
      exists_ok_of_any (by decide +kernel)
    have hends := (ends_by_step_of_initial c').2 m _ _ _ solution hsolve
    exact ⟨solution, hsolve, hc', by rwa [if_pos hc'] at hends⟩

/-- The middle of `[1, 2]` counts as a root of `x * x - 2` to within 200, and no step has been
    taken. -/
theorem bisection_converges_without_step :
    let c : Control Float := ⟨200, 10, false⟩
    let s : RootSearch Float := .bisection (.sub (.mul (.var "x") (.var "x")) (.const 2)) 1 2
    ∃ answer rows, s.answer c = .ok answer ∧ answer.rows? = some rows ∧
      ¬ (EndsExactly rows ∨ EndsByStep c s.seeds (PointRow.IsMeasured c) rows) := by
  intro c s
  obtain ⟨answer, hanswer, hrows⟩ : ∃ answer, s.answer c = .ok answer ∧
      answer.rows? = some [⟨0, 1.5, 0.25, 100⟩] := exists_ok_of_any (by decide +kernel)
  refine ⟨answer, _, hanswer, hrows, ?_⟩
  rintro (⟨r, hlast, hzero⟩ | ⟨earlier, r, r', hends, -⟩)
  · obtain rfl : (⟨0, 1.5, 0.25, 100⟩ : PointRow Float) = r := Option.some.inj hlast
    revert hzero
    decide +kernel
  · have hlength := congrArg List.length hends
    simp at hlength

end NumericMethods
