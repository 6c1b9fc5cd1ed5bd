/-
  NumericMethods/Proofs/Stationary/Run.lean
  =========================================
  **What a solved linear system says about the run behind it.**

  A solution is returned exactly if the method is admitted, the diagonal has no zero, the
  map exists, and the run of the map fits into the budget (`solveSquare_eq_ok_iff`).  Rows
  and lists that are solved are those of a square matrix and of two vectors
  (`exists_of_solve_eq_ok`), and the rows of such a matrix are solved like the matrix
  (`solve_toRows`).  A singular system is reported only where there is no map
  (`affineMap_eq_error_of_solve`), and a system is given up only by the run of its map
  (`exists_of_solve_eq_noConvergence`).  No law of arithmetic is used.
-/
import Mathlib.Data.List.OfFn
import NumericMethods.Proofs.Control.Run
import NumericMethods.Proofs.DenseMatrix.Rows
import NumericMethods.Stationary

namespace NumericMethods.Stationary

open DenseMatrix

variable {α : Type} [Scalar α] {n : ℕ} {s : Stationary α} {A : DenseMatrix α n n}
variable {b x₀ : Vector α n} {c : Control α} {g : AffineMap α n}

/-- The state before the first step. -/
def start (x₀ : Vector α n) : State α n := ⟨0, x₀, Control.initialError⟩

/-- The solution that a run of states stands for. -/
def solutionOf (s : Stationary α) (g : AffineMap α n) (x₀ : Vector α n)
    (states : List (State α n)) : StationarySolution α :=
  ⟨n, g, (states.getLastD (start x₀)).x, ⟨s.method, states.map State.row⟩⟩

theorem step_eq_ok_iff {t t' : State α n} : (process g c).step t = .ok t' ↔
    t'.index = t.index + 1 ∧ t'.x = g.apply t.x ∧
      c.measure (normInf (subVec t'.x t.x)) (normInf t'.x) = .ok t'.error := by
  change step g c t = .ok t' ↔ _
  obtain ⟨index, y, error⟩ := t'
  simp only [step]
  constructor
  · intro h
    cases hmeasure : c.measure (normInf (subVec (g.apply t.x) t.x)) (normInf (g.apply t.x)) with
    | error e =>
      rw [hmeasure] at h
      cases h
    | ok e =>
      rw [hmeasure] at h
      cases h
      exact ⟨rfl, rfl, hmeasure⟩
  · rintro ⟨hindex, hy, hmeasure⟩
    subst hindex hy
    rw [hmeasure]
    rfl

/-- The error alone decides whether a state ends the process. -/
theorem isDone_iff {t : State α n} : (process g c).isDone c t = true ↔ t.error < c.tolerance := by
  have hisMet : (process g c).isDone c t = c.isMet t.error := Bool.or_false _
  rw [hisMet, Control.isMet, decide_eq_true_iff]

theorem iterate_eq_ok_iff {solution : StationarySolution α} :
    s.iterate g x₀ c = .ok solution ↔ ∃ states,
      ((process g c).Runs c (start x₀) states ∧ states.length ≤ c.maxIterations + 1) ∧
        solution = s.solutionOf g x₀ states := by
  simp only [← Process.run_eq_ok_iff]
  unfold iterate
  change ((process g c).run c c.maxIterations (start x₀) >>= fun states =>
    .ok (s.solutionOf g x₀ states)) = .ok solution ↔ _
  cases (process g c).run c c.maxIterations (start x₀) with
  | error e =>
    constructor
    · intro h
      cases h
    · rintro ⟨states, h, -⟩
      cases h
  | ok states =>
    constructor
    · intro h
      cases h
      exact ⟨states, rfl, rfl⟩
    · rintro ⟨_, h, rfl⟩
      cases h
      rfl

theorem iterate_eq_error_iff {e : NumericError α} : s.iterate g x₀ c = .error e ↔
    (process g c).run c c.maxIterations (start x₀) = .error e := by
  unfold iterate
  change ((process g c).run c c.maxIterations (start x₀) >>= fun states =>
    .ok (s.solutionOf g x₀ states)) = .error e ↔ _
  cases (process g c).run c c.maxIterations (start x₀) with
  | error e' =>
    constructor
    · intro h
      cases h
      rfl
    · intro h
      cases h
      rfl
  | ok states => exact iff_of_false nofun nofun

theorem any_diagonal_eq_false_iff :
    A.diagonal.toList.any (· == 0) = false ↔ ∀ i, (A.entry i i == 0) = false := by
  rw [List.any_eq_false, DenseMatrix.diagonal, Vector.toList_ofFn]
  simp only [List.forall_mem_ofFn_iff, Bool.not_eq_true]

theorem solveSquare_eq_ok_iff {solution : StationarySolution α} :
    s.solveSquare A b x₀ c = .ok solution ↔
      s.isAdmitted = true ∧ (∀ i, (A.entry i i == 0) = false) ∧
        ∃ g, s.affineMap A b = .ok g ∧ s.iterate g x₀ c = .ok solution := by
  rw [← any_diagonal_eq_false_iff]
  unfold solveSquare
  cases s.isAdmitted with
  | false => simp
  | true =>
    cases A.diagonal.toList.any (· == 0) with
    | true => simp
    | false =>
      cases s.affineMap A b with
      | error e => simp [bind, Except.bind]
      | ok g => simp [bind, Except.bind]

/-- A square system is refused, has no map, or is left to the run of its map. -/
theorem solveSquare_cases (s : Stationary α) (A : DenseMatrix α n n) (b x₀ : Vector α n)
    (c : Control α) :
    s.solveSquare A b x₀ c = .error (.invalid .relaxation) ∨
      s.solveSquare A b x₀ c = .error (.invalid .zeroDiagonal) ∨
      (∃ e, s.affineMap A b = .error e ∧ s.solveSquare A b x₀ c = .error e) ∨
      ∃ g, s.affineMap A b = .ok g ∧ s.solveSquare A b x₀ c = s.iterate g x₀ c := by
  unfold solveSquare
  split
  · exact .inl rfl
  split
  · exact .inr (.inl rfl)
  cases s.affineMap A b with
  | error e => exact .inr (.inr (.inl ⟨e, rfl, rfl⟩))
  | ok g => exact .inr (.inr (.inr ⟨g, rfl, rfl⟩))

/-- The system without equations has no map. -/
theorem ne_zero_of_affineMap (h : s.affineMap A b = .ok g) : n ≠ 0 := by
  rintro rfl
  unfold affineMap at h
  cases hw : s.relaxation? with
  | none =>
    rw [hw] at h
    cases h
  | some w =>
    rw [hw] at h
    cases h

/-! ### Rows and lists -/

theorem solve_toRows (hn : n ≠ 0) :
    s.solve A.toRows b.toList x₀.toList c = s.solveSquare A b x₀ c := by
  unfold solve
  rw [ofRows_toRows A hn hn]
  simp only [liftLinear, Except.mapError, bind, Except.bind, square_of_square,
    vectorOfLength_toList]

/-- Rows and lists are the rows of a square matrix and two vectors, or their shapes are
    refused. -/
theorem solve_cases (s : Stationary α) (rows : List (List α)) (v x : List α) (c : Control α) :
    (∃ (n : ℕ) (A : DenseMatrix α n n) (b x₀ : Vector α n), A.toRows = rows ∧ b.toList = v ∧
        x₀.toList = x ∧ s.solve rows v x c = s.solveSquare A b x₀ c) ∨
      (∃ e, s.solve rows v x c = .error (.linear e)) ∨
      s.solve rows v x c = .error (.invalid .dimensions) := by
  unfold solve
  cases hrows : ofRows rows with
  | error e => exact .inr (.inl ⟨e, rfl⟩)
  | ok S =>
    simp only [liftLinear, Except.mapError, bind, Except.bind]
    cases hsquare : S.square? with
    | none => exact .inr (.inr rfl)
    | some q =>
      simp only
      split
      · rename_i b x₀ hb hx₀
        refine .inl ⟨q.size, q.matrix, b, x₀, ?_, toList_of_vectorOfLength hb,
          toList_of_vectorOfLength hx₀, rfl⟩
        rw [toRows_of_square hsquare, toRows_of_ofRows hrows]
      · exact .inr (.inr rfl)

/-- What is solved are the rows of a square matrix and two vectors. -/
theorem exists_of_solve_eq_ok {rows : List (List α)} {v x : List α}
    {solution : StationarySolution α} (h : s.solve rows v x c = .ok solution) :
    ∃ (n : ℕ) (A : DenseMatrix α n n) (b x₀ : Vector α n), A.toRows = rows ∧ b.toList = v ∧
      x₀.toList = x ∧ s.solveSquare A b x₀ c = .ok solution := by
  rcases s.solve_cases rows v x c with ⟨n, A, b, x₀, hA, hb, hx₀, heq⟩ | ⟨e, heq⟩ | heq
  · exact ⟨n, A, b, x₀, hA, hb, hx₀, heq.symm.trans h⟩
  · rw [heq] at h
    cases h
  · rw [heq] at h
    cases h

/-! ### Reports of a singular system -/

theorem step_eq_error {t : State α n} {e : NumericError α}
    (h : (process g c).step t = .error e) : ∃ e', e = .domain e' := by
  change step g c t = .error e at h
  simp only [step] at h
  cases hmeasure : c.measure (normInf (subVec (g.apply t.x) t.x)) (normInf (g.apply t.x)) with
  | error e' =>
    rw [hmeasure] at h
    cases h
    exact ⟨e', rfl⟩
  | ok error =>
    rw [hmeasure] at h
    cases h

theorem iterate_ne_singular (m : Method) :
    s.iterate g x₀ c ≠ .error (.invalid (.singularSystem m)) := by
  intro h
  rcases Process.run_eq_error (iterate_eq_error_iff.1 h) with heq | ⟨t, hstep⟩
  · cases heq
  · obtain ⟨e', heq⟩ := step_eq_error hstep
    cases heq

theorem affineMap_eq_error_of_solveSquare {m : Method}
    (h : s.solveSquare A b x₀ c = .error (.invalid (.singularSystem m))) :
    s.affineMap A b = .error (.invalid (.singularSystem m)) := by
  rcases s.solveSquare_cases A b x₀ c with heq | heq | ⟨e, hmap, heq⟩ | ⟨g, hmap, heq⟩
  · rw [heq] at h
    cases h
  · rw [heq] at h
    cases h
  · rw [heq] at h
    cases h
    exact hmap
  · exact absurd (heq.symm.trans h) (iterate_ne_singular m)

theorem solve_eq_error {e : NumericError α} (hn : n ≠ 0) (hs : s.isAdmitted = true)
    (hdiagonal : ∀ i, (A.entry i i == 0) = false) (h : s.affineMap A b = .error e) :
    s.solve A.toRows b.toList x₀.toList c = .error e := by
  rw [solve_toRows hn]
  unfold solveSquare
  rw [hs, any_diagonal_eq_false_iff.2 hdiagonal, h]
  rfl

/-- The report of a singular system is one of its map. -/
theorem affineMap_eq_error_of_solve {v x : List α} {m : Method}
    (h : s.solve A.toRows v x c = .error (.invalid (.singularSystem m))) :
    n ≠ 0 ∧ ∃ b : Vector α n, b.toList = v ∧
      s.affineMap A b = .error (.invalid (.singularSystem m)) := by
  by_cases hn : n = 0
  · -- without rows there is no matrix
    subst hn
    have hrows : A.toRows = [] := List.eq_nil_of_length_eq_zero (by simp [toRows])
    rw [hrows] at h
    cases h
  · refine ⟨hn, ?_⟩
    unfold solve at h
    simp only [ofRows_toRows A hn hn, liftLinear, Except.mapError, bind, Except.bind,
      square_of_square] at h
    split at h
    · rename_i b x₀ hb hx₀
      exact ⟨b, toList_of_vectorOfLength hb, affineMap_eq_error_of_solveSquare h⟩
    · cases h

/-! ### Runs that are given up -/

omit [Scalar α] in
theorem mapError_ofSystem_ne_noConvergence {τ : Type} (r : Except (LinearError α) τ) (m : Method)
    (k : ℕ) : r.mapError (NumericError.ofSystem m) ≠ .error (.noConvergence k) := by
  intro h
  cases r with
  | error e => cases e <;> cases h
  | ok v => cases h

theorem affineMap_ne_noConvergence (k : ℕ) : s.affineMap A b ≠ .error (.noConvergence k) :=
  mapError_ofSystem_ne_noConvergence _ _ k

/-- A system is given up only by the run of its map. -/
theorem exists_of_solve_eq_noConvergence {rows : List (List α)} {v x : List α} {k : ℕ}
    (h : s.solve rows v x c = .error (.noConvergence k)) :
    ∃ (n : ℕ) (A : DenseMatrix α n n) (b x₀ : Vector α n) (g : AffineMap α n),
      A.toRows = rows ∧ b.toList = v ∧ x₀.toList = x ∧ s.affineMap A b = .ok g ∧
        (process g c).run c c.maxIterations (start x₀) = .error (.noConvergence k) := by
  rcases s.solve_cases rows v x c with ⟨n, A, b, x₀, hA, hb, hx₀, heq⟩ | ⟨e, heq⟩ | heq
  · rw [heq] at h
    refine ⟨n, A, b, x₀, ?_⟩
    rcases s.solveSquare_cases A b x₀ c with heq' | heq' | ⟨e, hmap, heq'⟩ | ⟨g, hmap, heq'⟩
    · rw [heq'] at h
      cases h
    · rw [heq'] at h
      cases h
    · rw [heq'] at h
      cases h
      exact absurd hmap (affineMap_ne_noConvergence k)
    · exact ⟨g, hA, hb, hx₀, hmap, iterate_eq_error_iff.1 (heq'.symm.trans h)⟩
  · rw [heq] at h
    cases h
  · rw [heq] at h
    cases h

end NumericMethods.Stationary
