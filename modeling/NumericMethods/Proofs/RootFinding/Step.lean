/-
  NumericMethods/Proofs/RootFinding/Step.lean
  ===========================================
  **What the root finders do, one step and one run at a time.**

  Each of the three processes gets two equivalences, and the further theorems about root
  finders use these and open no method again.

    * One step succeeds exactly if the next point exists, the formula has a value there and
      the error of the step is defined; all parts of the next state are then determined
      (`Bracket.step_eq_ok_iff`, `OnePoint.step_eq_ok_iff`, `Secant.step_eq_ok_iff`).
    * A root is found exactly if it is met before the first step, or if a run that fits
      into the budget ends (`Bracket.find_eq_ok_iff`, `OnePoint.find_eq_ok_iff`,
      `secant_eq_ok_iff`).

  A method that fails for want of convergence names its budget, since none of the other
  failures is of that kind (`Bracket.find_eq_noConvergence`,
  `OnePoint.find_eq_noConvergence`, `secant_eq_noConvergence`).
-/
import NumericMethods.Proofs.Control.Run
import NumericMethods.Proofs.NumericError
import NumericMethods.RootFinding.Bracketing
import NumericMethods.RootFinding.OpenMethods

namespace NumericMethods

variable {α : Type} [Scalar α] {f : Formula α} {c : Control α} {n : ℕ}

/-- The failure of a part of a method is not one of the budget. -/
def KeepsBudget {τ : Type} (x : Except (NumericError α) τ) : Prop :=
  ∀ n, x ≠ .error (.noConvergence n)

namespace KeepsBudget

variable {τ υ : Type}

omit [Scalar α] in
theorem ok (v : τ) : KeepsBudget (.ok v : Except (NumericError α) τ) := fun _ => nofun

omit [Scalar α] in
theorem liftDomain (x : Except (DomainError α) τ) : KeepsBudget (liftDomain x) := by
  intro n h
  obtain ⟨d, hd⟩ := liftDomain_eq_error h
  cases hd

omit [Scalar α] in
theorem bind {x : Except (NumericError α) τ} {k : τ → Except (NumericError α) υ}
    (hx : KeepsBudget x) (hk : ∀ v, KeepsBudget (k v)) : KeepsBudget (x >>= k) := by
  intro n h
  rcases bind_eq_error_iff.1 h with h | ⟨v, -, h⟩
  · exact hx n h
  · exact hk v n h

omit [Scalar α] in
theorem ite {p : Prop} [Decidable p] {x y : Except (NumericError α) τ} (hx : KeepsBudget x)
    (hy : KeepsBudget y) : KeepsBudget (if p then x else y) := by
  split
  · exact hx
  · exact hy

end KeepsBudget

/-- In absolute mode the error of a step is its size. -/
theorem Control.stepError_of_absolute (hc : c.relative = false) (new old : α) :
    c.stepError new old = .ok (Scalar.abs (new - old)) := by
  rw [stepError, measure, hc]
  rfl

/-- A run whose steps do not report the budget reports the one of its control. -/
theorem Process.run_eq_noConvergence {σ : Type} {p : Process α σ} {budget : ℕ} {s : σ}
    (hstep : ∀ t, KeepsBudget (p.step t))
    (h : p.run c budget s = .error (.noConvergence n)) : n = c.maxIterations :=
  ((run_eq_noConvergence_iff hstep).1 h).1

/-! ### Bracketing methods -/

namespace Bracket

variable {a b x : α} {k : Bracket α} {rule : Rule α} {s s' : State α}
variable {solution : RootSolution α (BracketRow α)}

theorem opened_eq_root (h : opened f a b = .ok (.root x)) :
    ∃ v, f.eval x = .ok v ∧ (v == 0) = true := by
  unfold opened at h
  split at h
  · cases h
  obtain ⟨fa, ha, h⟩ := bind_eq_ok_iff.1 h
  obtain ⟨fb, hb, h⟩ := bind_eq_ok_iff.1 h
  split at h
  · rename_i hzero
    cases h
    exact ⟨fa, liftDomain_eq_ok_iff.1 ha, hzero⟩
  split at h
  · rename_i hzero
    cases h
    exact ⟨fb, liftDomain_eq_ok_iff.1 hb, hzero⟩
  · split at h <;> cases h

theorem opened_eq_signChange (h : opened f a b = .ok (.signChange k)) :
    k.a = a ∧ k.b = b ∧ f.eval k.a = .ok k.fa ∧ f.eval k.b = .ok k.fb := by
  unfold opened at h
  split at h
  · cases h
  obtain ⟨fa, ha, h⟩ := bind_eq_ok_iff.1 h
  obtain ⟨fb, hb, h⟩ := bind_eq_ok_iff.1 h
  split at h
  · cases h
  split at h
  · cases h
  split at h
  · cases h
  · cases h
    exact ⟨rfl, rfl, liftDomain_eq_ok_iff.1 ha, liftDomain_eq_ok_iff.1 hb⟩

theorem start_eq_ok_iff : start rule f k = .ok s ↔
    s.bracket = k ∧ s.row.index = 0 ∧ s.row.a = k.a ∧ s.row.b = k.b ∧
      s.row.error = Control.initialError ∧ rule.point k = .ok s.row.mid ∧
        f.eval s.row.mid = .ok s.row.value := by
  obtain ⟨bracket, index, a, mid, b, value, error⟩ := s
  simp only [start, bind_eq_ok_iff, liftDomain_eq_ok_iff]
  constructor
  · rintro ⟨mid, hmid, fm, hfm, h⟩
    cases h
    exact ⟨rfl, rfl, rfl, rfl, rfl, hmid, hfm⟩
  · rintro ⟨rfl, rfl, rfl, rfl, rfl, hmid, hfm⟩
    exact ⟨mid, hmid, value, hfm, rfl⟩

theorem step_eq_ok_iff : step rule f c s = .ok s' ↔
    s'.bracket = s.bracket.narrowed rule s.row.mid s.row.value ∧
      s'.row.index = s.row.index + 1 ∧ s'.row.a = s'.bracket.a ∧ s'.row.b = s'.bracket.b ∧
        rule.point s'.bracket = .ok s'.row.mid ∧ f.eval s'.row.mid = .ok s'.row.value ∧
          c.stepError s'.row.mid s.row.mid = .ok s'.row.error := by
  obtain ⟨bracket, index, a, mid, b, value, error⟩ := s'
  simp only [step, bind_eq_ok_iff, liftDomain_eq_ok_iff]
  constructor
  · rintro ⟨mid, hmid, fm, hfm, e, he, h⟩
    cases h
    exact ⟨rfl, rfl, rfl, rfl, hmid, hfm, he⟩
  · rintro ⟨rfl, rfl, rfl, rfl, hmid, hfm, he⟩
    exact ⟨mid, hmid, value, hfm, error, he, rfl⟩

/-- The states of a run from the opened bracket that fits into the budget. -/
def IsRun (rule : Rule α) (f : Formula α) (a b : α) (c : Control α) (s : State α)
    (states : List (State α)) : Prop :=
  (∃ k, opened f a b = .ok (.signChange k) ∧ start rule f k = .ok s) ∧
    (process rule f c).Runs c s states ∧ states.length ≤ c.maxIterations + 1

theorem find_eq_ok_iff : find rule f a b c = .ok solution ↔
    (∃ x, opened f a b = .ok (.root x) ∧ solution = .immediate x) ∨
      ∃ s states, IsRun rule f a b c s states ∧ solution = Bracket.solution rule s states := by
  simp only [IsRun, ← Process.run_eq_ok_iff]
  unfold find
  rw [bind_eq_ok_iff]
  constructor
  · rintro ⟨opening, hopened, h⟩
    cases opening with
    | root x =>
      cases h
      exact .inl ⟨x, hopened, rfl⟩
    | signChange k =>
      obtain ⟨s, hs, h⟩ := bind_eq_ok_iff.1 h
      obtain ⟨states, hrun, h⟩ := bind_eq_ok_iff.1 h
      cases h
      exact .inr ⟨s, states, ⟨⟨k, hopened, hs⟩, hrun⟩, rfl⟩
  · rintro (⟨x, hopened, rfl⟩ | ⟨s, states, ⟨⟨k, hopened, hs⟩, hrun⟩, rfl⟩)
    · exact ⟨_, hopened, rfl⟩
    · exact ⟨_, hopened, bind_eq_ok_iff.2 ⟨s, hs, bind_eq_ok_iff.2 ⟨states, hrun, rfl⟩⟩⟩

theorem keepsBudget_opened : KeepsBudget (opened f a b) := by
  refine .ite (fun _ => nofun) (.bind (.liftDomain _) fun fa => .bind (.liftDomain _) fun fb => ?_)
  exact .ite (.ok _) (.ite (.ok _) (.ite (fun _ => nofun) (.ok _)))

theorem keepsBudget_step (hpoint : ∀ k, KeepsBudget (rule.point k)) (s : State α) :
    KeepsBudget (step rule f c s) :=
  .bind (hpoint _) fun _ => .bind (.liftDomain _) fun _ => .bind (.liftDomain _) fun _ => .ok _

theorem find_eq_noConvergence (hpoint : ∀ k, KeepsBudget (rule.point k))
    (h : find rule f a b c = .error (.noConvergence n)) : n = c.maxIterations := by
  rcases bind_eq_error_iff.1 h with h | ⟨opening, -, h⟩
  · exact absurd h (keepsBudget_opened n)
  cases opening with
  | root x => cases h
  | signChange k =>
    rcases bind_eq_error_iff.1 h with h | ⟨s, -, h⟩
    · have hstart : KeepsBudget (start rule f k) :=
        .bind (hpoint k) fun _ => .bind (.liftDomain _) fun _ => .ok _
      exact absurd h (hstart n)
    rcases bind_eq_error_iff.1 h with h | ⟨states, -, h⟩
    · exact Process.run_eq_noConvergence (keepsBudget_step hpoint) h
    · cases h

theorem keepsBudget_midpoint (k : Bracket α) : KeepsBudget (midpoint k) := .ok _

theorem keepsBudget_chordRoot (k : Bracket α) : KeepsBudget (chordRoot k) :=
  .ite (fun _ => nofun) (.ok _)

end Bracket

/-! ### Methods that look at one point -/

namespace OnePoint

variable {seed : α} {rule : Rule α} {r r' : PointRow α}
variable {solution : RootSolution α (PointRow α)}

theorem step_eq_ok_iff : step rule f c r = .ok r' ↔
    rule.next r.point r.value = .ok r'.point ∧ r'.index = r.index + 1 ∧
      f.eval r'.point = .ok r'.value ∧ c.stepError r'.point r.point = .ok r'.error := by
  obtain ⟨index, point, value, error⟩ := r'
  simp only [step, bind_eq_ok_iff, liftDomain_eq_ok_iff]
  constructor
  · rintro ⟨point, hpoint, e, he, value, hvalue, h⟩
    cases h
    exact ⟨hpoint, rfl, hvalue, he⟩
  · rintro ⟨hpoint, rfl, hvalue, he⟩
    exact ⟨point, hpoint, error, he, value, hvalue, rfl⟩

/-- The row before the first step. -/
def firstRow (seed value : α) : PointRow α := ⟨0, seed, value, Control.initialError⟩

/-- The rows of a run from the seed that fits into the budget. -/
def IsRun (rule : Rule α) (f : Formula α) (seed : α) (c : Control α) (r : PointRow α)
    (rows : List (PointRow α)) : Prop :=
  (∃ value, f.eval seed = .ok value ∧ (value == 0) = false ∧ r = firstRow seed value) ∧
    (process rule f c).Runs c r rows ∧ rows.length ≤ c.maxIterations + 1

theorem find_eq_ok_iff : find rule f seed c = .ok solution ↔
    (∃ value, f.eval seed = .ok value ∧ (value == 0) = true ∧ solution = .immediate seed) ∨
      ∃ r rows, IsRun rule f seed c r rows ∧
        solution = ⟨(rows.getLastD r).point, some ⟨rule.method, rows⟩⟩ := by
  simp only [IsRun, ← Process.run_eq_ok_iff]
  unfold find
  simp only [bind_eq_ok_iff, liftDomain_eq_ok_iff]
  constructor
  · rintro ⟨value, hvalue, h⟩
    split at h
    · rename_i hzero
      cases h
      exact .inl ⟨value, hvalue, hzero, rfl⟩
    · rename_i hzero
      obtain ⟨rows, hrun, h⟩ := bind_eq_ok_iff.1 h
      cases h
      exact .inr ⟨_, rows, ⟨⟨value, hvalue, Bool.eq_false_iff.2 hzero, rfl⟩, hrun⟩, rfl⟩
  · rintro (⟨value, hvalue, hzero, rfl⟩ | ⟨_, rows, ⟨⟨value, hvalue, hzero, rfl⟩, hrun⟩, rfl⟩)
    · refine ⟨value, hvalue, ?_⟩
      rw [if_pos hzero]
      rfl
    · refine ⟨value, hvalue, ?_⟩
      rw [if_neg (Bool.eq_false_iff.1 hzero)]
      exact bind_eq_ok_iff.2 ⟨rows, hrun, rfl⟩

theorem find_eq_noConvergence (hnext : ∀ x fx, KeepsBudget (rule.next x fx))
    (h : find rule f seed c = .error (.noConvergence n)) : n = c.maxIterations := by
  rcases bind_eq_error_iff.1 h with h | ⟨value, -, h⟩
  · exact absurd h (KeepsBudget.liftDomain _ n)
  split at h
  · cases h
  rcases bind_eq_error_iff.1 h with h | ⟨rows, -, h⟩
  · refine Process.run_eq_noConvergence (fun t => ?_) h
    exact .bind (hnext _ _) fun _ => .bind (.liftDomain _) fun _ =>
      .bind (.liftDomain _) fun _ => .ok _
  · cases h

theorem keepsBudget_fixedPointRule (g : Formula α) (x fx : α) :
    KeepsBudget ((fixedPointRule g).next x fx) := .liftDomain _

theorem keepsBudget_newtonRule (derivative : Formula α) (x fx : α) :
    KeepsBudget ((newtonRule derivative).next x fx) :=
  .bind (.liftDomain _) fun _ => .ite (fun _ => nofun) (.ok _)

theorem keepsBudget_multipleRule (derivative second : Formula α) (x fx : α) :
    KeepsBudget ((multipleRule derivative second).next x fx) :=
  .bind (.liftDomain _) fun _ => .bind (.liftDomain _) fun _ => .ite (fun _ => nofun) (.ok _)

end OnePoint

/-! ### The secant method -/

namespace Secant

variable {x₀ x₁ : α} {s s' : State α} {solution : RootSolution α (PointRow α)}

theorem step_eq_ok_iff : step f c s = .ok s' ↔
    next s = .ok s'.current.point ∧ s'.previous = s.current ∧
      s'.current.index = s.current.index + 1 ∧
        f.eval s'.current.point = .ok s'.current.value ∧
          c.stepError s'.current.point s.current.point = .ok s'.current.error := by
  obtain ⟨previous, index, point, value, error⟩ := s'
  simp only [step, bind_eq_ok_iff, liftDomain_eq_ok_iff]
  constructor
  · rintro ⟨point, hpoint, e, he, value, hvalue, h⟩
    cases h
    exact ⟨hpoint, rfl, rfl, hvalue, he⟩
  · rintro ⟨hpoint, rfl, rfl, hvalue, he⟩
    exact ⟨point, hpoint, error, he, value, hvalue, rfl⟩

/-- The state of the two seeds. -/
def start (x₀ x₁ f₀ f₁ : α) : State α :=
  ⟨⟨0, x₀, f₀, Control.initialError⟩, ⟨1, x₁, f₁, Control.initialError⟩⟩

/-- The rows that a run of states shows. -/
def rows (s : State α) (states : List (State α)) : List (PointRow α) :=
  s.previous :: states.map State.current

/-- The states of a run from the two seeds that fits into the budget, which the second seed
    is counted to. -/
def IsRun (f : Formula α) (x₀ x₁ : α) (c : Control α) (s : State α)
    (states : List (State α)) : Prop :=
  (∃ f₀ f₁, f.eval x₀ = .ok f₀ ∧ f.eval x₁ = .ok f₁ ∧ (f₀ == 0) = false ∧ (f₁ == 0) = false ∧
      s = start x₀ x₁ f₀ f₁) ∧
    (process f c).Runs c s states ∧ states.length ≤ c.maxIterations - 1 + 1

theorem secant_eq_ok_iff : secant f x₀ x₁ c = .ok solution ↔
    (∃ f₀ f₁, f.eval x₀ = .ok f₀ ∧ f.eval x₁ = .ok f₁ ∧
        ((f₀ == 0) = true ∧ solution = .immediate x₀ ∨
          (f₀ == 0) = false ∧ (f₁ == 0) = true ∧ solution = .immediate x₁)) ∨
      ∃ s states, IsRun f x₀ x₁ c s states ∧
        solution = ⟨((rows s states).getLastD s.current).point, some ⟨.secant, rows s states⟩⟩ := by
  simp only [IsRun, ← Process.run_eq_ok_iff]
  unfold secant
  simp only [bind_eq_ok_iff, liftDomain_eq_ok_iff]
  constructor
  · rintro ⟨f₀, hf₀, f₁, hf₁, h⟩
    split at h
    · rename_i hzero
      cases h
      exact .inl ⟨f₀, f₁, hf₀, hf₁, .inl ⟨hzero, rfl⟩⟩
    · rename_i hne
      replace hne := Bool.eq_false_iff.2 hne
      split at h
      · rename_i hzero
        cases h
        exact .inl ⟨f₀, f₁, hf₀, hf₁, .inr ⟨hne, hzero, rfl⟩⟩
      · rename_i hne'
        obtain ⟨states, hrun, h⟩ := bind_eq_ok_iff.1 h
        cases h
        exact .inr ⟨start x₀ x₁ f₀ f₁, states,
          ⟨⟨f₀, f₁, hf₀, hf₁, hne, Bool.eq_false_iff.2 hne', rfl⟩, hrun⟩, rfl⟩
  · rintro (⟨f₀, f₁, hf₀, hf₁, hseed⟩ | ⟨_, states, ⟨⟨f₀, f₁, hf₀, hf₁, hne, hne', rfl⟩, hrun⟩, rfl⟩)
    · refine ⟨f₀, hf₀, f₁, hf₁, ?_⟩
      rcases hseed with ⟨hzero, rfl⟩ | ⟨hne, hzero, rfl⟩
      · rw [if_pos hzero]
        rfl
      · rw [if_neg (Bool.eq_false_iff.1 hne), if_pos hzero]
        rfl
    · refine ⟨f₀, hf₀, f₁, hf₁, ?_⟩
      rw [if_neg (Bool.eq_false_iff.1 hne), if_neg (Bool.eq_false_iff.1 hne')]
      exact bind_eq_ok_iff.2 ⟨states, hrun, rfl⟩

theorem secant_eq_noConvergence (h : secant f x₀ x₁ c = .error (.noConvergence n)) :
    n = c.maxIterations := by
  rcases bind_eq_error_iff.1 h with h | ⟨f₀, -, h⟩
  · exact absurd h (KeepsBudget.liftDomain _ n)
  rcases bind_eq_error_iff.1 h with h | ⟨f₁, -, h⟩
  · exact absurd h (KeepsBudget.liftDomain _ n)
  split at h
  · cases h
  split at h
  · cases h
  rcases bind_eq_error_iff.1 h with h | ⟨states, -, h⟩
  · refine Process.run_eq_noConvergence (fun t => ?_) h
    have hnext : KeepsBudget (next t) := .ite (fun _ => nofun) (.ok _)
    exact .bind hnext fun _ => .bind (.liftDomain _) fun _ => .bind (.liftDomain _) fun _ => .ok _
  · cases h

end Secant

end NumericMethods
