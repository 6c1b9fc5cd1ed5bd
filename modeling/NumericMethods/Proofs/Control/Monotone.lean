/-
  NumericMethods/Proofs/Control/Monotone.lean
  ===========================================
  **More budget changes nothing, and more tolerance only ends a run earlier.**

  A run that ends within a budget is the same run under every larger one, since the budget
  is no part of the relation `Process.Runs`.  A state that meets a tolerance meets every
  larger one, so that a run with more tolerance goes through the same states and stops at
  one of them (`Process.Runs.withTolerance`).  Both facts are about processes; every
  iterative method inherits them, and so does what it returns (`budget_and_tolerance_mono`).
-/
import Mathlib
import NumericMethods.Proofs.RootFinding.Search
import NumericMethods.Proofs.RootFinding.Step
import NumericMethods.Proofs.Scalar.Order
import NumericMethods.Proofs.Stationary.Run

namespace NumericMethods

variable {α : Type} [Scalar α] {f : Formula α} {c : Control α} {n : ℕ} {t : α}

/-! ### Other controls -/

namespace Control

/-- The same control with another budget. -/
def withBudget (c : Control α) (n : ℕ) : Control α := { c with maxIterations := n }

/-- The same control with another tolerance. -/
def withTolerance (c : Control α) (t : α) : Control α := { c with tolerance := t }

theorem isMet_withTolerance [Scalar.HasTransitiveOrder α] (ht : c.tolerance ≤ t) {error : α}
    (h : c.isMet error = true) : (c.withTolerance t).isMet error = true :=
  decide_eq_true (Scalar.HasTransitiveOrder.lt_of_lt_of_le (of_decide_eq_true h) ht)

end Control

/-- What returns a result under some control returns the same one under every larger budget,
    and one that it begins with under every larger tolerance. -/
structure IsMonotone {τ : Type} (Begins : τ → τ → Prop)
    (method : Control α → Except (NumericError α) τ) : Prop where
  budget : ∀ c v n, method c = .ok v → c.maxIterations ≤ n →
    method (c.withBudget n) = .ok v
  tolerance : ∀ c v t, method c = .ok v → c.tolerance ≤ t →
    ∃ v', method (c.withTolerance t) = .ok v' ∧ Begins v' v

/-! ### Runs -/

namespace Process

variable {σ : Type} {p : Process α σ} {s : σ} {states : List σ}

theorem isDone_withTolerance [Scalar.HasTransitiveOrder α] (ht : c.tolerance ≤ t)
    (h : p.isDone c s = true) : p.isDone (c.withTolerance t) s = true := by
  rw [isDone, Bool.or_eq_true] at h ⊢
  exact h.imp_left (Control.isMet_withTolerance ht)

theorem Runs.withBudget (h : p.Runs c s states) : p.Runs (c.withBudget n) s states := by
  induction h with
  | ends hdone => exact .ends hdone
  | goesOn hdone hstep hrest ih => exact .goesOn hdone hstep ih

/-- The run with more tolerance stops at the first state that meets it. -/
theorem Runs.withTolerance [Scalar.HasTransitiveOrder α] (h : p.Runs c s states)
    (ht : c.tolerance ≤ t) :
    ∃ earlier, p.Runs (c.withTolerance t) s earlier ∧ earlier <+: states := by
  induction h with
  | ends hdone => exact ⟨_, .ends (isDone_withTolerance ht hdone), List.prefix_rfl⟩
  | @goesOn s s' states hdone hstep hrest ih =>
    obtain ⟨earlier, hruns, hearlier⟩ := ih
    by_cases hmet : p.isDone (c.withTolerance t) s = true
    · exact ⟨[s], .ends hmet, (List.prefix_cons_inj s).2 List.nil_prefix⟩
    · refine ⟨s :: earlier, .goesOn (Bool.eq_false_iff.2 hmet) hstep hruns, ?_⟩
      exact (List.prefix_cons_inj s).2 hearlier

/-- A run that fits into a budget fits into every larger one. -/
theorem fits_withBudget (n : ℕ) {k m : ℕ} (h : p.Runs c s states ∧ states.length ≤ k + 1)
    (hkm : k ≤ m) : p.Runs (c.withBudget n) s states ∧ states.length ≤ m + 1 :=
  ⟨h.1.withBudget, h.2.trans (Nat.succ_le_succ hkm)⟩

theorem fits_withTolerance [Scalar.HasTransitiveOrder α] {k : ℕ}
    (h : p.Runs c s states ∧ states.length ≤ k) (ht : c.tolerance ≤ t) :
    ∃ earlier, (p.Runs (c.withTolerance t) s earlier ∧ earlier.length ≤ k) ∧
      earlier <+: states := by
  obtain ⟨earlier, hruns, hearlier⟩ := h.1.withTolerance ht
  exact ⟨earlier, ⟨hruns, hearlier.length_le.trans h.2⟩, hearlier⟩

end Process

/-! ### Answers -/

/-- A trace of the same method with the first rows of the other one. -/
def Trace.Begins {ρ : Type} (u v : Trace ρ) : Prop := u.method = v.method ∧ u.rows <+: v.rows

/-- A solution whose trace begins the one of the other, or the same one without a trace. -/
def RootSolution.Begins {ρ : Type} (u v : RootSolution α ρ) : Prop :=
  match u.trace, v.trace with
  | none, none => u.root = v.root
  | some u, some v => u.Begins v
  | _, _ => False

def RootAnswer.Begins : RootAnswer α → RootAnswer α → Prop
  | .bracketing u, .bracketing v => u.Begins v
  | .moving u, .moving v => u.Begins v
  | _, _ => False

def StationarySolution.Begins (u v : StationarySolution α) : Prop := u.trace.Begins v.trace

namespace IsMonotone

/-- A method inherits from another one whose results it wraps. -/
theorem map {τ υ : Type} {Begins : τ → τ → Prop} {Begins' : υ → υ → Prop} {wrap : τ → υ}
    {method : Control α → Except (NumericError α) τ} (h : IsMonotone Begins method)
    (hwrap : ∀ u v, Begins u v → Begins' (wrap u) (wrap v)) :
    IsMonotone Begins' fun c => method c >>= fun v => .ok (wrap v) where
  budget c _ n hmethod hn := by
    obtain ⟨v, hv, ⟨⟩⟩ := bind_eq_ok_iff.1 hmethod
    exact bind_eq_ok_iff.2 ⟨v, h.budget c v n hv hn, rfl⟩
  tolerance c _ t hmethod ht := by
    obtain ⟨v, hv, ⟨⟩⟩ := bind_eq_ok_iff.1 hmethod
    obtain ⟨v', hv', hbegins⟩ := h.tolerance c v t hv ht
    exact ⟨wrap v', bind_eq_ok_iff.2 ⟨v', hv', rfl⟩, hwrap v' v hbegins⟩

end IsMonotone

/-! ### Root finders -/

variable [Scalar.HasTransitiveOrder α]

namespace Bracket

theorem isMonotone_find (rule : Rule α) (f : Formula α) (a b : α) :
    IsMonotone RootSolution.Begins (find rule f a b) where
  budget c v n h hn := by
    rcases find_eq_ok_iff.1 h with hroot | ⟨s, states, ⟨hstart, hrun⟩, rfl⟩
    · exact find_eq_ok_iff.2 (.inl hroot)
    · have hrun' := Process.fits_withBudget n hrun hn
      exact find_eq_ok_iff.2 (.inr ⟨s, states, ⟨hstart, hrun'⟩, rfl⟩)
  tolerance c v t h ht := by
    rcases find_eq_ok_iff.1 h with ⟨x, hopened, rfl⟩ | ⟨s, states, ⟨hstart, hrun⟩, rfl⟩
    · exact ⟨_, find_eq_ok_iff.2 (.inl ⟨x, hopened, rfl⟩), rfl⟩
    · obtain ⟨earlier, hrun', hearlier⟩ := Process.fits_withTolerance hrun ht
      refine ⟨_, find_eq_ok_iff.2 (.inr ⟨s, earlier, ⟨hstart, hrun'⟩, rfl⟩), rfl, ?_⟩
      exact hearlier.map State.row

end Bracket

namespace OnePoint

theorem isMonotone_find (rule : Rule α) (f : Formula α) (seed : α) :
    IsMonotone RootSolution.Begins (find rule f seed) where
  budget c v n h hn := by
    rcases find_eq_ok_iff.1 h with hroot | ⟨r, rows, ⟨hstart, hrun⟩, rfl⟩
    · exact find_eq_ok_iff.2 (.inl hroot)
    · have hrun' := Process.fits_withBudget n hrun hn
      exact find_eq_ok_iff.2 (.inr ⟨r, rows, ⟨hstart, hrun'⟩, rfl⟩)
  tolerance c v t h ht := by
    rcases find_eq_ok_iff.1 h with ⟨value, hvalue, hzero, rfl⟩ | ⟨r, rows, ⟨hstart, hrun⟩, rfl⟩
    · exact ⟨_, find_eq_ok_iff.2 (.inl ⟨value, hvalue, hzero, rfl⟩), rfl⟩
    · obtain ⟨earlier, hrun', hearlier⟩ := Process.fits_withTolerance hrun ht
      exact ⟨_, find_eq_ok_iff.2 (.inr ⟨r, earlier, ⟨hstart, hrun'⟩, rfl⟩), rfl, hearlier⟩

end OnePoint

namespace Secant

theorem isMonotone_secant (f : Formula α) (x₀ x₁ : α) :
    IsMonotone RootSolution.Begins (secant f x₀ x₁) where
  budget c v n h hn := by
    rcases secant_eq_ok_iff.1 h with hroot | ⟨s, states, ⟨hstart, hrun⟩, rfl⟩
    · exact secant_eq_ok_iff.2 (.inl hroot)
    · have hrun' := Process.fits_withBudget n hrun (Nat.sub_le_sub_right hn 1)
      exact secant_eq_ok_iff.2 (.inr ⟨s, states, ⟨hstart, hrun'⟩, rfl⟩)
  tolerance c v t h ht := by
    rcases secant_eq_ok_iff.1 h with hroot | ⟨s, states, ⟨hstart, hrun⟩, rfl⟩
    · -- a seed that is a root is one under every control
      refine ⟨v, secant_eq_ok_iff.2 (.inl hroot), ?_⟩
      obtain ⟨f₀, f₁, -, -, ⟨-, rfl⟩ | ⟨-, -, rfl⟩⟩ := hroot <;> rfl
    · obtain ⟨earlier, hrun', hearlier⟩ := Process.fits_withTolerance hrun ht
      refine ⟨_, secant_eq_ok_iff.2 (.inr ⟨s, earlier, ⟨hstart, hrun'⟩, rfl⟩), rfl, ?_⟩
      exact (List.prefix_cons_inj _).2 (hearlier.map State.current)

end Secant

theorem RootSearch.isMonotone_answer (s : RootSearch α) :
    IsMonotone RootAnswer.Begins fun c => s.answer c := by
  cases s with
  | bisection f a b => exact (Bracket.isMonotone_find _ f a b).map fun _ _ h => h
  | falsePosition f a b => exact (Bracket.isMonotone_find _ f a b).map fun _ _ h => h
  | fixedPoint f g seed => exact (OnePoint.isMonotone_find _ f seed).map fun _ _ h => h
  | newton f seed => exact (OnePoint.isMonotone_find _ f seed).map fun _ _ h => h
  | multipleRoots f seed => exact (OnePoint.isMonotone_find _ f seed).map fun _ _ h => h
  | secant f x₀ x₁ => exact (Secant.isMonotone_secant f x₀ x₁).map fun _ _ h => h

/-! ### Stationary iterations -/

namespace Stationary

theorem isMonotone_solve (s : Stationary α) (rows : List (List α)) (b x₀ : List α) :
    IsMonotone StationarySolution.Begins (s.solve rows b x₀) where
  budget c v n h hn := by
    obtain ⟨_, A, b, x₀, rfl, rfl, rfl, hsolve⟩ := exists_of_solve_eq_ok h
    obtain ⟨hs, hdiagonal, g, hmap, hiterate⟩ := solveSquare_eq_ok_iff.1 hsolve
    obtain ⟨states, hrun, rfl⟩ := iterate_eq_ok_iff.1 hiterate
    have hrun' := Process.fits_withBudget n hrun hn
    rw [solve_toRows (ne_zero_of_affineMap hmap)]
    exact solveSquare_eq_ok_iff.2
      ⟨hs, hdiagonal, g, hmap, iterate_eq_ok_iff.2 ⟨states, hrun', rfl⟩⟩
  tolerance c v t h ht := by
    obtain ⟨_, A, b, x₀, rfl, rfl, rfl, hsolve⟩ := exists_of_solve_eq_ok h
    obtain ⟨hs, hdiagonal, g, hmap, hiterate⟩ := solveSquare_eq_ok_iff.1 hsolve
    obtain ⟨states, hrun, rfl⟩ := iterate_eq_ok_iff.1 hiterate
    obtain ⟨earlier, hrun', hearlier⟩ := Process.fits_withTolerance hrun ht
    rw [solve_toRows (ne_zero_of_affineMap hmap)]
    refine ⟨s.solutionOf g x₀ earlier, ?_, rfl, hearlier.map State.row⟩
    exact solveSquare_eq_ok_iff.2
      ⟨hs, hdiagonal, g, hmap, iterate_eq_ok_iff.2 ⟨earlier, hrun', rfl⟩⟩

end Stationary

/-! ### All iterative methods -/

/-- With more budget every method returns the same result, and with more tolerance one whose
    trace begins the trace of that result. -/
theorem budget_and_tolerance_mono :
    (∀ s : RootSearch α, IsMonotone RootAnswer.Begins fun c => s.answer c) ∧
      ∀ (s : Stationary α) A b x₀, IsMonotone StationarySolution.Begins (s.solve A b x₀) :=
  ⟨RootSearch.isMonotone_answer, Stationary.isMonotone_solve⟩

/-- Two steps of Newton's method on binary floating point numbers, of which the first is enough
    for a tolerance of one, and the same for the method of Gauss and Seidel on rational
    numbers. -/
theorem budget_and_tolerance_mono_two_steps :
    let c : Control Float := ⟨0.1, 10, false⟩
    let s : RootSearch Float := .newton (.sub (.mul (.var "x") (.var "x")) (.const 2)) 1
    let c' : Control ℚ := ⟨1 / 10, 10, false⟩
    let m : Stationary ℚ := .gaussSeidel
    (∃ answer, s.answer c = .ok answer ∧
        answer.rows?.map (List.map PointRow.point) = some [1, 1.5, 1.4166666666666667] ∧
          c.maxIterations ≤ 20 ∧ s.answer (c.withBudget 20) = .ok answer ∧ c.tolerance ≤ 1 ∧
            ∃ earlier, s.answer (c.withTolerance 1) = .ok earlier ∧ earlier.Begins answer) ∧
      ∃ solution, m.solve [[4, 1], [1, 3]] [1, 2] [0, 0] c' = .ok solution ∧
        solution.trace.rows.length = 4 ∧
          c'.maxIterations ≤ 20 ∧
            m.solve [[4, 1], [1, 3]] [1, 2] [0, 0] (c'.withBudget 20) = .ok solution ∧
              c'.tolerance ≤ 1 ∧
                ∃ earlier, m.solve [[4, 1], [1, 3]] [1, 2] [0, 0] (c'.withTolerance 1) =
                  .ok earlier ∧ earlier.Begins solution := by
  intro c s c' m
  constructor
  · obtain ⟨answer, hanswer, hpoints⟩ : ∃ answer, s.answer c = .ok answer ∧
        answer.rows?.map (List.map PointRow.point) = some [1, 1.5, 1.4166666666666667] :=
      exists_ok_of_any (by decide +kernel)
    have hbudget : c.maxIterations ≤ 20 := by decide
    have htolerance : c.tolerance ≤ 1 := by decide +kernel
    have hmono := (@budget_and_tolerance_mono Float _ _).1 s
    exact ⟨answer, hanswer, hpoints, hbudget, hmono.budget c answer 20 hanswer hbudget,
      htolerance, hmono.tolerance c answer 1 hanswer htolerance⟩
  · obtain ⟨solution, hsolution, hlength⟩ : ∃ solution : StationarySolution ℚ,
        m.solve [[4, 1], [1, 3]] [1, 2] [0, 0] c' = .ok solution ∧
          solution.trace.rows.length = 4 := exists_ok_of_any (by decide +kernel)
    have hbudget : c'.maxIterations ≤ 20 := by decide
    have htolerance : c'.tolerance ≤ 1 := by decide +kernel
    have hmono := (@budget_and_tolerance_mono ℚ _ _).2 m [[4, 1], [1, 3]] [1, 2] [0, 0]
    exact ⟨solution, hsolution, hlength, hbudget, hmono.budget c' solution 20 hsolution hbudget,
      htolerance, hmono.tolerance c' solution 1 hsolution htolerance⟩

end NumericMethods
