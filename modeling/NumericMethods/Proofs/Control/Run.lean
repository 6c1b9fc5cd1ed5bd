/-
  NumericMethods/Proofs/Control/Run.lean
  ======================================
  **The runs of an iterative process.**

  A run that ends is a list of states: every state but the last one is followed by its
  step, and the last one is the first that ends the process (`Process.Runs`).  The budget
  has no part in this relation.  `Process.run` returns a run exactly if it fits into the
  budget (`run_eq_ok_iff`), and where no step fails, it returns one as soon as a state
  within the budget ends the process (`exists_run`).

  A run that is given up leaves no states behind.  It has gone through one state more than
  there are steps in the budget, and none of them ends the process (`Process.Unfinished`,
  `run_eq_noConvergence_iff`).  Where what holds of a state is known from its number, both
  kinds of lists are built by `exists_numbered`.
-/
import Mathlib.Data.List.Chain
import Mathlib.Logic.Function.Iterate
import NumericMethods.Control

namespace NumericMethods.Process

variable {α σ : Type} [Scalar α] {p : Process α σ} {c : Control α} {s t t' : σ}
variable {states : List σ} {budget : ℕ}

/-- The list is the run of the process from a state. -/
inductive Runs (p : Process α σ) (c : Control α) : σ → List σ → Prop
  | ends {s : σ} : p.isDone c s = true → Runs p c s [s]
  | goesOn {s s' : σ} {states : List σ} : p.isDone c s = false → p.step s = .ok s' →
      Runs p c s' states → Runs p c s (s :: states)

theorem Runs.head?_eq (h : p.Runs c s states) : states.head? = some s := by
  cases h with
  | ends hdone => rfl
  | goesOn hdone hstep hrest => rfl

theorem Runs.length_pos (h : p.Runs c s states) : 0 < states.length :=
  List.length_pos_of_mem (List.mem_of_mem_head? h.head?_eq)

theorem Runs.ne_nil (h : p.Runs c s states) : states ≠ [] := List.length_pos_iff.1 h.length_pos

/-- What holds of the first state and is kept by every step of the run holds of all states,
    and consecutive states are linked by a step.  No step is taken from a state that ends
    the process. -/
theorem Runs.isChain_unfinished {P : σ → Prop} (h : p.Runs c s states) (hs : P s)
    (hkeep : ∀ t t', P t → p.isDone c t = false → p.step t = .ok t' → P t') :
    states.IsChain fun t t' => P t ∧ p.isDone c t = false ∧ p.step t = .ok t' := by
  induction h with
  | ends hdone => exact .singleton _
  | goesOn hdone hstep hrest ih =>
    have hchain := ih (hkeep _ _ hs hdone hstep)
    cases hrest with
    | ends _ => exact .cons_cons ⟨hs, hdone, hstep⟩ hchain
    | goesOn _ _ _ => exact .cons_cons ⟨hs, hdone, hstep⟩ hchain

theorem Runs.forall_mem_unfinished {P : σ → Prop} (h : p.Runs c s states) (hs : P s)
    (hkeep : ∀ t t', P t → p.isDone c t = false → p.step t = .ok t' → P t') :
    ∀ t ∈ states, P t := by
  induction h with
  | ends hdone => simpa using hs
  | goesOn hdone hstep hrest ih =>
    rw [List.forall_mem_cons]
    exact ⟨hs, ih (hkeep _ _ hs hdone hstep)⟩

/-- The same for what every step keeps. -/
theorem Runs.isChain {P : σ → Prop} (h : p.Runs c s states) (hs : P s)
    (hkeep : ∀ t t', P t → p.step t = .ok t' → P t') :
    states.IsChain fun t t' => P t ∧ p.step t = .ok t' :=
  (h.isChain_unfinished hs fun t t' ht _ => hkeep t t' ht).imp fun _ _ ht => ⟨ht.1, ht.2.2⟩

theorem Runs.forall_mem {P : σ → Prop} (h : p.Runs c s states) (hs : P s)
    (hkeep : ∀ t t', P t → p.step t = .ok t' → P t') : ∀ t ∈ states, P t :=
  h.forall_mem_unfinished hs fun t t' ht _ => hkeep t t' ht

/-- The last state ends the process. -/
theorem Runs.getLast?_eq (h : p.Runs c s states) :
    ∃ t, states.getLast? = some t ∧ p.isDone c t = true := by
  induction h with
  | ends hdone => exact ⟨_, rfl, hdone⟩
  | goesOn hdone hstep hrest ih =>
    obtain ⟨t, hlast, ht⟩ := ih
    refine ⟨t, ?_, ht⟩
    rw [List.getLast?_cons, hlast]
    rfl

/-- No state before the last one ends the process. -/
theorem Runs.isDone_of_mem_dropLast (h : p.Runs c s states) :
    ∀ t ∈ states.dropLast, p.isDone c t = false := by
  induction h with
  | ends hdone => exact nofun
  | goesOn hdone hstep hrest ih =>
    rw [List.dropLast_cons_of_ne_nil hrest.ne_nil, List.forall_mem_cons]
    exact ⟨hdone, ih⟩

/-- Consecutive states of a run are linked by a step, and the run goes on from the first
    of them. -/
theorem Runs.next (h : p.Runs c s states) {k : ℕ} (hk : states[k]? = some t)
    (hk' : states[k + 1]? = some t') : p.isDone c t = false ∧ p.step t = .ok t' := by
  induction h generalizing k with
  | ends hdone => simp at hk'
  | goesOn hdone hstep hrest ih =>
    cases k with
    | zero =>
      rw [List.getElem?_cons_succ, ← List.head?_eq_getElem?, hrest.head?_eq] at hk'
      cases hk
      cases hk'
      exact ⟨hdone, hstep⟩
    | succ k => exact ih hk hk'

/-- A run that takes a step ends with one, in a state that ends the process. -/
theorem Runs.exists_eq_append (h : p.Runs c s states) (hlength : 1 < states.length) :
    ∃ earlier t t', states = earlier ++ [t, t'] ∧ p.step t = .ok t' ∧ p.isDone c t' = true := by
  induction h with
  | ends hdone => simp at hlength
  | @goesOn s s' states hdone hstep hrest ih =>
    cases hrest with
    | ends hdone' => exact ⟨[], s, s', rfl, hstep, hdone'⟩
    | goesOn hdone' hstep' hrest' =>
      obtain ⟨earlier, t, t', heq, ht, hlast⟩ := ih (Nat.succ_lt_succ hrest'.length_pos)
      exact ⟨s :: earlier, t, t', by rw [heq, List.cons_append], ht, hlast⟩

theorem Runs.exists_last_step (h : p.Runs c s states) (hlength : 1 < states.length) :
    ∃ t t', p.step t = .ok t' ∧ p.isDone c t' = true ∧ states.getLast? = some t' := by
  obtain ⟨earlier, t, t', rfl, hstep, hdone⟩ := h.exists_eq_append hlength
  exact ⟨t, t', hstep, hdone, by simp⟩

theorem Runs.one_lt_length (h : p.Runs c s states) (hs : p.isDone c s = false) :
    1 < states.length := by
  cases h with
  | ends hdone =>
    rw [hs] at hdone
    cases hdone
  | goesOn _ _ hrest => exact Nat.succ_lt_succ hrest.length_pos

theorem Runs.isDone_of_one_lt_length (h : p.Runs c s states) (hlength : 1 < states.length) :
    p.isDone c s = false := by
  cases h with
  | ends _ => simp at hlength
  | goesOn hdone _ _ => exact hdone

theorem runs_iff_of_isDone (hdone : p.isDone c s = true) : p.Runs c s states ↔ states = [s] := by
  constructor
  · intro h
    cases h with
    | ends _ => rfl
    | goesOn hgoes _ _ =>
      rw [hdone] at hgoes
      cases hgoes
  · rintro rfl
    exact .ends hdone

theorem run_of_isDone (hdone : p.isDone c s = true) (budget : ℕ) :
    p.run c budget s = .ok [s] := by
  unfold run
  rw [if_pos hdone]

/-- The budget decides whether a run is returned, and has no other influence on it. -/
theorem run_eq_ok_iff :
    p.run c budget s = .ok states ↔ p.Runs c s states ∧ states.length ≤ budget + 1 := by
  induction budget generalizing s states with
  | zero =>
    by_cases hdone : p.isDone c s = true
    · rw [run_of_isDone hdone, runs_iff_of_isDone hdone, Except.ok.injEq, eq_comm]
      exact ⟨fun h => ⟨h, by simp [h]⟩, And.left⟩
    · unfold run
      rw [if_neg hdone]
      constructor
      · intro h
        cases h
      · rintro ⟨hruns, hlength⟩
        cases hruns with
        | ends h => exact absurd h hdone
        | goesOn _ _ hrest =>
          have := hrest.length_pos
          simp only [List.length_cons] at hlength
          omega
  | succ budget ih =>
    by_cases hdone : p.isDone c s = true
    · rw [run_of_isDone hdone, runs_iff_of_isDone hdone, Except.ok.injEq, eq_comm]
      exact ⟨fun h => ⟨h, by simp [h]⟩, And.left⟩
    · unfold run
      rw [if_neg hdone]
      constructor
      · intro h
        cases hstep : p.step s with
        | error e =>
          rw [hstep] at h
          cases h
        | ok s' =>
          simp only [hstep] at h
          cases hrest : p.run c budget s' with
          | error e =>
            rw [hrest] at h
            cases h
          | ok rest =>
            rw [hrest] at h
            cases h
            obtain ⟨hruns, hlength⟩ := ih.1 hrest
            exact ⟨.goesOn (Bool.eq_false_iff.2 hdone) hstep hruns, Nat.succ_le_succ hlength⟩
      · rintro ⟨hruns, hlength⟩
        cases hruns with
        | ends h => exact absurd h hdone
        | goesOn _ hstep hrest =>
          have hrun := ih.2 ⟨hrest, Nat.le_of_succ_le_succ hlength⟩
          simp only [hstep, hrun]

/-- Where no step fails, a run is returned if a state within the budget ends the process. -/
theorem exists_run {next : σ → σ} (hnext : ∀ s, p.step s = .ok (next s)) {k : ℕ}
    (hdone : p.isDone c (next^[k] s) = true) (hk : k ≤ budget) :
    ∃ states, p.run c budget s = .ok states := by
  induction k generalizing s budget with
  | zero => exact ⟨[s], run_of_isDone hdone budget⟩
  | succ k ih =>
    by_cases hs : p.isDone c s = true
    · exact ⟨[s], run_of_isDone hs budget⟩
    · obtain ⟨budget, rfl⟩ : ∃ m, budget = m + 1 := ⟨budget - 1, by omega⟩
      obtain ⟨rest, hrest⟩ := ih (s := next s) hdone (Nat.le_of_succ_le_succ hk)
      obtain ⟨hruns, hlength⟩ := run_eq_ok_iff.1 hrest
      refine ⟨s :: rest, run_eq_ok_iff.2 ⟨?_, Nat.succ_le_succ hlength⟩⟩
      exact .goesOn (Bool.eq_false_iff.2 hs) (hnext s) hruns

/-! ### Runs that are given up -/

/-- The list is the beginning of a run from a state that has not come to its end. -/
inductive Unfinished (p : Process α σ) (c : Control α) : σ → List σ → Prop
  | stops {s : σ} : p.isDone c s = false → Unfinished p c s [s]
  | goesOn {s s' : σ} {states : List σ} : p.isDone c s = false → p.step s = .ok s' →
      Unfinished p c s' states → Unfinished p c s (s :: states)

theorem Unfinished.head?_eq (h : p.Unfinished c s states) : states.head? = some s := by
  cases h with
  | stops hdone => rfl
  | goesOn hdone hstep hrest => rfl

theorem Unfinished.isDone_eq (h : p.Unfinished c s states) :
    ∀ t ∈ states, p.isDone c t = false := by
  induction h with
  | stops hdone => simpa using hdone
  | goesOn hdone hstep hrest ih => exact List.forall_mem_cons.2 ⟨hdone, ih⟩

theorem Unfinished.isDone_start (h : p.Unfinished c s states) : p.isDone c s = false :=
  h.isDone_eq s (List.mem_of_mem_head? h.head?_eq)

theorem Unfinished.isChain (h : p.Unfinished c s states) :
    states.IsChain fun t t' => p.step t = .ok t' := by
  induction h with
  | stops hdone => exact .singleton _
  | goesOn hdone hstep hrest ih =>
    refine List.isChain_cons.2 ⟨?_, ih⟩
    rw [hrest.head?_eq]
    rintro t' ⟨⟩
    exact hstep

/-- Where no step gives up, a run is given up exactly if as many steps as the budget has lead
    to no state that ends the process. -/
theorem run_eq_noConvergence_iff {n : ℕ} (hstep : ∀ t n, p.step t ≠ .error (.noConvergence n)) :
    p.run c budget s = .error (.noConvergence n) ↔ n = c.maxIterations ∧
      ∃ states, p.Unfinished c s states ∧ states.length = budget + 1 := by
  induction budget generalizing s with
  | zero =>
    by_cases hdone : p.isDone c s = true
    · rw [run_of_isDone hdone]
      exact iff_of_false nofun fun ⟨_, _, h, _⟩ => absurd hdone (Bool.eq_false_iff.1 h.isDone_start)
    · unfold run
      rw [if_neg hdone]
      constructor
      · intro h
        cases h
        exact ⟨rfl, [s], .stops (Bool.eq_false_iff.2 hdone), rfl⟩
      · rintro ⟨rfl, -⟩
        rfl
  | succ budget ih =>
    by_cases hdone : p.isDone c s = true
    · rw [run_of_isDone hdone]
      exact iff_of_false nofun fun ⟨_, _, h, _⟩ => absurd hdone (Bool.eq_false_iff.1 h.isDone_start)
    · unfold run
      rw [if_neg hdone]
      constructor
      · intro h
        cases hs : p.step s with
        | error e =>
          simp only [hs] at h
          cases h
          exact absurd hs (hstep s n)
        | ok s' =>
          simp only [hs] at h
          cases hrest : p.run c budget s' with
          | error e =>
            rw [hrest] at h
            cases h
            obtain ⟨hn, states, hstates, hlength⟩ := ih.1 hrest
            refine ⟨hn, s :: states, ?_, by rw [List.length_cons, hlength]⟩
            exact .goesOn (Bool.eq_false_iff.2 hdone) hs hstates
          | ok states =>
            rw [hrest] at h
            cases h
      · rintro ⟨hn, states, hstates, hlength⟩
        cases hstates with
        | stops _ => simp at hlength
        | goesOn _ hs hrest =>
          have hrun := ih.2 ⟨hn, _, hrest, Nat.succ.inj hlength⟩
          simp only [hs, hrun]

/-! ### States by their number -/

/-- Where the states can be numbered so that none before state `N` ends the process and each
    of them has a next one, there are the states up to number `N`.  Whether they are a run or
    only its beginning is decided by the last one. -/
theorem exists_numbered {R : σ → List σ → Prop} {P : ℕ → σ → Prop} {N : ℕ}
    (hgoesOn : ∀ {s s' states}, p.isDone c s = false → p.step s = .ok s' → R s' states →
      R s (s :: states))
    (hlast : ∀ t, P N t → R t [t])
    (hnext : ∀ n t, n < N → P n t →
      p.isDone c t = false ∧ ∃ t', p.step t = .ok t' ∧ P (n + 1) t')
    (hs : P 0 s) :
    ∃ states, R s states ∧ states.length = N + 1 ∧ ∀ n t, states[n]? = some t → P n t := by
  induction N generalizing P s with
  | zero =>
    refine ⟨[s], hlast s hs, rfl, ?_⟩
    intro n t ht
    obtain ⟨rfl, rfl⟩ : n = 0 ∧ s = t := by simpa [List.getElem?_singleton] using ht
    exact hs
  | succ N ih =>
    obtain ⟨hdone, s', hstep, hs'⟩ := hnext 0 s N.succ_pos hs
    -- from the next state on, all numbers are one less
    obtain ⟨states, hstates, hlength, hnumbered⟩ := ih (P := fun n => P (n + 1)) hlast
      (fun n t hn => hnext (n + 1) t (Nat.succ_lt_succ hn)) hs'
    refine ⟨s :: states, hgoesOn hdone hstep hstates, congrArg Nat.succ hlength, ?_⟩
    intro n t ht
    cases n with
    | zero =>
      cases ht
      exact hs
    | succ n => exact hnumbered n t ht

/-- A run fails for want of budget or by a step that fails. -/
theorem run_eq_error {e : NumericError α} (h : p.run c budget s = .error e) :
    e = .noConvergence c.maxIterations ∨ ∃ t, p.step t = .error e := by
  induction budget generalizing s with
  | zero =>
    unfold run at h
    split at h
    · cases h
    · cases h
      exact .inl rfl
  | succ budget ih =>
    unfold run at h
    split at h
    · cases h
    · cases hstep : p.step s with
      | error e' =>
        rw [hstep] at h
        cases h
        exact .inr ⟨s, hstep⟩
      | ok s' =>
        simp only [hstep] at h
        cases hrest : p.run c budget s' with
        | error e' =>
          rw [hrest] at h
          cases h
          exact ih hrest
        | ok rest =>
          rw [hrest] at h
          cases h

end NumericMethods.Process
