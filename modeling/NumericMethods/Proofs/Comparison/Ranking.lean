/-
  NumericMethods/Proofs/Comparison/Ranking.lean
  =============================================
  **The ranking of a comparison.**

  Runs are ranked by their steps, then by their scores, then by their methods, and
  interpolants, which take no steps, by the last two (`Comparison.InOrder`).  Scores are
  compared in the total order of the numbers, which places the undefined and the infinite
  ones as well; all that is asked of it is that it compares any two numbers and is
  transitive (`Scalar.HasTotalPreorder`).

  Two runs that are each in order before the other one have the same method
  (`Comparison.InOrder.method_eq`).  Reports with different methods can therefore be
  ranked in one way only, and the ranking does not depend on the order of the reports.
-/
import Mathlib
import NumericMethods.Comparison
import NumericMethods.Proofs.Scalar.TotalOrder

namespace NumericMethods

theorem Method.rank_injective : Function.Injective Method.rank := by
  intro m n h
  cases m <;> cases n <;> first | rfl | cases h

namespace MethodReport

variable {α : Type} {report : MethodReport α} {run : ConvergedRun α}

theorem run?_eq_some_iff : report.run? = some run ↔ report = .converged run := by
  cases report <;> simp [run?]

end MethodReport

namespace Comparison

variable {α : Type} [Scalar α] {family : Family} {r s t : ConvergedRun α}

/-! ### The order of runs -/

/-- The first run may stand before the second one in a ranking. -/
structure InOrder (family : Family) (r s : ConvergedRun α) : Prop where
  iterations : family ≠ .interpolation → r.iterations ≤ s.iterations
  /-- The score decides between runs with the same number of steps, and between all
      interpolants. -/
  score : (family ≠ .interpolation → r.iterations = s.iterations) →
    Scalar.totalLe r.score s.score = true
  /-- The method decides between runs whose scores are equal as well. -/
  method : (family ≠ .interpolation → r.iterations = s.iterations) →
    Scalar.totalLe s.score r.score = true → r.method.rank ≤ s.method.rank

theorem scoreBefore_iff {x y : α} {tie : Bool} :
    scoreBefore x y tie = true ↔
      Scalar.totalLe x y = true ∧ (Scalar.totalLe y x = true → tie = true) := by
  cases hyx : Scalar.totalLe y x <;> simp [scoreBefore, hyx]

theorem precedes_iff : precedes family r s = true ↔ InOrder family r s := by
  by_cases hfamily : family = .interpolation
  · subst hfamily
    simp only [precedes, scoreBefore_iff, decide_eq_true_eq]
    constructor
    · intro h
      exact ⟨fun hne => absurd rfl hne, fun _ => h.1, fun _ => h.2⟩
    · intro h
      have hsame : Family.interpolation ≠ .interpolation → r.iterations = s.iterations :=
        fun hne => absurd rfl hne
      exact ⟨h.score hsame, h.method hsame⟩
  · have hprecedes : precedes family r s = true ↔ r.iterations < s.iterations ∨
        r.iterations = s.iterations ∧ Scalar.totalLe r.score s.score = true ∧
          (Scalar.totalLe s.score r.score = true → r.method.rank ≤ s.method.rank) := by
      cases family with
      | interpolation => exact absurd rfl hfamily
      | _ => simp [precedes, scoreBefore_iff]
    rw [hprecedes]
    constructor
    · intro h
      rcases h with hlt | ⟨heq, hscore, hmethod⟩
      · exact ⟨fun _ => hlt.le, fun heq => absurd (heq hfamily) hlt.ne,
          fun heq => absurd (heq hfamily) hlt.ne⟩
      · exact ⟨fun _ => heq.le, fun _ => hscore, fun _ => hmethod⟩
    · intro h
      rcases (h.iterations hfamily).lt_or_eq with hlt | heq
      · exact .inl hlt
      · exact .inr ⟨heq, h.score fun _ => heq, h.method fun _ => heq⟩

namespace InOrder

open Scalar (HasTotalPreorder totalLe)

/-- Runs in order both ways took the same steps. -/
theorem iterations_eq (h : InOrder family r s) (h' : InOrder family s r) :
    family ≠ .interpolation → r.iterations = s.iterations :=
  fun hfamily => (h.iterations hfamily).antisymm (h'.iterations hfamily)

theorem method_eq (h : InOrder family r s) (h' : InOrder family s r) : r.method = s.method := by
  have hsteps := h.iterations_eq h'
  have hsteps' := h'.iterations_eq h
  apply Method.rank_injective
  exact (h.method hsteps (h'.score hsteps')).antisymm (h'.method hsteps' (h.score hsteps))

variable [HasTotalPreorder α]

theorem trans (h : InOrder family r s) (h' : InOrder family s t) : InOrder family r t := by
  -- equal numbers of steps at the ends leave no room for another one between them
  have hbetween : (family ≠ .interpolation → r.iterations = t.iterations) →
      (family ≠ .interpolation → r.iterations = s.iterations) ∧
        (family ≠ .interpolation → s.iterations = t.iterations) := by
    intro heq
    constructor
    all_goals
      intro hfamily
      have hrs := h.iterations hfamily
      have hst := h'.iterations hfamily
      have hrt := heq hfamily
      omega
  constructor
  case iterations => exact fun hfamily => (h.iterations hfamily).trans (h'.iterations hfamily)
  case score =>
    intro heq
    obtain ⟨hrs, hst⟩ := hbetween heq
    exact HasTotalPreorder.totalLe_trans _ _ _ (h.score hrs) (h'.score hst)
  case method =>
    intro heq hback
    obtain ⟨hrs, hst⟩ := hbetween heq
    have hsr := HasTotalPreorder.totalLe_trans _ _ _ (h'.score hst) hback
    have hts := HasTotalPreorder.totalLe_trans _ _ _ hback (h.score hrs)
    exact (h.method hrs hsr).trans (h'.method hst hts)

theorem total (family : Family) (r s : ConvergedRun α) :
    InOrder family r s ∨ InOrder family s r := by
  by_cases hsteps : family ≠ .interpolation → r.iterations = s.iterations
  · have hscores := HasTotalPreorder.totalLe_total r.score s.score
    rw [Bool.or_eq_true] at hscores
    have hle : family ≠ .interpolation → r.iterations ≤ s.iterations := fun h => (hsteps h).le
    have hge : family ≠ .interpolation → s.iterations ≤ r.iterations := fun h => (hsteps h).ge
    by_cases hrs : totalLe r.score s.score = true
    · by_cases hsr : totalLe s.score r.score = true
      · rcases Nat.le_total r.method.rank s.method.rank with hrank | hrank
        · exact .inl ⟨hle, fun _ => hrs, fun _ _ => hrank⟩
        · exact .inr ⟨hge, fun _ => hsr, fun _ _ => hrank⟩
      · exact .inl ⟨hle, fun _ => hrs, fun _ h => absurd h hsr⟩
    · exact .inr ⟨hge, fun _ => hscores.resolve_left hrs, fun _ h => absurd h hrs⟩
  · push Not at hsteps
    obtain ⟨hfamily, hne⟩ := hsteps
    rcases lt_or_gt_of_ne hne with hlt | hgt
    · exact .inl ⟨fun _ => hlt.le, fun h => absurd (h hfamily) hne,
        fun h => absurd (h hfamily) hne⟩
    · exact .inr ⟨fun _ => hgt.le, fun h => absurd (h hfamily).symm hne,
        fun h => absurd (h hfamily).symm hne⟩

end InOrder

/-! ### The ranking -/

variable {c : Comparison α} {run : ConvergedRun α}

theorem ranked_perm (c : Comparison α) :
    c.ranked.Perm (c.reports.filterMap MethodReport.run?) :=
  List.mergeSort_perm _ _

theorem mem_ranked_iff : run ∈ c.ranked ↔ .converged run ∈ c.reports := by
  rw [c.ranked_perm.mem_iff, List.mem_filterMap]
  simp only [MethodReport.run?_eq_some_iff]
  constructor
  · rintro ⟨report, hreport, rfl⟩
    exact hreport
  · intro h
    exact ⟨_, h, rfl⟩

theorem best?_eq_none_iff : c.best? = none ↔ ∀ run, .converged run ∉ c.reports := by
  simp only [best?, List.head?_eq_none_iff, List.eq_nil_iff_forall_not_mem, mem_ranked_iff]

/-- Runs of different methods are in order one way only. -/
theorem eq_of_inOrder (hmethods : (c.reports.map MethodReport.method).Nodup)
    (hr : r ∈ c.ranked) (hs : s ∈ c.ranked) (h : InOrder c.family r s)
    (h' : InOrder c.family s r) : r = s := by
  have hmethod : (MethodReport.converged r).method = (MethodReport.converged s).method :=
    h.method_eq h'
  have hreport := List.inj_on_of_nodup_map hmethods (mem_ranked_iff.1 hr) (mem_ranked_iff.1 hs)
    hmethod
  exact MethodReport.converged.inj hreport

variable [Scalar.HasTotalPreorder α]

theorem pairwise_ranked (c : Comparison α) : c.ranked.Pairwise (InOrder c.family) := by
  have hsorted : c.ranked.Pairwise fun r s => precedes c.family r s = true := by
    refine List.pairwise_mergeSort ?_ ?_ _
    · intro r s t hrs hst
      exact precedes_iff.2 ((precedes_iff.1 hrs).trans (precedes_iff.1 hst))
    · intro r s
      rw [Bool.or_eq_true, precedes_iff, precedes_iff]
      exact InOrder.total c.family r s
  exact hsorted.imp precedes_iff.1

/-- The best run stands before every run of the ranking, itself included. -/
theorem inOrder_of_best? (h : c.best? = some run) :
    ∀ s, .converged s ∈ c.reports → InOrder c.family run s := by
  intro s hs
  obtain ⟨rest, hranked⟩ := List.head?_eq_some_iff.1 h
  have hsorted := c.pairwise_ranked
  have hmem := mem_ranked_iff.2 hs
  rw [hranked] at hsorted hmem
  rcases List.mem_cons.1 hmem with rfl | hrest
  · exact (InOrder.total c.family s s).elim id id
  · exact (List.pairwise_cons.1 hsorted).1 s hrest

theorem ranked_eq_of_perm {reports : List (MethodReport α)}
    (hmethods : (c.reports.map MethodReport.method).Nodup) (hperm : reports.Perm c.reports) :
    ranked { c with reports := reports } = c.ranked := by
  have hsame : (ranked { c with reports := reports }).Perm c.ranked :=
    (ranked_perm _).trans ((hperm.filterMap _).trans c.ranked_perm.symm)
  refine hsame.eq_of_pairwise ?_ (pairwise_ranked _) c.pairwise_ranked
  intro r s hr hs h h'
  exact eq_of_inOrder hmethods (hsame.subset hr) hs h h'

/-- The ranking holds the runs that converged, each as often as it was reported and in
    order.  There is a best run if one converged, and no run is ranked before it.  Where
    all methods are different, neither depends on the order of the reports. -/
theorem ranking_keeps_converged_runs (c : Comparison α) :
    c.ranked.Perm (c.reports.filterMap MethodReport.run?) ∧
      c.ranked.Pairwise (InOrder c.family) ∧
      (c.best? = none ↔ ∀ run, .converged run ∉ c.reports) ∧
      (∀ run, c.best? = some run → .converged run ∈ c.reports ∧
        ∀ s, .converged s ∈ c.reports → InOrder c.family run s) ∧
      ((c.reports.map MethodReport.method).Nodup → ∀ reports, reports.Perm c.reports →
        ranked { c with reports := reports } = c.ranked ∧
          best? { c with reports := reports } = c.best?) := by
  refine ⟨c.ranked_perm, c.pairwise_ranked, best?_eq_none_iff, ?_, ?_⟩
  · intro run hbest
    exact ⟨mem_ranked_iff.1 (List.mem_of_mem_head? hbest), inOrder_of_best? hbest⟩
  · intro hmethods reports hperm
    have hranked := ranked_eq_of_perm hmethods hperm
    exact ⟨hranked, by rw [best?, best?, hranked]⟩

/-- An undefined score and a failed run: exchanging the reports changes nothing. -/
theorem ranking_of_undefined_score :
    let newton : MethodReport Float := .converged ⟨.newton, 5, 0 / 0, "1"⟩
    let secant : MethodReport Float := .converged ⟨.secant, 5, 1 / 4, "1"⟩
    let bisection : MethodReport Float := .failed .bisection (.noConvergence 3)
    let c : Comparison Float := ⟨.rootFinding, [newton, bisection, secant]⟩
    (c.reports.map MethodReport.method).Nodup ∧
      [secant, newton, bisection].Perm c.reports ∧
      ranked { c with reports := [secant, newton, bisection] } = c.ranked ∧
      c.best? ≠ none := by
  intro newton secant bisection c
  have hmethods : (c.reports.map MethodReport.method).Nodup := by decide
  have hperm : [secant, newton, bisection].Perm c.reports :=
    (List.Perm.swap newton secant _).trans (.cons _ (.swap bisection secant []))
  obtain ⟨-, -, hnone, -, horder⟩ := ranking_keeps_converged_runs c
  refine ⟨hmethods, hperm, (horder hmethods _ hperm).1, ?_⟩
  intro hbest
  exact hnone.1 hbest _ List.mem_cons_self

end Comparison

end NumericMethods
