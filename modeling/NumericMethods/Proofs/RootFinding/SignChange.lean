/-
  NumericMethods/Proofs/RootFinding/SignChange.lean
  =================================================
  **Whether a bracket keeps its change of sign.**

  A bracketing method multiplies two values and compares the product with zero, once when
  the bracket is opened and once in every step.  The product tells the signs of its factors
  apart unless it vanishes; it vanishes among binary floating point numbers where it is too
  small for the format.

    * A bracket with a change of sign is refused exactly if the product of the values at its
      ends vanishes (`opened_of_opposite`).
    * A step keeps the change of sign in the bracket unless it lies to the right of the point
      and the product that the rule looks at vanishes (`narrowed_iff`): then the part without
      it is kept, and nothing later brings it back.

  The run lemma is `Runs.forall_opposite_iff`; stated for rows, it says exactly when all
  rows of a trace show a change of sign (`sign_change_kept_iff`).  Bracketing methods
  therefore refuse valid brackets, and leave a root behind on which they seem to converge
  (`flat_line_loses_sign_change`).
-/
import Mathlib
import NumericMethods.Proofs.Formula.Evaluation
import NumericMethods.Proofs.RootFinding.Record
import NumericMethods.Proofs.Scalar.Sign

namespace NumericMethods

open Scalar (OppositeSigns SameSign HasSigns)

variable {α : Type} [Scalar α] {f : Formula α} {c : Control α}

namespace BracketRow

/-- The values of the formula at the ends of the bracket have opposite signs. -/
def HasSignChange (f : Formula α) (r : BracketRow α) : Prop :=
  ∃ fa fb, f.eval r.a = .ok fa ∧ f.eval r.b = .ok fb ∧ OppositeSigns fa fb

/-- The sign changes to the right of the point, and the product that is to show it, of the
    values at the left end, the point and the right end, vanishes. -/
def LosesSignChange (f : Formula α) (product : α → α → α → α) (r : BracketRow α) : Prop :=
  ∃ fa fb, f.eval r.a = .ok fa ∧ f.eval r.b = .ok fb ∧ OppositeSigns r.value fb ∧
    (product fa r.value fb == 0) = true

end BracketRow

namespace Bracket

variable {a b fa fb : α} {k : Bracket α} {rule : Rule α} {s s' : State α}
variable {states : List (State α)} {product : α → α → α → α}

/-! ### One step -/

/-- The rule keeps the right part of a bracket if the signs of the values show the change
    there and its product does not vanish. -/
def Rule.IsSignTest (rule : Rule α) (product : α → α → α → α) : Prop :=
  ∀ (k : Bracket α) fm, OppositeSigns k.fa k.fb → (fm < 0 ∨ 0 < fm) →
    (rule.keepsRight k fm = true ↔
      OppositeSigns fm k.fb ∧ (product k.fa fm k.fb == 0) = false)

section Signs

variable [HasSigns α]

theorem isSignTest_halving :
    (halving : Rule α).IsSignTest fun fa fm _ => fa * fm := by
  intro k fm hk hm
  change decide (0 < k.fa * fm) = true ↔ _
  rw [decide_eq_true_eq]
  rcases hk.split hm with ⟨hleft, hsame⟩ | ⟨hsame, hright⟩
  · rw [Scalar.mul_pos_iff (.inl hleft)]
    exact and_congr_left fun _ =>
      iff_of_false hleft.not_same fun hopposite => hopposite.not_same hsame
  · rw [Scalar.mul_pos_iff (.inr hsame)]
    exact and_congr_left fun _ => iff_of_true hsame hright

theorem isSignTest_chord : (chord : Rule α).IsSignTest fun _ fm fb => fm * fb := by
  intro k fm hk hm
  change decide (fm * k.fb < 0) = true ↔ _
  rw [decide_eq_true_eq]
  rcases hk.split hm with ⟨-, hsame⟩ | ⟨-, hright⟩
  · exact Scalar.mul_neg_iff (.inr hsame)
  · exact Scalar.mul_neg_iff (.inl hright)

/-- The part of a bracket that a step keeps has the change of sign, unless the change is to
    the right and the product vanishes. -/
theorem narrowed_iff (hrule : rule.IsSignTest product) (hk : OppositeSigns k.fa k.fb)
    (mid : α) {fm : α} (hm : fm < 0 ∨ 0 < fm) :
    OppositeSigns (k.narrowed rule mid fm).fa (k.narrowed rule mid fm).fb ↔
      ¬ (OppositeSigns fm k.fb ∧ (product k.fa fm k.fb == 0) = true) := by
  have htest := hrule k fm hk hm
  unfold narrowed
  by_cases hright : rule.keepsRight k fm = true
  · obtain ⟨hopposite, hne⟩ := htest.1 hright
    rw [if_pos hright]
    refine iff_of_true hopposite ?_
    rintro ⟨-, hzero⟩
    rw [hne] at hzero
    cases hzero
  · rw [if_neg hright]
    rcases hk.split hm with ⟨hleft, hsame⟩ | ⟨hsame, hopposite⟩
    · exact iff_of_true hleft fun h => h.1.not_same hsame
    · refine iff_of_false (fun h => h.not_same hsame) (not_not.2 ⟨hopposite, ?_⟩)
      by_contra hne
      exact hright (htest.2 ⟨hopposite, Bool.eq_false_iff.2 hne⟩)

/-- How a bracket with a change of sign is opened. -/
theorem opened_of_opposite (hab : ¬ b < a) (hfa : f.eval a = .ok fa) (hfb : f.eval b = .ok fb)
    (h : OppositeSigns fa fb) :
    opened f a b = if fa * fb == 0 then .error (.invalid (.noSignChange a b))
      else .ok (.signChange ⟨a, b, fa, fb⟩) := by
  have hne : ∀ {v : α}, (v < 0 ∨ 0 < v) → ¬ (v == 0) = true := by
    rintro v (hv | hv) h0
    · exact HasSigns.not_lt_of_zero h0 hv
    · exact HasSigns.not_pos_of_zero h0 hv
  have hfa0 : ¬ (fa == 0) = true := hne (h.imp And.left And.left)
  have hfb0 : ¬ (fb == 0) = true := hne (h.symm.imp And.right And.right)
  unfold opened
  rw [if_neg hab, liftDomain_eq_ok_iff.2 hfa, liftDomain_eq_ok_iff.2 hfb]
  change (if fa == 0 then _ else if fb == 0 then _ else if 0 ≤ fa * fb then _ else _) = _
  rw [if_neg hfa0, if_neg hfb0]
  by_cases hzero : (fa * fb == 0) = true
  · rw [if_pos hzero, if_pos ((Scalar.zero_le_mul_iff h).2 hzero)]
    rfl
  · rw [if_neg hzero, if_neg fun hle => hzero ((Scalar.zero_le_mul_iff h).1 hle)]
    rfl

/-! ### Runs -/

theorem State.IsSound.sign_cases (hs : s.IsSound rule f)
    (hdone : (process rule f c).isDone c s = false) : s.row.value < 0 ∨ 0 < s.row.value := by
  obtain ⟨hne, -⟩ := (shows rule f c).isDone_eq_false_iff.1 hdone
  rcases HasSigns.sign_cases (Formula.isFinite_of_eval_eq hs.value) with hneg | hzero | hpos
  · exact .inl hneg
  · exact absurd hzero (Bool.eq_false_iff.1 hne)
  · exact .inr hpos

/-- The change of sign stays in the bracket exactly as long as no product that is to show it
    vanishes. -/
theorem Runs.forall_opposite_iff (hrule : rule.IsSignTest product)
    (h : (process rule f c).Runs c s states) (hsound : s.IsSound rule f)
    (hs : OppositeSigns s.bracket.fa s.bracket.fb) :
    (∀ t ∈ states, OppositeSigns t.bracket.fa t.bracket.fb) ↔
      ∀ t ∈ states.dropLast, ¬ (OppositeSigns t.row.value t.bracket.fb ∧
        (product t.bracket.fa t.row.value t.bracket.fb == 0) = true) := by
  induction h with
  | ends hdone => exact iff_of_true (by simpa using hs) nofun
  | @goesOn s s' states hdone hstep hrest ih =>
    have hnarrowed := narrowed_iff hrule hs s.row.mid (hsound.sign_cases hdone)
    rw [← (step_eq_ok_iff.1 hstep).1] at hnarrowed
    rw [List.dropLast_cons_of_ne_nil hrest.ne_nil, List.forall_mem_cons, List.forall_mem_cons,
      ← hnarrowed]
    by_cases hs' : OppositeSigns s'.bracket.fa s'.bracket.fb
    · rw [ih (hsound.step hstep) hs']
      exact and_congr_left fun _ => iff_of_true hs hs'
    · have hmem : s' ∈ states := List.mem_of_mem_head? hrest.head?_eq
      exact iff_of_false (fun hall => hs' (hall.2 s' hmem)) fun hall => hs' hall.1

end Signs

theorem State.IsSound.eval_a (hs : s.IsSound rule f) : f.eval s.row.a = .ok s.bracket.fa := by
  rw [hs.a, hs.fa]

theorem State.IsSound.eval_b (hs : s.IsSound rule f) : f.eval s.row.b = .ok s.bracket.fb := by
  rw [hs.b, hs.fb]

/-- A state whose values are those of the formula shows them in its row. -/
theorem State.IsSound.exists_values_iff (hs : s.IsSound rule f) {P : α → α → Prop} :
    (∃ fa fb, f.eval s.row.a = .ok fa ∧ f.eval s.row.b = .ok fb ∧ P fa fb) ↔
      P s.bracket.fa s.bracket.fb := by
  rw [hs.eval_a, hs.eval_b]
  constructor
  · rintro ⟨fa, fb, hfa, hfb, h⟩
    cases hfa
    cases hfb
    exact h
  · exact fun h => ⟨_, _, rfl, rfl, h⟩

theorem State.IsSound.hasSignChange_iff (hs : s.IsSound rule f) :
    s.row.HasSignChange f ↔ OppositeSigns s.bracket.fa s.bracket.fb := hs.exists_values_iff

theorem State.IsSound.losesSignChange_iff (hs : s.IsSound rule f) :
    s.row.LosesSignChange f product ↔ OppositeSigns s.row.value s.bracket.fb ∧
      (product s.bracket.fa s.row.value s.bracket.fb == 0) = true := hs.exists_values_iff

/-! ### Searches -/

/-- The ways in which a bracketing method fails: the bracket is refused, a point or a value
    does not exist, or the budget is used up. -/
theorem find_eq_error {e : NumericError α} (h : find rule f a b c = .error e) :
    opened f a b = .error e ∨ (∃ k, rule.point k = .error e) ∨ (∃ d, e = .domain d) ∨
      e = .noConvergence c.maxIterations := by
  rcases bind_eq_error_iff.1 h with h | ⟨opening, -, h⟩
  · exact .inl h
  cases opening with
  | root x => cases h
  | signChange k =>
    rcases bind_eq_error_iff.1 h with h | ⟨s, -, h⟩
    · rcases bind_eq_error_iff.1 h with h | ⟨mid, -, h⟩
      · exact .inr (.inl ⟨k, h⟩)
      rcases bind_eq_error_iff.1 h with h | ⟨fm, -, h⟩
      · exact .inr (.inr (.inl (liftDomain_eq_error h)))
      · cases h
    rcases bind_eq_error_iff.1 h with h | ⟨states, -, h⟩
    · rcases Process.run_eq_error h with h | ⟨t, h⟩
      · exact .inr (.inr (.inr h))
      rcases bind_eq_error_iff.1 h with h | ⟨mid, -, h⟩
      · exact .inr (.inl ⟨_, h⟩)
      rcases bind_eq_error_iff.1 h with h | ⟨fm, -, h⟩
      · exact .inr (.inr (.inl (liftDomain_eq_error h)))
      rcases bind_eq_error_iff.1 h with h | ⟨error, -, h⟩
      · exact .inr (.inr (.inl (liftDomain_eq_error h)))
      · cases h
    · cases h

/-- What becomes of a change of sign, with the values `fa` and `fb` at the ends: the search
    refuses it exactly if the product of the two vanishes, and all rows of a trace show it
    exactly if it is lost in none of the rows that are followed by another one. -/
structure KeepsSignChange (f : Formula α) (fa fb : α) (product : α → α → α → α)
    (result : Except (NumericError α) (RootSolution α (BracketRow α))) : Prop where
  refused_iff : (∃ x y, result = .error (.invalid (.noSignChange x y))) ↔
    (fa * fb == 0) = true
  rows_iff : ∀ solution t, result = .ok solution → solution.trace = some t →
    ((∀ r ∈ t.rows, r.HasSignChange f) ↔
      ∀ r ∈ t.rows.dropLast, ¬ r.LosesSignChange f product)

theorem keepsSignChange_find [HasSigns α] (hrule : rule.IsSignTest product)
    (hpoint : ∀ k reason, rule.point k ≠ .error (.invalid reason)) (hab : ¬ b < a)
    (hfa : f.eval a = .ok fa) (hfb : f.eval b = .ok fb) (h : OppositeSigns fa fb) :
    KeepsSignChange f fa fb product (find rule f a b c) := by
  have hopened := opened_of_opposite hab hfa hfb h
  constructor
  case refused_iff =>
    constructor
    · rintro ⟨x, y, hresult⟩
      rcases find_eq_error hresult with hrefused | ⟨k, hk⟩ | ⟨d, hd⟩ | hbudget
      · by_contra hne
        rw [hopened, if_neg hne] at hrefused
        cases hrefused
      · exact absurd hk (hpoint k _)
      · cases hd
      · cases hbudget
    · intro hzero
      rw [if_pos hzero] at hopened
      exact ⟨a, b, bind_eq_error_iff.2 (.inl hopened)⟩
  case rows_iff =>
    intro solution t hsolution ht
    rcases find_eq_ok_iff.1 hsolution with ⟨x, -, rfl⟩ | ⟨s, states, hrun, rfl⟩
    · cases ht
    cases ht
    have hsound := hrun.2.1.forall_mem hrun.isSound fun _ _ hs hstep => hs.step hstep
    obtain ⟨⟨k, hk, hstart⟩, hruns, -⟩ := hrun
    -- the run starts from the given values
    have hs : OppositeSigns s.bracket.fa s.bracket.fb := by
      rw [hopened] at hk
      split at hk
      · cases hk
      · cases hk
        rw [(start_eq_ok_iff.1 hstart).1]
        exact h
    have hrows := Runs.forall_opposite_iff hrule hruns
      (hsound s (List.mem_of_mem_head? hruns.head?_eq)) hs
    rw [← List.map_dropLast, List.forall_mem_map, List.forall_mem_map]
    refine Iff.trans ?_ (hrows.trans ?_)
    · exact forall₂_congr fun t ht => (hsound t ht).hasSignChange_iff
    · refine forall₂_congr fun t ht => not_congr ?_
      exact (hsound t (List.mem_of_mem_dropLast ht)).losesSignChange_iff.symm

end Bracket

omit [Scalar α] in
/-- A solution with a trace that passes a test exists. -/
theorem exists_trace_of_any {ρ τ : Type} [DecidableEq τ]
    {x : Except (NumericError α) (RootSolution α ρ)} {g : Trace ρ → τ} {w : τ}
    (h : x.toOption.any (fun solution => decide (solution.trace.map g = some w)) = true) :
    ∃ solution t, x = .ok solution ∧ solution.trace = some t ∧ g t = w := by
  obtain ⟨solution, hsolution, htrace⟩ := exists_ok_of_any h
  obtain ⟨t, ht, hg⟩ := Option.map_eq_some_iff.1 htrace
  exact ⟨solution, t, hsolution, ht, hg⟩

/-! ### Binary floating point numbers -/

section Binary

open Binary64 (withLibrary)

/-- What bisection and false position make of a bracket with a change of sign, over every
    library of powers and elementary functions. -/
theorem sign_change_kept_iff (lib : Binary64.Library) :
    let _ := withLibrary lib
    ∀ (f : Formula Float) (a b fa fb : Float) (c : Control Float), a < b →
      f.eval a = .ok fa → f.eval b = .ok fb → OppositeSigns fa fb →
        Bracket.KeepsSignChange f fa fb (fun fa fm _ => fa * fm) (bisection f a b c) ∧
          Bracket.KeepsSignChange f fa fb (fun _ fm fb => fm * fb) (falsePosition f a b c) := by
  intro _ f a b fa fb c hab hfa hfb h
  have _ := Binary64.hasSigns lib
  have hnot := Binary64.lt_asymm hab
  constructor
  · exact Bracket.keepsSignChange_find Bracket.isSignTest_halving (fun _ _ => nofun) hnot hfa hfb h
  · refine Bracket.keepsSignChange_find Bracket.isSignTest_chord (fun k reason => ?_) hnot hfa hfb h
    change Bracket.chordRoot k ≠ _
    unfold Bracket.chordRoot
    split <;> nofun

/-- One step of both methods, on a bracket whose products do not vanish. -/
theorem sign_change_kept_iff_one_step :
    let _ := withLibrary Binary64.platform
    let f : Formula Float := .sub (.mul (.var "x") (.var "x")) (.const 2)
    let c : Control Float := ⟨0.3, 10, false⟩
    (1 : Float) < 2 ∧ f.eval 1 = .ok (-1) ∧ f.eval 2 = .ok 2 ∧ OppositeSigns (-1 : Float) 2 ∧
      (∃ solution t, bisection f 1 2 c = .ok solution ∧ solution.trace = some t ∧
        t.rows.map BracketRow.mid = [1.5, 1.25] ∧
          ((∀ r ∈ t.rows, r.HasSignChange f) ↔
            ∀ r ∈ t.rows.dropLast, ¬ r.LosesSignChange f fun fa fm _ => fa * fm)) ∧
      ∃ solution t, falsePosition f 1 2 c = .ok solution ∧ solution.trace = some t ∧
        t.rows.length = 2 ∧
          ((∀ r ∈ t.rows, r.HasSignChange f) ↔
            ∀ r ∈ t.rows.dropLast, ¬ r.LosesSignChange f fun _ fm fb => fm * fb) := by
  intro _ f c
  have hab : (1 : Float) < 2 := by decide +kernel
  have hfa : f.eval 1 = .ok (-1) := by decide +kernel
  have hfb : f.eval 2 = .ok 2 := by decide +kernel
  have hsigns : OppositeSigns (-1 : Float) 2 := .inl (by decide +kernel)
  obtain ⟨hbisection, hfalse⟩ :=
    sign_change_kept_iff Binary64.platform f 1 2 (-1) 2 c hab hfa hfb hsigns
  refine ⟨hab, hfa, hfb, hsigns, ?_, ?_⟩
  · obtain ⟨solution, t, hsolution, ht, hmids⟩ : ∃ solution t, bisection f 1 2 c = .ok solution ∧
        solution.trace = some t ∧ t.rows.map BracketRow.mid = [1.5, 1.25] :=
      exists_trace_of_any (by decide +kernel)
    exact ⟨solution, t, hsolution, ht, hmids, hbisection.rows_iff solution t hsolution ht⟩
  · obtain ⟨solution, t, hsolution, ht, hlength⟩ : ∃ solution t,
        falsePosition f 1 2 c = .ok solution ∧ solution.trace = some t ∧ t.rows.length = 2 :=
      exists_trace_of_any (by decide +kernel)
    exact ⟨solution, t, hsolution, ht, hlength, hfalse.rows_iff solution t hsolution ht⟩

/-- A line through zero that is too flat is refused on both sides of its root; on a flat line
    whose root is just to the right of the middle, the half without the root is kept. -/
theorem flat_line_loses_sign_change :
    let c : Control Float := ⟨0.3, 10, false⟩
    let f : Formula Float := .mul (.const 1e-200) (.var "x")
    let g : Formula Float := .mul (.const 1e-155) (.sub (.var "x") (.const 0.50000000000003))
    (f.eval (-1) = .ok (-1e-200) ∧ f.eval 1 = .ok 1e-200 ∧
        OppositeSigns (-1e-200 : Float) 1e-200 ∧
        bisection f (-1) 1 c = .error (.invalid (.noSignChange (-1) 1)) ∧
          falsePosition f (-1) 1 c = .error (.invalid (.noSignChange (-1) 1))) ∧
      ∃ solution t, bisection g 0 1 c = .ok solution ∧ solution.trace = some t ∧
        t.rows.map (fun r => (r.a, r.mid, r.b)) = [(0, 0.5, 1), (0, 0.25, 0.5)] ∧
          ∃ r ∈ t.rows, ¬ r.HasSignChange g := by
  intro c f g
  refine ⟨⟨by decide +kernel, by decide +kernel, .inl (by decide +kernel), by decide +kernel,
    by decide +kernel⟩, ?_⟩
  obtain ⟨solution, t, hsolution, ht, hends⟩ : ∃ solution t, bisection g 0 1 c = .ok solution ∧
      solution.trace = some t ∧
        t.rows.map (fun r => (r.a, r.mid, r.b)) = [(0, 0.5, 1), (0, 0.25, 0.5)] :=
    exists_trace_of_any (by decide +kernel)
  obtain ⟨r, hr, hlast⟩ := List.mem_map.1 (hends ▸ List.mem_cons_of_mem _ List.mem_cons_self :
    ((0, 0.25, 0.5) : Float × Float × Float) ∈ t.rows.map fun r => (r.a, r.mid, r.b))
  obtain ⟨ha, -, hb⟩ : r.a = 0 ∧ r.mid = 0.25 ∧ r.b = 0.5 := by simpa using hlast
  refine ⟨solution, t, hsolution, ht, hends, r, hr, ?_⟩
  -- both values at the ends of the last bracket are negative
  rintro ⟨fa, fb, hfa, hfb, hsigns⟩
  have hneg : fa < 0 ∧ fb < 0 := by
    rw [ha] at hfa
    rw [hb] at hfb
    have hboth : (g.eval 0).toOption.any (· < 0) ∧ (g.eval 0.5).toOption.any (· < 0) := by
      decide +kernel
    simpa [Except.toOption, hfa, hfb] using hboth
  have _ : HasSigns Float := Binary64.hasSigns Binary64.platform
  exact hsigns.not_same (.inl hneg)

end Binary

end NumericMethods
