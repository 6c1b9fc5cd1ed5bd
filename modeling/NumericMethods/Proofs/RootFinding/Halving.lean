/-
  NumericMethods/Proofs/RootFinding/Halving.lean
  ==============================================
  **How many steps bisection takes.**

  In exact arithmetic the bracket of row `n` is `2 ^ n` times narrower than the first one,
  whatever the formula, and the error of row `n`, the distance between two midpoints, is half
  of its width.  So the number of steps can be told from the bracket and the tolerance: it is
  the least number at which that error is small enough (`HalvingEnds`), or more than the
  budget allows (`bisection_takes_predicted_steps`).

  The brackets that are visited are described without the method (`Halves`): from each one
  halving goes on to the half in which the formula changes its sign.  A step of the method
  goes to the next level of this description and measures the error of the level
  (`State.IsLevel.exists_step`), and the states of a run are the levels up to the one at
  which the tolerance is met or the budget used up.
-/
import Mathlib
import NumericMethods.Proofs.RootFinding.Enclosure

namespace NumericMethods

open Scalar (OppositeSigns)

variable {K : Type} [Field K] [LinearOrder K] [IsStrictOrderedRing K] [ExactScalar K]
variable {f : Formula K} {c : Control K} {a b l u v fl fm fu : K} {n N : ℕ}

/-! ### Halving without the method -/

/-- The brackets that halving reaches from `[a, b]`, by the number of steps to them. -/
inductive Halves (f : Formula K) (a b : K) : ℕ → K → K → Prop
  | whole : Halves f a b 0 a b
  | left {n : ℕ} {l u fl fm : K} (h : Halves f a b n l u) (hl : f.eval l = .ok fl)
      (hm : f.eval ((l + u) / 2) = .ok fm) (hsigns : OppositeSigns fl fm) :
      Halves f a b (n + 1) l ((l + u) / 2)
  | right {n : ℕ} {l u fm fu : K} (h : Halves f a b n l u)
      (hm : f.eval ((l + u) / 2) = .ok fm) (hu : f.eval u = .ok fu)
      (hsigns : OppositeSigns fm fu) : Halves f a b (n + 1) ((l + u) / 2) u

theorem Halves.width (h : Halves f a b n l u) : u - l = (b - a) / 2 ^ n := by
  induction h with
  | whole => rw [pow_zero, div_one]
  | left _ _ _ _ ih =>
    rw [pow_succ, ← div_div, ← ih]
    ring
  | right _ _ _ _ ih =>
    rw [pow_succ, ← div_div, ← ih]
    ring

/-- After `n` steps, at least one, the next half of the bracket is below the tolerance. -/
structure HalvingEnds (c : Control K) (a b : K) (n : ℕ) : Prop where
  pos : 1 ≤ n
  small : (b - a) / 2 ^ (n + 1) < c.tolerance

/-- The bracket is reached within the budget and before the tolerance is met. -/
structure Visits (f : Formula K) (c : Control K) (a b : K) (n : ℕ) (l u : K) : Prop where
  halves : Halves f a b n l u
  budget : n ≤ c.maxIterations
  goesOn : ∀ m < n, ¬ HalvingEnds c a b m

/-- The formula has a value that is not zero at the midpoint of every bracket that is
    visited. -/
structure HasMidpointValues (f : Formula K) (c : Control K) (a b : K) : Prop where
  exists_value : ∀ n l u, Visits f c a b n l u → ∃ v, f.eval ((l + u) / 2) = .ok v ∧ v ≠ 0

/-- The rows of a run by halving: row `n` has the width and the error of the level `n`. -/
structure ShowsHalving (a b : K) (rows : List (BracketRow K)) : Prop where
  index : ∀ (n : ℕ) (r : BracketRow K), rows[n]? = some r → r.index = n
  width : ∀ (n : ℕ) (r : BracketRow K), rows[n]? = some r → r.b - r.a = (b - a) / 2 ^ n
  error : ∀ (n : ℕ) (r : BracketRow K), rows[n]? = some r → 1 ≤ n → r.error = (b - a) / 2 ^ (n + 1)

namespace Bracket

variable {s s' : State K} {k : Bracket K}

/-! ### One step -/

/-- The state of level `n`. -/
structure State.IsLevel (f : Formula K) (a b : K) (n : ℕ) (s : State K) : Prop where
  enclosing : s.IsEnclosing halving f
  halves : Halves f a b n s.bracket.a s.bracket.b
  index : s.row.index = n
  initial : n = 0 → s.row.error = Control.initialError
  error : 1 ≤ n → s.row.error = (b - a) / 2 ^ (n + 1)

theorem midpoint_eq (k : Bracket K) : halving.point k = .ok ((k.a + k.b) / 2) := by
  change Except.ok ((k.a + k.b) / Scalar.ofNat 2) = _
  rw [ExactScalar.ofNat_eq, Nat.cast_ofNat]

theorem State.IsEnclosing.mid_eq (hs : s.IsEnclosing halving f) :
    s.row.mid = (s.bracket.a + s.bracket.b) / 2 :=
  (Except.ok.inj ((midpoint_eq s.bracket).symm.trans hs.sound.point)).symm

/-- The part that is kept is the half with the change of sign, and its midpoint is half its
    width away from the last one. -/
theorem State.IsEnclosing.halves_narrowed (hs : s.IsEnclosing halving f)
    (hhalves : Halves f a b n s.bracket.a s.bracket.b) (hvalue : s.row.value ≠ 0)
    (hk : s.bracket.narrowed halving s.row.mid s.row.value = k) :
    Halves f a b (n + 1) k.a k.b ∧ |(k.a + k.b) / 2 - s.row.mid| = (k.b - k.a) / 2 := by
  have hsigns := Rule.IsSignTest.opposite_narrowed isSignTest_halving
    (fun ha hm _ => mul_ne_zero ha hm) hs.signs s.row.mid (lt_or_lt_iff_ne.2 hvalue)
  have hmid := hs.sound.value
  obtain ⟨hleft, hright⟩ := hs.inside isInside_midpoint
  rw [hk] at hsigns
  subst hk
  unfold narrowed at hsigns ⊢
  split at hsigns
  · rename_i hkeeps
    rw [if_pos hkeeps]
    constructor
    · rw [hs.mid_eq] at hmid ⊢
      exact hhalves.right hmid hs.sound.fb hsigns
    · dsimp only
      rw [abs_of_pos (by linarith)]
      ring
  · rename_i hkeeps
    rw [if_neg hkeeps]
    constructor
    · rw [hs.mid_eq] at hmid ⊢
      exact hhalves.left hs.sound.fa hmid hsigns
    · dsimp only
      rw [abs_of_neg (by linarith)]
      ring

/-- A level that is visited ends the run exactly if the tolerance is met there. -/
theorem State.IsLevel.isDone_iff (hs : s.IsLevel f a b n) (htolerance : c.tolerance ≤ 100)
    (hmid : HasMidpointValues f c a b) (hn : n ≤ c.maxIterations)
    (hgoesOn : ∀ m < n, ¬ HalvingEnds c a b m) :
    (process halving f c).isDone c s = true ↔ HalvingEnds c a b n := by
  have hvalue : s.row.value ≠ 0 := by
    obtain ⟨v, hv, hne⟩ := hmid.exists_value n _ _ ⟨hs.halves, hn, hgoesOn⟩
    rw [← hs.enclosing.mid_eq, hs.enclosing.sound.value] at hv
    cases hv
    exact hne
  rw [(shows halving f c).isDone_eq_true_iff]
  change (s.row.value == 0) = true ∨ s.row.error < c.tolerance ↔ _
  rw [ExactScalar.beq_iff, or_iff_right hvalue]
  rcases Nat.eq_zero_or_pos n with hzero | hpos
  · -- the first row carries the initial error, which is not below the tolerance
    rw [hs.initial hzero, Control.initialError, ExactScalar.ofNat_eq]
    refine iff_of_false (not_lt.2 htolerance) fun hends => ?_
    exact absurd hends.pos (by rw [hzero]; exact Nat.not_succ_le_zero 0)
  · rw [hs.error hpos]
    exact ⟨fun hsmall => ⟨hpos, hsmall⟩, HalvingEnds.small⟩

theorem State.IsLevel.exists_step (hs : s.IsLevel f a b n) (hc : c.relative = false)
    (hdone : (process halving f c).isDone c s = false)
    (hnext : ∀ l u, Halves f a b (n + 1) l u → ∃ v, f.eval ((l + u) / 2) = .ok v) :
    ∃ s', step halving f c s = .ok s' ∧ s'.IsLevel f a b (n + 1) := by
  obtain ⟨hvalue, -⟩ := (shows halving f c).isDone_eq_false_iff.1 hdone
  obtain ⟨hhalves, hdistance⟩ := hs.enclosing.halves_narrowed hs.halves
    (ExactScalar.beq_eq_false_iff.1 hvalue) rfl
  obtain ⟨fm, hfm⟩ := hnext _ _ hhalves
  let k := s.bracket.narrowed halving s.row.mid s.row.value
  let error := |(k.a + k.b) / 2 - s.row.mid|
  let s' : State K := ⟨k, ⟨s.row.index + 1, k.a, (k.a + k.b) / 2, k.b, fm, error⟩⟩
  have hstep : step halving f c s = .ok s' :=
    step_eq_ok_iff.2 ⟨rfl, rfl, rfl, rfl, midpoint_eq k, hfm, Control.stepError_of_absolute hc _ _⟩
  refine ⟨s', hstep, ?_⟩
  constructor
  case enclosing =>
    exact hs.enclosing.step isInside_midpoint isSignTest_halving
      (fun ha hm _ => mul_ne_zero ha hm) hdone hstep
  case halves => exact hhalves
  case index => exact congrArg Nat.succ hs.index
  case initial => exact fun hzero => absurd hzero n.succ_ne_zero
  case error =>
    intro _
    change |(k.a + k.b) / 2 - s.row.mid| = _
    rw [hdistance, hhalves.width, div_div, ← pow_succ]

/-- The bracket of a level is as wide as the number of halvings says, and the formula changes
    its sign within half of that from the midpoint, on both sides. -/
theorem State.IsLevel.around_mid (hs : s.IsLevel f a b n) :
    ∃ l u fl fu, f.eval l = .ok fl ∧ f.eval u = .ok fu ∧ fl * fu < 0 ∧
      |s.row.mid - l| = (b - a) / 2 ^ (n + 1) ∧ |s.row.mid - u| = (b - a) / 2 ^ (n + 1) := by
  obtain ⟨⟨fl, fu, hl, hu, hsigns⟩, hleft, hright⟩ := hs.enclosing.isBracket isInside_midpoint
  refine ⟨_, _, fl, fu, hl, hu, hsigns, ?_, ?_⟩
  · rw [abs_of_pos (sub_pos.2 hleft), pow_succ, ← div_div, ← hs.halves.width, hs.enclosing.mid_eq,
      hs.enclosing.sound.a]
    ring
  · rw [abs_of_neg (sub_neg.2 hright), pow_succ, ← div_div, ← hs.halves.width, hs.enclosing.mid_eq,
      hs.enclosing.sound.b]
    ring

/-! ### Runs -/

section Runs

variable {fa fb : K}

theorem exists_start (hab : a < b) (hfa : f.eval a = .ok fa) (hfb : f.eval b = .ok fb)
    (hsigns : fa * fb < 0) (hmid : f.eval ((a + b) / 2) = .ok v) :
    ∃ k s, opened f a b = .ok (.signChange k) ∧ start halving f k = .ok s ∧
      s.IsLevel f a b 0 := by
  let k : Bracket K := ⟨a, b, fa, fb⟩
  let s : State K := ⟨k, ⟨0, a, (a + b) / 2, b, v, Control.initialError⟩⟩
  have hopposite : OppositeSigns fa fb := (mul_neg_iff.1 hsigns).symm
  have hopened : opened f a b = .ok (.signChange k) := by
    rw [opened_of_opposite hab.not_gt hfa hfb hopposite, if_neg]
    exact fun hzero => hsigns.ne (ExactScalar.beq_iff.1 hzero)
  refine ⟨k, s, hopened, ?_, ?_⟩
  · exact start_eq_ok_iff.2 ⟨rfl, rfl, rfl, rfl, rfl, midpoint_eq k, hmid⟩
  · constructor
    case enclosing => exact ⟨⟨rfl, rfl, hfa, hfb, midpoint_eq k, hmid⟩, hab, hopposite⟩
    case halves => exact .whole
    case index => rfl
    case initial => exact fun _ => rfl
    case error => exact nofun

theorem State.IsLevel.next (hs : s.IsLevel f a b n) (hc : c.relative = false)
    (htolerance : c.tolerance ≤ 100) (hmid : HasMidpointValues f c a b)
    (hn : n + 1 ≤ c.maxIterations) (hgoesOn : ∀ m < n + 1, ¬ HalvingEnds c a b m) :
    (process halving f c).isDone c s = false ∧
      ∃ s', step halving f c s = .ok s' ∧ s'.IsLevel f a b (n + 1) := by
  have hdone : (process halving f c).isDone c s = false := by
    rw [← Bool.not_eq_true, hs.isDone_iff htolerance hmid (Nat.le_of_succ_le hn) fun m hm =>
      hgoesOn m (Nat.lt_succ_of_lt hm)]
    exact hgoesOn n n.lt_succ_self
  refine ⟨hdone, hs.exists_step hc hdone fun l u hhalves => ?_⟩
  obtain ⟨v, hv, -⟩ := hmid.exists_value (n + 1) l u ⟨hhalves, hn, hgoesOn⟩
  exact ⟨v, hv⟩

end Runs

end Bracket

/-! ### The number of steps -/

/-- What bisection returns after `N` steps: each row has the width and the error of its level,
    and the formula changes its sign within the final error of the root. -/
structure ReturnsAfter (f : Formula K) (a b : K) (N : ℕ)
    (solution : RootSolution K (BracketRow K)) : Prop where
  iterations : solution.iterations = N
  rows : ∃ t, solution.trace = some t ∧ t.rows.length = N + 1 ∧ ShowsHalving a b t.rows
  finalError : solution.finalError = (b - a) / 2 ^ (N + 1)
  root : ∃ l u fl fu, f.eval l = .ok fl ∧ f.eval u = .ok fu ∧ fl * fu < 0 ∧
    |solution.root - l| ≤ solution.finalError ∧ |solution.root - u| ≤ solution.finalError

namespace Bracket

variable {s : State K} {states : List (State K)}

/-- The solution that is read off the states of a run, numbered by their levels. -/
theorem returnsAfter_of_levels (hN : 1 ≤ N) (hlength : states.length = N + 1)
    (hlevels : ∀ (n : ℕ) (t : State K), states[n]? = some t → t.IsLevel f a b n)
    (fallback : State K) :
    ReturnsAfter f a b N (solution halving fallback states) := by
  have hrows : ∀ {P : ℕ → BracketRow K → Prop}, (∀ n t, State.IsLevel f a b n t → P n t.row) →
      ∀ (n : ℕ) (r : BracketRow K), (states.map State.row)[n]? = some r → P n r := by
    intro P hP n r hr
    rw [List.getElem?_map, Option.map_eq_some_iff] at hr
    obtain ⟨t, ht, rfl⟩ := hr
    exact hP n t (hlevels n t ht)
  obtain ⟨t, ht⟩ : ∃ t, states[N]? = some t :=
    ⟨_, List.getElem?_eq_getElem (by rw [hlength]; exact N.lt_succ_self)⟩
  have hlast : states.getLast? = some t := by
    rw [List.getLast?_eq_getElem?, hlength]
    exact ht
  have hroot : (solution halving fallback states).root = t.row.mid := by
    rw [solution, List.getLastD_eq_getLast?, hlast]
    rfl
  have herror : (solution halving fallback states).finalError = t.row.error := by
    change (((states.map State.row).getLast?).map TraceRow.error).getD 0 = _
    rw [List.getLast?_map, hlast]
    rfl
  constructor
  case iterations =>
    change (states.map State.row).length - 1 = N
    rw [List.length_map, hlength, Nat.add_sub_cancel]
  case rows =>
    refine ⟨_, rfl, by rw [List.length_map, hlength], ?_, ?_, ?_⟩
    · exact hrows fun n t ht => ht.index
    · refine hrows fun n t ht => ?_
      rw [ht.enclosing.sound.a, ht.enclosing.sound.b]
      exact ht.halves.width
    · exact hrows fun n t ht => ht.error
  case finalError =>
    rw [herror, (hlevels N t ht).error hN]
  case root =>
    obtain ⟨l, u, fl, fu, hl, hu, hsigns, hleft, hright⟩ := (hlevels N t ht).around_mid
    rw [hroot, herror, (hlevels N t ht).error hN]
    exact ⟨l, u, fl, fu, hl, hu, hsigns, hleft.le, hright.le⟩

end Bracket

/-- In absolute mode bisection takes as many steps as the bracket and the tolerance say, at
    least one, or fails if these are more than the budget. -/
theorem bisection_takes_predicted_steps (f : Formula K) (a b fa fb : K) (c : Control K)
    (hab : a < b) (hfa : f.eval a = .ok fa) (hfb : f.eval b = .ok fb) (hsigns : fa * fb < 0)
    (hc : c.relative = false) (htolerance : c.tolerance ≤ 100)
    (hmid : HasMidpointValues f c a b) :
    (∀ N, IsLeast {n | HalvingEnds c a b n} N → N ≤ c.maxIterations →
        ∃ solution, bisection f a b c = .ok solution ∧ ReturnsAfter f a b N solution) ∧
      ((∀ n, HalvingEnds c a b n → c.maxIterations < n) →
        bisection f a b c = .error (.noConvergence c.maxIterations)) := by
  obtain ⟨v, hv, -⟩ := hmid.exists_value 0 a b
    ⟨.whole, Nat.zero_le _, fun m hm => absurd hm m.not_lt_zero⟩
  obtain ⟨k, s, hopened, hstart, hs⟩ := Bracket.exists_start hab hfa hfb hsigns hv
  constructor
  · rintro N ⟨hends, hleast⟩ hbudget
    have hgoesOn : ∀ m < N, ¬ HalvingEnds c a b m := fun m hm h => hm.not_ge (hleast h)
    have hlast : ∀ t : Bracket.State K, t.IsLevel f a b N →
        (Bracket.process Bracket.halving f c).isDone c t = true :=
      fun t ht => (ht.isDone_iff htolerance hmid hbudget hgoesOn).2 hends
    obtain ⟨states, hruns, hlength, hlevels⟩ := Process.exists_numbered
      (R := (Bracket.process Bracket.halving f c).Runs c) Process.Runs.goesOn
      (fun t ht => .ends (hlast t ht))
      (fun n t hn ht => ht.next hc htolerance hmid (hn.trans_le hbudget) fun m hm =>
        hgoesOn m (hm.trans_le hn)) hs
    refine ⟨_, Bracket.find_eq_ok_iff.2 (.inr ⟨s, states, ⟨⟨k, hopened, hstart⟩, hruns, ?_⟩, rfl⟩),
      Bracket.returnsAfter_of_levels hends.pos hlength hlevels s⟩
    rw [hlength]
    exact Nat.succ_le_succ hbudget
  · intro hnever
    have hgoesOn : ∀ m < c.maxIterations + 1, ¬ HalvingEnds c a b m := fun m hm h =>
      (hnever m h).not_ge (Nat.le_of_lt_succ hm)
    have hlast : ∀ t : Bracket.State K, t.IsLevel f a b c.maxIterations →
        (Bracket.process Bracket.halving f c).isDone c t = false := by
      intro t ht
      rw [← Bool.not_eq_true, ht.isDone_iff htolerance hmid le_rfl fun m hm =>
        hgoesOn m (Nat.lt_succ_of_lt hm)]
      exact hgoesOn _ (Nat.lt_succ_self _)
    obtain ⟨states, hunfinished, hlength, -⟩ := Process.exists_numbered
      (R := (Bracket.process Bracket.halving f c).Unfinished c) Process.Unfinished.goesOn
      (fun t ht => .stops (hlast t ht))
      (fun n t hn ht => ht.next hc htolerance hmid hn fun m hm =>
        hgoesOn m (hm.trans (Nat.succ_lt_succ hn))) hs
    have hrun := (Process.run_eq_noConvergence_iff (Bracket.keepsBudget_step
      Bracket.keepsBudget_midpoint)).2 ⟨rfl, states, hunfinished, hlength⟩
    exact bind_eq_error_iff.2 (.inr ⟨_, hopened, bind_eq_error_iff.2 (.inr ⟨s, hstart,
      bind_eq_error_iff.2 (.inl hrun)⟩)⟩)

/-- To the square root of two it takes three steps to come closer than a tenth, and a budget of
    two is not enough. -/
theorem bisection_takes_predicted_steps_sqrt_two :
    let f : Formula ℚ := .sub (.mul (.var "x") (.var "x")) (.const 2)
    let c : Control ℚ := ⟨1 / 10, 10, false⟩
    let c' : Control ℚ := ⟨1 / 10, 2, false⟩
    IsLeast {n | HalvingEnds c 1 2 n} 3 ∧
      (∃ solution, bisection f 1 2 c = .ok solution ∧ ReturnsAfter f 1 2 3 solution) ∧
        bisection f 1 2 c' = .error (.noConvergence 2) := by
  intro f c c'
  have hone : f.eval 1 = .ok (-1) := by decide +kernel
  have htwo : f.eval 2 = .ok 2 := by decide +kernel
  -- the square of a rational number is not two
  have hmid : ∀ d : Control ℚ, HasMidpointValues f d 1 2 := by
    intro d
    refine ⟨fun n l u _ => ⟨(l + u) / 2 * ((l + u) / 2) - 2, rfl, fun hzero => ?_⟩⟩
    have hsquare : IsSquare (2 : ℚ) := ⟨(l + u) / 2, (sub_eq_zero.1 hzero).symm⟩
    exact Nat.prime_two.prime.not_isSquare (Rat.isSquare_ofNat_iff.1 hsquare)
  have hleast : IsLeast {n | HalvingEnds c 1 2 n} 3 := by
    refine ⟨⟨by decide, by norm_num [c]⟩, ?_⟩
    rintro n ⟨hpos, hsmall⟩
    by_contra hlt
    interval_cases n <;> norm_num [c] at hsmall
  have hc := bisection_takes_predicted_steps f 1 2 (-1) 2 c (by decide +kernel) hone htwo
    (by decide +kernel) rfl (by decide +kernel) (hmid c)
  have hc' := bisection_takes_predicted_steps f 1 2 (-1) 2 c' (by decide +kernel) hone htwo
    (by decide +kernel) rfl (by decide +kernel) (hmid c')
  refine ⟨hleast, hc.1 3 hleast (by decide), hc'.2 fun n hn => ?_⟩
  exact Nat.lt_of_succ_le (hleast.2 ⟨hn.pos, hn.small⟩)

end NumericMethods
