/-
  NumericMethods/Proofs/RootFinding/Enclosure.lean
  ================================================
  **In exact arithmetic a bracketing method keeps its root enclosed.**

  Products of numbers that are not zero do not vanish there, so the sign tests of both
  methods see every change of sign.  What a step keeps is that the ends of the bracket are
  in order and the values at them have opposite signs (`State.IsEnclosing.step`): the test
  of the rule chooses the part with the change of sign (`Rule.IsSignTest.opposite_narrowed`), and
  the point that the rule chooses is strictly between the ends, be it their midpoint or the
  zero of the chord, which divides the bracket in the ratio of two numbers of one sign
  (`isInside_midpoint`, `isInside_chordRoot`).

  From this the rows of every trace are nested brackets around the root
  (`bracket_encloses_root`).
-/
import Mathlib
import NumericMethods.Proofs.RootFinding.SignChange

namespace NumericMethods

open Scalar (OppositeSigns)

variable {K : Type} [Field K] [LinearOrder K] [IsStrictOrderedRing K] [ExactScalar K]
variable {f : Formula K} {c : Control K}

namespace BracketRow

/-- The formula changes its sign between the ends, and the point is strictly between them. -/
structure IsBracket (f : Formula K) (r : BracketRow K) : Prop where
  sign : ∃ fa fb, f.eval r.a = .ok fa ∧ f.eval r.b = .ok fb ∧ fa * fb < 0
  left : r.a < r.mid
  right : r.mid < r.b

/-- The bracket of `r'` is inside the one of `r`, and is the same but for one end, which is
    the point of `r`. -/
structure Refines (r r' : BracketRow K) : Prop where
  subset : Set.Icc r'.a r'.b ⊆ Set.Icc r.a r.b
  oneEnd : Xor (r'.a = r.mid ∧ r'.b = r.b) (r'.a = r.a ∧ r'.b = r.mid)

end BracketRow

/-- Rows that are nested brackets around a root. -/
structure EnclosesRoot (f : Formula K) (rows : List (BracketRow K)) (root : K) : Prop where
  brackets : ∀ r ∈ rows, r.IsBracket f
  nested : rows.IsChain BracketRow.Refines
  inside : ∀ r ∈ rows, r.a < root ∧ root < r.b

namespace Bracket

variable {a b x fm : K} {k : Bracket K} {rule : Rule K} {s s' t : State K}
variable {states : List (State K)} {product : K → K → K → K}

/-! ### The point of a rule -/

/-- The point that the rule chooses in a bracket with a change of sign is inside. -/
def Rule.IsInside (rule : Rule K) : Prop :=
  ∀ (k : Bracket K) x, k.a < k.b → OppositeSigns k.fa k.fb → rule.point k = .ok x →
    k.a < x ∧ x < k.b

theorem isInside_midpoint : (halving : Rule K).IsInside := by
  intro k x hab _ hx
  have hmid : (k.a + k.b) / 2 = x := by
    have hpoint := Except.ok.inj hx
    rwa [ExactScalar.ofNat_eq, Nat.cast_ofNat] at hpoint
  rw [← hmid]
  exact ⟨left_lt_add_div_two.2 hab, add_div_two_lt_right.2 hab⟩

/-- The part of a bracket that the chord cuts off at the right. -/
theorem chord_ratio (h : OppositeSigns k.fa k.fb) :
    0 < k.fb / (k.fb - k.fa) ∧ k.fb / (k.fb - k.fa) < 1 := by
  rcases h with ⟨ha, hb⟩ | ⟨ha, hb⟩
  · have hpos : 0 < k.fb - k.fa := by linarith
    exact ⟨div_pos hb hpos, (div_lt_one hpos).2 (by linarith)⟩
  · have hneg : k.fb - k.fa < 0 := by linarith
    exact ⟨div_pos_of_neg_of_neg hb hneg, (div_lt_one_of_neg hneg).2 (by linarith)⟩

theorem isInside_chordRoot : (chord : Rule K).IsInside := by
  intro k x hab hsigns hx
  obtain ⟨hpos, hlt⟩ := chord_ratio hsigns
  have hwidth : 0 < k.b - k.a := sub_pos.2 hab
  have hpoint : k.b - k.fb / (k.fb - k.fa) * (k.b - k.a) = x := by
    change chordRoot k = .ok x at hx
    unfold chordRoot at hx
    split at hx
    · cases hx
    · rw [div_mul_eq_mul_div]
      exact Except.ok.inj hx
  have hcut : k.fb / (k.fb - k.fa) * (k.b - k.a) < k.b - k.a :=
    mul_lt_of_lt_one_left hwidth hlt
  have hcut' : 0 < k.fb / (k.fb - k.fa) * (k.b - k.a) := mul_pos hpos hwidth
  exact ⟨by linarith, by linarith⟩

/-! ### One step -/

/-- A product of factors that are not zero. -/
def IsNonzeroProduct (product : K → K → K → K) : Prop :=
  ∀ {fa fm fb : K}, fa ≠ 0 → fm ≠ 0 → fb ≠ 0 → product fa fm fb ≠ 0

theorem Rule.IsSignTest.opposite_narrowed (hrule : rule.IsSignTest product)
    (hproduct : IsNonzeroProduct product) (hk : OppositeSigns k.fa k.fb) (mid : K)
    (hm : fm < 0 ∨ 0 < fm) :
    OppositeSigns (k.narrowed rule mid fm).fa (k.narrowed rule mid fm).fb := by
  refine (narrowed_iff hrule hk mid hm).2 ?_
  rintro ⟨-, hzero⟩
  have hfa : k.fa ≠ 0 := lt_or_lt_iff_ne.1 (hk.imp And.left And.left)
  have hfb : k.fb ≠ 0 := lt_or_lt_iff_ne.1 (hk.symm.imp And.right And.right)
  exact hproduct hfa (lt_or_lt_iff_ne.1 hm) hfb (ExactScalar.beq_iff.1 hzero)

/-- The state shows the formula at the ends of a bracket with a change of sign. -/
structure State.IsEnclosing (rule : Rule K) (f : Formula K) (s : State K) : Prop where
  sound : s.IsSound rule f
  order : s.bracket.a < s.bracket.b
  signs : OppositeSigns s.bracket.fa s.bracket.fb

namespace State.IsEnclosing

theorem inside (hs : s.IsEnclosing rule f) (hrule : rule.IsInside) :
    s.bracket.a < s.row.mid ∧ s.row.mid < s.bracket.b :=
  hrule s.bracket s.row.mid hs.order hs.signs hs.sound.point

theorem isBracket (hs : s.IsEnclosing rule f) (hrule : rule.IsInside) :
    s.row.IsBracket f := by
  obtain ⟨hleft, hright⟩ := hs.inside hrule
  constructor
  case sign =>
    refine hs.sound.exists_values_iff.2 ?_
    rcases hs.signs with ⟨ha, hb⟩ | ⟨ha, hb⟩
    · exact mul_neg_of_neg_of_pos ha hb
    · exact mul_neg_of_pos_of_neg ha hb
  case left => rwa [hs.sound.a]
  case right => rwa [hs.sound.b]

theorem step (hs : s.IsEnclosing rule f) (hinside : rule.IsInside)
    (htest : rule.IsSignTest product) (hproduct : IsNonzeroProduct product)
    (hdone : (process rule f c).isDone c s = false) (hstep : Bracket.step rule f c s = .ok s') :
    s'.IsEnclosing rule f := by
  obtain ⟨hleft, hright⟩ := hs.inside hinside
  have hbracket := (step_eq_ok_iff.1 hstep).1
  constructor
  case sound => exact hs.sound.step hstep
  case order =>
    rw [hbracket, narrowed]
    split
    · exact hright
    · exact hleft
  case signs =>
    rw [hbracket]
    exact Rule.IsSignTest.opposite_narrowed htest hproduct hs.signs _ (hs.sound.sign_cases hdone)

theorem refines (hs : s.IsEnclosing rule f) (hinside : rule.IsInside)
    (hstep : Bracket.step rule f c s = .ok s') : s.row.Refines s'.row := by
  obtain ⟨-, hleft, hright⟩ := hs.isBracket hinside
  obtain ⟨ha, hb⟩ := hs.sound.narrows hstep
  split at ha
  · rename_i hkeeps
    rw [if_pos hkeeps] at hb
    constructor
    · rw [ha, hb]
      exact Set.Icc_subset_Icc_left hleft.le
    · exact .inl ⟨⟨ha, hb⟩, fun h => hleft.ne (h.1.symm.trans ha)⟩
  · rename_i hkeeps
    rw [if_neg hkeeps] at hb
    constructor
    · rw [ha, hb]
      exact Set.Icc_subset_Icc_right hright.le
    · exact .inr ⟨⟨ha, hb⟩, fun h => hleft.ne (ha.symm.trans h.1)⟩

end State.IsEnclosing

/-! ### Runs -/

theorem opened_signs (h : opened f a b = .ok (.signChange k)) :
    k.a < k.b ∧ OppositeSigns k.fa k.fb := by
  obtain ⟨rfl, rfl, hfa, hfb⟩ := opened_eq_signChange h
  unfold opened at h
  split at h
  · cases h
  rename_i hba
  rw [liftDomain_eq_ok_iff.2 hfa, liftDomain_eq_ok_iff.2 hfb] at h
  change (if k.fa == 0 then _ else if k.fb == 0 then _ else if 0 ≤ k.fa * k.fb then _ else _) = _
    at h
  split at h
  · cases h
  split at h
  · cases h
  split at h
  · cases h
  rename_i hproduct
  have hsigns : OppositeSigns k.fa k.fb := (mul_neg_iff.1 (not_le.1 hproduct)).symm
  refine ⟨lt_of_le_of_ne (not_lt.1 hba) fun heq => ?_, hsigns⟩
  -- at one end there is one value
  rw [heq, hfb] at hfa
  rw [Except.ok.inj hfa] at hproduct
  exact hproduct (mul_self_nonneg _)

theorem IsRun.isEnclosing (h : IsRun rule f a b c s states) : s.IsEnclosing rule f := by
  obtain ⟨⟨k, hopened, hstart⟩, -⟩ := id h
  obtain ⟨horder, hsigns⟩ := opened_signs hopened
  rw [← (start_eq_ok_iff.1 hstart).1] at horder hsigns
  exact ⟨h.isSound, horder, hsigns⟩

/-- The point of the last state is inside all brackets of the run. -/
theorem Runs.last_inside (h : (process rule f c).Runs c s states)
    (hs : s.IsEnclosing rule f) (hinside : rule.IsInside) (htest : rule.IsSignTest product)
    (hproduct : IsNonzeroProduct product) (hlast : states.getLast? = some t) :
    ∀ r ∈ states.map State.row, r.a < t.row.mid ∧ t.row.mid < r.b := by
  induction h with
  | ends hdone =>
    cases hlast
    simpa using ⟨(hs.isBracket hinside).left, (hs.isBracket hinside).right⟩
  | @goesOn s s' states hdone hstep hrest ih =>
    have hlater := ih (hs.step hinside htest hproduct hdone hstep) (by
      rwa [List.getLast?_cons_of_ne_nil hrest.ne_nil] at hlast)
    have hnext := hlater s'.row (List.mem_map_of_mem (List.mem_of_mem_head? hrest.head?_eq))
    have hsubset := (hs.refines hinside hstep).subset
    have hordered : s'.row.a ≤ s'.row.b := (hnext.1.trans hnext.2).le
    obtain ⟨ha, hb⟩ := (Set.Icc_subset_Icc_iff hordered).1 hsubset
    rw [List.map_cons, List.forall_mem_cons]
    exact ⟨⟨ha.trans_lt hnext.1, hnext.2.trans_le hb⟩, hlater⟩

theorem enclosesRoot_of_find (hinside : rule.IsInside) (htest : rule.IsSignTest product)
    (hproduct : IsNonzeroProduct product) {solution : RootSolution K (BracketRow K)}
    (hfind : find rule f a b c = .ok solution) {t : Trace (BracketRow K)}
    (ht : solution.trace = some t) : EnclosesRoot f t.rows solution.root := by
  rcases find_eq_ok_iff.1 hfind with ⟨x, -, rfl⟩ | ⟨s, states, hrun, rfl⟩
  · cases ht
  cases ht
  have hkeep : ∀ t t' : State K, t.IsEnclosing rule f → (process rule f c).isDone c t = false →
      Bracket.step rule f c t = .ok t' → t'.IsEnclosing rule f :=
    fun _ _ hs hdone hstep => hs.step hinside htest hproduct hdone hstep
  constructor
  case brackets =>
    rw [List.forall_mem_map]
    intro s' hs'
    exact (hrun.2.1.forall_mem_unfinished hrun.isEnclosing hkeep s' hs').isBracket hinside
  case nested =>
    rw [List.isChain_map]
    refine (hrun.2.1.isChain_unfinished hrun.isEnclosing hkeep).imp ?_
    rintro s' s'' ⟨hs', -, hstep⟩
    exact hs'.refines hinside hstep
  case inside =>
    obtain ⟨last, hlast, -⟩ := hrun.2.1.getLast?_eq
    have hroot : (solution rule s states).root = last.row.mid := by
      rw [solution, List.getLastD_eq_getLast?, hlast]
      rfl
    rw [hroot]
    exact Runs.last_inside hrun.2.1 hrun.isEnclosing hinside htest hproduct hlast

end Bracket

/-- Every trace of bisection and of false position consists of nested brackets, each with a
    change of sign at its ends, around the root that is returned. -/
theorem bracket_encloses_root (f : Formula K) (a b : K) (c : Control K)
    (solution : RootSolution K (BracketRow K)) (t : Trace (BracketRow K))
    (h : bisection f a b c = .ok solution ∨ falsePosition f a b c = .ok solution)
    (ht : solution.trace = some t) : EnclosesRoot f t.rows solution.root := by
  rcases h with h | h
  · exact Bracket.enclosesRoot_of_find Bracket.isInside_midpoint Bracket.isSignTest_halving
      (fun ha hm _ => mul_ne_zero ha hm) h ht
  · exact Bracket.enclosesRoot_of_find Bracket.isInside_chordRoot Bracket.isSignTest_chord
      (fun _ hm hb => mul_ne_zero hm hb) h ht

/-- Both methods enclose the square root of two. -/
theorem bracket_encloses_sqrt_two :
    let f : Formula ℚ := .sub (.mul (.var "x") (.var "x")) (.const 2)
    let c : Control ℚ := ⟨1 / 10, 10, false⟩
    (∃ solution t, bisection f 1 2 c = .ok solution ∧ solution.trace = some t ∧
        t.rows.map (fun r => (r.a, r.b)) = [(1, 2), (1, 3 / 2), (5 / 4, 3 / 2), (11 / 8, 3 / 2)] ∧
          EnclosesRoot f t.rows solution.root) ∧
      ∃ solution t, falsePosition f 1 2 c = .ok solution ∧ solution.trace = some t ∧
        t.rows.map (fun r => (r.a, r.b)) = [(1, 2), (4 / 3, 2)] ∧
          EnclosesRoot f t.rows solution.root := by
  intro f c
  constructor
  · obtain ⟨solution, t, h, ht, hends⟩ : ∃ solution t, bisection f 1 2 c = .ok solution ∧
        solution.trace = some t ∧ t.rows.map (fun r => (r.a, r.b)) =
          [(1, 2), (1, 3 / 2), (5 / 4, 3 / 2), (11 / 8, 3 / 2)] :=
      exists_trace_of_any (by decide +kernel)
    exact ⟨solution, t, h, ht, hends, bracket_encloses_root f 1 2 c solution t (.inl h) ht⟩
  · obtain ⟨solution, t, h, ht, hends⟩ : ∃ solution t, falsePosition f 1 2 c = .ok solution ∧
        solution.trace = some t ∧ t.rows.map (fun r => (r.a, r.b)) = [(1, 2), (4 / 3, 2)] :=
      exists_trace_of_any (by decide +kernel)
    exact ⟨solution, t, h, ht, hends, bracket_encloses_root f 1 2 c solution t (.inr h) ht⟩

end NumericMethods
