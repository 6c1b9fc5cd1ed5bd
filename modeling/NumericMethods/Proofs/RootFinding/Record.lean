/-
  NumericMethods/Proofs/RootFinding/Record.lean
  =============================================
  **The trace of a root finder is the record of its run.**

  What a trace says is stated on its rows alone, without the states of the process behind
  them.  One part is the same for all methods (`IsRecord`): the rows are numbered from
  zero, show the values of the formula at their points, and carry the error of the step
  from the row before; the last row, and no earlier one, ends the run.  The other part is
  the update of the method (`RootSearch.Follows`), which is written out here once more in
  terms of rows: the ends of a bracket and the values there are read off the rows and the
  formula, not off the state.

  The proof has two halves to match.

    * A process whose steps number, evaluate and measure the rows that it shows leaves a
      record (`Process.Shows.isRecord`); each of the three processes does.
    * The states of a run know more than their rows: a bracketing method carries the values
      at both ends along, the secant method the row before.  That this knowledge is right
      is an invariant of the steps (`Bracket.State.IsSound`), and from it the update of
      each method follows for the rows.
-/
import Mathlib
import NumericMethods.Proofs.RootFinding.Search
import NumericMethods.Proofs.RootFinding.Step
import NumericMethods.Proofs.Scalar.Exact

namespace NumericMethods

variable {α : Type} [Scalar α] {f : Formula α} {c : Control α}

/-! ### Records -/

/-- What the rows of a run have in common for all root finders.  The first `seeds` rows show
    the seeds; steps are taken, and errors compared, from the last of these on. -/
structure IsRecord (f : Formula α) (c : Control α) (seeds : ℕ) (rows : List (PointRow α))
    (root : α) : Prop where
  index : rows.map PointRow.index = List.range rows.length
  value : ∀ r ∈ rows, f.eval r.point = .ok r.value
  seedError : ∀ r ∈ rows.take seeds, r.error = Control.initialError
  stepError : (rows.drop (seeds - 1)).IsChain fun r r' =>
    c.stepError r'.point r.point = .ok r'.error
  last : ∃ r, rows.getLast? = some r ∧ root = r.point ∧
    ((r.value == 0) = true ∨ r.error < c.tolerance)
  value_ne_zero : ∀ r ∈ rows.dropLast, (r.value == 0) = false
  not_met : ∀ r ∈ (rows.drop (seeds - 1)).dropLast, ¬ r.error < c.tolerance

namespace Process

variable {σ : Type} {p : Process α σ} {row : σ → PointRow α} {s : σ} {states : List σ}

/-- The process numbers, evaluates and measures the rows that it shows of its states. -/
structure Shows (p : Process α σ) (f : Formula α) (c : Control α) (row : σ → PointRow α) :
    Prop where
  error_eq : ∀ s, p.error s = (row s).error
  exact_eq : ∀ s, p.exact s = ((row s).value == 0)
  step : ∀ {s s'}, p.step s = .ok s' → (row s').index = (row s).index + 1 ∧
    f.eval (row s').point = .ok (row s').value ∧
      c.stepError (row s').point (row s).point = .ok (row s').error

theorem Shows.isDone_eq_true_iff (hp : p.Shows f c row) :
    p.isDone c s = true ↔ ((row s).value == 0) = true ∨ (row s).error < c.tolerance := by
  rw [isDone, hp.error_eq, hp.exact_eq, Bool.or_eq_true, Control.isMet, decide_eq_true_eq, or_comm]

theorem Shows.isDone_eq_false_iff (hp : p.Shows f c row) :
    p.isDone c s = false ↔ ((row s).value == 0) = false ∧ ¬ (row s).error < c.tolerance := by
  rw [← Bool.not_eq_true, hp.isDone_eq_true_iff, not_or, Bool.not_eq_true]

theorem Shows.map_index (hp : p.Shows f c row) (h : p.Runs c s states) :
    (states.map row).map PointRow.index = List.range' (row s).index states.length := by
  induction h with
  | ends hdone => rfl
  | goesOn hdone hstep hrest ih =>
    rw [List.map_cons, List.map_cons, ih, (hp.step hstep).1, List.length_cons, List.range'_succ]

/-- A run after some earlier seeds leaves a record. -/
theorem Shows.isRecord (hp : p.Shows f c row) (h : p.Runs c s states)
    (earlier : List (PointRow α))
    (hindex : earlier.map PointRow.index = List.range earlier.length)
    (hnumber : (row s).index = earlier.length)
    (hseeds : ∀ r ∈ earlier ++ [row s],
      f.eval r.point = .ok r.value ∧ r.error = Control.initialError)
    (hvalue : ∀ r ∈ earlier, (r.value == 0) = false) :
    IsRecord f c (earlier.length + 1) (earlier ++ states.map row)
      (((earlier ++ states.map row).getLastD (row s)).point) := by
  have hne : states.map row ≠ [] := by simpa using h.ne_nil
  obtain ⟨hearlier, hfirst⟩ := List.forall_mem_append.1 hseeds
  rw [List.forall_mem_singleton] at hfirst
  have hbefore : ∀ r ∈ (states.map row).dropLast,
      (r.value == 0) = false ∧ ¬ r.error < c.tolerance := by
    rw [← List.map_dropLast, List.forall_mem_map]
    intro t ht
    exact hp.isDone_eq_false_iff.1 (h.isDone_of_mem_dropLast t ht)
  constructor
  case index =>
    rw [List.map_append, hindex, hp.map_index h, hnumber, List.length_append, List.length_map,
      List.range_eq_range', List.range_eq_range', ← List.range'_append_1, Nat.zero_add]
  case value =>
    rw [List.forall_mem_append, List.forall_mem_map]
    refine ⟨fun r hr => (hearlier r hr).1, ?_⟩
    exact h.forall_mem hfirst.1 fun t t' _ hstep => (hp.step hstep).2.1
  case seedError =>
    have hhead : (states.map row).take 1 = [row s] := by
      rw [List.take_one, List.head?_map, h.head?_eq]
      rfl
    rw [List.take_length_add_append, hhead]
    exact fun r hr => (hseeds r hr).2
  case stepError =>
    rw [Nat.add_sub_cancel, List.drop_left, List.isChain_map]
    exact (h.isChain trivial fun _ _ _ _ => trivial).imp fun t t' ht => (hp.step ht.2).2.2
  case last =>
    obtain ⟨t, hlast, hdone⟩ := h.getLast?_eq
    have hlast' : (earlier ++ states.map row).getLast? = some (row t) := by
      rw [List.getLast?_append, List.getLast?_map, hlast]
      rfl
    refine ⟨row t, hlast', ?_, hp.isDone_eq_true_iff.1 hdone⟩
    rw [List.getLastD_eq_getLast?, hlast']
    rfl
  case value_ne_zero =>
    rw [List.dropLast_append_of_ne_nil hne, List.forall_mem_append]
    exact ⟨hvalue, fun r hr => (hbefore r hr).1⟩
  case not_met =>
    rw [Nat.add_sub_cancel, List.drop_left]
    exact fun r hr => (hbefore r hr).2

end Process

/-! ### The update of each method, on rows -/

namespace BracketRow

/-- The bracket of `r'` is the part of the one of `r` on a side of its point. -/
def Narrows (right : Bool) (r r' : BracketRow α) : Prop :=
  r'.a = (if right then r.mid else r.a) ∧ r'.b = if right then r.b else r.mid

/-- The part that bisection keeps: the value changes its sign there, judged from the left. -/
def IsHalved (f : Formula α) (r r' : BracketRow α) : Prop :=
  ∃ fa, f.eval r.a = .ok fa ∧ Narrows (decide (0 < fa * r.value)) r r'

/-- The part that false position keeps: the sign is judged from the right. -/
def IsCut (f : Formula α) (r r' : BracketRow α) : Prop :=
  ∃ fb, f.eval r.b = .ok fb ∧ Narrows (decide (r.value * fb < 0)) r r'

def IsMidpoint (r : BracketRow α) : Prop := r.mid = (r.a + r.b) / Scalar.ofNat 2

def IsChordRoot (f : Formula α) (r : BracketRow α) : Prop :=
  ∃ fa fb, f.eval r.a = .ok fa ∧ f.eval r.b = .ok fb ∧ (fb == fa) = false ∧
    r.mid = r.b - fb * (r.b - r.a) / (fb - fa)

/-- Rows from the bracket `[a, b]` on, each with its point and narrowed to the next one. -/
structure Follow (a b : α) (IsPoint : BracketRow α → Prop)
    (IsNarrowed : BracketRow α → BracketRow α → Prop) (rows : List (BracketRow α)) : Prop where
  first : ∃ r, rows.head? = some r ∧ r.a = a ∧ r.b = b
  point : ∀ r ∈ rows, IsPoint r
  narrowed : rows.IsChain IsNarrowed

end BracketRow

namespace PointRow

def IsFixedPointStep (g : Formula α) (r r' : PointRow α) : Prop := g.eval r.point = .ok r'.point

def IsNewtonStep (f : Formula α) (r r' : PointRow α) : Prop :=
  ∃ d, f.differentiate.eval r.point = .ok d ∧ (d == 0) = false ∧
    r'.point = r.point - r.value / d

def IsMultipleStep (f : Formula α) (r r' : PointRow α) : Prop :=
  ∃ d d₂, f.differentiate.eval r.point = .ok d ∧
    f.differentiate.differentiate.eval r.point = .ok d₂ ∧
      (d * d - r.value * d₂ == 0) = false ∧
        r'.point = r.point - r.value * d / (d * d - r.value * d₂)

def IsSecantStep (r r' r'' : PointRow α) : Prop :=
  (r'.value == r.value) = false ∧
    r''.point = r'.point - r'.value * (r'.point - r.point) / (r'.value - r.value)

/-- Rows from a seed on, each with the next point of the one before. -/
def Follow (seed : α) (IsStep : PointRow α → PointRow α → Prop) (rows : List (PointRow α)) :
    Prop :=
  (∃ r, rows.head? = some r ∧ r.point = seed) ∧ rows.IsChain IsStep

/-- Rows from two seeds on, each with the next point of the two before. -/
def FollowTwo (x₀ x₁ : α) (rows : List (PointRow α)) : Prop :=
  (rows.map PointRow.point).take 2 = [x₀, x₁] ∧
    ∀ k r r' r'', rows[k]? = some r → rows[k + 1]? = some r' → rows[k + 2]? = some r'' →
      IsSecantStep r r' r''

end PointRow

namespace RootSearch

/-- The rows of the trace, if there is one, come from the seeds by the update of the method. -/
def Follows : RootSearch α → RootAnswer α → Prop
  | bisection f a b, .bracketing s => ∀ t ∈ s.trace, t.method = .bisection ∧
    BracketRow.Follow a b BracketRow.IsMidpoint (BracketRow.IsHalved f) t.rows
  | falsePosition f a b, .bracketing s => ∀ t ∈ s.trace, t.method = .falsePosition ∧
    BracketRow.Follow a b (BracketRow.IsChordRoot f) (BracketRow.IsCut f) t.rows
  | fixedPoint _ g seed, .moving s => ∀ t ∈ s.trace, t.method = .fixedPoint ∧
    PointRow.Follow seed (PointRow.IsFixedPointStep g) t.rows
  | newton f seed, .moving s => ∀ t ∈ s.trace, t.method = .newton ∧
    PointRow.Follow seed (PointRow.IsNewtonStep f) t.rows
  | multipleRoots f seed, .moving s => ∀ t ∈ s.trace, t.method = .multipleRoots ∧
    PointRow.Follow seed (PointRow.IsMultipleStep f) t.rows
  | secant _ x₀ x₁, .moving s => ∀ t ∈ s.trace, t.method = .secant ∧
    PointRow.FollowTwo x₀ x₁ t.rows
  | _, _ => False

/-- An answer without a trace is an exact root, and one with a trace shows its run. -/
structure IsFaithful (s : RootSearch α) (c : Control α) (answer : RootAnswer α) : Prop where
  immediate : answer.rows? = none → ∃ v, s.formula.eval answer.root = .ok v ∧ (v == 0) = true
  record : ∀ rows, answer.rows? = some rows →
    IsRecord s.formula c s.seeds rows answer.root ∧ rows.length ≤ s.rowBudget c + 1
  follows : s.Follows answer

end RootSearch

/-! ### Bracketing methods -/

namespace Bracket

variable {a b : α} {rule : Rule α} {s s' : State α} {states : List (State α)}

theorem shows (rule : Rule α) (f : Formula α) (c : Control α) :
    (process rule f c).Shows f c fun s => s.row.pointRow where
  error_eq _ := rfl
  exact_eq _ := rfl
  step h := by
    obtain ⟨-, hindex, -, -, -, hvalue, herror⟩ := step_eq_ok_iff.1 h
    exact ⟨hindex, hvalue, herror⟩

/-- The row shows the bracket, which carries the values of the formula at its ends, and the
    point that the rule chooses in it. -/
structure State.IsSound (rule : Rule α) (f : Formula α) (s : State α) : Prop where
  a : s.row.a = s.bracket.a
  b : s.row.b = s.bracket.b
  fa : f.eval s.bracket.a = .ok s.bracket.fa
  fb : f.eval s.bracket.b = .ok s.bracket.fb
  point : rule.point s.bracket = .ok s.row.mid
  value : f.eval s.row.mid = .ok s.row.value

theorem State.IsSound.step (hs : s.IsSound rule f) (h : step rule f c s = .ok s') :
    s'.IsSound rule f := by
  obtain ⟨hbracket, -, ha, hb, hpoint, hvalue, -⟩ := step_eq_ok_iff.1 h
  refine ⟨ha, hb, ?_, ?_, hpoint, hvalue⟩
  · rw [hbracket, narrowed]
    split
    · exact hs.value
    · exact hs.fa
  · rw [hbracket, narrowed]
    split
    · exact hs.fb
    · exact hs.value

theorem State.IsSound.narrows (hs : s.IsSound rule f) (h : Bracket.step rule f c s = .ok s') :
    BracketRow.Narrows (rule.keepsRight s.bracket s.row.value) s.row s'.row := by
  obtain ⟨hbracket, -, ha, hb, -, -, -⟩ := step_eq_ok_iff.1 h
  rw [BracketRow.Narrows, ha, hb, hbracket, narrowed, hs.a, hs.b]
  split
  · exact ⟨rfl, rfl⟩
  · exact ⟨rfl, rfl⟩

theorem IsRun.isSound (h : IsRun rule f a b c s states) : s.IsSound rule f := by
  obtain ⟨⟨k, hopened, hstart⟩, -⟩ := h
  obtain ⟨-, -, hfa, hfb⟩ := opened_eq_signChange hopened
  obtain ⟨rfl, -, ha, hb, -, hpoint, hvalue⟩ := start_eq_ok_iff.1 hstart
  exact ⟨ha, hb, hfa, hfb, hpoint, hvalue⟩

theorem IsRun.follow (h : IsRun rule f a b c s states) {IsPoint : BracketRow α → Prop}
    {IsNarrowed : BracketRow α → BracketRow α → Prop}
    (hpoint : ∀ t : State α, t.IsSound rule f → IsPoint t.row)
    (hnarrowed : ∀ (t : State α) r, t.IsSound rule f →
      BracketRow.Narrows (rule.keepsRight t.bracket t.row.value) t.row r → IsNarrowed t.row r) :
    BracketRow.Follow a b IsPoint IsNarrowed (states.map State.row) where
  first := by
    obtain ⟨⟨k, hopened, hstart⟩, hruns, -⟩ := h
    obtain ⟨rfl, rfl, -, -⟩ := opened_eq_signChange hopened
    obtain ⟨-, -, ha, hb, -⟩ := start_eq_ok_iff.1 hstart
    refine ⟨s.row, ?_, ha, hb⟩
    rw [List.head?_map, hruns.head?_eq]
    rfl
  point := by
    rw [List.forall_mem_map]
    intro t ht
    exact hpoint t (h.2.1.forall_mem h.isSound (fun _ _ hs hstep => hs.step hstep) t ht)
  narrowed := by
    rw [List.isChain_map]
    refine (h.2.1.isChain h.isSound fun _ _ hs hstep => hs.step hstep).imp ?_
    rintro t t' ⟨ht, hstep⟩
    exact hnarrowed t t'.row ht (ht.narrows hstep)

theorem IsRun.isRecord (h : IsRun rule f a b c s states) :
    IsRecord f c 1 ((states.map State.row).map BracketRow.pointRow)
      (states.getLastD s).row.mid := by
  obtain ⟨⟨k, hopened, hstart⟩, hruns, -⟩ := h
  obtain ⟨-, hindex, -, -, herror, -, hvalue⟩ := start_eq_ok_iff.1 hstart
  have hrecord := (shows rule f c).isRecord hruns [] rfl hindex
    (by simpa using ⟨hvalue, herror⟩) nofun
  rw [List.nil_append, List.getLastD_map] at hrecord
  rw [List.map_map]
  exact hrecord

theorem isFaithful_of_find {search : RootSearch α} {solution : RootSolution α (BracketRow α)}
    (h : find rule f a b c = .ok solution) (hformula : search.formula = f)
    (hseeds : search.seeds = 1) (hbudget : search.rowBudget c = c.maxIterations)
    (hfollows : ∀ s states, IsRun rule f a b c s states →
      search.Follows (.bracketing (Bracket.solution rule s states)))
    (hnone : ∀ x, search.Follows (.bracketing (.immediate x))) :
    search.IsFaithful c (.bracketing solution) := by
  rcases find_eq_ok_iff.1 h with ⟨x, hopened, rfl⟩ | ⟨s, states, hrun, rfl⟩
  · refine ⟨fun _ => ?_, nofun, hnone x⟩
    rw [hformula]
    exact opened_eq_root hopened
  · refine ⟨nofun, ?_, hfollows s states hrun⟩
    rintro _ ⟨⟩
    rw [hformula, hseeds, hbudget]
    refine ⟨hrun.isRecord, ?_⟩
    simpa using hrun.2.2

theorem isFaithful_bisection {solution : RootSolution α (BracketRow α)}
    (h : bisection f a b c = .ok solution) :
    (RootSearch.bisection f a b).IsFaithful c (.bracketing solution) := by
  refine isFaithful_of_find h rfl rfl rfl ?_ fun _ => nofun
  rintro s states hrun _ ⟨⟩
  refine ⟨rfl, hrun.follow ?_ ?_⟩
  · intro t ht
    have hpoint := Except.ok.inj ht.point
    rw [← ht.a, ← ht.b] at hpoint
    exact hpoint.symm
  · intro t r ht hnarrowed
    refine ⟨t.bracket.fa, ?_, hnarrowed⟩
    rw [ht.a]
    exact ht.fa

theorem isFaithful_falsePosition {solution : RootSolution α (BracketRow α)}
    (h : falsePosition f a b c = .ok solution) :
    (RootSearch.falsePosition f a b).IsFaithful c (.bracketing solution) := by
  refine isFaithful_of_find h rfl rfl rfl ?_ fun _ => nofun
  rintro s states hrun _ ⟨⟩
  refine ⟨rfl, hrun.follow ?_ ?_⟩
  · intro t ht
    have hpoint : chordRoot t.bracket = .ok t.row.mid := ht.point
    unfold chordRoot at hpoint
    split at hpoint
    · cases hpoint
    · rename_i hflat
      rw [BracketRow.IsChordRoot, ht.a, ht.b]
      exact ⟨_, _, ht.fa, ht.fb, Bool.eq_false_iff.2 hflat, (Except.ok.inj hpoint).symm⟩
  · intro t r ht hnarrowed
    refine ⟨t.bracket.fb, ?_, hnarrowed⟩
    rw [ht.b]
    exact ht.fb

end Bracket

/-! ### Methods that look at one point -/

namespace OnePoint

variable {seed : α} {rule : Rule α} {r : PointRow α} {rows : List (PointRow α)}

theorem shows (rule : Rule α) (f : Formula α) (c : Control α) :
    (process rule f c).Shows f c id where
  error_eq _ := rfl
  exact_eq _ := rfl
  step h := (step_eq_ok_iff.1 h).2

theorem IsRun.follow (h : IsRun rule f seed c r rows) {IsStep : PointRow α → PointRow α → Prop}
    (hstep : ∀ t t', rule.next t.point t.value = .ok t'.point → IsStep t t') :
    PointRow.Follow seed IsStep rows := by
  obtain ⟨⟨value, -, -, rfl⟩, hruns, -⟩ := h
  refine ⟨⟨_, hruns.head?_eq, rfl⟩, ?_⟩
  refine (hruns.isChain trivial fun _ _ _ _ => trivial).imp ?_
  rintro t t' ⟨-, ht⟩
  exact hstep t t' (step_eq_ok_iff.1 ht).1

theorem IsRun.isRecord (h : IsRun rule f seed c r rows) :
    IsRecord f c 1 rows (rows.getLastD r).point := by
  obtain ⟨⟨value, hvalue, -, rfl⟩, hruns, -⟩ := h
  have hrecord := (shows rule f c).isRecord hruns [] rfl rfl
    (by simpa using ⟨hvalue, rfl⟩) nofun
  rwa [List.nil_append, List.map_id] at hrecord

theorem isFaithful_of_find {search : RootSearch α} {solution : RootSolution α (PointRow α)}
    (h : find rule f seed c = .ok solution) (hformula : search.formula = f)
    (hseeds : search.seeds = 1) (hbudget : search.rowBudget c = c.maxIterations)
    (hfollows : ∀ r rows, IsRun rule f seed c r rows →
      search.Follows (.moving ⟨(rows.getLastD r).point, some ⟨rule.method, rows⟩⟩))
    (hnone : ∀ x, search.Follows (.moving (.immediate x))) :
    search.IsFaithful c (.moving solution) := by
  rcases find_eq_ok_iff.1 h with ⟨v, hv, hzero, rfl⟩ | ⟨r, rows, hrun, rfl⟩
  · refine ⟨fun _ => ?_, nofun, hnone seed⟩
    rw [hformula]
    exact ⟨v, hv, hzero⟩
  · refine ⟨nofun, ?_, hfollows r rows hrun⟩
    rintro _ ⟨⟩
    rw [hformula, hseeds, hbudget]
    exact ⟨hrun.isRecord, hrun.2.2⟩

theorem isFaithful_fixedPoint {g : Formula α} {solution : RootSolution α (PointRow α)}
    (h : fixedPoint f g seed c = .ok solution) :
    (RootSearch.fixedPoint f g seed).IsFaithful c (.moving solution) := by
  refine isFaithful_of_find h rfl rfl rfl ?_ fun _ => nofun
  rintro r rows hrun _ ⟨⟩
  exact ⟨rfl, hrun.follow fun t t' hnext => liftDomain_eq_ok_iff.1 hnext⟩

theorem isFaithful_newton {solution : RootSolution α (PointRow α)}
    (h : newton f seed c = .ok solution) :
    (RootSearch.newton f seed).IsFaithful c (.moving solution) := by
  refine isFaithful_of_find h rfl rfl rfl ?_ fun _ => nofun
  rintro r rows hrun _ ⟨⟩
  refine ⟨rfl, hrun.follow fun t t' hnext => ?_⟩
  obtain ⟨d, hd, hnext⟩ := bind_eq_ok_iff.1 hnext
  split at hnext
  · cases hnext
  · rename_i hzero
    exact ⟨d, liftDomain_eq_ok_iff.1 hd, Bool.eq_false_iff.2 hzero, (Except.ok.inj hnext).symm⟩

theorem isFaithful_multipleRoots {solution : RootSolution α (PointRow α)}
    (h : multipleRoots f seed c = .ok solution) :
    (RootSearch.multipleRoots f seed).IsFaithful c (.moving solution) := by
  refine isFaithful_of_find h rfl rfl rfl ?_ fun _ => nofun
  rintro r rows hrun _ ⟨⟩
  refine ⟨rfl, hrun.follow fun t t' hnext => ?_⟩
  obtain ⟨d, hd, hnext⟩ := bind_eq_ok_iff.1 hnext
  obtain ⟨d₂, hd₂, hnext⟩ := bind_eq_ok_iff.1 hnext
  dsimp only at hnext
  split at hnext
  · cases hnext
  · rename_i hzero
    exact ⟨d, d₂, liftDomain_eq_ok_iff.1 hd, liftDomain_eq_ok_iff.1 hd₂,
      Bool.eq_false_iff.2 hzero, (Except.ok.inj hnext).symm⟩

end OnePoint

/-! ### The secant method -/

namespace Secant

variable {x₀ x₁ : α} {s : State α} {states : List (State α)}

theorem shows (f : Formula α) (c : Control α) : (process f c).Shows f c State.current where
  error_eq _ := rfl
  exact_eq _ := rfl
  step h := (step_eq_ok_iff.1 h).2.2

/-- The state after row `k` has the rows `k` and `k + 1`. -/
theorem getElem?_rows (h : (process f c).Runs c s states) {k : ℕ} {t : State α}
    (ht : states[k]? = some t) : (rows s states)[k]? = some t.previous := by
  cases k with
  | zero =>
    rw [← List.head?_eq_getElem?, h.head?_eq] at ht
    cases ht
    rfl
  | succ k =>
    have hk : k < states.length := by
      have := (List.getElem?_eq_some_iff.1 ht).1
      omega
    obtain ⟨-, hstep⟩ := h.next (List.getElem?_eq_getElem hk) ht
    obtain ⟨-, hprevious, -⟩ := step_eq_ok_iff.1 hstep
    rw [rows, List.getElem?_cons_succ, List.getElem?_map, List.getElem?_eq_getElem hk, hprevious]
    rfl

theorem IsRun.followTwo (h : IsRun f x₀ x₁ c s states) :
    PointRow.FollowTwo x₀ x₁ (rows s states) := by
  obtain ⟨⟨f₀, f₁, -, -, -, -, rfl⟩, hruns, -⟩ := h
  constructor
  · have hhead : states.take 1 = [start x₀ x₁ f₀ f₁] := by
      rw [List.take_one, hruns.head?_eq]
      rfl
    rw [rows, List.map_cons, List.take_succ_cons, List.map_map, ← List.map_take, hhead]
    rfl
  · intro k r r' r'' hr hr' hr''
    rw [rows, List.getElem?_cons_succ, List.getElem?_map, Option.map_eq_some_iff] at hr' hr''
    obtain ⟨t, ht, rfl⟩ := hr'
    obtain ⟨t', ht', rfl⟩ := hr''
    rw [getElem?_rows hruns ht] at hr
    cases hr
    obtain ⟨hnext, -⟩ := step_eq_ok_iff.1 (hruns.next ht ht').2
    unfold next at hnext
    dsimp only at hnext
    split at hnext
    · cases hnext
    · rename_i hzero
      exact ⟨Bool.eq_false_iff.2 hzero, (Except.ok.inj hnext).symm⟩

theorem IsRun.isRecord (h : IsRun f x₀ x₁ c s states) :
    IsRecord f c 2 (rows s states) ((rows s states).getLastD s.current).point := by
  obtain ⟨⟨f₀, f₁, hf₀, hf₁, hne, -, rfl⟩, hruns, -⟩ := h
  refine (shows f c).isRecord hruns [(start x₀ x₁ f₀ f₁).previous] rfl rfl ?_ ?_
  · simpa using ⟨⟨hf₀, rfl⟩, hf₁, rfl⟩
  · simpa [start] using hne

theorem isFaithful_secant {solution : RootSolution α (PointRow α)}
    (h : secant f x₀ x₁ c = .ok solution) :
    (RootSearch.secant f x₀ x₁).IsFaithful c (.moving solution) := by
  rcases secant_eq_ok_iff.1 h with ⟨f₀, f₁, hf₀, hf₁, hseed⟩ | ⟨s, states, hrun, rfl⟩
  · rcases hseed with ⟨hzero, rfl⟩ | ⟨-, hzero, rfl⟩
    · exact ⟨fun _ => ⟨f₀, hf₀, hzero⟩, nofun, nofun⟩
    · exact ⟨fun _ => ⟨f₁, hf₁, hzero⟩, nofun, nofun⟩
  · refine ⟨nofun, ?_, ?_⟩
    · rintro _ ⟨⟩
      refine ⟨hrun.isRecord, ?_⟩
      have hlength := hrun.2.2
      simp only [rows, List.length_cons, List.length_map, RootSearch.rowBudget]
      omega
    · rintro _ ⟨⟩
      exact ⟨rfl, hrun.followTwo⟩

end Secant

/-! ### All methods -/

namespace RootSearch

/-- The trace of every root finder is the record of its run, and a run that does not converge
    is reported with the budget it was given. -/
theorem answer_isFaithful (s : RootSearch α) (c : Control α) :
    (∀ answer, s.answer c = .ok answer → s.IsFaithful c answer) ∧
      ∀ n, s.answer c = .error (.noConvergence n) → n = c.maxIterations := by
  constructor
  · intro answer h
    cases s with
    | bisection f a b =>
      obtain ⟨solution, hsolution, ⟨⟩⟩ := bind_eq_ok_iff.1 h
      exact Bracket.isFaithful_bisection hsolution
    | falsePosition f a b =>
      obtain ⟨solution, hsolution, ⟨⟩⟩ := bind_eq_ok_iff.1 h
      exact Bracket.isFaithful_falsePosition hsolution
    | fixedPoint f g seed =>
      obtain ⟨solution, hsolution, ⟨⟩⟩ := bind_eq_ok_iff.1 h
      exact OnePoint.isFaithful_fixedPoint hsolution
    | newton f seed =>
      obtain ⟨solution, hsolution, ⟨⟩⟩ := bind_eq_ok_iff.1 h
      exact OnePoint.isFaithful_newton hsolution
    | multipleRoots f seed =>
      obtain ⟨solution, hsolution, ⟨⟩⟩ := bind_eq_ok_iff.1 h
      exact OnePoint.isFaithful_multipleRoots hsolution
    | secant f x₀ x₁ =>
      obtain ⟨solution, hsolution, ⟨⟩⟩ := bind_eq_ok_iff.1 h
      exact Secant.isFaithful_secant hsolution
  · intro n h
    cases s with
    | bisection f a b =>
      obtain h | ⟨_, -, ⟨⟩⟩ := bind_eq_error_iff.1 h
      exact Bracket.find_eq_noConvergence Bracket.keepsBudget_midpoint h
    | falsePosition f a b =>
      obtain h | ⟨_, -, ⟨⟩⟩ := bind_eq_error_iff.1 h
      exact Bracket.find_eq_noConvergence Bracket.keepsBudget_chordRoot h
    | fixedPoint f g seed =>
      obtain h | ⟨_, -, ⟨⟩⟩ := bind_eq_error_iff.1 h
      exact OnePoint.find_eq_noConvergence (OnePoint.keepsBudget_fixedPointRule g) h
    | newton f seed =>
      obtain h | ⟨_, -, ⟨⟩⟩ := bind_eq_error_iff.1 h
      exact OnePoint.find_eq_noConvergence (OnePoint.keepsBudget_newtonRule _) h
    | multipleRoots f seed =>
      obtain h | ⟨_, -, ⟨⟩⟩ := bind_eq_error_iff.1 h
      exact OnePoint.find_eq_noConvergence (OnePoint.keepsBudget_multipleRule _ _) h
    | secant f x₀ x₁ =>
      obtain h | ⟨_, -, ⟨⟩⟩ := bind_eq_error_iff.1 h
      exact Secant.secant_eq_noConvergence h

/-- A run of the secant method, and the same run with too small a budget. -/
theorem answer_isFaithful_secant :
    let s : RootSearch ℚ := .secant (.sub (.mul (.var "x") (.var "x")) (.const 2)) 1 2
    (∃ answer, s.answer ⟨1 / 10, 10, false⟩ = .ok answer ∧
        answer.rows?.map (List.map PointRow.point) = some [1, 2, 4 / 3, 7 / 5] ∧
          s.IsFaithful ⟨1 / 10, 10, false⟩ answer) ∧
      s.answer ⟨1 / 10, 2, false⟩ = .error (.noConvergence 2) ∧
        2 = (⟨1 / 10, 2, false⟩ : Control ℚ).maxIterations := by
  intro s
  obtain ⟨answer, hanswer, hpoints⟩ : ∃ answer, s.answer ⟨1 / 10, 10, false⟩ = .ok answer ∧
      answer.rows?.map (List.map PointRow.point) = some [1, 2, 4 / 3, 7 / 5] :=
    exists_ok_of_any (by decide +kernel)
  have hfails : s.answer ⟨1 / 10, 2, false⟩ = .error (.noConvergence 2) := by decide +kernel
  exact ⟨⟨answer, hanswer, hpoints, (answer_isFaithful s _).1 answer hanswer⟩, hfails,
    (answer_isFaithful s _).2 2 hfails⟩

end RootSearch

end NumericMethods
