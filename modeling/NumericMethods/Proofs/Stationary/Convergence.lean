/-
  NumericMethods/Proofs/Stationary/Convergence.lean
  =================================================
  **Convergence on strictly dominant systems.**

  If every diagonal entry is larger in magnitude than the other entries of its row
  together, a sweep brings any two vectors closer in the maximum norm, by the factor `θ` for
  the method of Jacobi and `1 - w (1 - θ)` for relaxation, where `θ` is the largest ratio of
  the two sides (`IsSweep.contracts`).  For relaxation this is an induction over the
  components: the new components that enter an equation are already bounded.

  From the contraction follow the only solution (`exists_unique_solution`), the geometric
  decrease of the steps, so that the run ends within some budget, and the distance of its
  last vector from the solution (`converges_of_dominant`).  The tolerance must not be above
  the initial error, or the run ends before its first step.
-/
import Mathlib
import NumericMethods.Proofs.DenseMatrix.Norm
import NumericMethods.Proofs.Stationary.Sweep

namespace NumericMethods.Stationary

open DenseMatrix Matrix

variable {K : Type} [Field K] [LinearOrder K] [IsStrictOrderedRing K] [ExactScalar K]
variable {n : ℕ} {s : Stationary K} {A : DenseMatrix K n n} {b b' x x' y y' : Vector K n}
variable {g : AffineMap K n} {w q tolerance : K} {c : Control K}

/-- Every diagonal entry outweighs the other entries of its row. -/
def StrictlyDominant (A : DenseMatrix K n n) : Prop :=
  ∀ i, ∑ j with j ≠ i, |A.entry i j| < |A.entry i i|

/-- The largest ratio between the other entries of a row together and the diagonal entry. -/
def offDiagonalRatio (A : DenseMatrix K n n) : K :=
  normInf (Vector.ofFn fun i => (∑ j with j ≠ i, |A.entry i j|) / |A.entry i i|)

/-- The factor by which a sweep brings vectors closer. -/
def contraction (s : Stationary K) (A : DenseMatrix K n n) : K :=
  match s.relaxation? with
  | none => offDiagonalRatio A
  | some w => 1 - w * (1 - offDiagonalRatio A)

/-! ### Dominance -/

theorem StrictlyDominant.diagonal_pos (hA : StrictlyDominant A) (i : Fin n) :
    0 < |A.entry i i| := by
  apply lt_of_le_of_lt _ (hA i)
  exact Finset.sum_nonneg fun j _ => abs_nonneg _

theorem StrictlyDominant.diagonal_beq (hA : StrictlyDominant A) (i : Fin n) :
    (A.entry i i == 0) = false := by
  have hne := abs_pos.1 (hA.diagonal_pos i)
  exact Bool.eq_false_iff.2 fun h => hne (ExactScalar.beq_iff.1 h)

theorem StrictlyDominant.offDiagonal_le (hA : StrictlyDominant A) (i : Fin n) :
    ∑ j with j ≠ i, |A.entry i j| ≤ offDiagonalRatio A * |A.entry i i| := by
  rw [← div_le_iff₀ (hA.diagonal_pos i)]
  apply (le_abs_self _).trans
  have h := abs_get_le_normInf
    (Vector.ofFn fun i => (∑ j with j ≠ i, |A.entry i j|) / |A.entry i i|) i
  rwa [Vector.get_ofFn] at h

theorem offDiagonalRatio_nonneg (A : DenseMatrix K n n) : 0 ≤ offDiagonalRatio A :=
  normInf_nonneg _

theorem StrictlyDominant.offDiagonalRatio_lt_one (hA : StrictlyDominant A) :
    offDiagonalRatio A < 1 := by
  apply normInf_lt one_pos
  intro i
  rw [Vector.get_ofFn, abs_div, abs_abs, div_lt_one (hA.diagonal_pos i),
    abs_of_nonneg (Finset.sum_nonneg fun j _ => abs_nonneg _)]
  exact hA i

/-! ### Contraction -/

theorem contraction_nonneg (hs : ∀ w, s.relaxation? = some w → 0 < w ∧ w ≤ 1) :
    0 ≤ s.contraction A := by
  have hθ := offDiagonalRatio_nonneg A
  unfold contraction
  cases hw : s.relaxation? with
  | none => exact hθ
  | some w =>
    obtain ⟨hpos, hone⟩ := hs w hw
    dsimp only
    nlinarith

theorem contraction_lt_one (hA : StrictlyDominant A)
    (hs : ∀ w, s.relaxation? = some w → 0 < w ∧ w ≤ 1) : s.contraction A < 1 := by
  have hθ := hA.offDiagonalRatio_lt_one
  unfold contraction
  cases hw : s.relaxation? with
  | none => exact hθ
  | some w =>
    dsimp only
    exact sub_lt_self 1 (mul_pos (hs w hw).1 (sub_pos.2 hθ))

/-- Two sweeps differ by a sweep of the differences. -/
theorem IsSweep.sub (h : s.IsSweep A b x y) (h' : s.IsSweep A b' x' y') :
    s.IsSweep A (subVec b b') (subVec x x') (subVec y y') := by
  unfold IsSweep at h h' ⊢
  cases hw : s.relaxation? with
  | none =>
    rw [hw] at h h'
    intro i
    simp only [get_subVec, mul_sub, Finset.sum_sub_distrib]
    linear_combination h i - h' i
  | some w =>
    rw [hw] at h h'
    intro i
    simp only [get_subVec, mul_sub, Finset.sum_sub_distrib]
    linear_combination h i - h' i

theorem normInf_le_jacobi (hA : StrictlyDominant A)
    (h : ∀ i, A.entry i i * y.get i = -∑ j with j ≠ i, A.entry i j * x.get j) :
    normInf y ≤ offDiagonalRatio A * normInf x := by
  rw [normInf_le_iff]
  refine ⟨mul_nonneg (offDiagonalRatio_nonneg A) (normInf_nonneg x), ?_⟩
  intro i
  apply le_of_mul_le_mul_left _ (hA.diagonal_pos i)
  calc
    |A.entry i i| * |y.get i| = |∑ j with j ≠ i, A.entry i j * x.get j| := by
      rw [← abs_mul, h i, abs_neg]
    _ ≤ (∑ j with j ≠ i, |A.entry i j|) * normInf x :=
      abs_sum_mul_le fun j _ => abs_get_le_normInf x j
    _ ≤ offDiagonalRatio A * |A.entry i i| * normInf x :=
      mul_le_mul_of_nonneg_right (hA.offDiagonal_le i) (normInf_nonneg x)
    _ = |A.entry i i| * (offDiagonalRatio A * normInf x) := by ring

/-- The components are bounded one after the other, as those before enter the equation. -/
theorem normInf_le_relaxed (hA : StrictlyDominant A) (hpos : 0 < w) (hone : w ≤ 1)
    (h : ∀ i, A.entry i i * y.get i = (1 - w) * A.entry i i * x.get i -
      w * ((∑ j with j < i, A.entry i j * y.get j) + ∑ j with i < j, A.entry i j * x.get j)) :
    normInf y ≤ (1 - w * (1 - offDiagonalRatio A)) * normInf x := by
  have hθ := hA.offDiagonalRatio_lt_one
  have hx := normInf_nonneg x
  have hnonneg : 0 ≤ 1 - w * (1 - offDiagonalRatio A) := by
    nlinarith [offDiagonalRatio_nonneg A]
  have hle : (1 - w * (1 - offDiagonalRatio A)) * normInf x ≤ normInf x :=
    mul_le_of_le_one_left hx (by nlinarith)
  rw [normInf_le_iff]
  refine ⟨mul_nonneg hnonneg hx, ?_⟩
  intro i
  induction i using WellFoundedLT.induction with
  | ind i ih =>
    have hbefore : |∑ j with j < i, A.entry i j * y.get j| ≤
        (∑ j with j < i, |A.entry i j|) * normInf x := by
      apply abs_sum_mul_le
      intro j hj
      exact (ih j (Finset.mem_filter.1 hj).2).trans hle
    have hbehind : |∑ j with i < j, A.entry i j * x.get j| ≤
        (∑ j with i < j, |A.entry i j|) * normInf x :=
      abs_sum_mul_le fun j _ => abs_get_le_normInf x j
    have hothers := hA.offDiagonal_le i
    rw [sum_ne_eq] at hothers
    apply le_of_mul_le_mul_left _ (hA.diagonal_pos i)
    calc
      |A.entry i i| * |y.get i| ≤ |(1 - w) * A.entry i i * x.get i| +
          |w * ((∑ j with j < i, A.entry i j * y.get j) +
            ∑ j with i < j, A.entry i j * x.get j)| := by
        rw [← abs_mul, h i]
        exact abs_sub _ _
      _ ≤ (1 - w) * |A.entry i i| * normInf x + w * (offDiagonalRatio A * |A.entry i i| *
          normInf x) := by
        rw [abs_mul, abs_mul, abs_mul, abs_of_nonneg (sub_nonneg.2 hone), abs_of_pos hpos]
        apply add_le_add
        · exact mul_le_mul_of_nonneg_left (abs_get_le_normInf x i)
            (mul_nonneg (sub_nonneg.2 hone) (abs_nonneg _))
        · apply mul_le_mul_of_nonneg_left _ hpos.le
          apply (abs_add_le _ _).trans
          apply (add_le_add hbefore hbehind).trans
          rw [← add_mul]
          exact mul_le_mul_of_nonneg_right hothers hx
      _ = |A.entry i i| * ((1 - w * (1 - offDiagonalRatio A)) * normInf x) := by ring

theorem IsSweep.contracts (hA : StrictlyDominant A)
    (hs : ∀ w, s.relaxation? = some w → 0 < w ∧ w ≤ 1) (h : s.IsSweep A b x y)
    (h' : s.IsSweep A b x' y') :
    normInf (subVec y y') ≤ s.contraction A * normInf (subVec x x') := by
  have hdifference := h.sub h'
  have hzero : ∀ i, (subVec b b).get i = 0 := by
    intro i
    rw [get_subVec, sub_self]
  unfold IsSweep at hdifference
  unfold contraction
  cases hw : s.relaxation? with
  | none =>
    rw [hw] at hdifference
    apply normInf_le_jacobi hA
    intro i
    rw [hdifference i, hzero, zero_sub]
  | some w =>
    rw [hw] at hdifference
    obtain ⟨hpos, hone⟩ := hs w hw
    apply normInf_le_relaxed hA hpos hone
    intro i
    rw [hdifference i, hzero]
    ring

theorem apply_contracts (hA : StrictlyDominant A)
    (hs : ∀ w, s.relaxation? = some w → 0 < w ∧ w ≤ 1) (h : s.affineMap A b = .ok g)
    (x x' : Vector K n) :
    normInf (subVec (g.apply x) (g.apply x')) ≤ s.contraction A * normInf (subVec x x') :=
  ((affineMap_apply_iff h).1 rfl).contracts hA hs ((affineMap_apply_iff h).1 rfl)

/-! ### The solution -/

theorem isSweep_of_mulVec_eq (h : A.mulVec x = b) : s.IsSweep A b x x := by
  have hrow : ∀ i, A.entry i i * x.get i + ∑ j with j ≠ i, A.entry i j * x.get j = b.get i := by
    intro i
    rw [← h, get_mulVec, sum_eq_add_sum_ne i]
  unfold IsSweep
  cases hw : s.relaxation? with
  | none =>
    intro i
    linear_combination hrow i
  | some w =>
    intro i
    have hi := hrow i
    rw [sum_ne_eq] at hi
    linear_combination w * hi

theorem eq_of_mulVec_eq (hA : StrictlyDominant A) (h : A.mulVec x = b) (h' : A.mulVec x' = b) :
    x = x' := by
  have hjacobi : ∀ w, (jacobi : Stationary K).relaxation? = some w → 0 < w ∧ w ≤ 1 := by
    intro w hw
    cases hw
  have hcloser := (isSweep_of_mulVec_eq h).contracts hA hjacobi (isSweep_of_mulVec_eq h')
  have hfactor : (jacobi : Stationary K).contraction A < 1 := hA.offDiagonalRatio_lt_one
  apply eq_of_normInf_sub_le_zero
  nlinarith

theorem exists_unique_solution (hA : StrictlyDominant A) (b : Vector K n) :
    ∃ z, ∀ v, A.mulVec v = b ↔ v = z := by
  have hinjective : Function.Injective A.toMatrix.mulVecLin := by
    intro u v h
    obtain ⟨u, rfl⟩ : ∃ u' : Vector K n, coordinates u' = u := ⟨_, coordinates_ofFn u⟩
    obtain ⟨v, rfl⟩ : ∃ v' : Vector K n, coordinates v' = v := ⟨_, coordinates_ofFn v⟩
    simp only [mulVecLin_apply, ← coordinates_mulVec, coordinates_injective.eq_iff] at h
    rw [eq_of_mulVec_eq hA h rfl]
  obtain ⟨z, hz⟩ := LinearMap.injective_iff_surjective.1 hinjective (coordinates b)
  have hsolves : A.mulVec (Vector.ofFn z) = b := by
    apply coordinates_injective
    rw [coordinates_mulVec, coordinates_ofFn]
    exact hz
  refine ⟨Vector.ofFn z, ?_⟩
  intro v
  constructor
  · intro hv
    exact eq_of_mulVec_eq hA hv hsolves
  · rintro rfl
    exact hsolves

/-! ### The run -/

/-- The state after a state, where the size of the step is its error. -/
def following (g : AffineMap K n) (t : State K n) : State K n :=
  ⟨t.index + 1, g.apply t.x, normInf (subVec (g.apply t.x) t.x)⟩

theorem iterate_following_x (g : AffineMap K n) (t : State K n) (k : ℕ) :
    ((following g)^[k] t).x = g.apply^[k] t.x :=
  Function.Semiconj.iterate_right (f := State.x) (fun _ => rfl) k t

/-- The steps decrease geometrically. -/
theorem normInf_step_le (hA : StrictlyDominant A)
    (hs : ∀ w, s.relaxation? = some w → 0 < w ∧ w ≤ 1) (h : s.affineMap A b = .ok g)
    (x : Vector K n) (k : ℕ) :
    normInf (subVec (g.apply^[k + 1] x) (g.apply^[k] x)) ≤
      s.contraction A ^ k * normInf (subVec (g.apply x) x) := by
  induction k with
  | zero => simp
  | succ k ih =>
    rw [Function.iterate_succ_apply' g.apply (k + 1), Function.iterate_succ_apply' g.apply k,
      pow_succ', mul_assoc]
    apply (apply_contracts hA hs h _ _).trans
    rw [← Function.iterate_succ_apply' g.apply k]
    exact mul_le_mul_of_nonneg_left ih (contraction_nonneg hs)

theorem exists_small_step [Archimedean K] (hA : StrictlyDominant A)
    (hs : ∀ w, s.relaxation? = some w → 0 < w ∧ w ≤ 1) (h : s.affineMap A b = .ok g)
    (hpos : 0 < tolerance) (x : Vector K n) :
    ∃ k, normInf (subVec (g.apply^[k + 1] x) (g.apply^[k] x)) < tolerance := by
  have hfirst : 0 < normInf (subVec (g.apply x) x) + 1 :=
    add_pos_of_nonneg_of_pos (normInf_nonneg _) one_pos
  obtain ⟨k, hk⟩ := exists_pow_lt_of_lt_one (div_pos hpos hfirst) (contraction_lt_one hA hs)
  refine ⟨k, ?_⟩
  rw [lt_div_iff₀ hfirst] at hk
  apply lt_of_le_of_lt (normInf_step_le hA hs h x k)
  apply lt_of_le_of_lt _ hk
  apply mul_le_mul_of_nonneg_left _ (pow_nonneg (contraction_nonneg hs) k)
  exact (lt_add_one _).le

/-- After a small step the vector is close to the solution. -/
theorem normInf_sub_solution_le {z : Vector K n} (hA : StrictlyDominant A)
    (hs : ∀ w, s.relaxation? = some w → 0 < w ∧ w ≤ 1) (h : s.affineMap A b = .ok g)
    (hz : A.mulVec z = b) (hstep : normInf (subVec (g.apply x) x) ≤ tolerance) :
    normInf (subVec (g.apply x) z) ≤ s.contraction A / (1 - s.contraction A) * tolerance := by
  have hq := contraction_nonneg (A := A) hs
  have hone := sub_pos.2 (contraction_lt_one hA hs)
  have hfixed : g.apply z = z := (affineMap_apply_iff h).2 (isSweep_of_mulVec_eq hz)
  have hcloser := apply_contracts hA hs h x z
  rw [hfixed] at hcloser
  have hway := normInf_sub_le x (g.apply x) z
  rw [normInf_sub_comm x (g.apply x)] at hway
  rw [div_mul_eq_mul_div, le_div_iff₀ hone]
  have hbound : s.contraction A * normInf (subVec x z) ≤
      s.contraction A * (tolerance + normInf (subVec (g.apply x) z)) :=
    mul_le_mul_of_nonneg_left (hway.trans (add_le_add_left hstep _)) hq
  linarith

/-- The methods converge on strictly dominant systems: with every budget that is large
    enough a solution is returned, and the tolerance bounds its distance from the only
    solution of the system. -/
theorem converges_of_dominant [Archimedean K] (s : Stationary K) (A : DenseMatrix K n n)
    (b x₀ : Vector K n) (tolerance : K) {g : AffineMap K n} (hA : StrictlyDominant A)
    (hs : ∀ w, s.relaxation? = some w → 0 < w ∧ w ≤ 1) (hpos : 0 < tolerance)
    (hinitial : tolerance ≤ 100) (h : s.affineMap A b = .ok g) :
    ∃ z, (∀ v, A.mulVec v = b ↔ v = z) ∧ ∃ N, ∀ budget ≥ N, ∃ x trace,
      s.solve A.toRows b.toList x₀.toList ⟨tolerance, budget, false⟩ = .ok ⟨n, g, x, trace⟩ ∧
        normInf (subVec x z) ≤ s.contraction A / (1 - s.contraction A) * tolerance := by
  obtain ⟨z, hz⟩ := exists_unique_solution hA b
  obtain ⟨k, hk⟩ := exists_small_step hA hs h hpos x₀
  refine ⟨z, hz, k + 1, ?_⟩
  intro budget hbudget
  let c : Control K := ⟨tolerance, budget, false⟩
  have hnext : ∀ t, (process g c).step t = .ok (following g t) :=
    fun t => step_eq_ok_iff.2 ⟨rfl, rfl, rfl⟩
  have hdone : (process g c).isDone c ((following g)^[k + 1] (start x₀)) = true := by
    rw [Function.iterate_succ_apply']
    apply Bool.or_eq_true_iff.2
    left
    apply decide_eq_true
    change normInf (subVec (g.apply ((following g)^[k] (start x₀)).x) _) < tolerance
    rw [iterate_following_x]
    rwa [Function.iterate_succ_apply'] at hk
  obtain ⟨states, hrun⟩ := Process.exists_run hnext hdone hbudget
  obtain ⟨hruns, hlength⟩ := Process.run_eq_ok_iff.1 hrun
  have hstart : (process g c).isDone c (start x₀) = false := by
    apply Bool.or_eq_false_iff.2
    refine ⟨decide_eq_false ?_, rfl⟩
    change ¬ (Scalar.ofNat 100 : K) < tolerance
    rw [ExactScalar.ofNat_eq, not_lt]
    exact_mod_cast hinitial
  obtain ⟨y, hlast, hsize⟩ := exists_last_step hruns (hruns.one_lt_length hstart)
  have hadmitted : s.isAdmitted = true := by
    rw [isAdmitted_iff]
    intro w hw
    obtain ⟨hw0, hw1⟩ := hs w hw
    exact ⟨hw0.le, hw1.trans one_le_two⟩
  refine ⟨g.apply y, ⟨s.method, states.map State.row⟩, ?_, ?_⟩
  · rw [solve_toRows (ne_zero_of_affineMap h), solveSquare_eq_ok_iff]
    refine ⟨hadmitted, hA.diagonal_beq, g, h, iterate_eq_ok_iff.2 ⟨states, ⟨hruns, hlength⟩, ?_⟩⟩
    rw [solutionOf, hlast]
  · exact normInf_sub_solution_le hA hs h ((hz z).2 rfl) hsize

/-- Relaxation with the factor one half, which brings vectors closer by two thirds. -/
theorem converges_of_dominant_sor :
    let s : Stationary ℚ := .sor (1 / 2)
    let A : DenseMatrix ℚ 2 2 := #v[#v[4, 1], #v[1, 3]]
    StrictlyDominant A ∧ s.contraction A = 2 / 3 ∧
      ∃ g z, s.affineMap A #v[1, 2] = .ok g ∧ (∀ v, A.mulVec v = #v[1, 2] ↔ v = z) ∧
        ∃ N, ∀ budget ≥ N, ∃ x trace,
          s.solve A.toRows [1, 2] [0, 0] ⟨1 / 10, budget, false⟩ = .ok ⟨2, g, x, trace⟩ ∧
            normInf (subVec x z) ≤ s.contraction A / (1 - s.contraction A) * (1 / 10) := by
  intro s A
  have hA : StrictlyDominant A := by
    unfold StrictlyDominant
    decide +kernel
  have hs : ∀ w, s.relaxation? = some w → 0 < w ∧ w ≤ 1 := by
    intro w hw
    cases hw
    decide +kernel
  have hcontraction : s.contraction A = 2 / 3 := by decide +kernel
  obtain ⟨g, hg, -⟩ : ∃ g, s.affineMap A #v[1, 2] = .ok g ∧ g.offset = #v[1 / 8, 5 / 16] :=
    exists_ok_of_any (by decide +kernel)
  obtain ⟨z, hz, hrun⟩ :=
    converges_of_dominant s A #v[1, 2] #v[0, 0] (1 / 10) hA hs (by norm_num) (by norm_num) hg
  exact ⟨hA, hcontraction, g, z, hg, hz, hrun⟩

end NumericMethods.Stationary
