/-
  NumericMethods/Proofs/Interpolation/WrittenPolynomial.lean
  ==========================================================
  **Written polynomials mean what they were written for.**

  Over the rational numbers every written polynomial is read, and its value at every point
  is that of the polynomial whose coefficients, nodes and denominators are rounded the way
  numbers are written (`written_polynomials`).

  The trees that are read are known; here they are evaluated, each by an induction that
  follows how the text is put together.
-/
import Mathlib
import NumericMethods.Proofs.Formula.Evaluation
import NumericMethods.Proofs.Interpolation.DividedDifference
import NumericMethods.Proofs.Interpolation.FormNotation
import NumericMethods.Proofs.Interpolation.WrittenNumber

namespace NumericMethods.Written

open Finset

attribute [local instance] RationalNumber.exactScalar

variable {x a b v w : ℚ} {u r : Formula ℚ} {cs xs ys nodes : List ℚ}

/-! ### Values of operations -/

theorem eval_const (x v : ℚ) : (Formula.const v).eval x = .ok v :=
  Formula.eval_const_eq_ok_iff.2 ⟨rfl, rfl⟩

theorem eval_var (x : ℚ) : (Formula.var "x").eval x = .ok x :=
  Formula.eval_var_eq_ok_iff.2 ⟨rfl, rfl⟩

theorem eval_add (hu : u.eval x = .ok a) (hr : r.eval x = .ok b) :
    (Formula.add u r).eval x = .ok (a + b) :=
  Formula.eval_add_eq_ok_iff.2 ⟨a, hu, b, hr, rfl, rfl⟩

theorem eval_sub (hu : u.eval x = .ok a) (hr : r.eval x = .ok b) :
    (Formula.sub u r).eval x = .ok (a - b) :=
  Formula.eval_sub_eq_ok_iff.2 ⟨a, hu, b, hr, rfl, rfl⟩

theorem eval_mul (hu : u.eval x = .ok a) (hr : r.eval x = .ok b) :
    (Formula.mul u r).eval x = .ok (a * b) :=
  Formula.eval_mul_eq_ok_iff.2 ⟨a, hu, b, hr, rfl, rfl⟩

theorem eval_div (hu : u.eval x = .ok a) (hr : r.eval x = .ok b) (hb : b ≠ 0) :
    (Formula.div u r).eval x = .ok (a / b) := by
  have hbeq : (b == 0) = false := by
    rw [Bool.eq_false_iff, Ne, ExactScalar.beq_iff]
    exact hb
  exact Formula.eval_div_eq_ok_iff.2 ⟨a, hu, b, hr, hbeq, rfl, rfl⟩

/-- A term is added or subtracted by the sign of its coefficient, which is not written
    again. -/
theorem eval_joined (c : ℚ) (hu : u.eval x = .ok a) (hr : r.eval x = .ok (|rounded c| * b)) :
    (joined (isNegative c) u r).eval x = .ok (a + rounded c * b) := by
  rw [joined, (hasMagnitude_rounded c).2]
  by_cases hneg : rounded c < 0
  · rw [if_pos (decide_eq_true hneg), eval_sub hu hr, abs_of_neg hneg]
    congr 1
    ring
  · rw [if_neg (by simpa using hneg), eval_add hu hr, abs_of_nonneg (not_lt.1 hneg)]

theorem power_natCast (x : ℚ) (n : ℕ) : Scalar.power x (n : ℚ) = some (x ^ n) := by
  have hpower : ∀ b e : ℚ, Scalar.power b e =
      if e.den = 1 ∧ ¬ (b = 0 ∧ e < 0) then some (b ^ e.num) else none := fun _ _ => rfl
  have hnonneg : ¬ (n : ℚ) < 0 := (Nat.cast_nonneg n).not_gt
  rw [hpower, if_pos ⟨Rat.den_natCast n, fun h => hnonneg h.2⟩, Rat.num_natCast, zpow_natCast]

theorem eval_withPower (hu : u.eval x = .ok a) (n : ℕ) :
    (withPower u n).eval x = .ok (a * x ^ n) := by
  match n with
  | 0 => rw [withPower, hu, pow_zero, mul_one]
  | 1 => rw [withPower, eval_mul hu (eval_var x), pow_one]
  | n + 2 =>
    have hexponent : (Scalar.ofNat (n + 2) : ℚ) = (n + 2 : ℕ) := ExactScalar.ofNat_eq (n + 2)
    have hnonneg : ¬ ((n + 2 : ℕ) : ℚ) < 0 := (Nat.cast_nonneg _).not_gt
    have hpower : (Formula.pow (.var "x") (.const (Scalar.ofNat (n + 2)))).eval x =
        .ok (x ^ (n + 2)) := by
      rw [hexponent]
      refine Formula.eval_pow_eq_ok_iff.2 ⟨x, eval_var x, _, eval_const x _, ?_, ?_, rfl⟩
      · rw [decide_eq_false hnonneg, Bool.and_false]
      · exact power_natCast x (n + 2)
    exact eval_mul hu hpower

/-! ### Polynomials in descending order -/

/-- The magnitudes that are written. -/
def writtenMagnitude (v : ℚ) : ℚ := |rounded v|

theorem horner_append_singleton (cs : List ℚ) (c x : ℚ) :
    horner (cs ++ [c]) x = horner cs x + c * x ^ cs.length := by
  induction cs with
  | nil => simp [horner]
  | cons d cs ih =>
    rw [List.cons_append, horner_cons, horner_cons, ih, List.length_cons, pow_succ]
    ring

theorem eval_furtherTree (hu : u.eval x = .ok a) :
    (furtherTree writtenMagnitude u cs).eval x =
      .ok (a + horner (cs.reverse.map rounded) x) := by
  induction cs generalizing u a with
  | nil => simpa [furtherTree, horner] using hu
  | cons c cs ih =>
    have hterm := eval_withPower (eval_const x (writtenMagnitude c)) cs.length
    rw [furtherTree, ih (eval_joined c hu hterm), List.reverse_cons, List.map_append,
      List.map_singleton, horner_append_singleton, List.length_map, List.length_reverse]
    congr 1
    ring

theorem eval_polynomialTree (hne : cs ≠ []) :
    (polynomialTree writtenMagnitude cs).eval x = .ok (horner (cs.map rounded) x) := by
  rcases List.eq_nil_or_concat' cs with rfl | ⟨lower, c, rfl⟩
  · exact absurd rfl hne
  have hfirst := eval_withPower (eval_const x (signed c (writtenMagnitude c))) lower.length
  rw [polynomialTree_append, eval_furtherTree hfirst, writtenMagnitude, signed_rounded,
    List.reverse_reverse, List.map_append, List.map_singleton, horner_append_singleton,
    List.length_map, add_comm]

theorem horner_map_rounded (cs : List ℚ) (x : ℚ) :
    horner (cs.map rounded) x = ∑ k ∈ range cs.length, rounded (cs.getD k 0) * x ^ k := by
  induction cs with
  | nil => rfl
  | cons c cs ih =>
    rw [List.map_cons, horner_cons, ih, List.length_cons, sum_range_succ', sum_mul]
    simp [pow_succ, mul_assoc]

/-! ### Products of linear factors -/

/-- The linear factors of the nodes as they are written, at `x`. -/
def factorsAt (x : ℚ) (nodes : List ℚ) : List ℚ := nodes.map fun node => x - rounded node

theorem eval_factorTree (x node : ℚ) :
    (factorTree writtenMagnitude node).eval x = .ok (x - rounded node) := by
  rw [factorTree, writtenMagnitude]
  by_cases hneg : node < 0
  · have hrounded : rounded node ≤ 0 := by
      rw [← neg_nonneg, ← rounded_neg]
      exact rounded_nonneg (neg_nonneg.2 hneg.le)
    rw [if_pos hneg, eval_add (eval_var x) (eval_const x _), abs_of_nonpos hrounded, sub_eq_add_neg]
  · rw [if_neg hneg, eval_sub (eval_var x) (eval_const x _),
      abs_of_nonneg (rounded_nonneg (not_lt.1 hneg))]

theorem eval_timesFactors (hu : u.eval x = .ok a) (nodes : List ℚ) :
    (timesFactors writtenMagnitude u nodes).eval x = .ok (a * (factorsAt x nodes).prod) := by
  induction nodes generalizing u a with
  | nil => simpa [timesFactors, factorsAt] using hu
  | cons node nodes ih =>
    have hproduct := ih (eval_mul hu (eval_factorTree x node))
    rw [factorsAt, List.map_cons, List.prod_cons, ← mul_assoc]
    exact hproduct

theorem prod_factorsAt_take {n : ℕ} (hn : n ≤ nodes.length) :
    (factorsAt x (nodes.take n)).prod = ∏ j ∈ range n, (x - rounded (nodes.getD j 0)) := by
  induction n with
  | zero => simp [factorsAt]
  | succ n ih =>
    rw [prod_range_succ, ← ih (Nat.le_of_succ_le hn), List.take_add_one, factorsAt, List.map_append,
      List.prod_append]
    simp [factorsAt, List.getElem?_eq_getElem hn]

/-! ### The form of Newton -/

theorem eval_newtonTree (prev : List ℚ) (hu : u.eval x = .ok a) (hlength : cs.length ≤ nodes.length) :
    (newtonTree writtenMagnitude prev u cs nodes).eval x = .ok (a +
      ∑ i ∈ range cs.length,
        rounded (cs.getD i 0) * (factorsAt x (prev ++ nodes.take (i + 1))).prod) := by
  induction cs generalizing prev nodes u a with
  | nil => simpa [newtonTree] using hu
  | cons c cs ih =>
    cases nodes with
    | nil => cases hlength
    | cons node nodes =>
      have hterm := eval_timesFactors (eval_const x (writtenMagnitude c)) (prev ++ [node])
      have hrest := ih (prev ++ [node]) (eval_joined c hu hterm) (Nat.le_of_succ_le_succ hlength)
      rw [newtonTree, hrest, List.length_cons, sum_range_succ']
      simp only [List.getD_cons_succ, List.getD_cons_zero, List.take_succ_cons, List.take_zero,
        List.append_assoc, List.singleton_append]
      congr 1
      ring

/-! ### The form of Lagrange -/

theorem eval_numeratorTree (x : ℚ) (nodes : List ℚ) :
    (numeratorTree writtenMagnitude nodes).eval x = .ok (factorsAt x nodes).prod := by
  cases nodes with
  | nil =>
    rw [numeratorTree, eval_const, ExactScalar.ofNat_eq]
    simp [factorsAt]
  | cons node nodes =>
    rw [numeratorTree, eval_timesFactors (eval_factorTree x node)]
    simp [factorsAt]

/-- The value of a node times its basis polynomial, as they are written. -/
def basisTermAt (x node value : ℚ) (others : List ℚ) : ℚ :=
  rounded value * (factorsAt x others).prod / rounded (LagrangeForm.denominator node others)

theorem eval_basisTermTree {node value : ℚ} {others : List ℚ}
    (hd : rounded (LagrangeForm.denominator node others) ≠ 0) :
    (basisTermTree writtenMagnitude node value others).eval x =
      .ok (basisTermAt x node value others) := by
  rw [basisTermTree, writtenMagnitude, writtenMagnitude, signed_rounded, signed_rounded]
  have hquotient : (if others.isEmpty then .const (Scalar.ofNat 1)
      else .div (numeratorTree writtenMagnitude others)
        (.const (rounded (LagrangeForm.denominator node others))) : Formula ℚ).eval x =
      .ok ((factorsAt x others).prod / rounded (LagrangeForm.denominator node others)) := by
    split
    · rename_i hempty
      obtain rfl := List.isEmpty_iff.1 hempty
      rw [eval_const, ExactScalar.ofNat_eq]
      simp [factorsAt, LagrangeForm.denominator, rounded_one]
    · exact eval_div (eval_numeratorTree x others) (eval_const x _) hd
  rw [eval_mul hquotient (eval_const x _), basisTermAt]
  congr 1
  ring

/-- A sum that is built up from the left. -/
theorem eval_foldl_add {τ : Type} {tree : τ → Formula ℚ} {value : τ → ℚ} {ts : List τ}
    (hts : ∀ t ∈ ts, (tree t).eval x = .ok (value t)) (hu : u.eval x = .ok a) :
    (ts.foldl (fun u t => .add u (tree t)) u).eval x = .ok (a + (ts.map value).sum) := by
  induction ts generalizing u a with
  | nil => simpa using hu
  | cons t ts ih =>
    obtain ⟨ht, hts⟩ := List.forall_mem_cons.1 hts
    rw [List.foldl_cons, ih hts (eval_add hu ht), List.map_cons, List.sum_cons, add_assoc]

theorem eval_lagrangeTree {ts : List (ℚ × ℚ × List ℚ)} (hne : ts ≠ [])
    (hts : ∀ t ∈ ts, rounded (LagrangeForm.denominator t.1 t.2.2) ≠ 0) :
    (lagrangeTree writtenMagnitude ts).eval x =
      .ok (ts.map fun t => basisTermAt x t.1 t.2.1 t.2.2).sum := by
  cases ts with
  | nil => exact absurd rfl hne
  | cons t ts =>
    obtain ⟨ht, hts⟩ := List.forall_mem_cons.1 hts
    have hrest : ∀ t ∈ ts, (basisTermTree writtenMagnitude t.1 t.2.1 t.2.2).eval x =
        .ok (basisTermAt x t.1 t.2.1 t.2.2) := fun t h => eval_basisTermTree (hts t h)
    rw [lagrangeTree, eval_foldl_add hrest (eval_basisTermTree ht), List.map_cons, List.sum_cons]

theorem terms_eq (hlength : xs.length = ys.length) :
    LagrangeForm.terms xs ys =
      (List.range xs.length).map fun k => (xs.getD k 0, ys.getD k 0, xs.eraseIdx k) := by
  apply List.ext_getElem
  · simp [LagrangeForm.terms, hlength]
  · intro k hk hk'
    have hx : k < xs.length := by simpa using hk'
    have hy : k < ys.length := hlength ▸ hx
    simp [LagrangeForm.terms, LagrangeForm.others, List.getElem?_eq_getElem hx,
      List.getElem?_eq_getElem hy]

/-- The nodes other than one of them, by their indices. -/
theorem prod_map_eraseIdx (f : ℚ → ℚ) {k : ℕ} (hk : k < xs.length) :
    ((xs.eraseIdx k).map f).prod = ∏ i ∈ (range xs.length).erase k, f (xs.getD i 0) := by
  have hindices : (List.range xs.length).eraseIdx k = (List.range xs.length).erase k := by
    have herase := List.nodup_range.erase_getElem k (by simpa using hk)
    simpa using herase.symm
  have hxs : xs = (List.range xs.length).map fun i => xs.getD i 0 := by
    apply List.ext_getElem
    · simp
    · intro i hi hi'
      simp [List.getElem?_eq_getElem hi]
  conv_lhs => rw [hxs]
  rw [List.eraseIdx_map, hindices, List.map_map]
  rfl

/-! ### Whole polynomials -/

/-- The text is read, and as a function with this value at every point. -/
def IsReadAs (text : String) (f : ℚ → ℚ) : Prop :=
  ∃ e : Formula ℚ, Formula.read text = .ok e ∧ ∀ x, e.eval x = .ok (f x)

theorem hasMagnitude (v : ℚ) : HasMagnitude v (writtenMagnitude v) := (hasMagnitude_rounded v).1

theorem isWrittenNode (node : ℚ) : IsWrittenNode writtenMagnitude node := by
  refine ⟨hasMagnitude node, ?_⟩
  intro hnode
  rw [(hasMagnitude_rounded node).2, decide_eq_false_iff_not, not_lt]
  exact rounded_nonneg (not_lt.1 hnode)

theorem isReadAs_descendingPolynomial (hne : cs ≠ []) :
    IsReadAs (descendingPolynomial cs) fun x =>
      ∑ k ∈ range cs.length, rounded (cs.getD k 0) * x ^ k := by
  refine ⟨_, read_descendingPolynomial hne fun c _ => hasMagnitude c, ?_⟩
  intro x
  rw [eval_polynomialTree hne, horner_map_rounded]

theorem isReadAs_line (m c : ℚ) :
    IsReadAs (line m c) fun x => rounded m * x + rounded c := by
  rw [line_eq (hasMagnitude m)]
  obtain ⟨e, he, hvalue⟩ := isReadAs_descendingPolynomial (List.cons_ne_nil c [m])
  refine ⟨e, he, ?_⟩
  intro x
  rw [hvalue]
  simp [sum_range_succ, add_comm]

theorem isReadAs_cubic (a b c d : ℚ) :
    IsReadAs (cubic a b c d) fun x =>
      rounded a * x ^ 3 + rounded b * x ^ 2 + rounded c * x + rounded d := by
  rw [cubic_eq (hasMagnitude a)]
  obtain ⟨e, he, hvalue⟩ := isReadAs_descendingPolynomial (List.cons_ne_nil d [c, b, a])
  refine ⟨e, he, ?_⟩
  intro x
  have hsum : ∑ k ∈ range 4, rounded ([d, c, b, a].getD k 0) * x ^ k =
      rounded a * x ^ 3 + rounded b * x ^ 2 + rounded c * x + rounded d := by
    simp only [sum_range_succ, sum_range_zero, List.getD_cons_zero, List.getD_cons_succ]
    ring
  rw [hvalue]
  exact congrArg Except.ok hsum

theorem isReadAs_newton {N : NewtonForm ℚ} (hne : N.coefficients ≠ [])
    (hlength : N.coefficients.length = N.nodes.length) :
    IsReadAs N.text fun x => ∑ i ∈ range N.coefficients.length,
      rounded (N.coefficients.getD i 0) * ∏ j ∈ range i, (x - rounded (N.nodes.getD j 0)) := by
  obtain ⟨c, cs, hcs⟩ := List.exists_cons_of_ne_nil hne
  refine ⟨_, read_newtonText hcs (fun c _ => hasMagnitude c) fun node _ => isWrittenNode node, ?_⟩
  intro x
  rw [hcs, List.length_cons] at hlength
  rw [eval_newtonTree [] (eval_const x _) (by omega), writtenMagnitude, signed_rounded, hcs]
  dsimp only
  rw [List.length_cons, sum_range_succ', prod_range_zero, mul_one, List.getD_cons_zero, add_comm]
  congr 2
  refine sum_congr rfl fun i hi => ?_
  have hi' : i + 1 ≤ N.nodes.length := by
    have := mem_range.1 hi
    omega
  rw [List.nil_append, prod_factorsAt_take hi', List.getD_cons_succ]

theorem isReadAs_lagrange {L : LagrangeForm ℚ} (h : LagrangeForm.ofPoints xs ys = .ok L)
    (hlength : xs.length = ys.length) (hne : xs ≠ []) :
    ∃ e : Formula ℚ, Formula.read L.text = .ok e ∧
      ((∀ k < xs.length,
          rounded (∏ i ∈ (range xs.length).erase k, (xs.getD k 0 - xs.getD i 0)) ≠ 0) →
        ∀ x, e.eval x = .ok (∑ k ∈ range xs.length, rounded (ys.getD k 0) *
          (∏ i ∈ (range xs.length).erase k, (x - rounded (xs.getD i 0))) /
          rounded (∏ i ∈ (range xs.length).erase k, (xs.getD k 0 - xs.getD i 0)))) := by
  refine ⟨_, read_lagrangeText h hlength hne fun t _ =>
    ⟨fun node _ => isWrittenNode node, hasMagnitude _, hasMagnitude _⟩, ?_⟩
  intro hdenominators x
  have hdenominator : ∀ k < xs.length,
      LagrangeForm.denominator (xs.getD k 0) (xs.eraseIdx k) =
        ∏ i ∈ (range xs.length).erase k, (xs.getD k 0 - xs.getD i 0) := by
    intro k hk
    rw [LagrangeForm.denominator_eq_prod, prod_map_eraseIdx _ hk]
  have hts : ∀ t ∈ LagrangeForm.terms xs ys,
      rounded (LagrangeForm.denominator t.1 t.2.2) ≠ 0 := by
    intro t ht
    rw [terms_eq hlength] at ht
    obtain ⟨k, hk, rfl⟩ := List.mem_map.1 ht
    rw [hdenominator k (List.mem_range.1 hk)]
    exact hdenominators k (List.mem_range.1 hk)
  have hterms : LagrangeForm.terms xs ys ≠ [] := by
    rw [terms_eq hlength, Ne, List.map_eq_nil_iff, List.range_eq_nil, List.length_eq_zero_iff]
    exact hne
  have hterm : ∀ k ∈ range xs.length,
      basisTermAt x (xs.getD k 0) (ys.getD k 0) (xs.eraseIdx k) = rounded (ys.getD k 0) *
        (∏ i ∈ (range xs.length).erase k, (x - rounded (xs.getD i 0))) /
        rounded (∏ i ∈ (range xs.length).erase k, (xs.getD k 0 - xs.getD i 0)) := by
    intro k hk
    have hk' := mem_range.1 hk
    rw [basisTermAt, hdenominator k hk', factorsAt, prod_map_eraseIdx _ hk']
  rw [eval_lagrangeTree hterms hts, terms_eq hlength, List.map_map]
  exact congrArg Except.ok (sum_congr rfl hterm)

/-- Every written polynomial is read as the polynomial of the rounded numbers: sums of
    powers, the lines and cubic polynomials of splines, and the forms of Newton and Lagrange
    of any points that are admitted.  The last is undefined if a denominator is rounded to
    zero. -/
theorem written_polynomials :
    (∀ c : List ℚ, c ≠ [] → IsReadAs (descendingPolynomial c) fun x =>
      ∑ k ∈ range c.length, rounded (c.getD k 0) * x ^ k) ∧
    (∀ m c : ℚ, IsReadAs (line m c) fun x => rounded m * x + rounded c) ∧
    (∀ a b c d : ℚ, IsReadAs (cubic a b c d) fun x =>
      rounded a * x ^ 3 + rounded b * x ^ 2 + rounded c * x + rounded d) ∧
    ∀ xs ys : List ℚ, xs.length = ys.length → xs ≠ [] → xs.Nodup →
      (∃ N, NewtonForm.ofPoints xs ys = .ok N ∧ N.coefficients.length = xs.length ∧
        IsReadAs N.text fun x => ∑ i ∈ range xs.length,
          rounded (N.coefficients.getD i 0) * ∏ j ∈ range i, (x - rounded (xs.getD j 0))) ∧
      ∃ L, LagrangeForm.ofPoints xs ys = .ok L ∧
        ∃ e : Formula ℚ, Formula.read L.text = .ok e ∧
          ((∀ k < xs.length,
              rounded (∏ i ∈ (range xs.length).erase k, (xs.getD k 0 - xs.getD i 0)) ≠ 0) →
            ∀ x, e.eval x = .ok (∑ k ∈ range xs.length, rounded (ys.getD k 0) *
              (∏ i ∈ (range xs.length).erase k, (x - rounded (xs.getD i 0))) /
              rounded (∏ i ∈ (range xs.length).erase k, (xs.getD k 0 - xs.getD i 0)))) := by
  refine ⟨fun c => isReadAs_descendingPolynomial, isReadAs_line, isReadAs_cubic, ?_⟩
  intro xs ys hlength hne hdistinct
  have hcheck : Points.check xs ys 1 = .ok () :=
    Points.check_eq_ok_iff_nodup.2 ⟨hlength, List.length_pos_iff.2 hne, hdistinct⟩
  constructor
  · obtain ⟨N, hN⟩ := NewtonForm.exists_of_check hcheck
    obtain ⟨hnodes, hcoefficients⟩ := NewtonForm.coefficients_eq hN hdistinct hlength
    have hcount : N.coefficients.length = xs.length := by simp [hcoefficients]
    have hsome : N.coefficients ≠ [] := by
      rw [Ne, ← List.length_eq_zero_iff, hcount, List.length_eq_zero_iff]
      exact hne
    have hread := isReadAs_newton hsome (by rw [hcount, hnodes])
    rw [hcount, hnodes] at hread
    exact ⟨N, hN, hcount, hread⟩
  · obtain ⟨L, hL⟩ := LagrangeForm.exists_of_check hcheck
    exact ⟨L, hL, isReadAs_lagrange hL hlength hne⟩

/-- A line through two points, one of them at a negative node: `1 - 2x`. -/
theorem written_line_of_two_points :
    let xs : List ℚ := [0, -1 / 2]
    let ys : List ℚ := [1, 2]
    (∃ e : Formula ℚ, Formula.read (descendingPolynomial [(1 : ℚ), -2]) = .ok e ∧
      e.eval 3 = .ok (-5)) ∧
    ∃ L, LagrangeForm.ofPoints xs ys = .ok L ∧
      ∃ e : Formula ℚ, Formula.read L.text = .ok e ∧ e.eval 3 = .ok (-5) := by
  intro xs ys
  obtain ⟨hdescending, -, -, hforms⟩ := written_polynomials
  obtain ⟨e, he, hvalue⟩ := hdescending [1, -2] (List.cons_ne_nil _ _)
  obtain ⟨-, L, hL, e', he', hvalue'⟩ :=
    hforms xs ys rfl (List.cons_ne_nil _ _) (by decide +kernel)
  have hdenominators : ∀ k < xs.length,
      rounded (∏ i ∈ (range xs.length).erase k, (xs.getD k 0 - xs.getD i 0)) ≠ 0 := by
    decide +kernel
  refine ⟨⟨e, he, ?_⟩, L, hL, e', he', ?_⟩
  · rw [hvalue]
    decide +kernel
  · rw [hvalue' hdenominators]
    decide +kernel

end NumericMethods.Written
