/-
  NumericMethods/Proofs/Interpolation/LagrangeBasis.lean
  ======================================================
  **The basis polynomials of Lagrange, as products and as coefficients.**

  The form of Lagrange is evaluated term by term, each a product of quotients, while its
  coefficients are built up by multiplying out the numerators.  Both are the same function:
  the coefficients of a numerator stand for the product of its linear factors
  (`horner_numerator`), and each term that is added to the coefficients adds the value of
  that term (`horner_addTerm`).

  At a node all terms vanish but one, which has the value given there
  (`evaluate_node`).
-/
import Mathlib
import NumericMethods.Proofs.Interpolation.Interpolant
import NumericMethods.Proofs.Interpolation.Points
import NumericMethods.Proofs.NumericError

namespace NumericMethods.LagrangeForm

open Finset

variable {K : Type} [Field K] [LinearOrder K] [IsStrictOrderedRing K] [ExactScalar K]
variable {xs ys p sum others : List K} {L : LagrangeForm K}

/-! ### Numerators -/

theorem minus_nil (as : List K) : minus as [] = as := by cases as <;> rfl

theorem minus_spec {as bs : List K} (h : bs.length ≤ as.length) (x : K) :
    (minus as bs).length = as.length ∧ horner (minus as bs) x = horner as x - horner bs x := by
  induction as generalizing bs with
  | nil =>
    obtain rfl := List.eq_nil_of_length_eq_zero (Nat.le_zero.1 h)
    exact ⟨rfl, (sub_self _).symm⟩
  | cons a as ih =>
    cases bs with
    | nil =>
      rw [minus_nil]
      exact ⟨rfl, (sub_zero _).symm⟩
    | cons b bs =>
      obtain ⟨hlength, hvalue⟩ := ih (Nat.le_of_succ_le_succ h)
      rw [minus, List.length_cons, List.length_cons, hlength, horner_cons, horner_cons, horner_cons,
        hvalue]
      exact ⟨rfl, by ring⟩

theorem horner_map_mul (p : List K) (d x : K) : horner (p.map (· * d)) x = horner p x * d := by
  induction p with
  | nil => exact (zero_mul d).symm
  | cons c p ih =>
    rw [List.map_cons, horner_cons, horner_cons, ih]
    ring

theorem horner_timesLinear (p : List K) (node x : K) :
    horner (timesLinear p node) x = horner p x * (x - node) := by
  have hsame : p.map (0 + ·) = p := by simp
  rw [timesLinear, (minus_spec (by simp) x).2, horner_map_mul, hsame, horner_cons]
  ring

theorem length_timesLinear (p : List K) (node : K) :
    (timesLinear p node).length = p.length + 1 := by
  rw [timesLinear, (minus_spec (by simp) 0).1]
  simp

theorem horner_numerator (others : List K) (x : K) :
    horner (numerator others) x = (others.map (x - ·)).prod := by
  have hfold : ∀ p, horner (others.foldl timesLinear p) x =
      horner p x * (others.map (x - ·)).prod := by
    induction others with
    | nil => simp
    | cons node others ih =>
      intro p
      rw [List.foldl_cons, ih, horner_timesLinear, List.map_cons, List.prod_cons, mul_assoc]
  rw [numerator, hfold, horner_cons]
  simp [horner]

theorem length_numerator (others : List K) : (numerator others).length = others.length + 1 := by
  have hfold : ∀ p, (others.foldl timesLinear p).length = p.length + others.length := by
    induction others with
    | nil => simp
    | cons node others ih =>
      intro p
      rw [List.foldl_cons, ih, length_timesLinear, List.length_cons]
      omega
  rw [numerator, hfold, List.length_singleton, Nat.add_comm]

/-! ### Terms -/

theorem denominator_eq_prod (x : K) (others : List K) :
    denominator x others = (others.map (x - ·)).prod := by
  rw [denominator, List.prod_eq_foldl, List.foldl_map]

theorem termAt_eq (x node value : K) (others : List K) :
    termAt x node value others =
      horner (numerator others) x * value / denominator node others := by
  have hfold : termAt x node value others =
      value * ((others.map (x - ·)).prod / (others.map (node - ·)).prod) := by
    unfold termAt
    induction others generalizing value with
    | nil => simp
    | cons other others ih =>
      simp only [List.foldl_cons, ih, List.map_cons, List.prod_cons]
      rw [mul_div_mul_comm, mul_assoc]
  rw [hfold, horner_numerator, denominator_eq_prod]
  ring

theorem termAt_of_mem {x : K} (h : x ∈ others) (node value : K) :
    termAt x node value others = 0 := by
  have hzero : (others.map (x - ·)).prod = 0 :=
    List.prod_eq_zero (List.mem_map.2 ⟨x, h, sub_self x⟩)
  rw [termAt_eq, horner_numerator, hzero, zero_mul, zero_div]

theorem termAt_self {node : K} (h : node ∉ others) (value : K) :
    termAt node node value others = value := by
  have hne : denominator node others ≠ 0 := by
    rw [denominator_eq_prod, Ne, List.prod_eq_zero_iff, List.mem_map]
    rintro ⟨other, hother, hzero⟩
    exact h (sub_eq_zero.1 hzero ▸ hother)
  rw [termAt_eq, horner_numerator, ← denominator_eq_prod, mul_div_cancel_left₀ _ hne]

/-- A term that is added to the coefficients adds its value. -/
theorem horner_addTerm (hlength : sum.length = others.length + 1) (x node value : K) :
    horner (addTerm sum node value others) x = horner sum x + termAt x node value others := by
  have hzip : ∀ (num sum : List K) (d : K), sum.length = num.length →
      horner (List.zipWith (fun c t => c + t * value / d) sum num) x =
        horner sum x + horner num x * value / d := by
    intro num sum d h
    induction num generalizing sum with
    | nil =>
      obtain rfl := List.eq_nil_of_length_eq_zero h
      simp [horner]
    | cons t num ih =>
      obtain ⟨c, sum, rfl⟩ := List.exists_cons_of_length_eq_add_one h
      rw [List.zipWith_cons_cons, horner_cons, horner_cons, horner_cons,
        ih sum (Nat.succ_injective h)]
      ring
  rw [addTerm, hzip _ _ _ (hlength.trans (length_numerator others).symm), termAt_eq]

theorem length_addTerm (hlength : sum.length = others.length + 1) (node value : K) :
    (addTerm sum node value others).length = sum.length := by
  rw [addTerm, List.length_zipWith, length_numerator, hlength, min_self]

/-! ### Sums of terms -/

/-- Both ways to add up terms keep in step. -/
theorem foldl_addTerm (ts : List (K × K × List K)) (x : K) (sum : List K)
    (hlength : ∀ t ∈ ts, sum.length = t.2.2.length + 1) :
    (ts.foldl (fun sum (node, value, others) => addTerm sum node value others) sum).length =
        sum.length ∧
      horner (ts.foldl (fun sum (node, value, others) => addTerm sum node value others) sum) x =
        ts.foldl (fun sum (node, value, others) => sum + termAt x node value others)
          (horner sum x) := by
  induction ts generalizing sum with
  | nil => exact ⟨rfl, rfl⟩
  | cons t ts ih =>
    obtain ⟨node, value, others⟩ := t
    obtain ⟨ht, hts⟩ := List.forall_mem_cons.1 hlength
    have hsame := length_addTerm ht node value
    obtain ⟨hlen, hvalue⟩ := ih (addTerm sum node value others) fun t ht' => by
      rw [hsame]
      exact hts t ht'
    rw [horner_addTerm ht] at hvalue
    exact ⟨hlen.trans hsame, hvalue⟩

/-! ### The form -/

/-- The form of given nodes and values. -/
theorem ofPoints_eq_ok (h : ofPoints xs ys = .ok L) :
    L.nodes = xs ∧ L.values = ys ∧
      L.coefficients = (terms xs ys).foldl
        (fun sum (node, value, others) => addTerm sum node value others)
        (List.replicate xs.length 0) := by
  obtain ⟨-, -, h⟩ := bind_eq_ok_iff.1 h
  cases h
  exact ⟨rfl, rfl, rfl⟩

theorem exists_of_check (h : Points.check xs ys 1 = .ok ()) : ∃ L, ofPoints xs ys = .ok L :=
  ⟨_, bind_eq_ok_iff.2 ⟨(), h, rfl⟩⟩

omit [Field K] [LinearOrder K] [IsStrictOrderedRing K] [ExactScalar K] in
theorem length_others {t : K × K × List K} (ht : t ∈ terms xs ys) :
    xs.length = t.2.2.length + 1 := by
  obtain ⟨k, hk, rfl⟩ := List.mem_mapIdx.1 ht
  have hk' : k < xs.length := by
    rw [List.length_zip] at hk
    omega
  change xs.length = (xs.eraseIdx k).length + 1
  rw [List.length_eraseIdx_of_lt hk']
  omega

/-- The coefficients are as many as the nodes, and give the function that is evaluated. -/
theorem horner_coefficients (h : ofPoints xs ys = .ok L) (x : K) :
    L.coefficients.length = xs.length ∧ horner L.coefficients x = L.evaluate x := by
  obtain ⟨hnodes, hvalues, hcoefficients⟩ := ofPoints_eq_ok h
  have hzero : horner (List.replicate xs.length 0) x = 0 := by
    induction xs.length with
    | zero => rfl
    | succ n ih => rw [List.replicate_succ, horner_cons, ih, zero_mul, add_zero]
  obtain ⟨hlength, hvalue⟩ := foldl_addTerm (terms xs ys) x (List.replicate xs.length 0)
    fun t ht => by
      rw [List.length_replicate]
      exact length_others ht
  rw [hcoefficients, hvalue, hlength, List.length_replicate, hzero, evaluate, hnodes, hvalues]
  exact ⟨rfl, rfl⟩

/-- The value of the form as the sum of the values of its terms. -/
theorem evaluate_eq_sum (h : ofPoints xs ys = .ok L) (x : K) :
    L.evaluate x = ∑ k : Fin (xs.zip ys).length,
      termAt x ((xs.zip ys).get k).1 ((xs.zip ys).get k).2 (xs.eraseIdx k) := by
  obtain ⟨hnodes, hvalues, -⟩ := ofPoints_eq_ok h
  have hfold : ∀ (ts : List (K × K × List K)) (sum : K),
      ts.foldl (fun sum (node, value, others) => sum + termAt x node value others) sum =
        sum + (ts.map fun t => termAt x t.1 t.2.1 t.2.2).sum := by
    intro ts
    induction ts with
    | nil => simp
    | cons t ts ih => simp [ih, add_assoc]
  rw [evaluate, hnodes, hvalues, hfold, zero_add, terms, List.mapIdx_eq_ofFn, List.map_ofFn,
    List.sum_ofFn]
  rfl

/-- At a node the value given there is met. -/
theorem evaluate_node (h : ofPoints xs ys = .ok L) (hlength : xs.length = ys.length)
    (hdistinct : xs.Nodup) {i : ℕ} (hi : i < xs.length) :
    L.evaluate (xs.getD i 0) = ys.getD i 0 := by
  have hi' : i < ys.length := hlength ▸ hi
  have hzip : i < (xs.zip ys).length := by
    rw [List.length_zip]
    omega
  rw [evaluate_eq_sum h, Finset.sum_eq_single ⟨i, hzip⟩]
  case h₀ =>
    rintro ⟨k, hk⟩ - hne
    -- the node is one of the others
    apply termAt_of_mem
    rw [List.mem_eraseIdx_iff_getElem]
    exact ⟨i, hi, fun heq => hne (Fin.ext heq.symm), (List.getD_eq_getElem _ _ hi).symm⟩
  case h₁ => exact fun hnot => absurd (Finset.mem_univ _) hnot
  have hself : xs.getD i 0 = xs[i] := List.getD_eq_getElem _ _ hi
  have hother : xs[i] ∉ xs.eraseIdx i := by
    rw [List.mem_eraseIdx_iff_getElem]
    rintro ⟨k, hk, hne, heq⟩
    exact hne (hdistinct.getElem_inj_iff.1 heq)
  simp only [List.get_eq_getElem, List.getElem_zip, hself]
  rw [termAt_self hother, List.getD_eq_getElem _ _ hi']

end NumericMethods.LagrangeForm
