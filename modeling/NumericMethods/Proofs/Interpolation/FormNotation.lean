/-
  NumericMethods/Proofs/Interpolation/FormNotation.lean
  =====================================================
  **The trees that the forms of Newton and Lagrange are read as.**

  Linear factors stand next to each other in parentheses, without a sign of multiplication.
  What stands before them is in parentheses too, so that the product is read from the left
  (`isPhrase_times`).

  In the form of Newton every term multiplies its coefficient with one more factor than
  the term before.  In the form of Lagrange the numerator of a basis polynomial is a
  product in parentheses, which is divided by the denominator before it is multiplied with
  the value.
-/
import Mathlib
import NumericMethods.Proofs.Interpolation.Notation
import NumericMethods.Proofs.Interpolation.LagrangeBasis

namespace NumericMethods.Written

open Formula (Literal IsPhrase AfterNumber AfterName)

variable {α : Type} [Scalar α] {m : α → α} {v : α} {nodes prev cs values : List α}
  {u : Formula α} {text : List Char} {next : Char → Prop}

/-- What may follow a closing parenthesis. -/
def Anything (_ : Char) : Prop := True

/-! ### Linear factors -/

/-- The node is written as its magnitude, and with a sign only if it is less than zero. -/
structure IsWrittenNode (m : α → α) (node : α) : Prop where
  hasMagnitude : HasMagnitude node (m node)
  nonnegative : ¬ node < 0 → isNegative node = false

def factorTree (m : α → α) (node : α) : Formula α :=
  if node < 0 then .add (.var "x") (.const (m node)) else .sub (.var "x") (.const (m node))

/-- A linear factor is a sum or a difference in parentheses. -/
theorem isPhrase_linearFactor {node : α} (h : IsWrittenNode m node) :
    ∃ inner, (linearFactor node).toList = '(' :: (inner ++ [')']) ∧
      IsPhrase .sum AfterNumber inner (factorTree m node) := by
  have hx := IsPhrase.var_x.product_of_primary.sum_of_product (α := α)
  have hmagnitude := (isPhrase_magnitude h.hasMagnitude).product_of_primary
  rw [linearFactor, factorTree]
  by_cases hnode : node < 0
  · rw [if_pos hnode, if_pos hnode]
    refine ⟨_, ?_, hx.add rfl hmagnitude⟩
    simp
  · rw [if_neg hnode, if_neg hnode]
    refine ⟨_, ?_, hx.sub rfl hmagnitude⟩
    have hnumber := toList_number h.hasMagnitude
    rw [h.nonnegative hnode, if_neg Bool.false_ne_true, List.nil_append] at hnumber
    simp [hnumber]

/-- The product of `u` and the linear factors of the nodes. -/
def timesFactors (m : α → α) (u : Formula α) (nodes : List α) : Formula α :=
  nodes.foldl (fun u node => .mul u (factorTree m node)) u

theorem isPhrase_times (hnodes : ∀ node ∈ nodes, IsWrittenNode m node)
    (hu : IsPhrase .product Anything text u) :
    IsPhrase .product Anything (text ++ (LagrangeForm.numeratorText nodes).toList)
      (timesFactors m u nodes) := by
  induction nodes generalizing text u with
  | nil => simpa [LagrangeForm.numeratorText, timesFactors] using hu
  | cons node nodes ih =>
    obtain ⟨hnode, hnodes⟩ := List.forall_mem_cons.1 hnodes
    obtain ⟨inner, htext, hinner⟩ := isPhrase_linearFactor hnode
    have hproduct := ih hnodes (hu.mul_parenthesis trivial hinner rfl Anything)
    rw [← htext] at hproduct
    have hlist : text ++ (LagrangeForm.numeratorText (node :: nodes)).toList =
        text ++ (linearFactor node).toList ++ (LagrangeForm.numeratorText nodes).toList := by
      simp [LagrangeForm.numeratorText, String.join_cons]
    rw [hlist]
    exact hproduct

/-! ### The form of Newton -/

/-- The sum with the further terms, where `prev` are the nodes of the term before. -/
def newtonTree (m : α → α) (prev : List α) (u : Formula α) : (cs nodes : List α) → Formula α
  | c :: cs, node :: nodes =>
    newtonTree m (prev ++ [node])
      (joined (isNegative c) u (timesFactors m (.const (m c)) (prev ++ [node]))) cs nodes
  | _, _ => u

theorem isPhrase_termTexts (prev : List α) (hcs : ∀ c ∈ cs, HasMagnitude c (m c))
    (hprev : ∀ node ∈ prev, IsWrittenNode m node) (hnodes : ∀ node ∈ nodes, IsWrittenNode m node)
    (hu : IsPhrase .sum AfterTerm text u) :
    IsPhrase .sum AfterTerm
      (text ++ (NewtonForm.termTexts (LagrangeForm.numeratorText prev) cs nodes).toList)
      (newtonTree m prev u cs nodes) := by
  induction cs generalizing prev nodes text u with
  | nil => simpa [NewtonForm.termTexts, newtonTree] using hu
  | cons c cs ih =>
    cases nodes with
    | nil => simpa [NewtonForm.termTexts, newtonTree] using hu
    | cons node nodes =>
      obtain ⟨hc, hcs⟩ := List.forall_mem_cons.1 hcs
      obtain ⟨hnode, hnodes⟩ := List.forall_mem_cons.1 hnodes
      have hfactors : ∀ node' ∈ prev ++ [node], IsWrittenNode m node' :=
        List.forall_mem_append.2 ⟨hprev, List.forall_mem_singleton.2 hnode⟩
      have hsum := (isPhrase_magnitude hc).product_of_primary.sum_of_product
      have hcoefficient := (hsum.parenthesis rfl Anything).product_of_primary
      have hterm := (isPhrase_times hfactors hcoefficient).mono (q := AfterTerm) fun _ _ => trivial
      have hjoined := isPhrase_joined hu (.inl rfl) hterm c
      have hnumerator : LagrangeForm.numeratorText prev ++ linearFactor node =
          LagrangeForm.numeratorText (prev ++ [node]) := by
        simp [LagrangeForm.numeratorText, String.join_append]
      have hrest := ih (prev ++ [node]) hcs hfactors hnodes hjoined
      simpa [NewtonForm.termTexts, newtonTree, hnumerator] using hrest

/-- The nested form is read as the sum of its terms. -/
theorem read_newtonText {p : NewtonForm α} {c : α} (hp : p.coefficients = c :: cs)
    (hcs : ∀ c ∈ p.coefficients, HasMagnitude c (m c))
    (hnodes : ∀ node ∈ p.nodes, IsWrittenNode m node) :
    Formula.read p.text = .ok (newtonTree m [] (.const (signed c (m c))) cs p.nodes) := by
  rw [hp, List.forall_mem_cons] at hcs
  have hfirst := (isPhrase_number hcs.1).sum_of_unary
  have hterm := hfirst.mono (q := AfterTerm) fun _ => AfterTerm.afterNumber
  have hphrase := isPhrase_termTexts [] hcs.2 (by simp) hnodes hterm
  rw [NewtonForm.text, hp]
  apply IsPhrase.read_eq
  rw [String.toList_append]
  exact hphrase

/-! ### The form of Lagrange -/

/-- The product of the linear factors of the nodes. -/
def numeratorTree (m : α → α) : List α → Formula α
  | [] => .const (Scalar.ofNat 1)
  | node :: nodes => timesFactors m (factorTree m node) nodes

theorem isPhrase_numerator (hne : nodes ≠ []) (hnodes : ∀ node ∈ nodes, IsWrittenNode m node) :
    IsPhrase .product Anything (LagrangeForm.numeratorText nodes).toList (numeratorTree m nodes) := by
  cases nodes with
  | nil => exact absurd rfl hne
  | cons node nodes =>
    obtain ⟨hnode, hnodes⟩ := List.forall_mem_cons.1 hnodes
    obtain ⟨inner, htext, hinner⟩ := isPhrase_linearFactor hnode
    have hfirst := (hinner.parenthesis rfl Anything).product_of_primary
    rw [← htext] at hfirst
    simpa [LagrangeForm.numeratorText, String.join_cons, numeratorTree] using
      isPhrase_times hnodes hfirst

/-- The value of a node times its basis polynomial. -/
def basisTermTree (m : α → α) (x value : α) (others : List α) : Formula α :=
  let d := LagrangeForm.denominator x others
  let quotient :=
    if others.isEmpty then .const (Scalar.ofNat 1)
    else .div (numeratorTree m others) (.const (signed d (m d)))
  .mul quotient (.const (signed value (m value)))

theorem isPhrase_basisTerm {x value : α} {others : List α}
    (hothers : ∀ node ∈ others, IsWrittenNode m node) (hvalue : HasMagnitude value (m value))
    (hd : HasMagnitude (LagrangeForm.denominator x others)
      (m (LagrangeForm.denominator x others))) :
    IsPhrase .product AfterTerm
      (LagrangeForm.basisText x others ++ "*" ++ factor value).toList
      (basisTermTree m x value others) := by
  obtain ⟨hfactor, hstar⟩ := isPhrase_factor hvalue
  rw [String.toList_append, String.toList_append, List.append_assoc, LagrangeForm.basisText,
    basisTermTree]
  by_cases hempty : others = []
  · obtain ⟨one, hone, htext⟩ := exists_literal_natural (α := α) 1
    have hquotient := (IsPhrase.number (α := α) one).product_of_primary
    rw [hone, ← htext] at hquotient
    rw [if_pos (by simpa using hempty), if_pos (by simpa using hempty)]
    exact (hquotient.mul rfl hfactor hstar).mono fun _ => AfterTerm.afterNumber
  · have hnumerator := (isPhrase_numerator hempty hothers).sum_of_product.parenthesis trivial Anything
    have hdenominator := (isPhrase_number hd).sum_of_unary.parenthesis rfl Anything
    have hquotient := hnumerator.product_of_primary.div trivial
      hdenominator.unary_of_primary
    have hterm := (hquotient.mul trivial hfactor hstar).mono fun _ => AfterTerm.afterNumber
    rw [if_neg (by simpa using hempty), if_neg (by simpa using hempty)]
    simpa using hterm

/-- Terms with plus signs between them are read as a sum from the left. -/
theorem isPhrase_intercalate {τ : Type} {write : τ → String} {tree : τ → Formula α} {ts : List τ}
    (hts : ∀ t ∈ ts, IsPhrase .product AfterTerm (write t).toList (tree t)) (first : String)
    (hu : IsPhrase .sum AfterTerm first.toList u) :
    IsPhrase .sum AfterTerm (String.intercalate " + " (first :: ts.map write)).toList
      (ts.foldl (fun u t => .add u (tree t)) u) := by
  induction ts generalizing first u with
  | nil => simpa using hu
  | cons t ts ih =>
    obtain ⟨ht, hts⟩ := List.forall_mem_cons.1 hts
    have hadd := hu.add (.inl rfl) ht
    have hsum := ih hts (first ++ " + " ++ write t) (by simpa using hadd)
    rw [List.map_cons, String.intercalate_cons_cons, List.foldl_cons]
    rw [String.intercalate_cons_append] at hsum
    exact hsum

/-- The terms as a sum from the left. -/
def lagrangeTree (m : α → α) : List (α × α × List α) → Formula α
  | [] => .const 0
  | t :: ts =>
    ts.foldl (fun u t => .add u (basisTermTree m t.1 t.2.1 t.2.2)) (basisTermTree m t.1 t.2.1 t.2.2)

omit [Scalar α] in
theorem map_value_terms {xs ys : List α} (hlength : xs.length = ys.length) :
    (LagrangeForm.terms xs ys).map (fun t => t.2.1) = ys := by
  apply List.ext_getElem
  · simp [LagrangeForm.terms, hlength]
  · intro i hi hi'
    simp [LagrangeForm.terms]

theorem lagrangeText_eq {xs ys : List α} {L : LagrangeForm α}
    (h : LagrangeForm.ofPoints xs ys = .ok L) (hlength : xs.length = ys.length) :
    L.text = String.intercalate " + " ((LagrangeForm.terms xs ys).map fun t =>
      LagrangeForm.basisText t.1 t.2.2 ++ "*" ++ factor t.2.1) := by
  obtain ⟨-, -, h⟩ := bind_eq_ok_iff.1 h
  cases h
  have hvalues := map_value_terms hlength
  rw [LagrangeForm.text]
  dsimp only
  generalize LagrangeForm.terms xs ys = ts at hvalues ⊢
  rw [← hvalues, List.zipWith_map, List.zipWith_self]

/-- The form of Lagrange is read as the sum of its terms. -/
theorem read_lagrangeText {xs ys : List α} {L : LagrangeForm α}
    (h : LagrangeForm.ofPoints xs ys = .ok L) (hlength : xs.length = ys.length) (hne : xs ≠ [])
    (hts : ∀ t ∈ LagrangeForm.terms xs ys, (∀ node ∈ t.2.2, IsWrittenNode m node) ∧
      HasMagnitude t.2.1 (m t.2.1) ∧
      HasMagnitude (LagrangeForm.denominator t.1 t.2.2)
        (m (LagrangeForm.denominator t.1 t.2.2))) :
    Formula.read L.text = .ok (lagrangeTree m (LagrangeForm.terms xs ys)) := by
  have hphrase : ∀ t ∈ LagrangeForm.terms xs ys, IsPhrase .product AfterTerm
      (LagrangeForm.basisText t.1 t.2.2 ++ "*" ++ factor t.2.1).toList
      (basisTermTree m t.1 t.2.1 t.2.2) := by
    intro t ht
    obtain ⟨hothers, hvalue, hd⟩ := hts t ht
    exact isPhrase_basisTerm hothers hvalue hd
  rw [lagrangeText_eq h hlength]
  cases hterms : LagrangeForm.terms xs ys with
  | nil =>
    have hzero := congrArg List.length (map_value_terms hlength)
    rw [hterms, List.map_nil, List.length_nil, ← hlength] at hzero
    exact absurd (List.eq_nil_of_length_eq_zero hzero.symm) hne
  | cons t ts =>
    rw [hterms, List.forall_mem_cons] at hphrase
    apply IsPhrase.read_eq
    exact isPhrase_intercalate hphrase.2 _ hphrase.1.sum_of_product

end NumericMethods.Written
