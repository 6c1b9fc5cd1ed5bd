/-
  NumericMethods/Proofs/Interpolation/WrittenAcceptance.lean
  ==========================================================
  **Which written polynomials are accepted.**

  A number is written as a literal or, if it became infinite on the way, under the name
  `inf`.  That name and a power of `x` behind it are one name, so the text of a polynomial
  is a phrase in both cases, but one in another variable than `x` if any of its
  coefficients has become infinite (`exists_read_terms_iff`).  How many minus signs stand
  in front of a number does not matter.
-/
import Mathlib
import NumericMethods.Proofs.Interpolation.Notation

namespace NumericMethods.Written

open Formula (Literal Identifier HasTree IsPhrase IsPhraseIf AfterNumber AfterName)

variable {α : Type} [Scalar α] {P : Prop} {cs : List Char} {coefficients : List α} {fits : α → Prop}

/-- The text of a number after any number of minus signs: a literal if `P` holds, and the
    name of an infinite number if not. -/
inductive IsShown (P : Prop) : List Char → Prop
  | literal (hP : P) (l : Literal) : IsShown P l.text
  | infinite (hP : ¬ P) : IsShown P ['i', 'n', 'f']
  | minus {cs : List Char} (h : IsShown P cs) : IsShown P ('-' :: cs)

/-! ### Names of infinite numbers -/

/-- The name of an infinite number. -/
def infinityIdentifier : Identifier where
  first := 'i'
  others := ['n', 'f']
  starts := rfl
  continues := List.all_eq_true.1 (by decide)

/-- The name that the one of an infinite number makes with the variable behind it. -/
def infinityOfVariable : Identifier where
  first := 'i'
  others := ['n', 'f', 'x']
  starts := rfl
  continues := List.all_eq_true.1 (by decide)

/-- The power binds tighter than a sign in front of it. -/
theorem isPhraseIf_infinite (hP : ¬ P) (p : ℕ) :
    IsPhraseIf α P .unary AfterTerm (['i', 'n', 'f'] ++ (powerText p).toList) := by
  have hname : HasTree .primary AfterName ['i', 'n', 'f', 'x']
      (.var infinityOfVariable.name : Formula α) :=
    .symbol infinityOfVariable (by decide) (by decide) (by decide)
  match p with
  | 0 =>
    have hinfinity : HasTree .primary AfterName infinityIdentifier.text
        (.var infinityIdentifier.name : Formula α) := .symbol _ (by decide) (by decide) (by decide)
    refine ⟨_, (hinfinity.imp fun _ => .unary_of_primary).mono fun _ => AfterTerm.afterName, ?_⟩
    exact iff_of_false (fun h => absurd (h _ (List.mem_singleton_self _)) (by decide)) hP
  | 1 =>
    refine ⟨_, (hname.imp fun _ => .unary_of_primary).mono fun _ => AfterTerm.afterName, ?_⟩
    exact iff_of_false (fun h => absurd (h _ (List.mem_singleton_self _)) (by decide)) hP
  | p + 2 =>
    obtain ⟨l, -, htext⟩ := exists_literal_natural (α := α) (p + 2)
    have hlist : (powerText (p + 2)).toList = 'x' :: '^' :: l.text := by
      rw [← htext]
      simp [powerText]
    rw [hlist]
    refine ⟨_, ((hname.pow rfl l).imp fun _ => .operand).mono fun _ => AfterTerm.afterNumber, ?_⟩
    exact iff_of_false (fun h => absurd (h _ (List.mem_append_left _ (List.mem_singleton_self _)))
      (by decide)) hP

/-! ### Terms -/

theorem isPhrase_of_isShown (h : IsShown P cs) (hP : P) :
    ∃ e : Formula α, IsPhrase .unary AfterNumber cs e := by
  induction h with
  | literal _ l => exact ⟨_, (IsPhrase.number l).unary_of_primary⟩
  | infinite hnot => exact absurd hP hnot
  | minus _ ih =>
    obtain ⟨e, he⟩ := ih
    exact ⟨_, he.negated⟩

theorem isPhraseIf_of_not (h : IsShown P cs) (hP : ¬ P) (p : ℕ) :
    IsPhraseIf α P .unary AfterTerm (cs ++ (powerText p).toList) := by
  induction h with
  | literal hyes l => exact absurd hyes hP
  | infinite _ => exact isPhraseIf_infinite hP p
  | minus _ ih => exact ih.negated

/-- The signs bind a literal before the power is joined to it, and a name after it. -/
theorem isPhraseIf_term (h : IsShown P cs) (p : ℕ) :
    IsPhraseIf α P .product AfterTerm (cs ++ (powerText p).toList) := by
  by_cases hP : P
  · obtain ⟨e, he⟩ := isPhrase_of_isShown (α := α) h hP
    exact .of_isPhrase (isPhrase_withPower he.product_of_unary p) hP
  · exact (isPhraseIf_of_not h hP p).imp fun _ _ => .factor

theorem isPhraseIf_furtherTerms {text : List Char}
    (htext : IsPhraseIf α P .sum AfterTerm text)
    (hfits : ∀ c ∈ coefficients, IsShown (fits c) (magnitude c).toList) :
    IsPhraseIf α (P ∧ ∀ c ∈ coefficients, fits c) .sum AfterTerm
      (text ++ (furtherTerms coefficients).toList) := by
  induction coefficients generalizing P text with
  | nil => simpa [furtherTerms] using htext
  | cons c cs ih =>
    obtain ⟨hc, hcs⟩ := List.forall_mem_cons.1 hfits
    have hterm := isPhraseIf_term (α := α) hc cs.length
    have hjoined : IsPhraseIf α (P ∧ fits c) .sum AfterTerm
        (text ++ ((sign c).toList ++ ((magnitude c).toList ++ (powerText cs.length).toList))) := by
      rw [sign]
      cases isNegative c with
      | false => exact htext.add (.inl rfl) hterm
      | true => exact htext.sub (.inl rfl) hterm
    have hlist : text ++ (furtherTerms (c :: cs)).toList =
        text ++ ((sign c).toList ++ ((magnitude c).toList ++ (powerText cs.length).toList)) ++
          (furtherTerms cs).toList := by
      simp [furtherTerms, monomial_eq]
    rw [hlist, List.forall_mem_cons, ← and_assoc]
    exact ih hjoined hcs

/-! ### Polynomials -/

/-- A polynomial is accepted exactly if all its coefficients are written as literals. -/
theorem exists_read_terms_iff {head : String} (hhead : IsShown P head.toList) (p : ℕ)
    (hfits : ∀ c ∈ coefficients, IsShown (fits c) (magnitude c).toList) :
    (∃ e : Formula α, Formula.read (head ++ powerText p ++ furtherTerms coefficients) = .ok e) ↔
      P ∧ ∀ c ∈ coefficients, fits c := by
  have hfirst := (isPhraseIf_term (α := α) hhead p).imp fun _ _ => .term
  apply IsPhraseIf.exists_read_iff
  rw [String.toList_append, String.toList_append]
  exact isPhraseIf_furtherTerms hfirst hfits

theorem exists_read_descendingPolynomial_iff (hne : coefficients ≠ [])
    (hfits : ∀ c ∈ coefficients, IsShown (fits c) (magnitude c).toList) :
    (∃ e : Formula α, Formula.read (descendingPolynomial coefficients) = .ok e) ↔
      ∀ c ∈ coefficients, fits c := by
  rcases List.eq_nil_or_concat' coefficients with rfl | ⟨lower, c, rfl⟩
  · exact absurd rfl hne
  rw [List.forall_mem_append, List.forall_mem_singleton] at hfits ⊢
  have hhead : IsShown (fits c) ((if isNegative c then "-" else "") ++ magnitude c).toList := by
    cases isNegative c with
    | false => simpa using hfits.2
    | true => simpa using hfits.2.minus
  have htext : descendingPolynomial (lower ++ [c]) =
      ((if isNegative c then "-" else "") ++ magnitude c) ++ powerText lower.length ++
        furtherTerms lower.reverse := by
    rw [descendingPolynomial, List.reverse_append]
    simp only [List.reverse_singleton, List.singleton_append, monomial_eq, List.length_reverse,
      String.append_assoc]
  rw [htext, exists_read_terms_iff hhead _ fun d hd => hfits.1 d (List.mem_reverse.1 hd), and_comm]
  simp only [List.mem_reverse]

end NumericMethods.Written
