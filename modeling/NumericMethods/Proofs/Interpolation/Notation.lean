/-
  NumericMethods/Proofs/Interpolation/Notation.lean
  =================================================
  **The trees that written polynomials are read as.**

  The texts of polynomials are put together from numerals, signs and powers of `x`, and
  are read as sums of products in the order in which they are written.  All that is asked
  of the numbers is that their magnitudes are written as literals, with a sign in front of
  the negative ones (`HasMagnitude`).  The magnitude that is read need not be the number:
  it is rounded.
-/
import Mathlib
import NumericMethods.Interpolation.Polynomial
import NumericMethods.Proofs.Formula.Phrase

namespace NumericMethods.Written

open Formula (Literal IsPhrase AfterNumber AfterName)

variable {α : Type} [Scalar α] {v : α} {c : Char}

/-! ### Numbers -/

/-- The number is written as the literal of its magnitude, which stands for `m`, and with a
    sign if it is negative. -/
def HasMagnitude (v m : α) : Prop :=
  ∃ l : Literal, l.value = m ∧ (magnitude v).toList = l.text ∧
    (number v).toList = (if isNegative v then ['-'] else []) ++ l.text

/-- The number that is read, of the given magnitude. -/
def signed (v m : α) : α := if isNegative v then -m else m

/-- The characters that may follow a term. -/
def AfterTerm (c : Char) : Prop := c = ' ' ∨ c = ')'

theorem AfterTerm.afterNumber (h : AfterTerm c) : AfterNumber c := by
  rcases h with rfl | rfl <;> rfl

theorem AfterTerm.afterName (h : AfterTerm c) : AfterName c := by
  rcases h with rfl | rfl <;> rfl

section Numbers

variable {m : α}

/-- A sign is the only way for the text of a number to start with one. -/
theorem isNegative_eq {negative : Bool} {l : Literal}
    (h : (number v).toList = (if negative then ['-'] else []) ++ l.text) :
    isNegative v = negative := by
  obtain ⟨c, r, hl, hc⟩ := l.text_eq_cons
  have hne : '-' ≠ c := by
    rintro rfl
    exact absurd hc (by decide)
  have hstart : "-".toList <+: (number v).toList ↔ negative = true := by
    rw [h, hl]
    cases negative with
    | false => simp [hne]
    | true => simp
  rw [Bool.eq_iff_iff, isNegative, String.startsWith_string_iff, hstart]

theorem isPhrase_magnitude (h : HasMagnitude v m) :
    IsPhrase .primary AfterNumber (magnitude v).toList (.const m) := by
  obtain ⟨l, rfl, htext, -⟩ := h
  rw [htext]
  exact .number l

theorem toList_number (h : HasMagnitude v m) :
    (number v).toList = (if isNegative v then ['-'] else []) ++ (magnitude v).toList := by
  obtain ⟨l, -, htext, hnumber⟩ := h
  rw [htext, hnumber]

theorem isPhrase_number (h : HasMagnitude v m) :
    IsPhrase .unary AfterNumber (number v).toList (.const (signed v m)) := by
  obtain ⟨l, rfl, -, htext⟩ := h
  rw [htext, signed]
  cases isNegative v with
  | false => exact (IsPhrase.number l).unary_of_primary
  | true => exact .minus_number l

theorem toList_factor (v : α) : (factor v).toList =
    if isNegative v then '(' :: ((number v).toList ++ [')']) else (number v).toList := by
  rw [factor]
  split
  · simp
  · rfl

/-- A factor is no exponentiation sign together with the sign of multiplication before it. -/
theorem isPhrase_factor (h : HasMagnitude v m) :
    IsPhrase .unary AfterNumber (factor v).toList (.const (signed v m)) ∧
      ∀ r, ((factor v).toList ++ r).head? ≠ some '*' := by
  rw [toList_factor]
  cases hneg : isNegative v with
  | true =>
    have hnumber := (isPhrase_number h).sum_of_unary
    refine ⟨(hnumber.parenthesis rfl AfterNumber).unary_of_primary, ?_⟩
    rintro r ⟨⟩
  | false =>
    refine ⟨isPhrase_number h, ?_⟩
    obtain ⟨l, -, -, htext⟩ := h
    obtain ⟨c, s, hl, hc⟩ := l.text_eq_cons
    simp only [Bool.false_eq_true, if_false, htext, hneg, hl]
    rintro r ⟨⟩
    revert hc
    decide

end Numbers

/-! ### Powers of the variable -/

/-- The text of a power of `x` behind its coefficient. -/
def powerText : ℕ → String
  | 0 => ""
  | 1 => "x"
  | p => "x^" ++ toString p

/-- The product of the coefficient `e` with a power of `x`. -/
def withPower (e : Formula α) : ℕ → Formula α
  | 0 => e
  | 1 => .mul e (.var "x")
  | p => .mul e (.pow (.var "x") (.const (Scalar.ofNat p)))

theorem monomial_eq (v : α) (p : ℕ) : monomial v p = magnitude v ++ powerText p := by
  match p with
  | 0 => simp [monomial, powerText]
  | 1 => rfl
  | p + 2 => simp [monomial, powerText, String.append_assoc]

/-- A natural number is written as a literal. -/
theorem exists_literal_natural (p : ℕ) :
    ∃ l : Literal, (l.value : α) = Scalar.ofNat p ∧ (toString p).toList = l.text := by
  obtain ⟨l, hl, htext⟩ := Formula.exists_literal (Decimal.digitsOf p) none
    (fun _ => Formula.isDigit_digitsOf) (by simp) Nat.toDigits_ne_nil
  refine ⟨l, ?_, ?_⟩
  · rw [Literal.value, hl, Decimal.Numeral.toDecimal, Option.getD_none, List.append_nil,
      Decimal.digitsValue_digitsOf]
    rfl
  · rw [htext]
    simp [Decimal.digitsOf, Nat.repr]

theorem isPhrase_withPower {cs : List Char} {e : Formula α}
    (h : IsPhrase .product AfterNumber cs e) (p : ℕ) :
    IsPhrase .product AfterTerm (cs ++ (powerText p).toList) (withPower e p) := by
  match p with
  | 0 =>
    have htext : cs ++ (powerText 0).toList = cs := by simp [powerText]
    rw [htext]
    exact h.mono fun _ => AfterTerm.afterNumber
  | 1 => exact (h.mul_x rfl).mono fun _ => AfterTerm.afterName
  | p + 2 =>
    obtain ⟨l, hl, htext⟩ := exists_literal_natural (α := α) (p + 2)
    have hpower := h.mul_x_pow rfl l
    rw [hl, ← htext] at hpower
    have hlist : (powerText (p + 2)).toList = 'x' :: '^' :: (toString (p + 2)).toList := by
      simp [powerText]
    rw [hlist]
    exact hpower.mono fun _ => AfterTerm.afterNumber

/-! ### Terms of a polynomial -/

/-- A sum with one more term, which is subtracted if its coefficient is negative. -/
def joined (negative : Bool) (u r : Formula α) : Formula α :=
  if negative then .sub u r else .add u r

theorem isPhrase_joined {next next' : Char → Prop} {cs ds : List Char} {u r : Formula α}
    (hu : IsPhrase .sum next cs u) (hspace : next ' ') (hr : IsPhrase .product next' ds r) (v : α) :
    IsPhrase .sum next' (cs ++ ((sign v).toList ++ ds)) (joined (isNegative v) u r) := by
  rw [sign, joined]
  cases isNegative v with
  | false => exact hu.add hspace hr
  | true => exact hu.sub hspace hr

/-- The sum with the further terms, whose coefficients come highest power first. -/
def furtherTree (m : α → α) (u : Formula α) : List α → Formula α
  | [] => u
  | c :: cs =>
    furtherTree m (joined (isNegative c) u (withPower (.const (m c)) cs.length)) cs

/-- The tree of a polynomial with ascending coefficients, where `m` gives the magnitudes
    that are read. -/
def polynomialTree (m : α → α) (ascending : List α) : Formula α :=
  match ascending.reverse with
  | [] => .const 0
  | c :: cs => furtherTree m (withPower (.const (signed c (m c))) cs.length) cs

variable {m : α → α} {cs : List α}

theorem isPhrase_furtherTerms (hcs : ∀ c ∈ cs, HasMagnitude c (m c)) {text : List Char}
    {u : Formula α} (hu : IsPhrase .sum AfterTerm text u) :
    IsPhrase .sum AfterTerm (text ++ (furtherTerms cs).toList) (furtherTree m u cs) := by
  induction cs generalizing text u with
  | nil => simpa [furtherTerms, furtherTree] using hu
  | cons c cs ih =>
    obtain ⟨hc, hcs⟩ := List.forall_mem_cons.1 hcs
    have hterm := isPhrase_withPower (isPhrase_magnitude hc).product_of_primary
      cs.length
    have hjoined := isPhrase_joined hu (.inl rfl) hterm c
    have htext : text ++ (furtherTerms (c :: cs)).toList =
        text ++ ((sign c).toList ++ ((magnitude c).toList ++ (powerText cs.length).toList)) ++
          (furtherTerms cs).toList := by
      simp [furtherTerms, monomial_eq]
    rw [htext]
    exact ih hcs hjoined

/-- The highest coefficient is written with its sign. -/
theorem descendingPolynomial_append {c : α} (hc : HasMagnitude c (m c)) (lower : List α) :
    descendingPolynomial (lower ++ [c]) =
      number c ++ powerText lower.length ++ furtherTerms lower.reverse := by
  have hnumber : number c = (if isNegative c then "-" else "") ++ magnitude c := by
    rw [← String.toList_inj, toList_number hc, String.toList_append]
    cases isNegative c <;> rfl
  rw [descendingPolynomial, List.reverse_append]
  simp only [List.reverse_singleton, List.singleton_append, monomial_eq, hnumber,
    List.length_reverse, String.append_assoc]

theorem polynomialTree_append (m : α → α) (lower : List α) (c : α) :
    polynomialTree m (lower ++ [c]) =
      furtherTree m (withPower (.const (signed c (m c))) lower.length) lower.reverse := by
  rw [polynomialTree, List.reverse_append]
  simp

/-- A written polynomial is read as the sum of its terms from the highest power down. -/
theorem read_descendingPolynomial (hne : cs ≠ []) (hcs : ∀ c ∈ cs, HasMagnitude c (m c)) :
    Formula.read (descendingPolynomial cs) = .ok (polynomialTree m cs) := by
  rcases List.eq_nil_or_concat' cs with rfl | ⟨lower, c, rfl⟩
  · exact absurd rfl hne
  rw [List.forall_mem_append, List.forall_mem_singleton] at hcs
  have hlower : ∀ d ∈ lower.reverse, HasMagnitude d (m d) := fun d hd =>
    hcs.1 d (List.mem_reverse.1 hd)
  have hfirst := isPhrase_withPower (isPhrase_number hcs.2).product_of_unary lower.length
  have hphrase := isPhrase_furtherTerms hlower hfirst.sum_of_product
  rw [descendingPolynomial_append hcs.2, polynomialTree_append]
  apply IsPhrase.read_eq
  rw [String.toList_append, String.toList_append]
  exact hphrase

/-! ### Lines and cubic polynomials -/

theorem line_eq_terms (a b : α) : line a b = number a ++ powerText 1 ++ furtherTerms [b] := by
  rw [line, furtherTerms, furtherTerms, monomial_eq]
  simp [powerText, String.append_assoc]

theorem line_eq {a b : α} (ha : HasMagnitude a (m a)) :
    line a b = descendingPolynomial [b, a] := by
  rw [line_eq_terms]
  exact (descendingPolynomial_append ha [b]).symm

theorem cubic_eq_terms (a b c d : α) :
    cubic a b c d = number a ++ powerText 3 ++ furtherTerms [b, c, d] := by
  have hcubed : powerText 3 = "x^3" := by decide
  have hsquared : powerText 2 = "x^2" := by decide
  rw [cubic, furtherTerms, furtherTerms, furtherTerms, furtherTerms]
  simp only [monomial_eq, List.length_cons, List.length_nil, Nat.zero_add, Nat.reduceAdd, hcubed,
    hsquared, String.append_assoc]
  simp [powerText]

theorem cubic_eq {a b c d : α} (ha : HasMagnitude a (m a)) :
    cubic a b c d = descendingPolynomial [d, c, b, a] := by
  rw [cubic_eq_terms]
  exact (descendingPolynomial_append ha [d, c, b]).symm

end NumericMethods.Written
