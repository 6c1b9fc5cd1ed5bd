/-
  NumericMethods/Proofs/Formula/Juxtaposition.lean
  ================================================
  **A number written directly before a name.**

  In `2x` the numeral ends where the name starts.  In `2e`, `2exp(x)` or `2e-x` the name
  starts with the letter that marks an exponent; the numeral ends there all the same unless
  digits follow, and is then the one that `2 e`, `2 exp(x)` or `2 e-x` starts with
  (`numeral_before_name`).

  From there on the two texts differ by the gap in front of the rest.  What is read after a
  phrase does not depend on that gap (`proceed_cases`), so that either the same is read after
  both numbers, or nothing is (`proceed_of_dropGap_eq`), and the two texts have the same tree
  (`read_number_before_name_iff`).
-/
import Mathlib
import NumericMethods.Proofs.Formula.Recognition
import NumericMethods.Proofs.Text.Lines

namespace NumericMethods.Formula

open Text

/-! ### Where a numeral ends -/

/-- The text starts with the marker of an exponent, a sign or none, and a digit. -/
def StartsExponent (cs : List Char) : Prop :=
  ∃ marker sign digit r, (marker = 'e' ∨ marker = 'E') ∧
    (sign = [] ∨ sign = ['+'] ∨ sign = ['-']) ∧ digit.isDigit = true ∧
    cs = marker :: (sign ++ digit :: r)

section Exponents

variable {cs r : List Char}

theorem exists_digit_of_digitRun {n : Nat} (h : Decimal.digitRun? cs = some (n, r)) :
    ∃ digit ds, digit.isDigit = true ∧ cs = digit :: ds := by
  unfold Decimal.digitRun? at h
  split at h
  · cases h
  · rename_i hrun
    cases cs with
    | nil => exact absurd rfl hrun
    | cons c ds =>
      cases hc : c.isDigit with
      | true => exact ⟨c, ds, hc, rfl⟩
      | false => exact absurd (List.takeWhile_cons_of_neg (by simp [hc])) hrun

theorem exists_digit_of_signedRun {n : Int} (h : Decimal.signedRun? cs = some (n, r)) :
    ∃ sign digit ds, (sign = [] ∨ sign = ['+'] ∨ sign = ['-']) ∧ digit.isDigit = true ∧
      cs = sign ++ digit :: ds := by
  unfold Decimal.signedRun? at h
  split at h <;> obtain ⟨⟨m, t⟩, hrun, -⟩ := Option.map_eq_some_iff.1 h <;>
    obtain ⟨digit, ds, hdigit, rfl⟩ := exists_digit_of_digitRun hrun
  · exact ⟨['-'], digit, ds, .inr (.inr rfl), hdigit, rfl⟩
  · exact ⟨['+'], digit, ds, .inr (.inl rfl), hdigit, rfl⟩
  · exact ⟨[], digit, ds, .inl rfl, hdigit, rfl⟩

theorem exponentOf_of_not_startsExponent (h : ¬ StartsExponent cs) :
    Decimal.exponentOf cs = (0, cs) := by
  have key : ∀ marker r, (marker = 'e' ∨ marker = 'E') → cs = marker :: r →
      Decimal.signedRun? r = none := by
    intro marker r hmarker hcs
    cases hrun : Decimal.signedRun? r with
    | none => rfl
    | some p =>
      obtain ⟨sign, digit, ds, hsign, hdigit, rfl⟩ := exists_digit_of_signedRun (n := p.1) hrun
      exact absurd ⟨marker, sign, digit, ds, hmarker, hsign, hdigit, hcs⟩ h
  unfold Decimal.exponentOf
  split
  · rename_i r
    rw [key 'e' r (.inl rfl) rfl]
    rfl
  · rename_i r
    rw [key 'E' r (.inr rfl) rfl]
    rfl
  · rfl

end Exponents

/-- A mantissa that neither a digit nor a point nor an exponent follows is a numeral. -/
theorem numeral_append_of_not_startsExponent {m : Literal} (hm : m.exponent = none)
    {r : List Char} (hhead : ∀ c ∈ r.head?, c.isDigit = false ∧ c ≠ '.')
    (hexponent : ¬ StartsExponent r) :
    Decimal.numeral? (m.text ++ r) = some (m.numeral, r) := by
  have hmantissa := mantissa_append m (r := r) (fun c hc => (hhead c hc).1)
    (fun _ h => (hhead '.' h).2 rfl)
  have htext : m.text = m.whole ++ m.fractionText := by
    rw [Literal.text, Literal.exponentText, hm, List.append_nil]
  rw [htext, Decimal.numeral?, hmantissa, Option.map_some]
  dsimp only
  rw [exponentOf_of_not_startsExponent hexponent, Literal.numeral, hm]
  rfl

variable {α : Type} [Scalar α] {m : Literal} {cs ds r : List Char} {acc t : Formula α}

/-- A number that a numeral ends, and after which no sign of exponentiation stands, is the
    first factor of a product. -/
theorem read_product_number (hnumeral : Decimal.numeral? (m.text ++ r) = some (m.numeral, r))
    (hsign : Phrase.exponentSign? (dropGap r) = none) :
    (Level.product.read (m.text ++ r) : Outcome (Formula α)) =
      Level.product.proceed (.const m.value) r := by
  have hgap : dropGap (m.text ++ r) = m.text ++ r := (Token.number m).dropGap_text r
  have hhead : ∀ c ∈ (dropGap (m.text ++ r)).head?, c ≠ '-' ∧ c ≠ '+' := by
    obtain ⟨c, text, htext, hc⟩ := m.text_eq_cons
    rw [hgap, htext]
    rintro _ ⟨⟩
    constructor <;> rintro rfl <;> exact absurd hc (by decide)
  have hprimary : (Level.primary.read (m.text ++ r) : Outcome (Formula α)) =
      .read (.const m.value) r :=
    read_primary_number (by rw [hgap]; exact hnumeral)
  rw [read_product, read_unary_operand hhead, hgap, read_power, hprimary]
  simp only [Outcome.andThen, hsign]

/-! ### Names after a number -/

section Names

variable {c : Char} {others : List Char}

theorem dropGap_of_startsName (h : Phrase.startsName c = true) :
    dropGap (c :: others) = c :: others := by
  have hgap : isGap c = false := isGap_eq_false (isBlank_of_startsName h)
  exact List.dropWhile_cons_of_neg (by simp [hgap])

theorem exponentSign_of_startsName (h : Phrase.startsName c = true) :
    Phrase.exponentSign? (c :: others) = none := by
  unfold Phrase.exponentSign?
  split
  · rename_i heq
    cases heq
    cases h
  · rename_i heq
    cases heq
    cases h
  · rfl

end Names

/-! ### The gap after the number -/

/-- The gap in front of a text has no part in what is read after a phrase, except that it is
    left over where nothing is read. -/
theorem proceed_of_dropGap_eq (l : Level) (acc : Formula α) (h : dropGap ds = dropGap cs) :
    l.proceed acc ds = l.proceed acc cs ∨
      l.proceed acc ds = .read acc ds ∧ l.proceed acc cs = .read acc cs := by
  obtain hstop | ⟨l', node, r, -, -, hproceed⟩ := proceed_cases l acc cs
  · exact .inr ⟨hstop ds h, hstop cs rfl⟩
  rw [hproceed ds h, hproceed cs rfl]
  cases (l'.read r : Outcome (Formula α)) with
  | read u r' => exact .inl rfl
  | refused r' => exact .inr ⟨rfl, rfl⟩
  | broken r' => exact .inl rfl

/-- Two texts whose rests after the first factor differ by a gap have the same tree. -/
theorem readTree_congr {cs' ds' : List Char} (hgap : dropGap ds = dropGap cs)
    (hblank : trimStart ds = trimStart cs) (htrim : (trim ds').isEmpty = (trim cs').isEmpty)
    (hcs : Level.product.read cs' = Level.product.proceed acc cs)
    (hds : Level.product.read ds' = Level.product.proceed acc ds) :
    readTree ds' = .ok t ↔ readTree cs' = .ok t := by
  rw [readTree_eq_ok_iff, readTree_eq_ok_iff, htrim, read_sum, read_sum, hcs, hds]
  refine and_congr_right fun _ => ?_
  obtain hsame | ⟨hds', hcs'⟩ := proceed_of_dropGap_eq .product acc hgap
  · rw [hsame]
  rw [hcs', hds']
  simp only [Outcome.andThen]
  obtain hsame | ⟨hds'', hcs''⟩ := proceed_of_dropGap_eq .sum acc hgap
  · rw [hsame]
  -- nothing is read after the number: the rests are the texts after it
  rw [hcs'', hds'']
  simp [hblank]

/-- A number without an exponent, written directly before a text that starts with a letter or
    an underscore and not with an exponent, reads as if a space stood between them. -/
theorem read_number_before_name_iff (m : Literal) (hm : m.exponent = none) (s : String)
    (hname : ∃ c ∈ s.toList.head?, Phrase.startsName c = true)
    (hexponent : ¬ StartsExponent s.toList) (t : Formula α) :
    read (String.ofList m.text ++ s) = .ok t ↔
      read (String.ofList m.text ++ " " ++ s) = .ok t := by
  obtain ⟨c, hc, hname⟩ := hname
  obtain ⟨others, hs⟩ := List.head?_eq_some_iff.1 hc
  have hgap : dropGap (' ' :: s.toList) = dropGap s.toList := rfl
  have hsign : Phrase.exponentSign? (dropGap s.toList) = none := by
    rw [hs, dropGap_of_startsName hname, exponentSign_of_startsName hname]
  -- the numeral ends before the name and before the space alike
  have hdirect : (Level.product.read (m.text ++ s.toList) : Outcome (Formula α)) =
      Level.product.proceed (.const m.value) s.toList := by
    refine read_product_number (numeral_append_of_not_startsExponent hm ?_ hexponent) hsign
    rw [hs]
    rintro _ ⟨⟩
    exact ⟨isDigit_of_startsName hname, by rintro rfl; cases hname⟩
  have hapart : (Level.product.read (m.text ++ ' ' :: s.toList) : Outcome (Formula α)) =
      Level.product.proceed (.const m.value) (' ' :: s.toList) := by
    refine read_product_number (numeral_append m ?_) (by rw [hgap, hsign])
    rintro _ ⟨⟩
    rfl
  have htrim : ∀ r, (trim (m.text ++ r)).isEmpty = false := by
    intro r
    obtain ⟨d, text, htext, hd⟩ := (Token.number m).text_eq_cons
    rw [show m.text = d :: text from htext, List.cons_append, trim_cons hd]
    rfl
  rw [read_eq_ok_iff, read_eq_ok_iff]
  simp only [String.toList_append, String.toList_ofList, List.append_assoc]
  refine and_congr_left fun _ => ?_
  exact readTree_congr hgap.symm rfl ((htrim _).trans (htrim _).symm) hapart hdirect

/-- The text `2e` is read as `2 e`, twice the base of the natural logarithm. -/
theorem read_two_e :
    let two : Literal := ⟨['2'], none, none, by simp, by simp, .inl (by simp)⟩
    let tree : Formula Float := .mul (.const two.value) (.const Scalar.euler)
    two.exponent = none ∧ (∃ c ∈ "e".toList.head?, Phrase.startsName c = true) ∧
      ¬ StartsExponent "e".toList ∧ read "2e" = .ok tree := by
  intro two tree
  let e : Identifier := ⟨'e', [], rfl, by simp⟩
  have hname : ∃ c ∈ "e".toList.head?, Phrase.startsName c = true := ⟨'e', rfl, rfl⟩
  have hexponent : ¬ StartsExponent "e".toList := by
    rintro ⟨marker, sign, digit, r, -, -, -, heq⟩
    have hlength := congrArg List.length heq
    simp at hlength
  have hjoined : Joined [.number two, .name e] "2 e".toList :=
    .cons (.number two) (by simp) isGap_space (by simp) (.single (.name e))
  have heuler : Derives (α := Float) .power [.name e] (.const Scalar.euler) :=
    .base (.euler (by decide))
  have hderives : Derives .sum [.number two, .name e] tree :=
    .term (.implicit rfl (.factor (.operand (.base (.number two)))) heuler)
  have hapart : read "2 e" = .ok tree :=
    (read_spelled_iff hjoined.spells).2 ⟨hderives, by simp [tree, occurrences]⟩
  exact ⟨rfl, hname, hexponent,
    (read_number_before_name_iff two rfl "e" hname hexponent tree).2 hapart⟩

end NumericMethods.Formula
