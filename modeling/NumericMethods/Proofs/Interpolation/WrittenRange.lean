/-
  NumericMethods/Proofs/Interpolation/WrittenRange.lean
  =====================================================
  **Up to which magnitude numbers are written as numerals.**

  A number is written through its number of units of the last place, ten to the power of
  ten times the number.  Near the end of the format that product is infinite while the
  number is not, and then the text is the name of an infinite number (`number_cases`).
  `largest` is the last magnitude before that happens (`isFinite_scaled_iff`).

  So the texts of polynomials with finite coefficients are accepted exactly if no
  coefficient is above that magnitude (`written_text_accepted_iff`); one coefficient above
  it makes a name of the text that is not `x`.
-/
import Mathlib
import NumericMethods.Proofs.Interpolation.WrittenAcceptance
import NumericMethods.Proofs.Scalar.Range

namespace NumericMethods.Written

open Binary64 Float.Model Float.Model.UnpackedFloat

/-! ### The largest magnitude that is scaled to a finite number -/

/-- The largest magnitude whose number of units of the last place is finite. -/
def largest : Float := 1.7976931348623157e298

theorem isBinary64_largest : (⟨7737125245533626, 938, false⟩ : Decimal.Dyadic).IsBinary64 := by
  constructor <;> decide

theorem isBinary64_next : (⟨7737125245533627, 938, false⟩ : Decimal.Dyadic).IsBinary64 := by
  constructor <;> decide

theorem largest_eq :
    largest = ofParts .positive ⟨7737125245533626, 938, false⟩ isBinary64_largest := by
  decide +kernel

theorem unpack_unitsPerOne : ∃ m e hm, (unitsPerOne : Float).toModel.unpack =
    .finite .positive m e hm ∧ (m * 2 ^ e : ℚ) = 10 ^ 10 ∧ 2 ^ 52 ≤ m :=
  unpack_of_isPowerOfTen (e := 10) (by decide +kernel)

/-- The scaled largest magnitude is below the bound of the finite numbers, and that of the next
    number is not. -/
theorem scaled_lt_overflow_iff {x : Decimal.Dyadic} (hx : x.IsBinary64) :
    (x.significand * 2 ^ x.exponent * 10 ^ 10 : ℚ) < (2 ^ 53 - 1 / 2) * 2 ^ (971 : ℤ) ↔
      (x.significand * 2 ^ x.exponent : ℚ) ≤ (7737125245533626 : ℕ) * 2 ^ (938 : ℤ) := by
  have hpos : (0 : ℚ) < 2 ^ (938 : ℤ) := zpow_pos (by norm_num) _
  have hscale : (2 : ℚ) ^ (971 : ℤ) = 2 ^ 33 * 2 ^ (938 : ℤ) := by
    rw [← zpow_natCast, ← zpow_add₀ (by norm_num)]
    rfl
  have hfits := value_le_iff hx isBinary64_largest
  have hnext := value_le_iff isBinary64_next hx
  dsimp only at hfits hnext
  rw [hscale]
  generalize (2 : ℚ) ^ (938 : ℤ) = unit at *
  by_cases hle : (x.significand * 2 ^ x.exponent : ℚ) ≤ (7737125245533626 : ℕ) * unit
  · refine iff_of_true ?_ hle
    generalize (x.significand : ℚ) * 2 ^ x.exponent = y at *
    norm_num at hle ⊢
    linarith only [hle, hpos]
  · refine iff_of_false (not_lt.2 ?_) hle
    rw [hfits] at hle
    have hle' := hnext.2 (by omega)
    generalize (x.significand : ℚ) * 2 ^ x.exponent = y at *
    norm_num at hle' ⊢
    linarith only [hle', hpos]

/-- A finite number is scaled to a finite number exactly up to the largest magnitude. -/
theorem isFinite_scaled_iff {v : Float} (hfinite : v.isFinite = true) :
    (v * unitsPerOne).isFinite = true ↔ v.abs ≤ largest := by
  obtain ⟨m, e, hm, hunits, hvalue, hlong⟩ := unpack_unitsPerOne
  by_cases hzero : IsZero v
  · rw [abs_of_isZero hzero]
    have hproduct : (v * unitsPerOne).isFinite = true := by
      rcases hzero with rfl | rfl <;> decide +kernel
    exact iff_of_true hproduct (by decide +kernel)
  · have hx := isBinary64_magnitude hfinite hzero
    rw [isFinite_mul_iff hfinite hx hunits hlong, hvalue, scaled_lt_overflow_iff hx,
      abs_eq_ofParts hfinite hx, largest_eq, ofParts_le_iff]

/-! ### Written numbers -/

/-- Digits with an optional point and further digits. -/
inductive IsPositional : List Char → Prop
  | whole {ds : List Char} (hne : ds ≠ []) (hds : ∀ c ∈ ds, c.isDigit = true) : IsPositional ds
  | pointed {ds fs : List Char} (hne : ds ≠ []) (hds : ∀ c ∈ ds, c.isDigit = true) (hne' : fs ≠ [])
      (hfs : ∀ c ∈ fs, c.isDigit = true) : IsPositional (ds ++ '.' :: fs)

/-- An unsigned decimal numeral, or one with a minus sign. -/
def IsNumeral (text : String) : Prop :=
  ∃ cs, IsPositional cs ∧ (text.toList = cs ∨ text.toList = '-' :: cs)

theorem isPositional_positional (d : Decimal) : IsPositional d.positional := by
  obtain ⟨whole, fraction, hne, hwhole, hfraction, hlayout, -⟩ := Formula.exists_positional_parts d
  rw [hlayout]
  cases fraction with
  | none =>
    rw [Option.map_none, Option.getD_none, List.append_nil]
    exact .whole hne hwhole
  | some ds =>
    obtain ⟨hne', hfraction⟩ := hfraction ds rfl
    exact .pointed hne hwhole hne' hfraction

theorem isNumeral_text {w : Float} (hfinite : w.isFinite = true) :
    IsNumeral (Scalar.text w) := by
  have htext := toList_textIn hfinite Decimal.positional
  refine ⟨_, isPositional_positional (shortestDecimal w), ?_⟩
  cases hneg : Binary64.isNegative w with
  | false => exact .inl (by rw [hneg] at htext; exact htext)
  | true => exact .inr (by rw [hneg] at htext; exact htext)

/-- The name of an infinite number is no numeral. -/
theorem not_isNumeral_of_infinite {text : String} (h : text = "inf" ∨ text = "-inf") :
    ¬ IsNumeral text := by
  rintro ⟨cs, hcs, htext⟩
  have hdigit : ∃ c r, cs = c :: r ∧ c.isDigit = true := by
    cases hcs with
    | whole hne hds =>
      obtain ⟨c, r, rfl⟩ := List.exists_cons_of_ne_nil hne
      exact ⟨c, r, rfl, hds c List.mem_cons_self⟩
    | pointed hne hds =>
      obtain ⟨c, r, rfl⟩ := List.exists_cons_of_ne_nil hne
      exact ⟨c, _, rfl, hds c List.mem_cons_self⟩
  obtain ⟨c, r, rfl, hc⟩ := hdigit
  rcases h with rfl | rfl <;> rcases htext with htext | htext <;> cases htext <;> cases hc

/-- Up to the largest magnitude a number is written as a numeral, and above it as the name of
    an infinite number: the number of units of the last place is too large. -/
theorem number_cases {v : Float} (hfinite : v.isFinite = true) :
    (v.abs ≤ largest ∧ IsNumeral (number v)) ∨
      (¬ v.abs ≤ largest ∧ (number v = "inf" ∨ number v = "-inf")) := by
  obtain ⟨m, e, hm, hunits, hvalue, -⟩ := unpack_unitsPerOne
  rw [← isFinite_scaled_iff hfinite]
  by_cases hsmall : Scalar.abs v < (resolution : Float)
  · have hzero : number v = "0" := if_pos hsmall
    have hle : v.abs ≤ largest := by
      have hlt : v.abs < largest :=
        Scalar.HasTransitiveOrder.lt_of_lt_of_le hsmall (by decide +kernel)
      exact (ordersDefined Binary64.balance).le_of_lt hlt
    refine .inl ⟨(isFinite_scaled_iff hfinite).2 hle, ['0'], .whole (by simp) (by simp), .inl ?_⟩
    rw [hzero]
    rfl
  · have hnumber : number v =
        Scalar.text (nearestWhole (v * unitsPerOne) / unitsPerOne + 0 : Float) := if_neg hsmall
    rw [hnumber]
    cases hproduct : (v * unitsPerOne).isFinite with
    | true =>
      have hone : (1 : ℚ) ≤ m * 2 ^ e := by
        rw [hvalue]
        norm_num
      exact .inl ⟨rfl, isNumeral_text (isFinite_add_zero
        (isFinite_div_of_one_le (isFinite_nearestWhole hproduct) hunits hone))⟩
    | false =>
      have hunitsFinite : (unitsPerOne : Float).isFinite = true :=
        congrArg UnpackedFloat.isFinite hunits
      have hdefined : (v * unitsPerOne).isNaN = false := isNaN_pack (isNaN_mul hfinite hunitsFinite)
      obtain ⟨s, hs⟩ := exists_infinity hproduct hdefined
      rw [nearestWhole_of_infinity hs]
      obtain ⟨t, ht⟩ := div_of_infinity hs hunits
      obtain ⟨u, hu⟩ := add_zero_of_infinity ht
      exact .inr ⟨Bool.false_ne_true, textIn_of_infinity hu Decimal.positional⟩

/-! ### Accepted texts -/

/-- A numeral is a literal after a sign, if there is one. -/
theorem IsPositional.exists_literal {cs : List Char} (h : IsPositional cs) :
    ∃ l : Formula.Literal, l.text = cs := by
  cases h with
  | whole hne hds =>
    obtain ⟨l, -, htext⟩ := Formula.exists_literal _ none hds (by simp) hne
    exact ⟨l, by simpa using htext⟩
  | pointed hne hds hne' hfs =>
    obtain ⟨l, -, htext⟩ := Formula.exists_literal _ (some _) hds (by rintro _ ⟨⟩; exact hfs) hne
    exact ⟨l, by simpa using htext⟩

theorem isShown_number {v : Float} (hfinite : v.isFinite = true) :
    IsShown (v.abs ≤ largest) (number v).toList := by
  rcases number_cases hfinite with ⟨hfits, cs, hcs, htext⟩ | ⟨hlarge, htext | htext⟩
  · obtain ⟨l, rfl⟩ := hcs.exists_literal
    rcases htext with htext | htext <;> rw [htext]
    · exact .literal hfits l
    · exact .minus (.literal hfits l)
  · rw [htext]
    exact .infinite hlarge
  · rw [htext]
    exact .minus (.infinite hlarge)

theorem isShown_magnitude {v : Float} (hfinite : v.isFinite = true) :
    IsShown (v.abs ≤ largest) (magnitude v).toList := by
  have hshown := isShown_number (isFinite_abs hfinite)
  rwa [abs_abs hfinite] at hshown

/-- The text of a polynomial, a line or a cubic polynomial with these coefficients. -/
inductive IsWrittenFrom : List Float → String → Prop
  | polynomial {cs : List Float} (hne : cs ≠ []) : IsWrittenFrom cs (descendingPolynomial cs)
  | line (m c : Float) : IsWrittenFrom [m, c] (line m c)
  | cubic (a b c d : Float) : IsWrittenFrom [a, b, c, d] (cubic a b c d)

theorem IsWrittenFrom.exists_read_iff {cs : List Float} {text : String}
    (h : IsWrittenFrom cs text) (hfinite : ∀ c ∈ cs, c.isFinite = true) :
    (∃ e : Formula Float, Formula.read text = .ok e) ↔ ∀ c ∈ cs, c.abs ≤ largest := by
  cases h with
  | polynomial hne =>
    exact exists_read_descendingPolynomial_iff hne fun c hc => isShown_magnitude (hfinite c hc)
  | line m c =>
    obtain ⟨hm, hc⟩ := List.forall_mem_cons.1 hfinite
    rw [line_eq_terms, List.forall_mem_cons]
    exact exists_read_terms_iff (isShown_number hm) 1 fun d hd => isShown_magnitude (hc d hd)
  | cubic a b c d =>
    obtain ⟨ha, hlower⟩ := List.forall_mem_cons.1 hfinite
    rw [cubic_eq_terms, List.forall_mem_cons]
    exact exists_read_terms_iff (isShown_number ha) 3 fun v hv => isShown_magnitude (hlower v hv)

/-- A finite number is written as a numeral exactly if its magnitude is at most `largest`, and
    above that as the name of an infinite number.  A polynomial, a line and a cubic polynomial
    with finite coefficients are written as formulas exactly if no coefficient is above it. -/
theorem written_text_accepted_iff {cs : List Float} (hfinite : ∀ c ∈ cs, c.isFinite = true) :
    (∀ c ∈ cs, (IsNumeral (number c) ↔ c.abs ≤ largest) ∧
      (¬ c.abs ≤ largest → number c = "inf" ∨ number c = "-inf")) ∧
    ∀ text, IsWrittenFrom cs text →
      ((∃ e : Formula Float, Formula.read text = .ok e) ↔ ∀ c ∈ cs, c.abs ≤ largest) := by
  refine ⟨fun c hc => ?_, fun text htext => htext.exists_read_iff hfinite⟩
  rcases number_cases (hfinite c hc) with ⟨hfits, hnumeral⟩ | ⟨hlarge, hinfinite⟩
  · exact ⟨iff_of_true hnumeral hfits, fun hlarge => absurd hfits hlarge⟩
  · exact ⟨iff_of_false (not_isNumeral_of_infinite hinfinite) hlarge, fun _ => hinfinite⟩

/-- One coefficient above the largest magnitude is enough for a text to be refused. -/
theorem written_text_accepted_of_moderate :
    IsNumeral (number (-0.1 : Float)) ∧
      (∃ e : Formula Float, Formula.read (descendingPolynomial [2, -0.1, 1e298]) = .ok e) ∧
      (∃ e : Formula Float, Formula.read (line (0 : Float) (-3)) = .ok e) ∧
      ¬ ∃ e : Formula Float, Formula.read (cubic 1 0 1e299 2) = .ok e := by
  have hthree : ∀ c ∈ [2, -0.1, (1e298 : Float)], c.isFinite = true := by decide +kernel
  have htwo : ∀ c ∈ [0, (-3 : Float)], c.isFinite = true := by decide +kernel
  have hfour : ∀ c ∈ [1, 0, 1e299, (2 : Float)], c.isFinite = true := by decide +kernel
  obtain ⟨hnumber, hpolynomial⟩ := written_text_accepted_iff hthree
  obtain ⟨-, hline⟩ := written_text_accepted_iff htwo
  obtain ⟨-, hcubic⟩ := written_text_accepted_iff hfour
  refine ⟨?_, ?_, ?_, ?_⟩
  · exact (hnumber (-0.1) (by simp)).1.2 (by decide +kernel)
  · exact (hpolynomial _ (.polynomial (List.cons_ne_nil _ _))).2 (by decide +kernel)
  · exact (hline _ (.line 0 (-3))).2 (by decide +kernel)
  · exact (hcubic _ (.cubic 1 0 1e299 2)).not.2 (by decide +kernel)

/-- A finite number whose number of units overflows is no numeral, and a polynomial with it is
    refused. -/
theorem large_number_is_written_as_infinite :
    (1e300 : Float).isFinite = true ∧ number (1e300 : Float) = "inf" ∧
      ¬ IsNumeral (number (1e300 : Float)) ∧
      descendingPolynomial [1, (1e300 : Float)] = "infx + 1" ∧
      ¬ ∃ e : Formula Float, Formula.read (descendingPolynomial [1, 1e300]) = .ok e := by
  have hnumber : number (1e300 : Float) = "inf" := by decide +kernel
  have hfinite : ∀ c ∈ [1, (1e300 : Float)], c.isFinite = true := by decide +kernel
  have hread := (IsWrittenFrom.polynomial (List.cons_ne_nil _ _)).exists_read_iff hfinite
  exact ⟨by decide +kernel, hnumber, not_isNumeral_of_infinite (.inl hnumber),
    by decide +kernel, hread.not.2 (by decide +kernel)⟩

end NumericMethods.Written
