/-
  NumericMethods/Proofs/Formula/Printing.lean
  ===========================================
  **The printed form of a formula is read as the formula.**

  A number inside a printed formula is a literal, with a sign in front of it if it is
  negative, and every operation stands in parentheses.  The printed form of a formula is
  therefore a primary, with one exception: minus zero is not less than zero, so it is
  printed with a sign and without parentheses.  As the base of a power its sign is then
  read as the negation of the power.

  `Formula.reread` is the tree that comes back.  The proof gives, for every formula, the
  tokens of its printed form and their derivation, by induction on the formula; what
  stands around a part of the text enters only through the characters that may follow it
  (`SpelledBy`).  What is asked of the numbers is `ReadsBack`; all finite numbers of binary
  floating point have it, since their decimals round to them.
-/
import NumericMethods.Proofs.Formula.Recognition
import NumericMethods.Proofs.Scalar.ReadBack

namespace NumericMethods.Formula

open Text

/-! ### The positional layout is a literal -/

theorem isDigit_digitsOf {n : Nat} {c : Char} (hc : c ∈ Decimal.digitsOf n) :
    c.isDigit = true :=
  Nat.isDigit_of_mem_toDigits (by decide) (by decide) hc

theorem isDigit_append_zeros {ds : List Char} (hds : ∀ c ∈ ds, c.isDigit = true) (n : Nat) :
    ∀ c ∈ ds ++ List.replicate n '0', c.isDigit = true := by
  intro c hc
  rcases List.mem_append.1 hc with hc | hc
  · exact hds c hc
  · rw [List.eq_of_mem_replicate hc]
    rfl

/-- A positional layout consists of digits and, behind a point, further digits; as a numeral
    it has the same value. -/
theorem exists_positional_parts (d : Decimal) :
    ∃ (whole : List Char) (fraction : Option (List Char)),
      whole ≠ [] ∧ (∀ c ∈ whole, c.isDigit = true) ∧
      (∀ ds ∈ fraction, ds ≠ [] ∧ ∀ c ∈ ds, c.isDigit = true) ∧
      d.positional = whole ++ (fraction.map ('.' :: ·)).getD [] ∧
      (Decimal.Numeral.toDecimal ⟨whole, fraction.getD [], 0⟩).toRat = d.toRat := by
  obtain ⟨n, exponent⟩ := d
  have hdigits : ∀ c ∈ Decimal.digitsOf n, c.isDigit = true := fun c => isDigit_digitsOf
  have hne : Decimal.digitsOf n ≠ [] := Nat.toDigits_ne_nil
  unfold Decimal.positional
  dsimp only
  split
  · rename_i zeros
    split
    · rename_i hzero
      refine ⟨_, none, hne, hdigits, by simp, (List.append_nil _).symm, ?_⟩
      have hvalue := Decimal.toRat_trailing_zeros n 0
      rw [List.replicate_zero, List.append_nil] at hvalue
      rw [Option.getD_none, hvalue, hzero]
      simp [Decimal.toRat]
    · exact ⟨_, none, by simp [hne], isDigit_append_zeros hdigits zeros, by simp,
        (List.append_nil _).symm, Decimal.toRat_trailing_zeros n zeros⟩
  · rename_i k
    split
    · rename_i hplaces
      refine ⟨(Decimal.digitsOf n).take ((Decimal.digitsOf n).length - (k + 1)),
        some ((Decimal.digitsOf n).drop ((Decimal.digitsOf n).length - (k + 1))), ?_,
        fun c hc => hdigits c (List.mem_of_mem_take hc), ?_, rfl, ?_⟩
      · exact List.ne_nil_of_length_pos (by rw [List.length_take]; omega)
      · rintro _ ⟨⟩
        refine ⟨?_, fun c hc => hdigits c (List.mem_of_mem_drop hc)⟩
        exact List.ne_nil_of_length_pos (by rw [List.length_drop]; omega)
      · rw [Option.getD_some, Decimal.toDecimal_point hplaces.le]
        rfl
    · rename_i hplaces
      refine ⟨['0'], some (List.replicate (k + 1 - (Decimal.digitsOf n).length) '0' ++
        Decimal.digitsOf n), by simp, by simp, ?_, rfl, ?_⟩
      · rintro _ ⟨⟩
        refine ⟨by simp [hne], fun c hc => ?_⟩
        rcases List.mem_append.1 hc with hc | hc
        · rw [List.eq_of_mem_replicate hc]
          rfl
        · exact hdigits c hc
      · rw [Option.getD_some, Decimal.toDecimal_leading_zeros (not_lt.1 hplaces)]
        rfl

/-- Digits with an optional fraction, as a literal. -/
theorem exists_literal (whole : List Char) (fraction : Option (List Char))
    (hwhole : ∀ c ∈ whole, c.isDigit = true)
    (hfraction : ∀ ds ∈ fraction, ∀ c ∈ ds, c.isDigit = true) (hne : whole ≠ []) :
    ∃ l : Literal, l.numeral = ⟨whole, fraction.getD [], 0⟩ ∧
      l.text = whole ++ (fraction.map ('.' :: ·)).getD [] := by
  refine ⟨⟨whole, fraction, none, hwhole, hfraction, .inl hne⟩, rfl, ?_⟩
  cases fraction <;> exact List.append_nil _

/-- A positional layout is an unsigned literal of the same value. -/
theorem exists_literal_positional (d : Decimal) :
    ∃ l : Literal, l.numeral.toDecimal.toRat = d.toRat ∧ l.text = d.positional := by
  obtain ⟨whole, fraction, hne, hwhole, hfraction, hlayout, hvalue⟩ := exists_positional_parts d
  obtain ⟨l, hl, htext⟩ := exists_literal whole fraction hwhole
    (fun ds hds => (hfraction ds hds).2) hne
  exact ⟨l, by rw [hl, hvalue], by rw [htext, hlayout]⟩

/-! ### Numbers that are read back -/

section Generic

variable {α : Type} [Scalar α]

/-- The text of the number is a literal that stands for it; a sign belongs to a negative
    number or to minus zero. -/
inductive ReadsBack (v : α) : Prop
  | unsigned (l : Literal) (hl : l.value = v) (htext : (Scalar.text v).toList = l.text)
      (hsign : ¬ v < 0)
  | negative (l : Literal) (hl : -l.value = v) (htext : (Scalar.text v).toList = '-' :: l.text)
      (hsign : v < 0)
  | minusZero (l : Literal) (hzero : l.value = (0 : α)) (hl : -l.value = v)
      (htext : (Scalar.text v).toList = '-' :: l.text) (hsign : ¬ v < 0)

/-- Whether the formula is a number that is printed with a sign and without parentheses. -/
def hasBareSign : Formula α → Bool
  | .const v => !decide (v < 0) && (Scalar.text v).toList.head? == some '-'
  | _ => false

/-- The numbers of a formula, in the order of their occurrences. -/
def constants : Formula α → List α
  | .var _ => []
  | .const v => [v]
  | .add l r => l.constants ++ r.constants
  | .sub l r => l.constants ++ r.constants
  | .mul l r => l.constants ++ r.constants
  | .div l r => l.constants ++ r.constants
  | .pow l r => l.constants ++ r.constants
  | .neg u => u.constants
  | .apply _ u => u.constants

/-- The tree that the printed form is read as. -/
def reread : Formula α → Formula α
  | .var n => .var n
  | .const v => .const v
  | .add l r => .add l.reread r.reread
  | .sub l r => .sub l.reread r.reread
  | .mul l r => .mul l.reread r.reread
  | .div l r => .div l.reread r.reread
  | .pow l r => if l.hasBareSign then .neg (.pow (.const 0) r.reread) else .pow l.reread r.reread
  | .neg u => Phrase.negated u.reread
  | .apply f u => .apply f u.reread

theorem occurrences_negated (e : Formula α) : (Phrase.negated e).occurrences = e.occurrences := by
  cases e <;> rfl

theorem occurrences_of_hasBareSign {e : Formula α} (h : e.hasBareSign = true) :
    e.occurrences = [] := by
  cases e <;> first | rfl | cases h

theorem occurrences_reread (e : Formula α) : e.reread.occurrences = e.occurrences := by
  induction e with
  | var n => rfl
  | const v => rfl
  | add l r ihl ihr => simp only [reread, occurrences, ihl, ihr]
  | sub l r ihl ihr => simp only [reread, occurrences, ihl, ihr]
  | mul l r ihl ihr => simp only [reread, occurrences, ihl, ihr]
  | div l r ihl ihr => simp only [reread, occurrences, ihl, ihr]
  | pow l r ihl ihr =>
    rw [reread]
    split
    · rename_i hbare
      simp only [occurrences, occurrences_of_hasBareSign hbare, ihr]
    · simp only [occurrences, ihl, ihr]
  | neg u ih => rw [reread, occurrences_negated, ih]; rfl
  | apply f u ih => simp only [reread, occurrences, ih]

/-! ### Texts inside a printed formula -/

/-- The text spells the tokens wherever a gap, a closing parenthesis or nothing follows. -/
def SpelledBy (ts : List Token) (text : List Char) : Prop :=
  ∀ us r, (∀ c ∈ r.head?, c = ' ' ∨ c = ')') → Spells us r → Spells (ts ++ us) (text ++ r)

/-- The name under which a function is printed. -/
def functionName (f : Elementary) : Identifier where
  first := f.name.toList.headD 'f'
  others := f.name.toList.tail
  starts := by cases f <;> decide
  continues := List.all_eq_true.1 (by cases f <;> decide)

theorem text_functionName (f : Elementary) : (functionName f).text = f.name.toList := by
  cases f <;> decide

theorem ofName_functionName (f : Elementary) :
    Elementary.ofName? (functionName f).name = some f := by
  cases f <;> decide

/-- The name is an identifier that stands for a variable. -/
def IsSymbol (n : String) : Prop :=
  ∃ i : Identifier, i.name = n ∧ Elementary.ofName? n = none ∧ n ≠ "pi" ∧ n ≠ "e"

/-- The identifier of the variable. -/
def variableIdentifier : Identifier where
  first := 'x'
  others := []
  starts := rfl
  continues := nofun

theorem isSymbol_x : IsSymbol "x" := ⟨variableIdentifier, rfl, by decide, by decide, by decide⟩

namespace SpelledBy

variable {ts us : List Token} {cs ds : List Char}

theorem whole (h : SpelledBy ts cs) : Spells ts cs := by
  simpa using h [] [] (by simp) Spells.nil

theorem number (l : Literal) : SpelledBy [.number l] l.text := by
  intro us r hr h
  refine h.token_append (.number l) fun c hc => ?_
  rcases hr c hc with rfl | rfl <;> rfl

theorem name (n : Identifier) : SpelledBy [.name n] n.text := by
  intro us r hr h
  refine h.token_append (.name n) fun c hc => ?_
  rcases hr c hc with rfl | rfl <;> rfl

theorem minus (h : SpelledBy ts cs) : SpelledBy (.minus :: ts) ('-' :: cs) :=
  fun us r hr hrest => (h us r hr hrest).token_append .minus trivial

theorem parenthesis (h : SpelledBy ts cs) :
    SpelledBy (.opening :: (ts ++ [.closing])) ('(' :: (cs ++ [')'])) := by
  intro us r _ hrest
  have hclose : Spells (.closing :: us) (')' :: r) := hrest.token_append .closing trivial
  have hinner := h _ _ (by simp) hclose
  simpa [Token.text] using hinner.token_append .opening trivial

theorem application (n : Identifier) (h : SpelledBy ts cs) :
    SpelledBy (.name n :: .opening :: (ts ++ [.closing])) (n.text ++ '(' :: (cs ++ [')'])) := by
  intro us r hr hrest
  have hargument := h.parenthesis us r hr hrest
  have hname : (Token.name n).endsBefore ('(' :: (cs ++ [')']) ++ r) := by
    rintro c ⟨⟩
    rfl
  simpa [Token.text] using hargument.token_append (.name n) hname

theorem operation {op : Token} (hop : ∀ r, op.endsBefore (' ' :: r)) (hl : SpelledBy ts cs)
    (hr : SpelledBy us ds) :
    SpelledBy (ts ++ op :: us) (cs ++ ' ' :: (op.text ++ ' ' :: ds)) := by
  intro vs r hr' hrest
  have hright := (hr vs r hr' hrest).gap_append isGap_space
  have hop := (hright.token_append op (hop _)).gap_append isGap_space
  simpa using hl _ _ (by simp) hop

end SpelledBy

/-! ### The derivation of a printed formula -/

/-- The text of a formula is a phrase whose tree is the formula that is read back. -/
def PrintsAs (e e' : Formula α) (l : Level) : Prop :=
  ∃ ts, SpelledBy ts e.text.toList ∧ Derives l ts e'

theorem Derives.sum_of_unary {ts : List Token} {e : Formula α} (h : Derives .unary ts e) :
    Derives .sum ts e :=
  .term (.factor h)

theorem Derives.unary_of_primary {ts : List Token} {e : Formula α} (h : Derives .primary ts e) :
    Derives .unary ts e :=
  .operand (.base h)

theorem PrintsAs.parenthesis {e e' : Formula α} {ts : List Token} {cs : List Char}
    (htext : e.text.toList = '(' :: (cs ++ [')'])) (hts : SpelledBy ts cs)
    (h : Derives .sum ts e') : PrintsAs e e' .primary :=
  ⟨_, by rw [htext]; exact hts.parenthesis, .parenthesis h⟩

theorem PrintsAs.unary {e e' : Formula α} (h : PrintsAs e e' .primary) : PrintsAs e e' .unary := by
  obtain ⟨ts, hts, he⟩ := h
  exact ⟨ts, hts, he.unary_of_primary⟩

theorem hasBareSign_of_unsigned {v : α} {l : Literal}
    (htext : (Scalar.text v).toList = l.text) : (Formula.const v).hasBareSign = false := by
  obtain ⟨c, r, hl, hc⟩ := l.text_eq_cons
  have hne : c ≠ '-' := by
    rintro rfl
    exact absurd hc (by decide)
  simp [hasBareSign, htext, hl, hne]

theorem text_const_of_not_lt {v : α} (h : ¬ v < 0) :
    (Formula.const v).text.toList = (Scalar.text v).toList := by
  rw [text, constantText, if_neg h]

theorem text_const_of_lt {v : α} (h : v < 0) :
    (Formula.const v).text.toList = '(' :: ((Scalar.text v).toList ++ [')']) := by
  rw [text, constantText, if_pos h, String.toList_append, String.toList_append]
  rfl

theorem printsAs_const {v : α} (h : ReadsBack v) :
    PrintsAs (.const v) (.const v) .unary ∧
      ((Formula.const v).hasBareSign = false → PrintsAs (.const v) (.const v) .primary) := by
  cases h with
  | unsigned l hl htext hsign =>
    have hprimary : PrintsAs (.const v) (.const v) .primary := by
      refine ⟨[.number l], ?_, hl ▸ .number l⟩
      rw [text_const_of_not_lt hsign, htext]
      exact .number l
    exact ⟨hprimary.unary, fun _ => hprimary⟩
  | negative l hl htext hsign =>
    have hnumber : Derives .unary [.minus, .number l] (.const (-l.value) : Formula α) :=
      .minusConst (Derives.unary_of_primary (.number l))
    have hprimary : PrintsAs (.const v) (.const v) .primary :=
      .parenthesis (text_const_of_lt hsign) (by rw [htext]; exact (SpelledBy.number l).minus)
        (hl ▸ hnumber.sum_of_unary)
    exact ⟨hprimary.unary, fun _ => hprimary⟩
  | minusZero l hzero hl htext hsign =>
    refine ⟨⟨[.minus, .number l], ?_, hl ▸ .minusConst (Derives.unary_of_primary (.number l))⟩, ?_⟩
    · rw [text_const_of_not_lt hsign, htext]
      exact (SpelledBy.number l).minus
    · intro hbare
      simp [hasBareSign, htext, hsign] at hbare

/-- An operation is printed as its operands, with its sign between them, in parentheses. -/
theorem printsAs_operation {e e' l l' r r' : Formula α} (op : Token)
    (htext : e.text.toList = '(' :: ((l.text.toList ++ ' ' :: (op.text ++ ' ' :: r.text.toList)) ++
      [')'])) (hop : ∀ r, op.endsBefore (' ' :: r))
    (hderives : ∀ ts us, Derives .unary ts l' → Derives .unary us r' →
      Derives .sum (ts ++ op :: us) e')
    (hl : PrintsAs l l' .unary) (hr : PrintsAs r r' .unary) : PrintsAs e e' .primary := by
  obtain ⟨ts, hts, hl⟩ := hl
  obtain ⟨us, hus, hr⟩ := hr
  exact .parenthesis htext (hts.operation hop hus) (hderives ts us hl hr)

theorem printsAs_of_primary {e e' : Formula α} (h : PrintsAs e e' .primary) :
    PrintsAs e e' .unary ∧ (e.hasBareSign = false → PrintsAs e e' .primary) :=
  ⟨h.unary, fun _ => h⟩

/-- A number with a bare sign is minus zero. -/
theorem minusZero_of_hasBareSign {e : Formula α} (hbare : e.hasBareSign = true)
    (hc : ∀ v ∈ e.constants, ReadsBack v) :
    ∃ l : Literal, l.value = (0 : α) ∧ SpelledBy [.minus, .number l] e.text.toList := by
  cases e with
  | const v =>
    cases hc v (List.mem_singleton.2 rfl) with
    | unsigned l hl htext hsign =>
      rw [hasBareSign_of_unsigned htext] at hbare
      cases hbare
    | negative l hl htext hsign => simp [hasBareSign, hsign] at hbare
    | minusZero l hzero hl htext hsign =>
      refine ⟨l, hzero, ?_⟩
      rw [text_const_of_not_lt hsign, htext]
      exact (SpelledBy.number l).minus
  | _ => cases hbare

theorem printsAs_pow {l r r' : Formula α} {l' : Formula α}
    (hc : ∀ v ∈ l.constants, ReadsBack v)
    (hl : l.hasBareSign = false → PrintsAs l l' .primary) (hr : PrintsAs r r' .unary) :
    PrintsAs (.pow l r)
      (if l.hasBareSign then .neg (.pow (.const 0) r') else .pow l' r') .primary := by
  have htext : (Formula.pow l r).text.toList =
      '(' :: ((l.text.toList ++ ' ' :: (Token.caret.text ++ ' ' :: r.text.toList)) ++ [')']) := by
    simp [text, Token.text]
  obtain ⟨us, hus, hr⟩ := hr
  split
  · rename_i hbare
    obtain ⟨lit, hzero, hts⟩ := minusZero_of_hasBareSign hbare hc
    refine .parenthesis htext (hts.operation (fun _ => trivial) hus) ?_
    -- the sign is read before the power
    have hpow : Derives .power ([.number lit] ++ .caret :: us) (.pow (.const 0) r') :=
      .pow rfl (hzero ▸ .number lit) hr
    exact Derives.sum_of_unary (.minus rfl (.operand hpow))
  · rename_i hbare
    obtain ⟨ts, hts, hl⟩ := hl (Bool.eq_false_iff.2 hbare)
    exact .parenthesis htext (hts.operation (fun _ => trivial) hus)
      (Derives.sum_of_unary (.operand (.pow rfl hl hr)))

/-- Every formula is printed as a phrase whose tree is the formula that is read back.  The
    phrase is a primary unless it is a number with a bare sign. -/
theorem printsAs_reread (e : Formula α) (hx : ∀ n ∈ e.occurrences, IsSymbol n)
    (hc : ∀ v ∈ e.constants, ReadsBack v) :
    PrintsAs e e.reread .unary ∧ (e.hasBareSign = false → PrintsAs e e.reread .primary) := by
  induction e with
  | var n =>
    obtain ⟨i, rfl, hf, hpi, he⟩ := hx n (List.mem_singleton.2 rfl)
    have htext : (Formula.var i.name : Formula α).text.toList = i.text := by
      rw [text, Identifier.name, String.toList_ofList]
    refine printsAs_of_primary ⟨[.name i], ?_, .symbol hf hpi he⟩
    rw [htext]
    exact .name i
  | const v => exact printsAs_const (hc v (List.mem_singleton.2 rfl))
  | add l r ihl ihr =>
    simp only [occurrences, constants, List.forall_mem_append] at hx hc
    have hl := (ihl hx.1 hc.1).1
    have hr := (ihr hx.2 hc.2).1
    refine printsAs_of_primary (printsAs_operation .plus ?_ (fun _ => trivial) ?_ hl hr)
    · simp [text, Token.text]
    · exact fun ts us hl hr => .add hl.sum_of_unary (.factor hr)
  | sub l r ihl ihr =>
    simp only [occurrences, constants, List.forall_mem_append] at hx hc
    have hl := (ihl hx.1 hc.1).1
    have hr := (ihr hx.2 hc.2).1
    refine printsAs_of_primary (printsAs_operation .minus ?_ (fun _ => trivial) ?_ hl hr)
    · simp [text, Token.text]
    · exact fun ts us hl hr => .sub hl.sum_of_unary (.factor hr)
  | mul l r ihl ihr =>
    simp only [occurrences, constants, List.forall_mem_append] at hx hc
    have hl := (ihl hx.1 hc.1).1
    have hr := (ihr hx.2 hc.2).1
    refine printsAs_of_primary (printsAs_operation .times ?_ ?_ ?_ hl hr)
    · simp [text, Token.text]
    · simp [Token.endsBefore]
    · exact fun ts us hl hr => .term (.mul (.factor hl) hr)
  | div l r ihl ihr =>
    simp only [occurrences, constants, List.forall_mem_append] at hx hc
    have hl := (ihl hx.1 hc.1).1
    have hr := (ihr hx.2 hc.2).1
    refine printsAs_of_primary (printsAs_operation .slash ?_ (fun _ => trivial) ?_ hl hr)
    · simp [text, Token.text]
    · exact fun ts us hl hr => .term (.div (.factor hl) hr)
  | pow l r ihl ihr =>
    simp only [occurrences, constants, List.forall_mem_append] at hx hc
    exact printsAs_of_primary (printsAs_pow hc.1 (ihl hx.1 hc.1).2 (ihr hx.2 hc.2).1)
  | neg u ih =>
    obtain ⟨ts, hts, hu⟩ := (ih hx hc).1
    refine printsAs_of_primary (.parenthesis ?_ hts.minus hu.negated.sum_of_unary)
    simp [text]
  | apply f u ih =>
    obtain ⟨ts, hts, hu⟩ := (ih hx hc).1
    refine printsAs_of_primary ⟨_, ?_, .application (ofName_functionName f) hu.sum_of_unary⟩
    have htext : (Formula.apply f u).text.toList =
        (functionName f).text ++ '(' :: (u.text.toList ++ [')']) := by
      simp [text, text_functionName]
    rw [htext]
    exact hts.application (functionName f)

/-- The printed form of a formula is read, and gives the tree `Formula.reread`. -/
theorem read_text (e : Formula α) (hx : ∀ v ∈ e.occurrences, v = "x")
    (hc : ∀ v ∈ e.constants, ReadsBack v) : read e.text = .ok e.reread := by
  obtain ⟨ts, hts, hderives⟩ := (printsAs_reread e (fun v hv => hx v hv ▸ isSymbol_x) hc).1
  rw [← String.ofList_toList (s := e.text)]
  exact (read_spelled_iff hts.whole).2
    ⟨hderives.sum_of_unary, by rwa [occurrences_reread]⟩

/-- The printed form of a formula in any variables is read only if the variable is `x`. -/
theorem exists_read_text_iff (e : Formula α) (hn : ∀ n ∈ e.occurrences, IsSymbol n)
    (hc : ∀ v ∈ e.constants, ReadsBack v) :
    (∃ e' : Formula α, read e.text = .ok e') ↔ ∀ n ∈ e.occurrences, n = "x" := by
  obtain ⟨ts, hts, hderives⟩ := (printsAs_reread e hn hc).1
  rw [← String.ofList_toList (s := e.text),
    exists_read_spelled_iff hts.whole hderives.sum_of_unary, occurrences_reread]

/-! ### Formulas without a bare sign -/

/-- The formula with every negation of a number carried out, from the leaves on. -/
def folded : Formula α → Formula α
  | .var n => .var n
  | .const v => .const v
  | .add l r => .add l.folded r.folded
  | .sub l r => .sub l.folded r.folded
  | .mul l r => .mul l.folded r.folded
  | .div l r => .div l.folded r.folded
  | .pow l r => .pow l.folded r.folded
  | .neg u =>
    match u.folded with
    | .const c => .const (-c)
    | u' => .neg u'
  | .apply f u => .apply f u.folded

theorem folded_neg (u : Formula α) : (Formula.neg u).folded = Phrase.negated u.folded := by
  rw [folded]
  cases u.folded <;> rfl

theorem hasBareSign_eq_false {e : Formula α}
    (hc : ∀ v ∈ e.constants, (Formula.const v).hasBareSign = false) : e.hasBareSign = false := by
  cases e with
  | const v => exact hc v (List.mem_singleton.2 rfl)
  | _ => rfl

/-- Without bare signs, a formula is read back with its negations of numbers carried out. -/
theorem reread_eq_folded (e : Formula α)
    (hc : ∀ v ∈ e.constants, (Formula.const v).hasBareSign = false) : e.reread = e.folded := by
  induction e with
  | var n => rfl
  | const v => rfl
  | add l r ihl ihr =>
    simp only [constants, List.forall_mem_append] at hc
    rw [reread, folded, ihl hc.1, ihr hc.2]
  | sub l r ihl ihr =>
    simp only [constants, List.forall_mem_append] at hc
    rw [reread, folded, ihl hc.1, ihr hc.2]
  | mul l r ihl ihr =>
    simp only [constants, List.forall_mem_append] at hc
    rw [reread, folded, ihl hc.1, ihr hc.2]
  | div l r ihl ihr =>
    simp only [constants, List.forall_mem_append] at hc
    rw [reread, folded, ihl hc.1, ihr hc.2]
  | pow l r ihl ihr =>
    simp only [constants, List.forall_mem_append] at hc
    have hbare : ¬ l.hasBareSign = true := by
      rw [hasBareSign_eq_false hc.1]
      exact Bool.false_ne_true
    rw [reread, folded, if_neg hbare, ihl hc.1, ihr hc.2]
  | neg u ih => rw [reread, folded_neg, ih hc]
  | apply f u ih => rw [reread, folded, ih hc]

end Generic

/-! ### Binary floating point -/

theorem unsigned_literal (l : Literal) :
    Binary64.unsigned? l.text = some (l.value : Float) := by
  have hnumeral : Decimal.numeral? l.text = some (l.numeral, []) := by
    simpa using numeral_append l (r := []) (by simp)
  rw [Binary64.unsigned?, hnumeral]
  rfl

theorem ofText_literal {text : String} {l : Literal} (h : text.toList = l.text) :
    Binary64.ofText? text = some (l.value : Float) := by
  rw [← unsigned_literal, ← h, Binary64.ofText?]
  obtain ⟨c, r, hl, hc⟩ := l.text_eq_cons
  rw [h, hl]
  split
  · rename_i heq
    cases heq
    exact absurd hc (by decide)
  · rename_i heq
    cases heq
    exact absurd hc (by decide)
  · rfl

theorem ofText_minus_literal {text : String} {l : Literal} (h : text.toList = '-' :: l.text) :
    Binary64.ofText? text = some (-(l.value : Float)) := by
  rw [Binary64.ofText?, h]
  simp only [unsigned_literal, Option.map_some]

/-- The literal `0` stands for zero. -/
theorem value_of_text_zero {l : Literal} (h : l.text = ['0']) : (l.value : Float) = 0 := by
  have hvalue := unsigned_literal l
  have hzero : Binary64.unsigned? ['0'] = some 0 := by decide +kernel
  rw [h, hzero] at hvalue
  exact (Option.some.inj hvalue).symm

/-- A finite number is printed as its sign and a literal for its magnitude. -/
theorem exists_literal_text {v : Float} (hfinite : v.isFinite = true) :
    ∃ l : Literal,
      (Scalar.text v).toList = (if Binary64.isNegative v then ['-'] else []) ++ l.text ∧
      (if Binary64.isNegative v then -l.value else l.value) = v := by
  obtain ⟨l, hvalue, hl⟩ := exists_literal_positional (Binary64.shortestDecimal v)
  refine ⟨l, ?_, Binary64.ofDecimal_shortestDecimal hfinite hvalue⟩
  rw [hl]
  exact Binary64.toList_textIn hfinite Decimal.positional

/-- The text of a finite number is read as the number. -/
theorem ofText_text {v : Float} (hfinite : v.isFinite = true) :
    Binary64.ofText? (Scalar.text v) = some v := by
  obtain ⟨l, htext, hvalue⟩ := exists_literal_text hfinite
  cases hneg : Binary64.isNegative v with
  | false =>
    rw [hneg] at htext hvalue
    rw [ofText_literal htext]
    exact congrArg some hvalue
  | true =>
    rw [hneg] at htext hvalue
    rw [ofText_minus_literal htext]
    exact congrArg some hvalue

/-- A finite number is read back inside a formula. -/
theorem readsBack_of_isFinite (lib : Binary64.Library) {v : Float} (hfinite : v.isFinite = true) :
    @ReadsBack Float (Binary64.withLibrary lib) v := by
  let _ := Binary64.withLibrary lib
  obtain ⟨l, htext, hvalue⟩ := exists_literal_text hfinite
  have hsign := Binary64.isNegative_iff hfinite
  cases hneg : Binary64.isNegative v with
  | false =>
    rw [hneg] at htext hvalue hsign
    have hnot : ¬ v < 0 := fun hlt => Bool.false_ne_true (hsign.2 (.inl hlt))
    exact .unsigned l hvalue htext hnot
  | true =>
    rw [hneg] at htext hvalue hsign
    rcases hsign.1 rfl with hlt | rfl
    · exact .negative l hvalue htext hlt
    · have hzero : l.text = ['0'] := by
        have hminus : (Binary64.textIn Decimal.positional (-0)).toList = ['-', '0'] := by
          decide +kernel
        exact (List.cons.inj (htext.symm.trans hminus)).2
      have hsign : ¬ (-0 : Float) < 0 := by decide +kernel
      exact .minusZero l (value_of_text_zero hzero) hvalue htext hsign

theorem hasBareSign_const_iff (lib : Binary64.Library) {v : Float} (hfinite : v.isFinite = true) :
    @hasBareSign Float (Binary64.withLibrary lib) (.const v) = true ↔ v = -0 := by
  let _ := Binary64.withLibrary lib
  have htext : (Scalar.text v).toList.head? = some '-' ↔ Binary64.isNegative v = true := by
    obtain ⟨l, hlist, -⟩ := exists_literal_text hfinite
    obtain ⟨c, r, hcons, hc⟩ := l.text_eq_cons
    have hne : c ≠ '-' := by
      rintro rfl
      exact absurd hc (by decide)
    rw [show (Scalar.text v).toList = _ from hlist, hcons]
    cases Binary64.isNegative v <;> simp [hne]
  rw [hasBareSign, Bool.and_eq_true, beq_iff_eq, htext, Binary64.isNegative_iff hfinite]
  constructor
  · rintro ⟨hsign, hlt | hzero⟩
    · have hlt' : decide (v < 0) = true := decide_eq_true hlt
      rw [hlt'] at hsign
      cases hsign
    · exact hzero
  · rintro rfl
    have hsign : decide ((-0 : Float) < 0) = false := by decide +kernel
    exact ⟨by rw [hsign]; rfl, .inr rfl⟩

/-- Every formula in `x` whose numbers are finite and not minus zero is read back from its
    printed form, with its negations of numbers carried out. -/
theorem read_text_eq_folded (e : Formula Float) (hx : ∀ v ∈ e.occurrences, v = "x")
    (hfinite : ∀ v ∈ e.constants, v.isFinite = true ∧ v ≠ -0) :
    read e.text = .ok e.folded := by
  have hback : ∀ v ∈ e.constants, ReadsBack v := fun v hv =>
    readsBack_of_isFinite Binary64.platform (hfinite v hv).1
  have hbare : ∀ v ∈ e.constants, (Formula.const v).hasBareSign = false := by
    intro v hv
    rw [Bool.eq_false_iff, Ne]
    exact fun hbare => (hfinite v hv).2
      ((hasBareSign_const_iff Binary64.platform (hfinite v hv).1).1 hbare)
  rw [read_text e hx hback, reread_eq_folded e hbare]

/-- A negative base keeps its parentheses, and a double negation of a number disappears. -/
theorem read_text_of_double_negation :
    let e : Formula Float := .mul (.pow (.const (-3)) (.var "x")) (.neg (.neg (.const 2.5)))
    e.text = "(((-3) ^ x) * (-(-2.5)))" ∧
      read e.text = .ok (.mul (.pow (.const (-3)) (.var "x")) (.const 2.5)) := by
  intro e
  have hfolded : e.folded = .mul (.pow (.const (-3)) (.var "x")) (.const 2.5) := by decide +kernel
  refine ⟨by decide +kernel, ?_⟩
  rw [← hfolded]
  exact read_text_eq_folded e (by decide +kernel) (by decide +kernel)

end NumericMethods.Formula
