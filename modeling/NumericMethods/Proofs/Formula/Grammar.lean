/-
  NumericMethods/Proofs/Formula/Grammar.lean
  ==========================================
  **The grammar of formulas, as a relation between tokens and trees.**

  `Derives l ts e` says that the tokens `ts` form a phrase of the level `l` and that `e` is
  the tree of that phrase.  The rules are those of the grammar

      sum      := product | sum ('+' | '-') product
      product  := unary | product ('*' | '/') unary | product power
      unary    := '-' unary | '+' unary | power
      power    := primary | primary ('^' | '**') unary
      primary  := number | '(' sum ')' | function '(' sum ')' | identifier

  where the recursion to the left is what makes sums and products associate to the left,
  and a factor without a sign of multiplication starts with a name or a parenthesis.  The
  relation knows nothing of texts, of the order in which alternatives are tried or of
  giving up.

  Writing the sign of a multiplication that was left out changes neither whether tokens
  form a phrase nor the tree (`Derives.explicit`).
-/
import NumericMethods.Proofs.Formula.Token
import Mathlib.Logic.Relation

namespace NumericMethods.Formula

/-- The levels of the grammar, from the loosest to the tightest binding. -/
inductive Level where
  | sum
  | product
  | unary
  | power
  | primary
deriving DecidableEq, Repr

variable {α : Type} [Scalar α]

/-- The number that a literal stands for. -/
def Literal.value (l : Literal) : α :=
  Scalar.ofDecimal l.numeral.toDecimal.digits l.numeral.toDecimal.exponent

/-- The tokens form a phrase of the level, and this is its tree. -/
inductive Derives : Level → List Token → Formula α → Prop
  | term {ts : List Token} {e : Formula α} (h : Derives .product ts e) : Derives .sum ts e
  | add {ts us : List Token} {l r : Formula α} (hl : Derives .sum ts l)
      (hr : Derives .product us r) : Derives .sum (ts ++ .plus :: us) (.add l r)
  | sub {ts us : List Token} {l r : Formula α} (hl : Derives .sum ts l)
      (hr : Derives .product us r) : Derives .sum (ts ++ .minus :: us) (.sub l r)
  | factor {ts : List Token} {e : Formula α} (h : Derives .unary ts e) : Derives .product ts e
  | mul {ts us : List Token} {l r : Formula α} (hl : Derives .product ts l)
      (hr : Derives .unary us r) : Derives .product (ts ++ .times :: us) (.mul l r)
  | div {ts us : List Token} {l r : Formula α} (hl : Derives .product ts l)
      (hr : Derives .unary us r) : Derives .product (ts ++ .slash :: us) (.div l r)
  | implicit {ts us : List Token} {t : Token} {l r : Formula α} (ht : t.startsFactor = true)
      (hl : Derives .product ts l) (hr : Derives .power (t :: us) r) :
      Derives .product (ts ++ t :: us) (.mul l r)
  | minusConst {ts : List Token} {v : α} (h : Derives .unary ts (.const v)) :
      Derives .unary (.minus :: ts) (.const (-v))
  | minus {ts : List Token} {e : Formula α} (hc : e.constant? = none)
      (h : Derives .unary ts e) : Derives .unary (.minus :: ts) (.neg e)
  | plus {ts : List Token} {e : Formula α} (h : Derives .unary ts e) :
      Derives .unary (.plus :: ts) e
  | operand {ts : List Token} {e : Formula α} (h : Derives .power ts e) : Derives .unary ts e
  | base {ts : List Token} {e : Formula α} (h : Derives .primary ts e) : Derives .power ts e
  | pow {ts us : List Token} {s : Token} {b x : Formula α} (hs : s.isPowerSign = true)
      (hb : Derives .primary ts b) (hx : Derives .unary us x) :
      Derives .power (ts ++ s :: us) (.pow b x)
  | number (l : Literal) : Derives .primary [.number l] (.const l.value)
  | parenthesis {ts : List Token} {e : Formula α} (h : Derives .sum ts e) :
      Derives .primary (.opening :: (ts ++ [.closing])) e
  | application {n : Identifier} {f : Elementary} {ts : List Token} {e : Formula α}
      (hf : Elementary.ofName? n.name = some f) (h : Derives .sum ts e) :
      Derives .primary (.name n :: .opening :: (ts ++ [.closing])) (.apply f e)
  | pi {n : Identifier} (hn : n.name = "pi") : Derives .primary [.name n] (.const Scalar.pi)
  | euler {n : Identifier} (hn : n.name = "e") : Derives .primary [.name n] (.const Scalar.euler)
  | symbol {n : Identifier} (hf : Elementary.ofName? n.name = none) (hpi : n.name ≠ "pi")
      (he : n.name ≠ "e") : Derives .primary [.name n] (.var n.name)

theorem Derives.ne_nil {l : Level} {ts : List Token} {e : Formula α} (h : Derives l ts e) :
    ts ≠ [] := by
  induction h <;> simp_all

/-! ### The variables of a phrase -/

/-- The variable that a token names, if it is a name that stands for a variable. -/
def Token.variableName? : Token → Option String
  | .name n =>
    if (Elementary.ofName? n.name).isSome ∨ n.name = "pi" ∨ n.name = "e" then none
    else some n.name
  | _ => none

/-- The names that a formula in `x` may use. -/
def Identifier.IsKnown (n : Identifier) : Prop :=
  n.name = "x" ∨ n.name = "pi" ∨ n.name = "e" ∨ (Elementary.ofName? n.name).isSome = true

theorem Token.isPowerSign_spec {s : Token} (h : s.isPowerSign = true) :
    s.startsFactor = false ∧ s.endsOperand = false ∧ s.variableName? = none := by
  cases s <;> first | exact ⟨rfl, rfl, rfl⟩ | cases h

/-- The variables of the tree are those that the tokens name. -/
theorem Derives.occurrences_eq {l : Level} {ts : List Token} {e : Formula α}
    (h : Derives l ts e) : e.occurrences = ts.filterMap Token.variableName? := by
  induction h with
  | term _ ih => exact ih
  | add _ _ ihl ihr => simp [occurrences, ihl, ihr, List.filterMap_cons, Token.variableName?]
  | sub _ _ ihl ihr => simp [occurrences, ihl, ihr, List.filterMap_cons, Token.variableName?]
  | factor _ ih => exact ih
  | mul _ _ ihl ihr => simp [occurrences, ihl, ihr, List.filterMap_cons, Token.variableName?]
  | div _ _ ihl ihr => simp [occurrences, ihl, ihr, List.filterMap_cons, Token.variableName?]
  | implicit _ _ _ ihl ihr => simp only [occurrences, ihl, ihr, List.filterMap_append]
  | minusConst _ ih => simpa [occurrences, List.filterMap_cons, Token.variableName?] using ih
  | minus _ _ ih => simpa [occurrences, List.filterMap_cons, Token.variableName?] using ih
  | plus _ ih => simpa [List.filterMap_cons, Token.variableName?] using ih
  | operand _ ih => exact ih
  | base _ ih => exact ih
  | pow hs _ _ ihb ihx =>
    simp [occurrences, ihb, ihx, (Token.isPowerSign_spec hs).2.2]
  | number l => rfl
  | parenthesis _ ih => simp [ih, List.filterMap_cons, Token.variableName?]
  | application hf _ ih => simp [occurrences, ih, List.filterMap_cons, Token.variableName?, hf]
  | pi hn => simp [occurrences, Token.variableName?, hn]
  | euler hn => simp [occurrences, Token.variableName?, hn]
  | symbol hf hpi he => simp [occurrences, Token.variableName?, hf, hpi, he]

theorem isKnown_iff {ts : List Token} :
    (∀ n, Token.name n ∈ ts → n.IsKnown) ↔ ∀ v ∈ ts.filterMap Token.variableName?, v = "x" := by
  simp only [List.mem_filterMap]
  constructor
  · rintro h v ⟨t, ht, hv⟩
    cases t with
    | name n =>
      simp only [Token.variableName?] at hv
      split at hv
      · cases hv
      · rename_i hnot
        simp only [not_or] at hnot
        cases hv
        rcases h n ht with hx | hpi | he | hf
        · exact hx
        · exact absurd hpi hnot.2.1
        · exact absurd he hnot.2.2
        · exact absurd hf hnot.1
    | _ => cases hv
  · intro h n hn
    by_cases hnot : (Elementary.ofName? n.name).isSome ∨ n.name = "pi" ∨ n.name = "e"
    · exact .inr (by tauto)
    · exact .inl (h n.name ⟨.name n, hn, by simp [Token.variableName?, hnot]⟩)

/-! ### Writing the sign of an implicit multiplication -/

/-- The second list is the first with a sign of multiplication written between the end of
    an operand and the start of a factor. -/
inductive MadeExplicit : List Token → List Token → Prop
  | here {s t : Token} {ts : List Token} (hs : s.endsOperand = true)
      (ht : t.startsFactor = true) : MadeExplicit (s :: t :: ts) (s :: .times :: t :: ts)
  | there (s : Token) {ts us : List Token} (h : MadeExplicit ts us) :
      MadeExplicit (s :: ts) (s :: us)

namespace MadeExplicit

variable {ts us vs : List Token} {op : Token}

theorem not_single {t : Token} : ¬ MadeExplicit [t] vs := by
  intro h
  cases h with
  | there _ h => cases h

/-- The sign stands in the first part, in the second part or between the two. -/
theorem append_cases (h : MadeExplicit (ts ++ us) vs) :
    (∃ ts', MadeExplicit ts ts' ∧ vs = ts' ++ us) ∨
      (∃ us', MadeExplicit us us' ∧ vs = ts ++ us') ∨
      ∃ t us', us = t :: us' ∧ t.startsFactor = true ∧ vs = ts ++ .times :: us := by
  induction ts generalizing vs with
  | nil => exact .inr (.inl ⟨vs, h, rfl⟩)
  | cons s ts ih =>
    cases ts with
    | nil =>
      cases h with
      | here hs ht => exact .inr (.inr ⟨_, _, rfl, ht, rfl⟩)
      | there _ h => exact .inr (.inl ⟨_, h, rfl⟩)
    | cons t ts =>
      cases h with
      | here hs ht => exact .inl ⟨_, .here hs ht, rfl⟩
      | there _ h =>
        rcases ih h with ⟨ts', hts, rfl⟩ | ⟨us', hus, rfl⟩ | ⟨c, us', hus, hc, rfl⟩
        · exact .inl ⟨_, .there s hts, rfl⟩
        · exact .inr (.inl ⟨us', hus, rfl⟩)
        · exact .inr (.inr ⟨c, us', hus, hc, rfl⟩)

theorem cons_cases (he : op.endsOperand = false) (h : MadeExplicit (op :: us) vs) :
    ∃ us', MadeExplicit us us' ∧ vs = op :: us' := by
  cases h with
  | here hs ht => rw [he] at hs; cases hs
  | there _ h => exact ⟨_, h, rfl⟩

/-- The sign stands on one side of a token that is no place for it. -/
theorem around (hs : op.startsFactor = false) (he : op.endsOperand = false)
    (h : MadeExplicit (ts ++ op :: us) vs) :
    (∃ ts', MadeExplicit ts ts' ∧ vs = ts' ++ op :: us) ∨
      ∃ us', MadeExplicit us us' ∧ vs = ts ++ op :: us' := by
  rcases append_cases h with hts | ⟨us', hus, rfl⟩ | ⟨t, us', heq, ht, -⟩
  · exact .inl hts
  · obtain ⟨us'', hus', rfl⟩ := cons_cases he hus
    exact .inr ⟨us'', hus', rfl⟩
  · cases heq
    rw [hs] at ht
    cases ht

theorem before_closing (h : MadeExplicit (ts ++ [.closing]) vs) :
    ∃ ts', MadeExplicit ts ts' ∧ vs = ts' ++ [.closing] := by
  rcases append_cases h with hts | ⟨us', hus, rfl⟩ | ⟨t, us', heq, ht, -⟩
  · exact hts
  · exact absurd hus not_single
  · cases heq
    cases ht

end MadeExplicit

/-- An implicit product has the tree of the product with its sign written. -/
theorem Derives.explicit {l : Level} {ts us : List Token} {e : Formula α}
    (h : Derives l ts e) (hus : MadeExplicit ts us) : Derives l us e := by
  induction h generalizing us with
  | term _ ih => exact .term (ih hus)
  | add hl hr ihl ihr =>
    rcases hus.around rfl rfl with ⟨_, hts, rfl⟩ | ⟨_, hts, rfl⟩
    · exact .add (ihl hts) hr
    · exact .add hl (ihr hts)
  | sub hl hr ihl ihr =>
    rcases hus.around rfl rfl with ⟨_, hts, rfl⟩ | ⟨_, hts, rfl⟩
    · exact .sub (ihl hts) hr
    · exact .sub hl (ihr hts)
  | factor _ ih => exact .factor (ih hus)
  | mul hl hr ihl ihr =>
    rcases hus.around rfl rfl with ⟨_, hts, rfl⟩ | ⟨_, hts, rfl⟩
    · exact .mul (ihl hts) hr
    · exact .mul hl (ihr hts)
  | div hl hr ihl ihr =>
    rcases hus.around rfl rfl with ⟨_, hts, rfl⟩ | ⟨_, hts, rfl⟩
    · exact .div (ihl hts) hr
    · exact .div hl (ihr hts)
  | implicit ht hl hr ihl ihr =>
    rcases hus.append_cases with ⟨_, hts, rfl⟩ | ⟨_, hts, rfl⟩ | ⟨_, _, -, -, rfl⟩
    · exact .implicit ht (ihl hts) hr
    · have hpow := ihr hts
      cases hts with
      | here _ _ => exact .implicit ht hl hpow
      | there _ _ => exact .implicit ht hl hpow
    · exact .mul hl (.operand hr)
  | minusConst _ ih =>
    obtain ⟨_, hts, rfl⟩ := hus.cons_cases rfl
    exact .minusConst (ih hts)
  | minus hc _ ih =>
    obtain ⟨_, hts, rfl⟩ := hus.cons_cases rfl
    exact .minus hc (ih hts)
  | plus _ ih =>
    obtain ⟨_, hts, rfl⟩ := hus.cons_cases rfl
    exact .plus (ih hts)
  | operand _ ih => exact .operand (ih hus)
  | base _ ih => exact .base (ih hus)
  | pow hs hb hx ihb ihx =>
    obtain ⟨hstart, hend, -⟩ := Token.isPowerSign_spec hs
    rcases hus.around hstart hend with ⟨_, hts, rfl⟩ | ⟨_, hts, rfl⟩
    · exact .pow hs (ihb hts) hx
    · exact .pow hs hb (ihx hts)
  | number l => exact absurd hus MadeExplicit.not_single
  | parenthesis _ ih =>
    obtain ⟨_, hinner, rfl⟩ := hus.cons_cases rfl
    obtain ⟨_, hts, rfl⟩ := hinner.before_closing
    exact .parenthesis (ih hts)
  | application hf _ ih =>
    -- the name of a function is no operand, so no sign is written after it
    obtain ⟨_, hname, rfl⟩ := hus.cons_cases (by simp [Token.endsOperand, hf])
    obtain ⟨_, hinner, rfl⟩ := hname.cons_cases rfl
    obtain ⟨_, hts, rfl⟩ := hinner.before_closing
    exact .application hf (ih hts)
  | pi _ => exact absurd hus MadeExplicit.not_single
  | euler _ => exact absurd hus MadeExplicit.not_single
  | symbol _ _ _ => exact absurd hus MadeExplicit.not_single

/-- The same for any number of signs. -/
theorem Derives.explicit_all {l : Level} {ts us : List Token} {e : Formula α}
    (h : Derives l ts e) (hus : Relation.ReflTransGen MadeExplicit ts us) : Derives l us e := by
  induction hus with
  | refl => exact h
  | tail _ hlast ih => exact ih.explicit hlast

end NumericMethods.Formula
