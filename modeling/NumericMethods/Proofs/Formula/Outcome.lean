/-
  NumericMethods/Proofs/Formula/Outcome.lean
  ==========================================
  **What each reader of a phrase does: its equation, and the cases of its text.**

  A `Reading` carries the proof that its rest is shorter, so that the readings of two texts
  have different types.  Its outcome is the reading without that proof.  The readers of all
  levels are collected in `Level.read`, and what a reader does after its first phrase in
  `Level.proceed`.  Each reader has one equation through outcomes alone (`read_power`,
  `read_unary_eq` and so on), the cases of its text follow from that equation, and nothing
  else opens the definitions of the readers.
-/
import NumericMethods.Proofs.Formula.Grammar

namespace NumericMethods.Formula

open Text

/-- A value and the rest of the text, or the place where reading stopped. -/
inductive Outcome (τ : Type) where
  | read (value : τ) (rest : List Char)
  | refused (rest : List Char)
  | broken (rest : List Char)

namespace Outcome

variable {τ : Type}

/-- Goes on after a phrase. -/
def andThen (o : Outcome τ) (next : τ → List Char → Outcome τ) : Outcome τ :=
  match o with
  | read v r => next v r
  | refused r => refused r
  | broken r => broken r

/-- Goes on after a phrase; if it is refused, what was read before stands. -/
def orStop (o : Outcome τ) (value : τ) (rest : List Char)
    (next : τ → List Char → Outcome τ) : Outcome τ :=
  match o with
  | read v r => next v r
  | refused _ => read value rest
  | broken r => broken r

/-- The value changed; a refusal is one of the whole text `cs`. -/
def within (o : Outcome τ) (cs : List Char) (f : τ → τ) : Outcome τ :=
  match o with
  | read v r => read (f v) r
  | refused _ => refused cs
  | broken r => broken r

/-- Reads the closing parenthesis; without it the text `cs` is refused. -/
def closed (o : Outcome τ) (cs : List Char) : Outcome τ :=
  match o with
  | read v r =>
    match dropGap r with
    | ')' :: r' => read v r'
    | _ => refused cs
  | refused _ => refused cs
  | broken r => broken r

/-- Reads the closing parenthesis of an argument; without it the whole text is broken. -/
def closedArgument (o : Outcome τ) (f : τ → τ) : Outcome τ :=
  match o with
  | read v r =>
    match dropGap r with
    | ')' :: r' => read (f v) r'
    | stop => broken stop
  | refused stop => broken stop
  | broken stop => broken stop

end Outcome

/-- A reading without the proof that its rest is shorter. -/
def Phrase.Reading.outcome {τ : Type} {bound : Nat} : Phrase.Reading τ bound → Outcome τ
  | .read v r _ => .read v r
  | .refused r => .refused r
  | .broken r => .broken r

@[simp] theorem Phrase.Reading.outcome_read {τ : Type} {bound : Nat} (v : τ) (r : List Char)
    (h : r.length < bound) : (Phrase.Reading.read v r h).outcome = .read v r :=
  rfl

theorem Phrase.Reading.length_lt {τ : Type} {bound : Nat} {o : Phrase.Reading τ bound} {v : τ}
    {r : List Char} (h : o.outcome = .read v r) : r.length < bound := by
  cases o with
  | read v' r' hlt => cases h; exact hlt
  | refused r' => cases h
  | broken r' => cases h

variable {α : Type} [Scalar α]

namespace Level

/-- The reader of a level. -/
def read (l : Level) (cs : List Char) : Outcome (Formula α) :=
  match l with
  | sum => (Phrase.sum cs).outcome
  | product => (Phrase.product cs).outcome
  | unary => (Phrase.unary cs).outcome
  | power => (Phrase.power cs).outcome
  | primary => (Phrase.primary cs).outcome

/-- What the reader of a level does after its first phrase: sums and products take further
    ones. -/
def proceed (l : Level) (acc : Formula α) (cs : List Char) : Outcome (Formula α) :=
  match l with
  | sum => (Phrase.sumTail acc cs).outcome
  | product => (Phrase.productTail acc cs).outcome
  | _ => .read acc cs

theorem length_lt_of_read {l : Level} {cs r : List Char} {e : Formula α}
    (h : l.read cs = .read e r) : r.length < cs.length := by
  cases l <;> exact Phrase.Reading.length_lt h

end Level

/-- Reads the parenthesis with the argument of a function. -/
def readArgument (f : Elementary) (cs : List Char) : Outcome (Formula α) :=
  match dropGap cs with
  | '(' :: r => (Level.sum.read r).closedArgument (.apply f)
  | stop => .broken stop

section Equations

variable {acc : Formula α} {cs r : List Char}

/-! ### Sums -/

theorem read_sum :
    Level.sum.read cs =
      (Level.product.read cs).andThen fun e r => Level.sum.proceed (α := α) e r := by
  simp only [Level.read, Level.proceed]
  rw [Phrase.sum]
  cases (Phrase.product cs : Phrase.Reading (Formula α) _) with
  | read e r h =>
    simp only [Phrase.Reading.outcome, Outcome.andThen]
    cases Phrase.sumTail e r <;> rfl
  | refused r => rfl
  | broken r => rfl

theorem proceed_sum_eq :
    Level.sum.proceed acc cs =
      match dropGap cs with
      | '+' :: r =>
        (Level.product.read r).orStop acc cs fun e r' => Level.sum.proceed (.add acc e) r'
      | '-' :: r =>
        (Level.product.read r).orStop acc cs fun e r' => Level.sum.proceed (.sub acc e) r'
      | _ => .read acc cs := by
  simp only [Level.read, Level.proceed]
  rw [Phrase.sumTail]
  split
  · rename_i r hcs
    simp only [hcs]
    cases (Phrase.product r : Phrase.Reading (Formula α) _) with
    | read e r' h =>
      simp only [Phrase.Reading.outcome, Outcome.orStop]
      cases Phrase.sumTail (.add acc e) r' <;> rfl
    | refused r' => rfl
    | broken r' => rfl
  · rename_i r hcs
    simp only [hcs]
    cases (Phrase.product r : Phrase.Reading (Formula α) _) with
    | read e r' h =>
      simp only [Phrase.Reading.outcome, Outcome.orStop]
      cases Phrase.sumTail (.sub acc e) r' <;> rfl
    | refused r' => rfl
    | broken r' => rfl
  · rename_i hplus hminus
    split
    · rename_i hcs
      exact absurd hcs (hplus _)
    · rename_i hcs
      exact absurd hcs (hminus _)
    · rfl

theorem proceed_sum_plus (h : dropGap cs = '+' :: r) :
    Level.sum.proceed acc cs =
      (Level.product.read r).orStop acc cs fun e r' => Level.sum.proceed (.add acc e) r' := by
  rw [proceed_sum_eq, h]
  rfl

theorem proceed_sum_minus (h : dropGap cs = '-' :: r) :
    Level.sum.proceed acc cs =
      (Level.product.read r).orStop acc cs fun e r' => Level.sum.proceed (.sub acc e) r' := by
  rw [proceed_sum_eq, h]
  rfl

theorem proceed_sum_stop (h : ∀ c ∈ (dropGap cs).head?, c ≠ '+' ∧ c ≠ '-') :
    Level.sum.proceed acc cs = .read acc cs := by
  rw [proceed_sum_eq]
  split
  · simp_all
  · simp_all
  · rfl

/-! ### Products -/

theorem read_product :
    Level.product.read cs =
      (Level.unary.read cs).andThen fun e r => Level.product.proceed (α := α) e r := by
  simp only [Level.read, Level.proceed]
  rw [Phrase.product]
  cases (Phrase.unary cs : Phrase.Reading (Formula α) _) with
  | read e r h =>
    simp only [Phrase.Reading.outcome, Outcome.andThen]
    cases Phrase.productTail e r <;> rfl
  | refused r => rfl
  | broken r => rfl

theorem proceed_product_eq :
    Level.product.proceed acc cs =
      match dropGap cs with
      | '*' :: '*' :: _ => .read acc cs
      | '*' :: r =>
        (Level.unary.read r).orStop acc cs fun e r' => Level.product.proceed (.mul acc e) r'
      | '/' :: r =>
        (Level.unary.read r).orStop acc cs fun e r' => Level.product.proceed (.div acc e) r'
      | c :: r =>
        if Phrase.startsFactor c then
          (Level.power.read (c :: r)).orStop acc cs fun e r' =>
            Level.product.proceed (.mul acc e) r'
        else .read acc cs
      | [] => .read acc cs := by
  simp only [Level.read, Level.proceed]
  rw [Phrase.productTail]
  split
  · rename_i hcs
    simp only [hcs, Phrase.Reading.outcome_read]
  · rename_i r hstar hcs
    simp only [hcs]
    cases (Phrase.unary r : Phrase.Reading (Formula α) _) with
    | read e r' h =>
      simp only [Phrase.Reading.outcome, Outcome.orStop]
      cases Phrase.productTail (.mul acc e) r' <;> rfl
    | refused r' => rfl
    | broken r' => rfl
  · rename_i r hcs
    simp only [hcs]
    cases (Phrase.unary r : Phrase.Reading (Formula α) _) with
    | read e r' h =>
      simp only [Phrase.Reading.outcome, Outcome.orStop]
      cases Phrase.productTail (.div acc e) r' <;> rfl
    | refused r' => rfl
    | broken r' => rfl
  · rename_i c r _ _ _ hcs
    simp only [hcs]
    split
    · cases (Phrase.power (c :: r) : Phrase.Reading (Formula α) _) with
      | read e r' h =>
        simp only [Phrase.Reading.outcome, Outcome.orStop]
        cases Phrase.productTail (.mul acc e) r' <;> rfl
      | refused r' => rfl
      | broken r' => rfl
    · rfl
  · rename_i hcs
    simp only [hcs, Phrase.Reading.outcome_read]

theorem proceed_product_times (h : dropGap cs = '*' :: r) (hr : r.head? ≠ some '*') :
    Level.product.proceed acc cs =
      (Level.unary.read r).orStop acc cs fun e r' => Level.product.proceed (.mul acc e) r' := by
  rw [proceed_product_eq, h]
  split
  · rename_i hcs
    cases hcs
    exact absurd rfl hr
  · rename_i hcs
    cases hcs
    rfl
  · simp_all
  · rename_i hstar _ hcs
    cases hcs
    exact absurd rfl hstar
  · simp_all

theorem proceed_product_slash (h : dropGap cs = '/' :: r) :
    Level.product.proceed acc cs =
      (Level.unary.read r).orStop acc cs fun e r' => Level.product.proceed (.div acc e) r' := by
  rw [proceed_product_eq, h]
  rfl

theorem proceed_product_implicit {c : Char} (h : dropGap cs = c :: r)
    (hc : Phrase.startsFactor c = true) :
    Level.product.proceed acc cs =
      (Level.power.read (c :: r)).orStop acc cs fun e r' =>
        Level.product.proceed (.mul acc e) r' := by
  rw [proceed_product_eq, h]
  split
  · rename_i hcs
    cases hcs
    cases hc
  · rename_i hcs
    cases hcs
    cases hc
  · rename_i hcs
    cases hcs
    cases hc
  · rename_i hcs
    cases hcs
    rw [if_pos hc]
  · rename_i hcs
    cases hcs

theorem proceed_product_stop
    (h : ∀ c ∈ (dropGap cs).head?, c ≠ '/' ∧ Phrase.startsFactor c = false)
    (hstar : ∀ r, dropGap cs = '*' :: r → r.head? = some '*') :
    Level.product.proceed acc cs = .read acc cs := by
  rw [proceed_product_eq]
  split
  · rfl
  · rename_i r hnot hcs
    obtain ⟨r', rfl⟩ := List.head?_eq_some_iff.1 (hstar r hcs)
    exact absurd rfl (hnot r')
  · simp_all
  · simp_all
  · rfl

/-! ### Operands with their signs -/

theorem read_unary_eq :
    Level.unary.read (α := α) cs =
      match dropGap cs with
      | '-' :: r => (Level.unary.read r).within ('-' :: r) Phrase.negated
      | '+' :: r => (Level.unary.read r).within ('+' :: r) id
      | r => Level.power.read r := by
  simp only [Level.read]
  rw [Phrase.unary]
  split
  · rename_i r hcs
    simp only [hcs]
    cases (Phrase.unary r : Phrase.Reading (Formula α) _) <;> rfl
  · rename_i r hcs
    simp only [hcs]
    cases (Phrase.unary r : Phrase.Reading (Formula α) _) <;> rfl
  · rename_i hminus hplus
    trans (Phrase.power (dropGap cs) : Phrase.Reading (Formula α) _).outcome
    · cases (Phrase.power (dropGap cs) : Phrase.Reading (Formula α) _) <;> rfl
    · split
      · rename_i hcs
        exact absurd hcs (hminus _)
      · rename_i hcs
        exact absurd hcs (hplus _)
      · rfl

theorem read_unary_minus (h : dropGap cs = '-' :: r) :
    Level.unary.read cs =
      (Level.unary.read (α := α) r).within ('-' :: r) Phrase.negated := by
  rw [read_unary_eq, h]
  rfl

theorem read_unary_plus (h : dropGap cs = '+' :: r) :
    Level.unary.read cs = (Level.unary.read (α := α) r).within ('+' :: r) id := by
  rw [read_unary_eq, h]
  rfl

theorem read_unary_operand (h : ∀ c ∈ (dropGap cs).head?, c ≠ '-' ∧ c ≠ '+') :
    Level.unary.read (α := α) cs = Level.power.read (dropGap cs) := by
  rw [read_unary_eq]
  split
  · simp_all
  · simp_all
  · rfl

/-! ### Powers -/

theorem read_power :
    Level.power.read (α := α) cs =
      (Level.primary.read cs).andThen fun b r =>
        match Phrase.exponentSign? (dropGap r) with
        | some r' => (Level.unary.read r').orStop b r fun x r'' => .read (.pow b x) r''
        | none => .read b r := by
  simp only [Level.read]
  rw [Phrase.power]
  cases (Phrase.primary cs : Phrase.Reading (Formula α) _) with
  | read b r h =>
    simp only [Phrase.Reading.outcome_read, Outcome.andThen]
    split
    · rename_i r' hsign
      simp only [hsign]
      cases (Phrase.unary r' : Phrase.Reading (Formula α) _) <;> rfl
    · rename_i hsign
      rw [hsign]
      rfl
  | refused r => rfl
  | broken r => rfl

/-! ### Primaries -/

theorem read_primary_eq :
    Level.primary.read (α := α) cs =
      match Decimal.numeral? (dropGap cs) with
      | some (n, r) => .read (Phrase.ofNumeral n) r
      | none =>
        match dropGap cs with
        | '(' :: r => (Level.sum.read r).closed ('(' :: r)
        | c :: r =>
          if Phrase.startsName c then
            match Elementary.ofName? (String.ofList (c :: r.takeWhile Phrase.continuesName)) with
            | none =>
              .read (Phrase.named (String.ofList (c :: r.takeWhile Phrase.continuesName)))
                (r.dropWhile Phrase.continuesName)
            | some f => readArgument f (r.dropWhile Phrase.continuesName)
          else .refused (c :: r)
        | [] => .refused [] := by
  simp only [Level.read]
  rw [Phrase.primary]
  split
  · rename_i hnum
    simp only [hnum, Phrase.Reading.outcome_read]
  · rename_i hnum
    simp only [hnum]
    split
    · rename_i r hcs
      simp only [hcs]
      cases (Phrase.sum r : Phrase.Reading (Formula α) _) with
      | read e r' h' =>
        simp only [Phrase.Reading.outcome_read, Outcome.closed]
        split
        · rename_i hclose
          simp only [hclose, Phrase.Reading.outcome_read]
        · rename_i hopen
          split
          · rename_i hclose
            exact absurd hclose (hopen _)
          · rfl
      | refused r' => rfl
      | broken r' => rfl
    · rename_i c r _ hcs
      simp only [hcs]
      split
      · cases Elementary.ofName? (String.ofList (c :: r.takeWhile Phrase.continuesName)) with
        | none => rfl
        | some f =>
          simp only [readArgument, Level.read]
          split
          · rename_i r' hopen
            simp only [hopen]
            cases (Phrase.sum r' : Phrase.Reading (Formula α) _) with
            | read e r'' h' =>
              simp only [Phrase.Reading.outcome_read, Outcome.closedArgument]
              split
              · rename_i hclose
                simp only [hclose, Phrase.Reading.outcome_read]
              · rename_i hstop
                split
                · rename_i hclose
                  exact absurd hclose (hstop _)
                · rfl
            | refused r'' => rfl
            | broken r'' => rfl
          · rename_i hstop
            split
            · rename_i hopen
              exact absurd hopen (hstop _)
            · rfl
      · rfl
    · rename_i hcs
      simp only [hcs]
      rfl

theorem read_primary_number {n : Decimal.Numeral}
    (h : Decimal.numeral? (dropGap cs) = some (n, r)) :
    Level.primary.read (α := α) cs = .read (Phrase.ofNumeral n) r := by
  rw [read_primary_eq, h]

theorem read_primary_opening (h : dropGap cs = '(' :: r) :
    Level.primary.read cs = (Level.sum.read (α := α) r).closed ('(' :: r) := by
  have hnone : Decimal.numeral? (dropGap cs) = none := by
    rw [h]; exact numeral_eq_none rfl (by decide)
  rw [read_primary_eq, hnone, h]
  rfl

/-- A text that starts with no numeral, no parenthesis and no name is refused. -/
theorem read_primary_other (hnone : Decimal.numeral? (dropGap cs) = none)
    (h : ∀ c ∈ (dropGap cs).head?, c ≠ '(' ∧ Phrase.startsName c = false) :
    Level.primary.read (α := α) cs = .refused (dropGap cs) := by
  rw [read_primary_eq, hnone]
  dsimp only
  split
  · rename_i r hcs
    rw [hcs] at h
    exact absurd rfl (h '(' rfl).1
  · rename_i c r _ hcs
    rw [hcs] at h
    rw [if_neg (by rw [(h c rfl).2]; exact Bool.false_ne_true), hcs]
  · rename_i hcs
    rw [hcs]

theorem read_primary_stop
    (h : ∀ c ∈ (dropGap cs).head?,
      c.isDigit = false ∧ c ≠ '.' ∧ c ≠ '(' ∧ Phrase.startsName c = false) :
    Level.primary.read (α := α) cs = .refused (dropGap cs) := by
  have hnone : Decimal.numeral? (dropGap cs) = none := by
    cases hcs : dropGap cs with
    | nil => rfl
    | cons c r =>
      rw [hcs] at h
      exact numeral_eq_none (h c rfl).1 (h c rfl).2.1
  exact read_primary_other hnone fun c hc => (h c hc).2.2

theorem read_primary_name {c : Char} (h : dropGap cs = c :: r)
    (hc : Phrase.startsName c = true) :
    Level.primary.read (α := α) cs =
      match Elementary.ofName? (String.ofList (c :: r.takeWhile Phrase.continuesName)) with
      | none =>
        .read (Phrase.named (String.ofList (c :: r.takeWhile Phrase.continuesName)))
          (r.dropWhile Phrase.continuesName)
      | some f => readArgument f (r.dropWhile Phrase.continuesName) := by
  have hnone : Decimal.numeral? (dropGap cs) = none := by
    rw [h]
    exact numeral_eq_none (isDigit_of_startsName hc) (by rintro rfl; cases hc)
  rw [read_primary_eq, hnone, h]
  dsimp only
  split
  · rename_i hcs
    cases hcs
    cases hc
  · rename_i hcs
    cases hcs
    rw [if_pos hc]
  · rename_i hcs
    cases hcs

/-! ### Further operands -/

/-- What a reader does after its first phrase: it stops, or it reads one further operand with
    the reader of `l'` and proceeds with the tree that `node` makes of it.  The gap in front
    of the rest has no part in this. -/
theorem proceed_cases (l : Level) (acc : Formula α) (cs : List Char) :
    (∀ ds, dropGap ds = dropGap cs → l.proceed acc ds = .read acc ds) ∨
      ∃ (l' : Level) (node : Formula α → Formula α) (r : List Char), r <:+ dropGap cs ∧
        (l' = .power ∨ r.length < (dropGap cs).length) ∧
        ∀ ds, dropGap ds = dropGap cs →
          l.proceed acc ds = (l'.read r).orStop acc ds fun u r' => l.proceed (node u) r' := by
  cases l with
  | sum =>
    cases hcs : dropGap cs with
    | nil => exact .inl fun ds hds => proceed_sum_stop (by simp [hds])
    | cons c r =>
      have htail : r <:+ c :: r := List.suffix_cons c r
      have hlt : r.length < (c :: r).length := Nat.lt_succ_self _
      by_cases hplus : c = '+'
      · subst hplus
        exact .inr ⟨.product, .add acc, r, htail, .inr hlt, fun ds hds => proceed_sum_plus hds⟩
      by_cases hminus : c = '-'
      · subst hminus
        exact .inr ⟨.product, .sub acc, r, htail, .inr hlt, fun ds hds => proceed_sum_minus hds⟩
      exact .inl fun ds hds => proceed_sum_stop (by simp [hds, hplus, hminus])
  | product =>
    cases hcs : dropGap cs with
    | nil => exact .inl fun ds hds => proceed_product_stop (by simp [hds]) (by simp [hds])
    | cons c r =>
      have htail : r <:+ c :: r := List.suffix_cons c r
      have hlt : r.length < (c :: r).length := Nat.lt_succ_self _
      by_cases hstar : c = '*'
      · subst hstar
        by_cases hsecond : r.head? = some '*'
        · refine .inl fun ds hds => proceed_product_stop (by simp [hds, Phrase.startsFactor]) ?_
          intro r' hr'
          cases hds.symm.trans hr'
          exact hsecond
        · exact .inr ⟨.unary, .mul acc, r, htail, .inr hlt,
            fun ds hds => proceed_product_times hds hsecond⟩
      by_cases hslash : c = '/'
      · subst hslash
        exact .inr ⟨.unary, .div acc, r, htail, .inr hlt,
          fun ds hds => proceed_product_slash hds⟩
      by_cases hfactor : Phrase.startsFactor c = true
      · exact .inr ⟨.power, .mul acc, c :: r, List.suffix_rfl, .inl rfl,
          fun ds hds => proceed_product_implicit hds hfactor⟩
      refine .inl fun ds hds => proceed_product_stop (by simp [hds, hslash, hfactor]) ?_
      intro r' hr'
      cases hds.symm.trans hr'
      exact absurd rfl hstar
  | _ => exact .inl fun ds _ => rfl

/-! ### Whole texts -/

theorem readTree_eq :
    readTree cs =
      if (trim cs).isEmpty then .error .empty
      else
        match (Level.sum.read cs : Outcome (Formula α)) with
        | .read e r => if (trimStart r).isEmpty then .ok e else .error (unexpected cs r)
        | .refused r => .error (unexpected cs r)
        | .broken r => .error (unexpected cs r) := by
  simp only [readTree, Level.read]
  cases (Phrase.sum cs : Phrase.Reading (Formula α) _) <;> rfl

/-- A text is read as a tree if it is not blank and the reader of sums leaves nothing but
    blanks over. -/
theorem readTree_eq_ok_iff {e : Formula α} :
    readTree cs = .ok e ↔ (trim cs).isEmpty = false ∧
      ∃ r, Level.sum.read cs = .read e r ∧ (trimStart r).isEmpty = true := by
  rw [readTree_eq]
  split
  · rename_i hempty
    simp [hempty]
  · rename_i hne
    rw [Bool.not_eq_true] at hne
    cases hsum : (Level.sum.read cs : Outcome (Formula α)) with
    | read u r =>
      dsimp only
      split
      · rename_i hrest
        constructor
        · intro hu
          cases hu
          exact ⟨hne, r, rfl, hrest⟩
        · rintro ⟨-, r', hr', -⟩
          cases hr'
          rfl
      · rename_i hrest
        refine ⟨nofun, ?_⟩
        rintro ⟨-, r', hr', hrest'⟩
        cases hr'
        exact absurd hrest' hrest
    | refused r => exact ⟨nofun, fun ⟨_, _, hread, _⟩ => nomatch hread⟩
    | broken r => exact ⟨nofun, fun ⟨_, _, hread, _⟩ => nomatch hread⟩

end Equations

end NumericMethods.Formula
