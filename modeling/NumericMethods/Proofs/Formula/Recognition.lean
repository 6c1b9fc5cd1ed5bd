/-
  NumericMethods/Proofs/Formula/Recognition.lean
  ==============================================
  **The reader accepts exactly the phrases of the grammar.**

  Both directions are about a text that spells a list of tokens.

    * `Derives.reads`: a phrase of a level is read whole by the reader of that level, which
      then proceeds with its tree, provided the token after the phrase cannot belong to it
      (`Level.stopsAt`).  The proof is an induction on the derivation.
    * `SoundBelow`: what a reader reads is a phrase of its level.  The proof is an induction
      on the length of the text, with one lemma for each reader.  Where a reader gives up
      an alternative and keeps what it has read, the sign that was not used is left over,
      and what is left over starts with it.

  The reader of whole texts demands that nothing is left over, and so accepts a text if and
  only if the grammar derives its tokens (`read_spelled_iff`, `read_joined_iff`).
-/
import NumericMethods.Proofs.Formula.Outcome
import NumericMethods.Scalar.Binary64

namespace NumericMethods.Formula

open Text

/-! ### The first character of a token -/

/-- What the first character of a token says about the token. -/
structure Token.StartsWith (t : Token) (c : Char) : Prop where
  plus : c = '+' → t = .plus
  minus : c = '-' → t = .minus
  star : c = '*' → t = .times ∨ t = .stars
  slash : c = '/' → t = .slash
  caret : c = '^' → t = .caret
  opening : c = '(' → t = .opening
  closing : c = ')' → t = .closing
  factor : Phrase.startsFactor c = true ↔ t.startsFactor = true
  number : c.isDigit = true ∨ c = '.' → ∃ l, t = .number l
  name : Phrase.startsName c = true → ∃ n, t = .name n

theorem Token.startsWith_number {l : Literal} {c : Char} (hc : c.isDigit = true ∨ c = '.') :
    (Token.number l).StartsWith c := by
  have hname : Phrase.startsName c = false := by
    rcases hc with hc | rfl
    · cases hn : Phrase.startsName c with
      | false => rfl
      | true =>
        rw [isDigit_of_startsName hn] at hc
        cases hc
    · decide
  have hopen : c ≠ '(' := by rintro rfl; exact absurd hc (by decide)
  have hfactor : Phrase.startsFactor c = false := by
    have hor : Phrase.startsFactor c = (Phrase.startsName c || decide (c = '(')) := rfl
    rw [hor, hname, Bool.false_or, decide_eq_false hopen]
  constructor
  case number => exact fun _ => ⟨l, rfl⟩
  case name => intro h; rw [hname] at h; cases h
  case factor => rw [hfactor]; exact Iff.rfl
  all_goals rintro rfl; exact absurd hc (by decide)

theorem Token.startsWith_name {n : Identifier} {c : Char} (hc : Phrase.startsName c = true) :
    (Token.name n).StartsWith c := by
  constructor
  case number =>
    rintro (hd | rfl)
    · rw [isDigit_of_startsName hc] at hd
      cases hd
    · cases hc
  case name => exact fun _ => ⟨n, rfl⟩
  case factor =>
    have hor : Phrase.startsFactor c = (Phrase.startsName c || decide (c = '(')) := rfl
    rw [hor, hc, Bool.true_or]
    exact Iff.rfl
  all_goals rintro rfl; cases hc

theorem Token.startsWith_text (t : Token) : ∃ c r, t.text = c :: r ∧ t.StartsWith c := by
  cases t with
  | number l =>
    obtain ⟨c, r, htext, hc⟩ := l.text_eq_cons
    exact ⟨c, r, htext, startsWith_number hc⟩
  | name n => exact ⟨n.first, n.others, rfl, startsWith_name n.starts⟩
  | _ =>
    refine ⟨_, _, rfl, ?_⟩
    constructor <;> first | decide | simp [Char.isDigit, Phrase.startsName]

namespace Spells

variable {ts : List Token} {cs r : List Char}

/-- The first character after the gap belongs to the first token. -/
theorem startsWith_head (h : Spells ts cs) :
    ∀ c ∈ (dropGap cs).head?, ∃ t, ts.head? = some t ∧ t.StartsWith c := by
  intro c hc
  cases ts with
  | nil =>
    have hnil : dropGap cs = [] := h
    rw [hnil] at hc
    cases hc
  | cons t ts =>
    obtain ⟨r, hr, -⟩ := h
    obtain ⟨c', r', htext, hstart⟩ := t.startsWith_text
    rw [hr, htext] at hc
    cases hc
    exact ⟨t, rfl, hstart⟩

/-- A text that starts with the only character of a token goes on with the further tokens. -/
theorem tail_of_single {t : Token} {c : Char} (htext : t.text = [c])
    (hc : ∀ t' : Token, t'.StartsWith c → t' = t) (h : Spells ts cs)
    (hr : dropGap cs = c :: r) : ∃ ts', ts = t :: ts' ∧ Spells ts' r := by
  obtain ⟨t', ht', hstart⟩ := h.startsWith_head c (by rw [hr]; rfl)
  obtain ⟨ts', rfl⟩ := List.head?_eq_some_iff.1 ht'
  obtain rfl := hc t' hstart
  obtain ⟨r', hr', -, hrest⟩ := h
  rw [hr, htext] at hr'
  cases hr'
  exact ⟨ts', rfl, hrest⟩

/-- The same read forwards. -/
theorem of_single {t : Token} {c : Char} (htext : t.text = [c]) (h : Spells (t :: ts) cs) :
    ∃ r, dropGap cs = c :: r ∧ t.endsBefore r ∧ Spells ts r := by
  obtain ⟨r, hr, hend, hrest⟩ := h
  rw [htext] at hr
  exact ⟨r, hr, hend, hrest⟩

theorem tail_of_opening (h : Spells ts cs) (hr : dropGap cs = '(' :: r) :
    ∃ ts', ts = .opening :: ts' ∧ Spells ts' r :=
  h.tail_of_single rfl (fun _ ht => ht.opening rfl) hr

theorem tail_of_closing (h : Spells ts cs) (hr : dropGap cs = ')' :: r) :
    ∃ ts', ts = .closing :: ts' ∧ Spells ts' r :=
  h.tail_of_single rfl (fun _ ht => ht.closing rfl) hr

theorem head_factor {t : Token} (ht : t.startsFactor = true) (h : Spells (t :: ts) cs) :
    ∃ c r, dropGap cs = c :: r ∧ Phrase.startsFactor c = true := by
  obtain ⟨r, hr, -⟩ := h
  obtain ⟨c, text, htext, hstart⟩ := t.startsWith_text
  exact ⟨c, text ++ r, by rw [hr, htext]; rfl, hstart.factor.2 ht⟩

/-- Before a sign of exponentiation, the reader of powers finds it. -/
theorem exponentSign_eq_some {s : Token} (hs : s.isPowerSign = true) (h : Spells (s :: ts) cs) :
    ∃ r, Phrase.exponentSign? (dropGap cs) = some r ∧ Spells ts r := by
  obtain ⟨r, hr, -, hrest⟩ := h
  refine ⟨dropGap r, ?_, dropGap_iff.2 hrest⟩
  rw [hr]
  cases s <;> first | rfl | cases hs

/-- A text in which the reader of powers finds a sign of exponentiation starts with it. -/
theorem tail_of_exponentSign (h : Spells ts cs) (hr : Phrase.exponentSign? (dropGap cs) = some r) :
    ∃ s ts', ts = s :: ts' ∧ s.isPowerSign = true ∧ Spells ts' r := by
  unfold Phrase.exponentSign? at hr
  split at hr
  · rename_i r' hcs
    obtain ⟨ts', rfl, hrest⟩ := h.tail_of_single (t := .caret) rfl (fun _ ht => ht.caret rfl) hcs
    cases hr
    exact ⟨.caret, ts', rfl, rfl, dropGap_iff.2 hrest⟩
  · rename_i r' hcs
    obtain ⟨t, ht, hstart⟩ := h.startsWith_head '*' (by rw [hcs]; rfl)
    obtain ⟨ts', rfl⟩ := List.head?_eq_some_iff.1 ht
    obtain ⟨r'', hr'', hend, hrest⟩ := h
    rw [hcs] at hr''
    rcases hstart.star rfl with rfl | rfl
    · -- a sign of multiplication does not stand directly before a star
      cases hr''
      exact absurd rfl hend
    · cases hr''
      cases hr
      exact ⟨.stars, ts', rfl, rfl, dropGap_iff.2 hrest⟩
  · cases hr

end Spells

theorem Token.not_isPowerSign {t : Token} (h : t.startsFactor = true) :
    t.isPowerSign = false := by
  cases t <;> first | rfl | cases h

/-! ### Phrases are read whole -/

/-- Whether a phrase of the level ends before the token. -/
def Level.stopsAt : Level → Token → Bool
  | .primary, _ => true
  | .sum, t => !t.isPowerSign && !t.startsFactor && !(t matches .times) && !(t matches .slash)
  | _, t => !t.isPowerSign

section Stops

variable {α : Type} [Scalar α] {ts : List Token} {cs : List Char} {acc : Formula α}

theorem exponentSign_eq_none (h : Spells ts cs) (hts : ∀ t ∈ ts.head?, t.isPowerSign = false) :
    Phrase.exponentSign? (dropGap cs) = none := by
  cases hsign : Phrase.exponentSign? (dropGap cs) with
  | none => rfl
  | some r =>
    obtain ⟨s, ts', rfl, hs, -⟩ := h.tail_of_exponentSign hsign
    rw [hts s rfl] at hs
    cases hs

theorem proceed_sum_spelled (h : Spells ts cs) (hts : ∀ t ∈ ts.head?, t ≠ .plus ∧ t ≠ .minus) :
    Level.sum.proceed acc cs = .read acc cs := by
  refine proceed_sum_stop fun c hc => ?_
  obtain ⟨t, ht, hstart⟩ := h.startsWith_head c hc
  have hne := hts t ht
  exact ⟨fun hplus => hne.1 (hstart.plus hplus), fun hminus => hne.2 (hstart.minus hminus)⟩

theorem proceed_product_spelled (h : Spells ts cs)
    (hts : ∀ t ∈ ts.head?, t.startsFactor = false ∧ t ≠ .times ∧ t ≠ .slash) :
    Level.product.proceed acc cs = .read acc cs := by
  refine proceed_product_stop (fun c hc => ?_) fun r hr => ?_
  · obtain ⟨t, ht, hstart⟩ := h.startsWith_head c hc
    obtain ⟨hfactor, -, hslash⟩ := hts t ht
    refine ⟨fun hc => hslash (hstart.slash hc), ?_⟩
    rw [Bool.eq_false_iff, Ne, hstart.factor, hfactor]
    exact Bool.false_ne_true
  · obtain ⟨t, ht, hstart⟩ := h.startsWith_head '*' (by rw [hr]; rfl)
    obtain ⟨ts', rfl⟩ := List.head?_eq_some_iff.1 ht
    rcases hstart.star rfl with rfl | rfl
    · exact absurd rfl (hts .times rfl).2.1
    · obtain ⟨r', hr', -⟩ := h
      rw [hr] at hr'
      cases hr'
      rfl

theorem read_unary_spelled (h : Spells ts cs) (hts : ∀ t ∈ ts.head?, t ≠ .plus ∧ t ≠ .minus) :
    Level.unary.read (α := α) cs = Level.power.read (dropGap cs) := by
  refine read_unary_operand fun c hc => ?_
  obtain ⟨t, ht, hstart⟩ := h.startsWith_head c hc
  have hne := hts t ht
  exact ⟨fun hminus => hne.2 (hstart.minus hminus), fun hplus => hne.1 (hstart.plus hplus)⟩

theorem read_primary_spelled (h : Spells ts cs)
    (hts : ∀ t ∈ ts.head?, (∀ l, t ≠ .number l) ∧ (∀ n, t ≠ .name n) ∧ t ≠ .opening) :
    Level.primary.read (α := α) cs = .refused (dropGap cs) := by
  refine read_primary_stop fun c hc => ?_
  obtain ⟨t, ht, hstart⟩ := h.startsWith_head c hc
  obtain ⟨hnumber, hname, hopen⟩ := hts t ht
  refine ⟨?_, ?_, fun hc => hopen (hstart.opening hc), ?_⟩
  · rw [Bool.eq_false_iff]
    intro hd
    obtain ⟨l, hl⟩ := hstart.number (.inl hd)
    exact hnumber l hl
  · intro hp
    obtain ⟨l, hl⟩ := hstart.number (.inr hp)
    exact hnumber l hl
  · rw [Bool.eq_false_iff]
    intro hn
    obtain ⟨n, hn⟩ := hstart.name hn
    exact hname n hn

end Stops

/-! ### Names and their arguments -/

theorem Token.length_lt {t : Token} {cs r : List Char} (h : dropGap cs = t.text ++ r) :
    r.length < cs.length := by
  obtain ⟨c, text, htext, -⟩ := t.text_eq_cons
  have hle := length_dropGap_le cs
  rw [h, htext] at hle
  simp only [List.cons_append, List.length_cons, List.length_append] at hle
  omega

section Names

variable {α : Type} [Scalar α] {n : Identifier} {ts : List Token} {cs : List Char}

/-- A name that is no function is read as a primary of its own. -/
theorem read_primary_symbol (hf : Elementary.ofName? n.name = none)
    (h : Spells (.name n :: ts) cs) :
    ∃ r, Spells ts r ∧ Level.primary.read (α := α) cs = .read (Phrase.named n.name) r := by
  obtain ⟨r, hr, hend, hrest⟩ := h
  refine ⟨r, hrest, ?_⟩
  have hname : String.ofList (n.first :: (n.others ++ r).takeWhile Phrase.continuesName) =
      n.name := by
    rw [takeWhile_append n.continues hend]
    rfl
  rw [read_primary_name (hr.trans (List.cons_append ..)) n.starts, hname, hf,
    dropWhile_append n.continues hend]

/-- The name of a function needs an argument in parentheses, or the whole text is broken. -/
theorem read_primary_function {f : Elementary} (hf : Elementary.ofName? n.name = some f)
    (h : Spells (.name n :: ts) cs) :
    ∃ r, Spells ts r ∧ r.length < cs.length ∧
      Level.primary.read (α := α) cs = readArgument f r := by
  obtain ⟨r, hr, hend, hrest⟩ := h
  refine ⟨r, hrest, Token.length_lt hr, ?_⟩
  have hname : String.ofList (n.first :: (n.others ++ r).takeWhile Phrase.continuesName) =
      n.name := by
    rw [takeWhile_append n.continues hend]
    rfl
  rw [read_primary_name (hr.trans (List.cons_append ..)) n.starts, hname,
    dropWhile_append n.continues hend]
  simp only [hf]

theorem ofName_of_constant (h : n.name = "pi" ∨ n.name = "e") :
    Elementary.ofName? n.name = none := by
  rcases h with h | h <;> rw [h] <;> decide

theorem named_of_pi (h : n.name = "pi") : Phrase.named (α := α) n.name = .const Scalar.pi := by
  rw [h]
  rfl

theorem named_of_euler (h : n.name = "e") :
    Phrase.named (α := α) n.name = .const Scalar.euler := by
  rw [h]
  rfl

theorem named_of_ne (hpi : n.name ≠ "pi") (he : n.name ≠ "e") :
    Phrase.named (α := α) n.name = .var n.name := by
  rw [Phrase.named, if_neg hpi, if_neg he]

theorem negated_of_constant_eq_none {e : Formula α} (h : e.constant? = none) :
    Phrase.negated e = .neg e := by
  cases e <;> first | rfl | cases h

end Names

section Completeness

variable {α : Type} [Scalar α] {l : Level} {ts vs : List Token} {e : Formula α}
  {cs : List Char}

theorem Derives.head_primary (h : Derives .primary ts e) :
    ∀ t ∈ (ts ++ vs).head?, t ≠ .plus ∧ t ≠ .minus := by
  cases h <;> simp

theorem Derives.head_power (h : Derives .power ts e) :
    ∀ t ∈ (ts ++ vs).head?, t ≠ .plus ∧ t ≠ .minus := by
  cases h with
  | base h => exact h.head_primary
  | pow _ hb _ =>
    rw [List.append_assoc]
    exact hb.head_primary

theorem Level.stopsAt_product_of_sum (h : ∀ t ∈ vs.head?, Level.sum.stopsAt t = true) :
    ∀ t ∈ vs.head?, Level.product.stopsAt t = true := by
  intro t ht
  have hsum := h t ht
  simp only [Level.stopsAt, Bool.and_eq_true] at hsum ⊢
  exact hsum.1.1.1

theorem Level.proceed_product_of_sum {acc : Formula α} (hvs : Spells vs cs)
    (h : ∀ t ∈ vs.head?, Level.sum.stopsAt t = true) :
    Level.product.proceed acc cs = .read acc cs := by
  refine proceed_product_spelled hvs fun t ht => ?_
  have hsum := h t ht
  refine ⟨?_, ?_, ?_⟩
  · simp only [Level.stopsAt, Bool.and_eq_true, Bool.not_eq_true'] at hsum
    exact hsum.1.1.2
  · rintro rfl
    cases hsum
  · rintro rfl
    cases hsum

/-- A phrase is read whole, whatever the text after it, unless it starts with a token that
    belongs to the phrase. -/
theorem Derives.reads (h : Derives l ts e) (hstop : ∀ t ∈ vs.head?, l.stopsAt t = true)
    (hcs : Spells (ts ++ vs) cs) : ∃ r, Spells vs r ∧ l.read cs = l.proceed e r := by
  induction h generalizing vs cs with
  | term _ ih =>
    obtain ⟨r, hr, hread⟩ := ih (Level.stopsAt_product_of_sum hstop) hcs
    refine ⟨r, hr, ?_⟩
    rw [read_sum, hread, Level.proceed_product_of_sum hr hstop]
    rfl
  | add _ _ ihl ihr =>
    rw [List.append_assoc] at hcs
    obtain ⟨r₁, hr₁, hread₁⟩ := ihl (fun _ ht => by cases ht; rfl) hcs
    obtain ⟨r₂, hplus, -, hr₂⟩ := hr₁.of_single rfl
    obtain ⟨r, hr, hread⟩ := ihr (Level.stopsAt_product_of_sum hstop) hr₂
    refine ⟨r, hr, ?_⟩
    rw [hread₁, proceed_sum_plus hplus, hread, Level.proceed_product_of_sum hr hstop]
    rfl
  | sub _ _ ihl ihr =>
    rw [List.append_assoc] at hcs
    obtain ⟨r₁, hr₁, hread₁⟩ := ihl (fun _ ht => by cases ht; rfl) hcs
    obtain ⟨r₂, hminus, -, hr₂⟩ := hr₁.of_single rfl
    obtain ⟨r, hr, hread⟩ := ihr (Level.stopsAt_product_of_sum hstop) hr₂
    refine ⟨r, hr, ?_⟩
    rw [hread₁, proceed_sum_minus hminus, hread, Level.proceed_product_of_sum hr hstop]
    rfl
  | factor _ ih =>
    obtain ⟨r, hr, hread⟩ := ih hstop hcs
    refine ⟨r, hr, ?_⟩
    rw [read_product, hread]
    rfl
  | mul _ _ ihl ihr =>
    rw [List.append_assoc] at hcs
    obtain ⟨r₁, hr₁, hread₁⟩ := ihl (fun _ ht => by cases ht; rfl) hcs
    obtain ⟨r₂, htimes, hend, hr₂⟩ := hr₁.of_single rfl
    obtain ⟨r, hr, hread⟩ := ihr hstop hr₂
    refine ⟨r, hr, ?_⟩
    rw [hread₁, proceed_product_times htimes hend, hread]
    rfl
  | div _ _ ihl ihr =>
    rw [List.append_assoc] at hcs
    obtain ⟨r₁, hr₁, hread₁⟩ := ihl (fun _ ht => by cases ht; rfl) hcs
    obtain ⟨r₂, hslash, -, hr₂⟩ := hr₁.of_single rfl
    obtain ⟨r, hr, hread⟩ := ihr hstop hr₂
    refine ⟨r, hr, ?_⟩
    rw [hread₁, proceed_product_slash hslash, hread]
    rfl
  | implicit ht _ _ ihl ihr =>
    rw [List.append_assoc] at hcs
    obtain ⟨r₁, hr₁, hread₁⟩ := ihl
      (fun _ h => by cases h; simp [Level.stopsAt, Token.not_isPowerSign ht]) hcs
    obtain ⟨c, r₂, hc, hfactor⟩ := hr₁.head_factor ht
    obtain ⟨r, hr, hread⟩ := ihr hstop (Spells.dropGap_iff.2 hr₁)
    rw [hc] at hread
    refine ⟨r, hr, ?_⟩
    rw [hread₁, proceed_product_implicit hc hfactor, hread]
    rfl
  | minusConst _ ih =>
    obtain ⟨r₁, hminus, -, hr₁⟩ := Spells.of_single rfl hcs
    obtain ⟨r, hr, hread⟩ := ih hstop hr₁
    refine ⟨r, hr, ?_⟩
    rw [read_unary_minus hminus, hread]
    rfl
  | minus hc _ ih =>
    obtain ⟨r₁, hminus, -, hr₁⟩ := Spells.of_single rfl hcs
    obtain ⟨r, hr, hread⟩ := ih hstop hr₁
    refine ⟨r, hr, ?_⟩
    rw [read_unary_minus hminus, hread, ← negated_of_constant_eq_none hc]
    rfl
  | plus _ ih =>
    obtain ⟨r₁, hplus, -, hr₁⟩ := Spells.of_single rfl hcs
    obtain ⟨r, hr, hread⟩ := ih hstop hr₁
    refine ⟨r, hr, ?_⟩
    rw [read_unary_plus hplus, hread]
    rfl
  | operand h ih =>
    obtain ⟨r, hr, hread⟩ := ih hstop (Spells.dropGap_iff.2 hcs)
    refine ⟨r, hr, ?_⟩
    rw [read_unary_spelled hcs h.head_power, hread]
    rfl
  | base _ ih =>
    obtain ⟨r, hr, hread⟩ := ih (fun _ _ => rfl) hcs
    have hnone := exponentSign_eq_none hr fun t ht => by simpa [Level.stopsAt] using hstop t ht
    refine ⟨r, hr, ?_⟩
    rw [read_power, hread]
    simp only [Level.proceed, Outcome.andThen, hnone]
  | pow hs _ _ ihb ihx =>
    rw [List.append_assoc] at hcs
    obtain ⟨r₁, hr₁, hread₁⟩ := ihb (fun _ _ => rfl) hcs
    obtain ⟨r₂, hsign, hr₂⟩ := hr₁.exponentSign_eq_some hs
    obtain ⟨r, hr, hread⟩ := ihx hstop hr₂
    refine ⟨r, hr, ?_⟩
    rw [read_power, hread₁]
    simp only [Level.proceed, Outcome.andThen, hsign, hread, Outcome.orStop]
  | number l =>
    obtain ⟨r, hl, hend, hr⟩ := hcs
    refine ⟨r, hr, read_primary_number ?_⟩
    rw [hl]
    exact numeral_append l hend
  | parenthesis _ ih =>
    rw [List.cons_append, List.append_assoc] at hcs
    obtain ⟨r₁, hopen, -, hr₁⟩ := hcs.of_single rfl
    obtain ⟨r₂, hr₂, hread⟩ := ih (fun _ ht => by cases ht; rfl) hr₁
    rw [proceed_sum_spelled hr₂ (by simp)] at hread
    obtain ⟨r, hclose, -, hr⟩ := hr₂.of_single rfl
    refine ⟨r, hr, ?_⟩
    rw [read_primary_opening hopen, hread]
    simp only [Outcome.closed, hclose]
    rfl
  | application hf _ ih =>
    rw [List.cons_append, List.cons_append, List.append_assoc] at hcs
    obtain ⟨r₀, hr₀, -, hread₀⟩ := read_primary_function (α := α) hf hcs
    obtain ⟨r₁, hopen, -, hr₁⟩ := hr₀.of_single rfl
    obtain ⟨r₂, hr₂, hread⟩ := ih (fun _ ht => by cases ht; rfl) hr₁
    rw [proceed_sum_spelled hr₂ (by simp)] at hread
    obtain ⟨r, hclose, -, hr⟩ := hr₂.of_single rfl
    refine ⟨r, hr, ?_⟩
    rw [hread₀]
    simp only [readArgument, hopen, hread, Outcome.closedArgument, hclose]
    rfl
  | pi hn =>
    rw [← named_of_pi hn]
    exact read_primary_symbol (ofName_of_constant (.inl hn)) hcs
  | euler hn =>
    rw [← named_of_euler hn]
    exact read_primary_symbol (ofName_of_constant (.inr hn)) hcs
  | symbol hf hpi he =>
    rw [← named_of_ne hpi he]
    exact read_primary_symbol hf hcs

end Completeness

/-! ### What is read is a phrase -/

section Soundness

variable {α : Type} [Scalar α]

/-- On this text, what the reader of the level reads is a phrase of the level. -/
def Level.ReadSound (α : Type) [Scalar α] (l : Level) (cs : List Char) : Prop :=
  ∀ ⦃ts : List Token⦄ ⦃e : Formula α⦄ ⦃r : List Char⦄, Spells ts cs → l.read cs = .read e r →
    ∃ us vs, ts = us ++ vs ∧ Derives l us e ∧ Spells vs r

/-- On this text, what the reader of the level reads after a phrase makes a longer phrase. -/
def Level.ProceedSound (α : Type) [Scalar α] (l : Level) (cs : List Char) : Prop :=
  ∀ ⦃ts : List Token⦄ ⦃acc e : Formula α⦄ ⦃r : List Char⦄, Spells ts cs →
    l.proceed acc cs = .read e r →
      ∃ us vs, ts = us ++ vs ∧ Spells vs r ∧ ∀ ws, Derives l ws acc → Derives l (ws ++ us) e

/-- On all texts that are shorter, the readers are sound. -/
structure SoundBelow (α : Type) [Scalar α] (n : Nat) : Prop where
  read : ∀ l cs, cs.length < n → Level.ReadSound α l cs
  proceed : ∀ l cs, cs.length < n → Level.ProceedSound α l cs

variable {cs : List Char} {n : Nat}

theorem SoundBelow.mono {m : Nat} (h : SoundBelow α n) (hmn : m ≤ n) : SoundBelow α m :=
  ⟨fun l cs hlt => h.read l cs (hlt.trans_le hmn),
    fun l cs hlt => h.proceed l cs (hlt.trans_le hmn)⟩

omit [Scalar α] in
theorem Outcome.closed_eq_read {o : Outcome (Formula α)} {e : Formula α} {r : List Char}
    (h : o.closed cs = .read e r) :
    ∃ r', o = .read e r' ∧ dropGap r' = ')' :: r := by
  cases o with
  | read v r' =>
    simp only [Outcome.closed] at h
    split at h
    · rename_i hclose
      cases h
      exact ⟨r', rfl, hclose⟩
    · cases h
  | refused r' => cases h
  | broken r' => cases h

theorem readArgument_eq_read {f : Elementary} {e : Formula α} {r : List Char}
    (h : readArgument f cs = .read e r) :
    ∃ r₁ u r₂, dropGap cs = '(' :: r₁ ∧ Level.sum.read r₁ = .read u r₂ ∧
      dropGap r₂ = ')' :: r ∧ e = .apply f u := by
  unfold readArgument at h
  split at h
  · rename_i r₁ hopen
    cases hread : (Level.sum.read r₁ : Outcome (Formula α)) with
    | read u r₂ =>
      rw [hread] at h
      simp only [Outcome.closedArgument] at h
      split at h
      · rename_i hclose
        cases h
        exact ⟨r₁, u, r₂, hopen, hread, hclose, rfl⟩
      · cases h
    | refused r₂ => rw [hread] at h; cases h
    | broken r₂ => rw [hread] at h; cases h
  · cases h

theorem readSound_primary (ih : SoundBelow α cs.length) :
    Level.ReadSound α .primary cs := by
  intro ts e r hcs hread
  -- a text that starts with no token of a primary is refused
  have hother : ∀ t ts', ts = t :: ts' → (∀ l, t ≠ .number l) → (∀ n, t ≠ .name n) →
      t ≠ .opening → False := by
    rintro t ts' rfl hnumber hname hopen
    rw [read_primary_spelled hcs (by rintro _ ⟨⟩; exact ⟨hnumber, hname, hopen⟩)] at hread
    cases hread
  cases ts with
  | nil =>
    rw [read_primary_spelled hcs (by simp)] at hread
    cases hread
  | cons t ts =>
    cases t with
    | number l =>
      obtain ⟨r', hr', hend, hrest⟩ := hcs
      rw [read_primary_number (by rw [hr']; exact numeral_append l hend)] at hread
      cases hread
      exact ⟨[.number l], ts, rfl, .number l, hrest⟩
    | name n =>
      cases hf : Elementary.ofName? n.name with
      | none =>
        obtain ⟨r', hrest, hprimary⟩ := read_primary_symbol (α := α) hf hcs
        rw [hprimary] at hread
        cases hread
        refine ⟨[.name n], ts, rfl, ?_, hrest⟩
        by_cases hpi : n.name = "pi"
        · rw [named_of_pi hpi]
          exact .pi hpi
        · by_cases he : n.name = "e"
          · rw [named_of_euler he]
            exact .euler he
          · rw [named_of_ne hpi he]
            exact .symbol hf hpi he
      | some f =>
        obtain ⟨r₀, hr₀, hlt₀, hprimary⟩ := read_primary_function (α := α) hf hcs
        rw [hprimary] at hread
        obtain ⟨r₁, u, r₂, hopen, hsum, hclose, rfl⟩ := readArgument_eq_read hread
        obtain ⟨ts₁, rfl, hr₁⟩ := hr₀.tail_of_opening hopen
        have hlt₁ : r₁.length < r₀.length := Token.length_lt (t := .opening) hopen
        obtain ⟨us, vs, rfl, hu, hvs⟩ := ih.read .sum r₁ (hlt₁.trans hlt₀) hr₁ hsum
        obtain ⟨vs', rfl, hrest⟩ := hvs.tail_of_closing hclose
        exact ⟨.name n :: .opening :: (us ++ [.closing]), vs', by simp, .application hf hu, hrest⟩
    | opening =>
      obtain ⟨r₁, hopen, -, hr₁⟩ := hcs.of_single rfl
      rw [read_primary_opening hopen] at hread
      obtain ⟨r₂, hsum, hclose⟩ := Outcome.closed_eq_read hread
      have hlt₁ : r₁.length < cs.length := Token.length_lt (t := .opening) hopen
      obtain ⟨us, vs, rfl, hu, hvs⟩ := ih.read .sum r₁ hlt₁ hr₁ hsum
      obtain ⟨vs', rfl, hrest⟩ := hvs.tail_of_closing hclose
      exact ⟨.opening :: (us ++ [.closing]), vs', by simp, .parenthesis hu, hrest⟩
    | _ => exact (hother _ _ rfl nofun nofun nofun).elim

theorem readSound_power (ih : SoundBelow α cs.length) : Level.ReadSound α .power cs := by
  intro ts e r hcs hread
  rw [read_power] at hread
  cases hbase : (Level.primary.read cs : Outcome (Formula α)) with
  | read b r₁ =>
    obtain ⟨us, vs, rfl, hb, hvs⟩ := readSound_primary ih hcs hbase
    have hlt := Level.length_lt_of_read hbase
    simp only [hbase, Outcome.andThen] at hread
    split at hread
    · rename_i r₂ hsign
      obtain ⟨s, vs', rfl, hs, hr₂⟩ := hvs.tail_of_exponentSign hsign
      have hlt₂ : r₂.length < r₁.length :=
        (Phrase.length_exponentSign_lt hsign).trans_le (length_dropGap_le r₁)
      cases hexp : (Level.unary.read r₂ : Outcome (Formula α)) with
      | read x r₃ =>
        obtain ⟨us', vs'', rfl, hx, hr₃⟩ := ih.read .unary r₂ (hlt₂.trans hlt) hr₂ hexp
        rw [hexp] at hread
        cases hread
        exact ⟨us ++ s :: us', vs'', by simp, .pow hs hb hx, hr₃⟩
      | refused r₃ =>
        rw [hexp] at hread
        cases hread
        exact ⟨us, s :: vs', rfl, .base hb, hvs⟩
      | broken r₃ =>
        rw [hexp] at hread
        cases hread
    · cases hread
      exact ⟨us, vs, rfl, .base hb, hvs⟩
  | refused r₁ => rw [hbase] at hread; cases hread
  | broken r₁ => rw [hbase] at hread; cases hread

theorem Derives.negated {ts : List Token} {e : Formula α} (h : Derives .unary ts e) :
    Derives .unary (.minus :: ts) (Phrase.negated e) := by
  cases hc : e.constant? with
  | none =>
    rw [negated_of_constant_eq_none hc]
    exact .minus hc h
  | some v =>
    cases e <;> cases hc
    exact .minusConst h

omit [Scalar α] in
theorem Outcome.within_eq_read {o : Outcome (Formula α)} {f : Formula α → Formula α}
    {e : Formula α} {r : List Char} (h : o.within cs f = .read e r) :
    ∃ u, o = .read u r ∧ e = f u := by
  cases o with
  | read v r' =>
    cases h
    exact ⟨v, rfl, rfl⟩
  | refused r' => cases h
  | broken r' => cases h

omit [Scalar α] in
theorem Outcome.andThen_eq_read {o : Outcome (Formula α)}
    {next : Formula α → List Char → Outcome (Formula α)} {e : Formula α} {r : List Char}
    (h : o.andThen next = .read e r) : ∃ u r', o = .read u r' ∧ next u r' = .read e r := by
  cases o with
  | read v r' => exact ⟨v, r', rfl, h⟩
  | refused r' => cases h
  | broken r' => cases h

omit [Scalar α] in
theorem Outcome.orStop_eq_read {o : Outcome (Formula α)} {acc e : Formula α} {r : List Char}
    {next : Formula α → List Char → Outcome (Formula α)}
    (h : o.orStop acc cs next = .read e r) :
    (∃ u r', o = .read u r' ∧ next u r' = .read e r) ∨ e = acc ∧ r = cs := by
  cases o with
  | read v r' => exact .inl ⟨v, r', rfl, h⟩
  | refused r' =>
    cases h
    exact .inr ⟨rfl, rfl⟩
  | broken r' => cases h

theorem readSound_unary (ih : SoundBelow α cs.length) : Level.ReadSound α .unary cs := by
  intro ts e r hcs hread
  have hoperand : (∀ t ∈ ts.head?, t ≠ .plus ∧ t ≠ .minus) →
      ∃ us vs, ts = us ++ vs ∧ Derives .unary us e ∧ Spells vs r := by
    intro hts
    rw [read_unary_spelled hcs hts] at hread
    obtain ⟨us, vs, rfl, hu, hvs⟩ :=
      readSound_power (ih.mono (length_dropGap_le cs)) (Spells.dropGap_iff.2 hcs) hread
    exact ⟨us, vs, rfl, .operand hu, hvs⟩
  cases ts with
  | nil => exact hoperand (by simp)
  | cons t ts =>
    cases t with
    | minus =>
      obtain ⟨r₁, hminus, -, hr₁⟩ := hcs.of_single rfl
      rw [read_unary_minus hminus] at hread
      obtain ⟨u, hunary, rfl⟩ := Outcome.within_eq_read hread
      have hlt : r₁.length < cs.length := Token.length_lt (t := .minus) hminus
      obtain ⟨us, vs, rfl, hu, hvs⟩ := ih.read .unary r₁ hlt hr₁ hunary
      exact ⟨.minus :: us, vs, rfl, hu.negated, hvs⟩
    | plus =>
      obtain ⟨r₁, hplus, -, hr₁⟩ := hcs.of_single rfl
      rw [read_unary_plus hplus] at hread
      obtain ⟨u, hunary, rfl⟩ := Outcome.within_eq_read hread
      have hlt : r₁.length < cs.length := Token.length_lt (t := .plus) hplus
      obtain ⟨us, vs, rfl, hu, hvs⟩ := ih.read .unary r₁ hlt hr₁ hunary
      exact ⟨.plus :: us, vs, rfl, .plus hu, hvs⟩
    | _ => exact hoperand (by simp)

omit [Scalar α] in
/-- If a phrase is not read further, it stays what it is. -/
theorem Spells.stays {ts : List Token} {P : List Token → Prop} (hcs : Spells ts cs) :
    ∃ us vs, ts = us ++ vs ∧ Spells vs cs ∧ ∀ ws, P ws → P (ws ++ us) :=
  ⟨[], ts, rfl, hcs, fun ws hws => by rwa [List.append_nil]⟩

/-- One further operand of a sum or a product: the reader of `l'` reads it after the tokens
    `sign`, and the reader of `l` proceeds with the tree `node u`. -/
theorem proceedSound_step (sign : List Token) (ih : SoundBelow α cs.length) {l l' : Level}
    {acc e : Formula α} {node : Formula α → Formula α} {ts : List Token} {r r₁ : List Char}
    (hle : r₁.length ≤ cs.length) (hsound : Level.ReadSound α l' r₁)
    (hnode : ∀ ws us vs u, ts = us ++ vs → Derives l ws acc → Derives l' us u →
      Derives l (ws ++ (sign ++ us)) (node u))
    (hcs : Spells (sign ++ ts) cs) (hr₁ : Spells ts r₁)
    (hread : ((l'.read r₁).orStop acc cs fun u r' => l.proceed (node u) r') = .read e r) :
    ∃ us vs, sign ++ ts = us ++ vs ∧ Spells vs r ∧
      ∀ ws, Derives l ws acc → Derives l (ws ++ us) e := by
  rcases Outcome.orStop_eq_read hread with ⟨u, r₂, hoperand, hproceed⟩ | ⟨rfl, rfl⟩
  · obtain ⟨us, vs, rfl, hu, hvs⟩ := hsound hr₁ hoperand
    have hlt := Level.length_lt_of_read hoperand
    obtain ⟨us', vs', rfl, hr, hgrow⟩ := ih.proceed l r₂ (hlt.trans_le hle) hvs hproceed
    refine ⟨sign ++ us ++ us', vs', by simp, hr, fun ws hws => ?_⟩
    rw [← List.append_assoc]
    exact hgrow _ (hnode ws us (us' ++ vs') u rfl hws hu)
  · exact hcs.stays

theorem proceedSound_product (ih : SoundBelow α cs.length) :
    Level.ProceedSound α .product cs := by
  intro ts acc e r hcs hread
  have hstop : (∀ t ∈ ts.head?, t.startsFactor = false ∧ t ≠ .times ∧ t ≠ .slash) →
      ∃ us vs, ts = us ++ vs ∧ Spells vs r ∧
        ∀ ws, Derives .product ws acc → Derives .product (ws ++ us) e := by
    intro hts
    rw [proceed_product_spelled hcs hts] at hread
    cases hread
    exact hcs.stays
  have hfactor : ∀ t ts', ts = t :: ts' → t.startsFactor = true →
      ∃ us vs, ts = us ++ vs ∧ Spells vs r ∧
        ∀ ws, Derives .product ws acc → Derives .product (ws ++ us) e := by
    rintro t ts' rfl ht
    obtain ⟨c, r₁, hc, hfactor⟩ := hcs.head_factor ht
    rw [proceed_product_implicit hc hfactor, ← hc] at hread
    refine proceedSound_step [] ih (length_dropGap_le cs)
      (readSound_power (ih.mono (length_dropGap_le cs))) ?_ hcs (Spells.dropGap_iff.2 hcs) hread
    intro ws us vs u hus hws hu
    -- the factor that was read starts with the token that announced it
    cases us with
    | nil => exact absurd rfl hu.ne_nil
    | cons t' us =>
      cases hus
      exact .implicit ht hws hu
  cases ts with
  | nil => exact hstop (by simp)
  | cons t ts =>
    cases t with
    | times =>
      obtain ⟨r₁, htimes, hend, hr₁⟩ := hcs.of_single rfl
      rw [proceed_product_times htimes hend] at hread
      have hlt : r₁.length < cs.length := Token.length_lt (t := .times) htimes
      exact proceedSound_step [.times] ih hlt.le (ih.read .unary r₁ hlt)
        (fun _ _ _ _ _ hws hu => .mul hws hu) hcs hr₁ hread
    | slash =>
      obtain ⟨r₁, hslash, -, hr₁⟩ := hcs.of_single rfl
      rw [proceed_product_slash hslash] at hread
      have hlt : r₁.length < cs.length := Token.length_lt (t := .slash) hslash
      exact proceedSound_step [.slash] ih hlt.le (ih.read .unary r₁ hlt)
        (fun _ _ _ _ _ hws hu => .div hws hu) hcs hr₁ hread
    | name n => exact hfactor _ _ rfl rfl
    | opening => exact hfactor _ _ rfl rfl
    | _ => exact hstop (by rintro _ ⟨⟩; exact ⟨rfl, nofun, nofun⟩)

theorem readSound_product (ih : SoundBelow α cs.length) : Level.ReadSound α .product cs := by
  intro ts e r hcs hread
  rw [read_product] at hread
  obtain ⟨u, r₁, hunary, hproceed⟩ := Outcome.andThen_eq_read hread
  obtain ⟨us, vs, rfl, hu, hvs⟩ := readSound_unary ih hcs hunary
  have hlt := Level.length_lt_of_read hunary
  obtain ⟨us', vs', rfl, hr, hgrow⟩ := ih.proceed .product r₁ hlt hvs hproceed
  exact ⟨us ++ us', vs', by simp, hgrow us (.factor hu), hr⟩

theorem proceedSound_sum (ih : SoundBelow α cs.length) : Level.ProceedSound α .sum cs := by
  intro ts acc e r hcs hread
  have hstop : (∀ t ∈ ts.head?, t ≠ .plus ∧ t ≠ .minus) →
      ∃ us vs, ts = us ++ vs ∧ Spells vs r ∧
        ∀ ws, Derives .sum ws acc → Derives .sum (ws ++ us) e := by
    intro hts
    rw [proceed_sum_spelled hcs hts] at hread
    cases hread
    exact hcs.stays
  cases ts with
  | nil => exact hstop (by simp)
  | cons t ts =>
    cases t with
    | plus =>
      obtain ⟨r₁, hplus, -, hr₁⟩ := hcs.of_single rfl
      rw [proceed_sum_plus hplus] at hread
      have hlt : r₁.length < cs.length := Token.length_lt (t := .plus) hplus
      exact proceedSound_step [.plus] ih hlt.le (ih.read .product r₁ hlt)
        (fun _ _ _ _ _ hws hu => .add hws hu) hcs hr₁ hread
    | minus =>
      obtain ⟨r₁, hminus, -, hr₁⟩ := hcs.of_single rfl
      rw [proceed_sum_minus hminus] at hread
      have hlt : r₁.length < cs.length := Token.length_lt (t := .minus) hminus
      exact proceedSound_step [.minus] ih hlt.le (ih.read .product r₁ hlt)
        (fun _ _ _ _ _ hws hu => .sub hws hu) hcs hr₁ hread
    | _ => exact hstop (by simp)

theorem readSound_sum (ih : SoundBelow α cs.length) : Level.ReadSound α .sum cs := by
  intro ts e r hcs hread
  rw [read_sum] at hread
  obtain ⟨u, r₁, hproduct, hproceed⟩ := Outcome.andThen_eq_read hread
  obtain ⟨us, vs, rfl, hu, hvs⟩ := readSound_product ih hcs hproduct
  have hlt := Level.length_lt_of_read hproduct
  obtain ⟨us', vs', rfl, hr, hgrow⟩ := ih.proceed .sum r₁ hlt hvs hproceed
  exact ⟨us ++ us', vs', by simp, hgrow us (.term hu), hr⟩

theorem proceedSound_of_stops {l : Level}
    (hl : ∀ acc : Formula α, l.proceed acc cs = .read acc cs) : Level.ProceedSound α l cs := by
  intro ts acc e r hcs hread
  rw [hl] at hread
  cases hread
  exact hcs.stays

/-- Every reader is sound on every text. -/
theorem soundBelow (n : Nat) : SoundBelow α n := by
  induction n with
  | zero =>
    exact ⟨fun _ _ h => absurd h (Nat.not_lt_zero _), fun _ _ h => absurd h (Nat.not_lt_zero _)⟩
  | succ n ih =>
    constructor
    · intro l cs hlt
      have ih' := ih.mono (Nat.le_of_lt_succ hlt)
      cases l with
      | sum => exact readSound_sum ih'
      | product => exact readSound_product ih'
      | unary => exact readSound_unary ih'
      | power => exact readSound_power ih'
      | primary => exact readSound_primary ih'
    · intro l cs hlt
      have ih' := ih.mono (Nat.le_of_lt_succ hlt)
      cases l with
      | sum => exact proceedSound_sum ih'
      | product => exact proceedSound_product ih'
      | _ => exact proceedSound_of_stops fun _ => rfl

theorem Derives.of_read {l : Level} {ts : List Token} {e : Formula α} {r : List Char}
    (hcs : Spells ts cs) (h : l.read cs = .read e r) :
    ∃ us vs, ts = us ++ vs ∧ Derives l us e ∧ Spells vs r :=
  (soundBelow (cs.length + 1)).read l cs (Nat.lt_succ_self _) hcs h

end Soundness

/-! ### Whole texts -/

section Whole

variable {α : Type} [Scalar α] {ts : List Token} {cs : List Char} {e : Formula α}

theorem readTree_spelled_iff (h : Spells ts cs) :
    readTree cs = .ok e ↔ Derives .sum ts e := by
  rw [readTree_eq_ok_iff]
  constructor
  · rintro ⟨-, r, hsum, hrest⟩
    obtain ⟨us, vs, rfl, hu, hvs⟩ := Derives.of_read h hsum
    obtain rfl := hvs.isEmpty_trimStart.1 hrest
    rwa [List.append_nil]
  · intro hderives
    have hne : (trim cs).isEmpty = false :=
      Bool.eq_false_iff.2 fun hempty => hderives.ne_nil (h.isEmpty_trim.1 hempty)
    rw [← List.append_nil ts] at h
    obtain ⟨r, hr, hread⟩ := hderives.reads (by simp) h
    rw [proceed_sum_spelled hr (by simp)] at hread
    exact ⟨hne, r, hread, hr.isEmpty_trimStart.2 rfl⟩

omit [Scalar α] in
theorem find_foreign_eq_none_iff :
    e.variableNames.find? (· != variableName) = none ↔ ∀ v ∈ e.occurrences, v = "x" := by
  simp [variableNames, variableName]

/-- A text is read as a formula if it is read as a tree without another variable than `x`. -/
theorem read_eq_ok_iff {text : String} :
    read text = .ok e ↔ readTree text.toList = .ok e ∧ ∀ v ∈ e.occurrences, v = "x" := by
  rw [read, ← find_foreign_eq_none_iff]
  cases htree : (readTree text.toList : Except ReadError (Formula α)) with
  | error err => simp
  | ok u =>
    cases hfind : u.variableNames.find? (· != variableName) with
    | none =>
      simp only [hfind, Except.ok.injEq]
      exact ⟨fun hu => ⟨hu, hu ▸ hfind⟩, And.left⟩
    | some name =>
      simp only [hfind, Except.ok.injEq]
      refine ⟨nofun, ?_⟩
      rintro ⟨rfl, hnone⟩
      rw [hfind] at hnone
      cases hnone

/-- A text is read as the tree of its tokens, and as nothing if the grammar does not derive
    them or another variable than `x` occurs. -/
theorem read_spelled_iff (h : Spells ts cs) :
    read (String.ofList cs) = .ok e ↔ Derives .sum ts e ∧ ∀ v ∈ e.occurrences, v = "x" := by
  rw [read_eq_ok_iff, String.toList_ofList, readTree_spelled_iff h]

/-- A text whose tokens form a sum is accepted unless another variable occurs. -/
theorem exists_read_spelled_iff (h : Spells ts cs) (he : Derives .sum ts e) :
    (∃ e' : Formula α, read (String.ofList cs) = .ok e') ↔ ∀ v ∈ e.occurrences, v = "x" := by
  constructor
  · rintro ⟨e', he'⟩
    obtain ⟨hderives, hx⟩ := (read_spelled_iff h).1 he'
    -- both trees have the names of the tokens
    rwa [hderives.occurrences_eq, ← he.occurrences_eq] at hx
  · exact fun hx => ⟨e, (read_spelled_iff h).2 ⟨he, hx⟩⟩

/-- An accepted formula has no other variable than `x`. -/
theorem occurrences_of_read {input : String} (h : read input = .ok e) :
    ∀ v ∈ e.occurrences, v = "x" :=
  (read_eq_ok_iff.1 h).2

/-- The reader accepts a text of tokens with gaps between them if and only if the grammar
    derives the tokens and every name is `x`, a constant or a function, and it returns the
    tree of the derivation.  Writing signs of implicit multiplications does not change the
    tree. -/
theorem read_joined_iff (h : Joined ts cs) (e : Formula α) :
    (read (String.ofList cs) = .ok e ↔
        Derives .sum ts e ∧ ∀ n, Token.name n ∈ ts → n.IsKnown) ∧
      ∀ us ds, Relation.ReflTransGen MadeExplicit ts us → Joined us ds →
        read (String.ofList cs) = .ok e → read (String.ofList ds) = .ok e := by
  constructor
  · rw [read_spelled_iff h.spells, isKnown_iff]
    exact and_congr_right fun hderives => by rw [hderives.occurrences_eq]
  · intro us ds hus hds hread
    obtain ⟨hderives, hknown⟩ := (read_spelled_iff h.spells).1 hread
    exact (read_spelled_iff hds.spells).2 ⟨hderives.explicit_all hus, hknown⟩

end Whole

/-- The texts `2 x` and `2 * x` are read as the same product. -/
theorem read_two_x :
    let two : Literal := ⟨['2'], none, none, by simp, by simp, .inl (by simp)⟩
    let tree : Formula Float := .mul (.const two.value) (.var "x")
    read "2 x" = .ok tree ∧ read "2 * x" = .ok tree := by
  intro two tree
  let x : Identifier := ⟨'x', [], rfl, by simp⟩
  have himplicit : Joined [.number two, .name x] "2 x".toList :=
    .cons (.number two) (by simp) isGap_space (by simp) (.single (.name x))
  have hexplicit : Joined [.number two, .times, .name x] "2 * x".toList :=
    .cons (.number two) (by simp) isGap_space (by simp)
      (.cons .times (by simp) isGap_space (by simp) (.single (.name x)))
  have hx : Derives (α := Float) .power [.name x] (.var "x") :=
    .base (.symbol (by decide) (by decide) (by decide))
  have hderives : Derives .sum [.number two, .name x] tree :=
    .term (.implicit rfl (.factor (.operand (.base (.number two)))) hx)
  have hknown : ∀ n, Token.name n ∈ [Token.number two, .name x] → n.IsKnown := by
    intro n hn
    have hnx : n = x := by simpa using hn
    exact .inl (by rw [hnx]; rfl)
  have hread : read "2 x" = .ok tree := (read_joined_iff himplicit tree).1.2 ⟨hderives, hknown⟩
  refine ⟨hread, ?_⟩
  have hmade : MadeExplicit [.number two, .name x] [.number two, .times, .name x] := .here rfl rfl
  exact (read_joined_iff himplicit tree).2 _ _ (.single hmade) hexplicit hread

end NumericMethods.Formula
