/-
  NumericMethods/Proofs/Formula/Token.lean
  ========================================
  **The tokens of a formula and the texts that spell them.**

  A text spells a list of tokens when the tokens follow each other in it with gaps of any
  length between them.  A gap may be empty where the reader could not take the token and
  the character after it for a longer token; between two arbitrary tokens it has at least
  one character (`Joined`).

  The lemmas of this file are the only ones that look at characters: a numeral, a name and
  a sign are each read back from their spelling, with the text after them as the rest.
-/
import Mathlib.Data.List.DropRight
import NumericMethods.Formula.Reader

namespace NumericMethods.Formula

open Text

/-! ### Literals and identifiers -/

/-- The exponent of a literal, as it is written. -/
structure LiteralExponent where
  capital : Bool
  /-- The sign, if one is written: `true` for minus. -/
  sign : Option Bool
  digits : List Char
  digits_ne_nil : digits ≠ []
  isDigit_digits : ∀ c ∈ digits, c.isDigit = true

/-- An unsigned number literal: digits with an optional point and further digits, or a
    point and digits, and an optional exponent. -/
structure Literal where
  whole : List Char
  /-- The digits after the point, if there is a point. -/
  fraction : Option (List Char)
  exponent : Option LiteralExponent
  isDigit_whole : ∀ c ∈ whole, c.isDigit = true
  isDigit_fraction : ∀ ds ∈ fraction, ∀ c ∈ ds, c.isDigit = true
  hasDigits : whole ≠ [] ∨ ∃ ds ∈ fraction, ds ≠ []

/-- A name: a letter or an underscore, then letters, digits and underscores. -/
structure Identifier where
  first : Char
  others : List Char
  starts : Phrase.startsName first = true
  continues : ∀ c ∈ others, Phrase.continuesName c = true

namespace LiteralExponent

def value (x : LiteralExponent) : Int :=
  match x.sign with
  | some true => -(Decimal.digitsValue x.digits : Int)
  | _ => (Decimal.digitsValue x.digits : Int)

def signText (x : LiteralExponent) : List Char :=
  match x.sign with
  | some true => ['-']
  | some false => ['+']
  | none => []

def text (x : LiteralExponent) : List Char :=
  (if x.capital then 'E' else 'e') :: (x.signText ++ x.digits)

end LiteralExponent

namespace Literal

/-- The point of a literal and the digits after it. -/
def fractionText (l : Literal) : List Char :=
  match l.fraction with
  | some ds => '.' :: ds
  | none => []

def exponentText (l : Literal) : List Char :=
  match l.exponent with
  | some x => x.text
  | none => []

def text (l : Literal) : List Char := l.whole ++ l.fractionText ++ l.exponentText

/-- The literal taken apart the way the reader of numerals does. -/
def numeral (l : Literal) : Decimal.Numeral :=
  ⟨l.whole, l.fraction.getD [], (l.exponent.map LiteralExponent.value).getD 0⟩

end Literal

namespace Identifier

def text (n : Identifier) : List Char := n.first :: n.others

/-- The name as a string. -/
def name (n : Identifier) : String := String.ofList n.text

end Identifier

/-! ### Tokens -/

/-- A token of a formula. -/
inductive Token where
  | number (l : Literal)
  | name (n : Identifier)
  | plus
  | minus
  | times
  | slash
  | caret
  | stars
  | opening
  | closing

namespace Token

def text : Token → List Char
  | number l => l.text
  | name n => n.text
  | plus => ['+']
  | minus => ['-']
  | times => ['*']
  | slash => ['/']
  | caret => ['^']
  | stars => ['*', '*']
  | opening => ['(']
  | closing => [')']

/-- The two spellings of the exponentiation sign. -/
def isPowerSign : Token → Bool
  | caret => true
  | stars => true
  | _ => false

/-- Whether a factor may start with the token where no sign of multiplication is
    written. -/
def startsFactor : Token → Bool
  | name _ => true
  | opening => true
  | _ => false

/-- Whether an operand may end with the token.  The name of a function is followed by its
    argument. -/
def endsOperand : Token → Bool
  | number _ => true
  | name n => (Elementary.ofName? n.name).isNone
  | closing => true
  | _ => false

end Token

/-- The characters that may continue a numeral. -/
def continuesNumber (c : Char) : Bool := c.isDigit || c = '.' || c = 'e' || c = 'E'

/-- Whether the reader ends the token `t` where the text `r` begins. -/
def Token.endsBefore : Token → List Char → Prop
  | .number _, r => ∀ c ∈ r.head?, continuesNumber c = false
  | .name _, r => ∀ c ∈ r.head?, Phrase.continuesName c = false
  | .times, r => r.head? ≠ some '*'
  | _, _ => True

/-! ### Spelling -/

/-- A text that consists of the given tokens, with gaps before, between and after them. -/
def Spells : List Token → List Char → Prop
  | [], cs => dropGap cs = []
  | t :: ts, cs => ∃ r, dropGap cs = t.text ++ r ∧ t.endsBefore r ∧ Spells ts r

/-- The text that joins the tokens with non-empty gaps. -/
inductive Joined : List Token → List Char → Prop
  | nil : Joined [] []
  | single (t : Token) : Joined [t] t.text
  | cons (t : Token) {gap : List Char} {ts : List Token} {cs : List Char}
      (nonempty : gap ≠ []) (blank : ∀ c ∈ gap, isGap c = true)
      (tokens : ts ≠ []) (rest : Joined ts cs) : Joined (t :: ts) (t.text ++ gap ++ cs)

/-! ### Characters of numerals and names

A run of characters of one class that another character ends is split off whole. -/

section Munch

variable {p : Char → Bool} {xs r : List Char}

theorem takeWhile_eq_nil (h : ∀ c ∈ r.head?, p c = false) : r.takeWhile p = [] := by
  cases r with
  | nil => rfl
  | cons c r => simp [h c rfl]

theorem dropWhile_eq_self (h : ∀ c ∈ r.head?, p c = false) : r.dropWhile p = r := by
  cases r with
  | nil => rfl
  | cons c r => simp [h c rfl]

theorem takeWhile_append (hxs : ∀ c ∈ xs, p c = true) (hr : ∀ c ∈ r.head?, p c = false) :
    (xs ++ r).takeWhile p = xs := by
  rw [List.takeWhile_append_of_pos hxs, takeWhile_eq_nil hr, List.append_nil]

theorem dropWhile_append (hxs : ∀ c ∈ xs, p c = true) (hr : ∀ c ∈ r.head?, p c = false) :
    (xs ++ r).dropWhile p = r := by
  rw [List.dropWhile_append_of_pos hxs, dropWhile_eq_self hr]

end Munch

theorem digitRun_append {ds r : List Char} (hne : ds ≠ []) (hds : ∀ c ∈ ds, c.isDigit = true)
    (hr : ∀ c ∈ r.head?, c.isDigit = false) :
    Decimal.digitRun? (ds ++ r) = some (Decimal.digitsValue ds, r) := by
  rw [Decimal.digitRun?, takeWhile_append hds hr, dropWhile_append hds hr, if_neg hne]

theorem isDigit_eq_false {r : List Char} (hr : ∀ c ∈ r.head?, continuesNumber c = false) :
    ∀ c ∈ r.head?, c.isDigit = false := by
  intro c hc
  have h := hr c hc
  simp only [continuesNumber, Bool.or_eq_false_iff] at h
  exact h.1.1.1

theorem signedRun_append (x : LiteralExponent) {r : List Char}
    (hr : ∀ c ∈ r.head?, c.isDigit = false) :
    Decimal.signedRun? (x.signText ++ x.digits ++ r) = some (x.value, r) := by
  have hrun := digitRun_append x.digits_ne_nil x.isDigit_digits hr
  unfold LiteralExponent.signText LiteralExponent.value
  match x.sign with
  | some true => simp [Decimal.signedRun?, hrun]
  | some false => simp [Decimal.signedRun?, hrun]
  | none =>
    obtain ⟨d, ds, hd⟩ := List.exists_cons_of_ne_nil x.digits_ne_nil
    have hdigit : d.isDigit = true := x.isDigit_digits d (by rw [hd]; exact List.mem_cons_self)
    rw [hd] at hrun ⊢
    simp only [List.nil_append, List.cons_append] at hrun ⊢
    -- the first digit is neither of the two signs
    unfold Decimal.signedRun?
    split
    · rename_i heq; cases heq; simp at hdigit
    · rename_i heq; cases heq; simp at hdigit
    · rw [hrun]; rfl

theorem exponentOf_append (l : Literal) {r : List Char}
    (hr : ∀ c ∈ r.head?, continuesNumber c = false) :
    Decimal.exponentOf (l.exponentText ++ r) =
      ((l.exponent.map LiteralExponent.value).getD 0, r) := by
  unfold Literal.exponentText
  cases l.exponent with
  | none =>
    simp only [List.nil_append, Option.map_none, Option.getD_none]
    unfold Decimal.exponentOf
    split
    · simp [continuesNumber] at hr
    · simp [continuesNumber] at hr
    · rfl
  | some x =>
    have hrun := signedRun_append x (isDigit_eq_false hr)
    change Decimal.exponentOf (x.text ++ r) = (x.value, r)
    rw [LiteralExponent.text, List.cons_append]
    cases x.capital with
    | false => simp only [Bool.false_eq_true, if_false, Decimal.exponentOf, hrun]; rfl
    | true => simp only [if_true, Decimal.exponentOf, hrun]; rfl

theorem mantissa_append (l : Literal) {r : List Char}
    (hr : ∀ c ∈ r.head?, c.isDigit = false) (hpoint : l.fraction = none → r.head? ≠ some '.') :
    Decimal.mantissa? (l.whole ++ l.fractionText ++ r) =
      some (l.whole, l.fraction.getD [], r) := by
  have hdigits := l.hasDigits
  unfold Decimal.mantissa? Literal.fractionText
  cases hf : l.fraction with
  | none =>
    have hw : l.whole ≠ [] := by simpa [hf] using hdigits
    have hpoint' : r.head? ≠ some '.' := hpoint hf
    simp only [List.append_nil]
    rw [takeWhile_append l.isDigit_whole hr, dropWhile_append l.isDigit_whole hr]
    split
    · simp at hpoint'
    · rw [if_neg hw]; rfl
  | some ds =>
    have hds := l.isDigit_fraction ds hf
    have hne : ¬(l.whole = [] ∧ ds = []) := by
      intro h
      simp [hf, h.1, h.2] at hdigits
    have hdot : ∀ c ∈ ('.' :: (ds ++ r)).head?, c.isDigit = false := by simp
    simp only [List.append_assoc, List.cons_append]
    rw [takeWhile_append l.isDigit_whole hdot, dropWhile_append l.isDigit_whole hdot]
    simp only [takeWhile_append hds hr, dropWhile_append hds hr, if_neg hne]
    rfl

theorem numeral_append (l : Literal) {r : List Char}
    (hr : ∀ c ∈ r.head?, continuesNumber c = false) :
    Decimal.numeral? (l.text ++ r) = some (l.numeral, r) := by
  have hhead : ∀ c ∈ (l.exponentText ++ r).head?, c.isDigit = false ∧ c ≠ '.' := by
    unfold Literal.exponentText
    cases l.exponent with
    | none =>
      intro c hc
      have := hr c hc
      simp only [continuesNumber, Bool.or_eq_false_iff, decide_eq_false_iff_not] at this
      exact ⟨this.1.1.1, this.1.1.2⟩
    | some x => cases hc : x.capital <;> simp [LiteralExponent.text, hc]
  have hmantissa := mantissa_append l (r := l.exponentText ++ r) (fun c hc => (hhead c hc).1)
    (fun _ h => (hhead '.' h).2 rfl)
  rw [Literal.text, List.append_assoc, Decimal.numeral?, hmantissa]
  simp only [Option.map_some, exponentOf_append l hr]
  rfl

theorem numeral_eq_none {c : Char} {r : List Char} (hdigit : c.isDigit = false)
    (hpoint : c ≠ '.') : Decimal.numeral? (c :: r) = none := by
  unfold Decimal.numeral? Decimal.mantissa?
  simp only [List.takeWhile_cons, List.dropWhile_cons, hdigit]
  split
  · rename_i heq
    cases heq
    exact absurd rfl hpoint
  · simp

/-! ### Blanks

No token starts with a blank, so the gap before a token ends where the token starts. -/

theorem isBlank_eq_false {c : Char} (hlow : 33 ≤ c.toNat) (hhigh : c.toNat ≤ 127) :
    isBlank c = false := by
  simp only [isBlank, Bool.or_eq_false_iff, Bool.and_eq_false_iff, decide_eq_false_iff_not]
  omega

theorem isBlank_of_isGap {c : Char} (h : isGap c = true) : isBlank c = true := by
  simp only [isGap, Bool.or_eq_true, decide_eq_true_eq] at h
  rcases h with ((rfl | rfl) | rfl) | rfl <;> rfl

/-- One space is a gap. -/
theorem isGap_space : ∀ c ∈ [' '], isGap c = true := by
  intro c hc
  rw [List.mem_singleton.1 hc]
  rfl

theorem isGap_eq_false {c : Char} (h : isBlank c = false) : isGap c = false := by
  cases hc : isGap c with
  | false => rfl
  | true => rw [isBlank_of_isGap hc] at h; cases h

theorem toNat_of_isDigit {c : Char} (h : c.isDigit = true) : 48 ≤ c.toNat ∧ c.toNat ≤ 57 := by
  simp only [Char.isDigit, Bool.and_eq_true, decide_eq_true_eq] at h
  exact ⟨UInt32.le_iff_toNat_le.1 h.1, UInt32.le_iff_toNat_le.1 h.2⟩

theorem toNat_of_startsName {c : Char} (h : Phrase.startsName c = true) :
    65 ≤ c.toNat ∧ c.toNat ≤ 122 := by
  rcases Bool.or_eq_true_iff.1 h with hletter | hscore
  · rcases Bool.or_eq_true_iff.1 hletter with hupper | hlower
    · obtain ⟨hlow, hhigh⟩ := of_decide_eq_true hupper
      have hlow : 65 ≤ c.toNat := UInt32.le_iff_toNat_le.1 hlow
      have hhigh : c.toNat ≤ 90 := UInt32.le_iff_toNat_le.1 hhigh
      omega
    · obtain ⟨hlow, hhigh⟩ := Bool.and_eq_true_iff.1 hlower
      have hlow : 97 ≤ c.toNat := UInt32.le_iff_toNat_le.1 (of_decide_eq_true hlow)
      have hhigh : c.toNat ≤ 122 := UInt32.le_iff_toNat_le.1 (of_decide_eq_true hhigh)
      omega
  · obtain rfl := of_decide_eq_true hscore
    decide

theorem isDigit_of_startsName {c : Char} (h : Phrase.startsName c = true) :
    c.isDigit = false := by
  cases hc : c.isDigit with
  | false => rfl
  | true =>
    have hdigit := toNat_of_isDigit hc
    have hname := toNat_of_startsName h
    omega

theorem isBlank_of_isDigit {c : Char} (h : c.isDigit = true) : isBlank c = false := by
  have hc := toNat_of_isDigit h
  exact isBlank_eq_false (by omega) (by omega)

theorem isBlank_of_startsName {c : Char} (h : Phrase.startsName c = true) :
    isBlank c = false := by
  have hc := toNat_of_startsName h
  exact isBlank_eq_false (by omega) (by omega)

theorem Literal.text_eq_cons (l : Literal) :
    ∃ c r, l.text = c :: r ∧ (c.isDigit = true ∨ c = '.') := by
  unfold Literal.text Literal.fractionText
  cases hw : l.whole with
  | cons c r => exact ⟨c, _, rfl, .inl (l.isDigit_whole c (by rw [hw]; exact List.mem_cons_self))⟩
  | nil =>
    rcases l.hasDigits with h | ⟨ds, hds, -⟩
    · exact absurd hw h
    · rw [Option.mem_def.1 hds]
      exact ⟨'.', _, rfl, .inr rfl⟩

theorem Token.text_eq_cons (t : Token) : ∃ c r, t.text = c :: r ∧ isBlank c = false := by
  cases t with
  | number l =>
    obtain ⟨c, r, htext, hc⟩ := l.text_eq_cons
    refine ⟨c, r, htext, ?_⟩
    rcases hc with hc | rfl
    · exact isBlank_of_isDigit hc
    · rfl
  | name n => exact ⟨n.first, n.others, rfl, isBlank_of_startsName n.starts⟩
  | _ => exact ⟨_, _, rfl, rfl⟩

theorem Token.dropGap_text (t : Token) (r : List Char) : dropGap (t.text ++ r) = t.text ++ r := by
  obtain ⟨c, cs, htext, hc⟩ := t.text_eq_cons
  rw [htext, List.cons_append, dropGap, List.dropWhile_cons, isGap_eq_false hc]
  rfl

/-- A gap ends every token. -/
theorem Token.endsBefore_gap (t : Token) {r : List Char} (h : ∀ c ∈ r.head?, isGap c = true) :
    t.endsBefore r := by
  have key : ∀ p : Char → Bool, p ' ' = false → p '\t' = false → p '\r' = false →
      p '\n' = false → ∀ c ∈ r.head?, p c = false := by
    intro p h1 h2 h3 h4 c hc
    have hgap := h c hc
    simp only [isGap, Bool.or_eq_true, decide_eq_true_eq] at hgap
    rcases hgap with ((rfl | rfl) | rfl) | rfl <;> assumption
  cases t with
  | number l => exact key continuesNumber rfl rfl rfl rfl
  | name n => exact key Phrase.continuesName rfl rfl rfl rfl
  | times =>
    intro hstar
    have := h '*' hstar
    cases this
  | _ => trivial

/-! ### Texts and the tokens they spell -/

namespace Spells

variable {ts : List Token} {cs cs' : List Char}

theorem nil : Spells [] [] := rfl

theorem of_dropGap_eq (hdrop : dropGap cs = dropGap cs') (h : Spells ts cs) :
    Spells ts cs' := by
  cases ts with
  | nil => exact hdrop.symm.trans h
  | cons t ts =>
    obtain ⟨r, hr, hrest⟩ := h
    exact ⟨r, hdrop ▸ hr, hrest⟩

theorem dropGap_iff : Spells ts (dropGap cs) ↔ Spells ts cs := by
  have hdrop : dropGap (dropGap cs) = dropGap cs := List.dropWhile_idempotent isGap cs
  exact ⟨of_dropGap_eq hdrop, of_dropGap_eq hdrop.symm⟩

theorem gap_append {gap : List Char} (hgap : ∀ c ∈ gap, isGap c = true) (h : Spells ts cs) :
    Spells ts (gap ++ cs) :=
  of_dropGap_eq (List.dropWhile_append_of_pos hgap).symm h

theorem token_append (t : Token) (hend : t.endsBefore cs) (h : Spells ts cs) :
    Spells (t :: ts) (t.text ++ cs) :=
  ⟨cs, t.dropGap_text cs, hend, h⟩

/-- A text is blank if and only if it spells no tokens. -/
theorem blank_iff (h : Spells ts cs) : (∀ c ∈ cs, isBlank c = true) ↔ ts = [] := by
  cases ts with
  | nil =>
    have hgap : ∀ c ∈ cs, isGap c = true := List.dropWhile_eq_nil_iff.1 h
    exact ⟨fun _ => rfl, fun _ c hc => isBlank_of_isGap (hgap c hc)⟩
  | cons t ts =>
    refine ⟨fun hblank => ?_, fun hnil => by cases hnil⟩
    obtain ⟨r, hr, -⟩ := h
    obtain ⟨c, text, htext, hc⟩ := t.text_eq_cons
    have hmem : c ∈ cs := by
      have hsuffix : dropGap cs <:+ cs := List.dropWhile_suffix isGap
      exact hsuffix.subset (by rw [hr, htext]; exact List.mem_cons_self)
    rw [hblank c hmem] at hc
    cases hc

theorem isEmpty_trimStart (h : Spells ts cs) : (trimStart cs).isEmpty = true ↔ ts = [] := by
  rw [List.isEmpty_iff, trimStart, List.dropWhile_eq_nil_iff]
  exact h.blank_iff

theorem isEmpty_trim (h : Spells ts cs) : (trim cs).isEmpty = true ↔ ts = [] := by
  rw [← h.isEmpty_trimStart, List.isEmpty_iff, List.isEmpty_iff, trim, trimEnd,
    List.reverse_eq_nil_iff, List.dropWhile_eq_nil_iff]
  constructor
  · intro hblank
    have hblank' : ∀ c ∈ trimStart cs, isBlank c = true := by simpa using hblank
    calc trimStart cs = (trimStart cs).dropWhile isBlank :=
          (List.dropWhile_idempotent isBlank cs).symm
      _ = [] := List.dropWhile_eq_nil_iff.2 hblank'
  · intro hstart
    simp [hstart]

end Spells

theorem Joined.spells {ts : List Token} {cs : List Char} (h : Joined ts cs) : Spells ts cs := by
  induction h with
  | nil => rfl
  | single t =>
    simpa using Spells.nil.token_append t (t.endsBefore_gap (by simp))
  | cons t nonempty blank tokens rest ih =>
    rw [List.append_assoc]
    refine (ih.gap_append blank).token_append t (t.endsBefore_gap ?_)
    obtain ⟨c, gap, rfl⟩ := List.exists_cons_of_ne_nil nonempty
    simpa using blank c List.mem_cons_self

end NumericMethods.Formula
