/-
  NumericMethods/Proofs/Formula/Phrase.lean
  =========================================
  **Texts that are put together from phrases of the grammar.**

  A text that is written by hand, and not printed from a tree, is read as a formula if its
  parts are phrases (`IsPhrase`).  Which characters may follow a phrase depends on how it
  ends: anything may follow a parenthesis, what continues a numeral may not follow a
  numeral, and letters may not follow a name.  Each way to join two phrases asks that the
  character it puts between them may follow the first.

  A text in which other variables than `x` occur is a phrase too (`HasTree`), but it is not
  accepted.  Where it depends on a condition which of the two a text is, `IsPhraseIf`
  carries the condition through the joins, up to the text being accepted exactly under it.
-/
import NumericMethods.Proofs.Formula.Printing

namespace NumericMethods.Formula

open Text

variable {α : Type} [Scalar α]

/-- The text spells the tokens at the end and in front of these characters. -/
def SpelledBefore (p : Char → Prop) (ts : List Token) (cs : List Char) : Prop :=
  ∀ us r, (∀ c ∈ r.head?, p c) → Spells us r → Spells (ts ++ us) (cs ++ r)

/-- The text is a phrase of the level at the end and in front of these characters, and this
    is its tree, in no other variable than `x`. -/
structure IsPhrase (l : Level) (p : Char → Prop) (cs : List Char) (e : Formula α) : Prop where
  derives : ∃ ts, SpelledBefore p ts cs ∧ Derives l ts e
  variable_eq : ∀ v ∈ e.occurrences, v = "x"

/-- The text is a phrase of the level at the end and in front of these characters, and this
    is its tree, in any variables. -/
def HasTree (l : Level) (p : Char → Prop) (cs : List Char) (e : Formula α) : Prop :=
  ∃ ts, SpelledBefore p ts cs ∧ Derives l ts e

/-- The characters that may follow a numeral. -/
def AfterNumber (c : Char) : Prop := continuesNumber c = false

/-- The characters that may follow a name. -/
def AfterName (c : Char) : Prop := Phrase.continuesName c = false

/-! ### Tokens and phrases -/

variable {p q : Char → Prop} {ts us : List Token} {cs ds : List Char} {t : Token}
  {e u v : Formula α} {l l' : Level}

namespace SpelledBefore

theorem whole (h : SpelledBefore p ts cs) : Spells ts cs := by
  simpa using h [] [] (by simp) Spells.nil

theorem mono (h : SpelledBefore p ts cs) (hnext : ∀ c, q c → p c) :
    SpelledBefore q ts cs :=
  fun us r hr => h us r fun c hc => hnext c (hr c hc)

theorem token (t : Token) (h : ∀ r, (∀ c ∈ r.head?, p c) → t.endsBefore r) :
    SpelledBefore p [t] t.text :=
  fun _ r hr hus => hus.token_append t (h r hr)

theorem cons (hus : SpelledBefore p us ds) (ht : ∀ r, t.endsBefore (ds ++ r)) :
    SpelledBefore p (t :: us) (t.text ++ ds) := by
  intro vs r hr hvs
  rw [List.append_assoc]
  exact (hus vs r hr hvs).token_append t (ht r)

theorem append (hts : SpelledBefore p ts cs) (hus : SpelledBefore q us ds)
    (hds : ∀ r, ∀ c ∈ (ds ++ r).head?, p c) : SpelledBefore q (ts ++ us) (cs ++ ds) := by
  intro vs r hr hvs
  rw [List.append_assoc, List.append_assoc]
  exact hts (us ++ vs) (ds ++ r) (hds r) (hus vs r hr hvs)

/-- A sign with spaces around it. -/
theorem spaced (hts : SpelledBefore p ts cs) (hspace : p ' ') (hus : SpelledBefore q us ds)
    (ht : ∀ r, t.endsBefore (' ' :: r)) :
    SpelledBefore q (ts ++ t :: us) (cs ++ ' ' :: (t.text ++ ' ' :: ds)) := by
  intro vs r hr hvs
  have hright := (hus vs r hr hvs).gap_append isGap_space
  have hsign := (hright.token_append t (ht _)).gap_append isGap_space
  have hleft := hts _ _ (by rintro _ ⟨⟩; exact hspace) hsign
  simpa using hleft

/-- Anything may follow a parenthesis. -/
theorem parenthesis (hts : SpelledBefore p ts cs) (hclose : p ')') (q : Char → Prop) :
    SpelledBefore q (.opening :: (ts ++ [.closing])) ('(' :: (cs ++ [')'])) := by
  have hclosing := token .closing (p := q) fun _ _ => trivial
  have hinner := hts.append hclosing (by rintro _ _ ⟨⟩; exact hclose)
  exact hinner.cons (t := .opening) fun _ => trivial

theorem number (n : Literal) : SpelledBefore AfterNumber [.number n] n.text :=
  token (.number n) fun _ hr => hr

theorem name_x : SpelledBefore AfterName [.name variableIdentifier] ['x'] :=
  token (.name variableIdentifier) fun _ hr => hr

end SpelledBefore

theorem derives_variable : Derives .primary [.name variableIdentifier] (.var "x" : Formula α) :=
  .symbol (by decide) (by decide) (by decide)

namespace HasTree

theorem mono (h : HasTree l p cs e) (hnext : ∀ c, q c → p c) : HasTree l q cs e := by
  obtain ⟨ts, hts, he⟩ := h
  exact ⟨ts, hts.mono hnext, he⟩

theorem imp (h : HasTree l p cs e) (hl : ∀ ts, Derives l ts e → Derives l' ts e) :
    HasTree l' p cs e := by
  obtain ⟨ts, hts, he⟩ := h
  exact ⟨ts, hts, hl ts he⟩

theorem negated (h : HasTree .unary p cs e) :
    HasTree .unary p ('-' :: cs) (Phrase.negated e) := by
  obtain ⟨ts, hts, he⟩ := h
  exact ⟨_, hts.cons (t := .minus) fun _ => trivial, he.negated⟩

/-- A name that is neither a function nor a constant stands for a variable. -/
theorem symbol (n : Identifier) (hf : Elementary.ofName? n.name = none) (hpi : n.name ≠ "pi")
    (he : n.name ≠ "e") : HasTree .primary AfterName n.text (.var n.name : Formula α) :=
  ⟨_, SpelledBefore.token (.name n) fun _ hr => hr, .symbol hf hpi he⟩

theorem pow (h : HasTree .primary p cs u) (hcaret : p '^') (n : Literal) :
    HasTree .power AfterNumber (cs ++ '^' :: n.text) (.pow u (.const n.value)) := by
  obtain ⟨ts, hts, hu⟩ := h
  have hexponent := (SpelledBefore.number n).cons (t := .caret) fun _ => trivial
  exact ⟨_, hts.append hexponent (by rintro _ _ ⟨⟩; exact hcaret),
    .pow rfl hu (.unary_of_primary (.number n))⟩

theorem add (hu : HasTree .sum p cs u) (hspace : p ' ') (hv : HasTree .product q ds v) :
    HasTree .sum q (cs ++ ' ' :: '+' :: ' ' :: ds) (.add u v) := by
  obtain ⟨ts, hts, hu⟩ := hu
  obtain ⟨us, hus, hv⟩ := hv
  exact ⟨_, hts.spaced (t := .plus) hspace hus fun _ => trivial, .add hu hv⟩

theorem sub (hu : HasTree .sum p cs u) (hspace : p ' ') (hv : HasTree .product q ds v) :
    HasTree .sum q (cs ++ ' ' :: '-' :: ' ' :: ds) (.sub u v) := by
  obtain ⟨ts, hts, hu⟩ := hu
  obtain ⟨us, hus, hv⟩ := hv
  exact ⟨_, hts.spaced (t := .minus) hspace hus fun _ => trivial, .sub hu hv⟩

/-- A text that is a phrase is accepted unless another variable than `x` occurs in it. -/
theorem exists_read_iff {text : String} (h : HasTree .sum p text.toList e) :
    (∃ e' : Formula α, read text = .ok e') ↔ ∀ v ∈ e.occurrences, v = "x" := by
  obtain ⟨ts, hts, he⟩ := h
  rw [← String.ofList_toList (s := text)]
  exact exists_read_spelled_iff hts.whole he

end HasTree

namespace IsPhrase

theorem hasTree (h : IsPhrase l p cs e) : HasTree l p cs e := h.derives

theorem mono (h : IsPhrase l p cs e) (hnext : ∀ c, q c → p c) :
    IsPhrase l q cs e :=
  ⟨h.hasTree.mono hnext, h.variable_eq⟩

theorem imp (h : IsPhrase l p cs e) (hl : ∀ ts, Derives l ts e → Derives l' ts e) :
    IsPhrase l' p cs e :=
  ⟨h.hasTree.imp hl, h.variable_eq⟩

theorem sum_of_product (h : IsPhrase .product p cs e) : IsPhrase .sum p cs e :=
  h.imp fun _ => .term

theorem product_of_unary (h : IsPhrase .unary p cs e) : IsPhrase .product p cs e :=
  h.imp fun _ => .factor

theorem unary_of_primary (h : IsPhrase .primary p cs e) : IsPhrase .unary p cs e :=
  h.imp fun _ => Derives.unary_of_primary

theorem product_of_primary (h : IsPhrase .primary p cs e) : IsPhrase .product p cs e :=
  h.unary_of_primary.product_of_unary

theorem sum_of_unary (h : IsPhrase .unary p cs e) : IsPhrase .sum p cs e :=
  h.product_of_unary.sum_of_product

theorem number (n : Literal) : IsPhrase .primary AfterNumber n.text (.const n.value : Formula α) :=
  ⟨⟨_, .number n, .number n⟩, by simp [occurrences]⟩

theorem negated (h : IsPhrase .unary p cs e) :
    IsPhrase .unary p ('-' :: cs) (Phrase.negated e) :=
  ⟨h.hasTree.negated, by rw [occurrences_negated]; exact h.variable_eq⟩

theorem minus_number (n : Literal) :
    IsPhrase .unary AfterNumber ('-' :: n.text) (.const (-n.value) : Formula α) :=
  (number n).unary_of_primary.negated

theorem var_x : IsPhrase .primary AfterName ['x'] (.var "x" : Formula α) :=
  ⟨⟨_, .name_x, derives_variable⟩, by simp [occurrences]⟩

theorem parenthesis (h : IsPhrase .sum p cs e) (hclose : p ')') (q : Char → Prop) :
    IsPhrase .primary q ('(' :: (cs ++ [')'])) e := by
  obtain ⟨⟨ts, hts, he⟩, hx⟩ := h
  exact ⟨⟨_, hts.parenthesis hclose q, .parenthesis he⟩, hx⟩

/-! ### Sums and products -/

theorem add (hu : IsPhrase .sum p cs u) (hspace : p ' ') (hv : IsPhrase .product q ds v) :
    IsPhrase .sum q (cs ++ ' ' :: '+' :: ' ' :: ds) (.add u v) :=
  ⟨hu.hasTree.add hspace hv.hasTree, List.forall_mem_append.2 ⟨hu.variable_eq, hv.variable_eq⟩⟩

theorem sub (hu : IsPhrase .sum p cs u) (hspace : p ' ') (hv : IsPhrase .product q ds v) :
    IsPhrase .sum q (cs ++ ' ' :: '-' :: ' ' :: ds) (.sub u v) :=
  ⟨hu.hasTree.sub hspace hv.hasTree, List.forall_mem_append.2 ⟨hu.variable_eq, hv.variable_eq⟩⟩

theorem mul (hu : IsPhrase .product p cs u) (htimes : p '*')
    (hv : IsPhrase .unary q ds v) (hds : ∀ r, (ds ++ r).head? ≠ some '*') :
    IsPhrase .product q (cs ++ '*' :: ds) (.mul u v) := by
  obtain ⟨⟨ts, hts, hu⟩, hxu⟩ := hu
  obtain ⟨⟨us, hus, hv⟩, hxv⟩ := hv
  have hright := hus.cons (t := .times) hds
  exact ⟨⟨_, hts.append hright (by rintro _ _ ⟨⟩; exact htimes), .mul hu hv⟩,
    List.forall_mem_append.2 ⟨hxu, hxv⟩⟩

theorem div (hu : IsPhrase .product p cs u) (hslash : p '/')
    (hv : IsPhrase .unary q ds v) : IsPhrase .product q (cs ++ '/' :: ds) (.div u v) := by
  obtain ⟨⟨ts, hts, hu⟩, hxu⟩ := hu
  obtain ⟨⟨us, hus, hv⟩, hxv⟩ := hv
  have hright := hus.cons (t := .slash) fun _ => trivial
  exact ⟨⟨_, hts.append hright (by rintro _ _ ⟨⟩; exact hslash), .div hu hv⟩,
    List.forall_mem_append.2 ⟨hxu, hxv⟩⟩

/-! ### Factors without a sign of multiplication -/

theorem mul_parenthesis (hu : IsPhrase .product p cs u) (hopen : p '(')
    (hv : IsPhrase .sum q ds v) (hclose : q ')') (q' : Char → Prop) :
    IsPhrase .product q' (cs ++ '(' :: (ds ++ [')'])) (.mul u v) := by
  obtain ⟨⟨ts, hts, hu⟩, hxu⟩ := hu
  obtain ⟨⟨us, hus, hv⟩, hxv⟩ := hv
  have hright := hus.parenthesis hclose q'
  exact ⟨⟨_, hts.append hright (by rintro _ _ ⟨⟩; exact hopen),
    .implicit rfl hu (.base (.parenthesis hv))⟩, List.forall_mem_append.2 ⟨hxu, hxv⟩⟩

theorem mul_x (hu : IsPhrase .product p cs u) (hx : p 'x') :
    IsPhrase .product AfterName (cs ++ ['x']) (.mul u (.var "x")) := by
  obtain ⟨⟨ts, hts, hu⟩, hxu⟩ := hu
  exact ⟨⟨_, hts.append .name_x (by rintro _ _ ⟨⟩; exact hx),
    .implicit rfl hu (.base derives_variable)⟩,
    List.forall_mem_append.2 ⟨hxu, var_x.variable_eq⟩⟩

theorem mul_x_pow (hu : IsPhrase .product p cs u) (hx : p 'x') (n : Literal) :
    IsPhrase .product AfterNumber (cs ++ 'x' :: '^' :: n.text)
      (.mul u (.pow (.var "x") (.const n.value))) := by
  obtain ⟨⟨ts, hts, hu⟩, hxu⟩ := hu
  have hexponent := (SpelledBefore.number n).cons (t := .caret) fun _ => trivial
  have hpower := SpelledBefore.name_x.append hexponent (by rintro _ _ ⟨⟩; rfl)
  exact ⟨⟨_, hts.append hpower (by rintro _ _ ⟨⟩; exact hx),
    .implicit rfl hu (.pow rfl derives_variable (.unary_of_primary (.number n)))⟩,
    List.forall_mem_append.2 ⟨hxu, by simp [occurrences]⟩⟩

/-- A text that is a phrase is read as its tree. -/
theorem read_eq {text : String} (h : IsPhrase .sum p text.toList e) : read text = .ok e := by
  obtain ⟨⟨ts, hts, he⟩, hx⟩ := h
  rw [← String.ofList_toList (s := text)]
  exact (read_spelled_iff hts.whole).2 ⟨he, hx⟩

end IsPhrase

/-! ### Texts that are accepted under a condition -/

/-- The text is a phrase, and another variable than `x` occurs in it unless `P` holds. -/
def IsPhraseIf (α : Type) [Scalar α] (P : Prop) (l : Level) (p : Char → Prop) (cs : List Char) :
    Prop :=
  ∃ e : Formula α, HasTree l p cs e ∧ ((∀ v ∈ e.occurrences, v = "x") ↔ P)

namespace IsPhraseIf

variable {P Q : Prop}

theorem of_isPhrase (h : IsPhrase l p cs e) (hP : P) : IsPhraseIf α P l p cs :=
  ⟨e, h.hasTree, iff_of_true h.variable_eq hP⟩

theorem imp (h : IsPhraseIf α P l p cs)
    (hl : ∀ ts, ∀ e : Formula α, Derives l ts e → Derives l' ts e) : IsPhraseIf α P l' p cs := by
  obtain ⟨e, he, hx⟩ := h
  exact ⟨e, he.imp fun ts => hl ts e, hx⟩

theorem negated (h : IsPhraseIf α P .unary p cs) : IsPhraseIf α P .unary p ('-' :: cs) := by
  obtain ⟨e, he, hx⟩ := h
  exact ⟨_, he.negated, by rwa [occurrences_negated]⟩

theorem add (hu : IsPhraseIf α P .sum p cs) (hspace : p ' ') (hv : IsPhraseIf α Q .product q ds) :
    IsPhraseIf α (P ∧ Q) .sum q (cs ++ ' ' :: '+' :: ' ' :: ds) := by
  obtain ⟨u, hu, hxu⟩ := hu
  obtain ⟨v, hv, hxv⟩ := hv
  exact ⟨_, hu.add hspace hv, List.forall_mem_append.trans (and_congr hxu hxv)⟩

theorem sub (hu : IsPhraseIf α P .sum p cs) (hspace : p ' ') (hv : IsPhraseIf α Q .product q ds) :
    IsPhraseIf α (P ∧ Q) .sum q (cs ++ ' ' :: '-' :: ' ' :: ds) := by
  obtain ⟨u, hu, hxu⟩ := hu
  obtain ⟨v, hv, hxv⟩ := hv
  exact ⟨_, hu.sub hspace hv, List.forall_mem_append.trans (and_congr hxu hxv)⟩

theorem exists_read_iff {text : String} (h : IsPhraseIf α P .sum p text.toList) :
    (∃ e : Formula α, read text = .ok e) ↔ P := by
  obtain ⟨e, he, hx⟩ := h
  exact he.exists_read_iff.trans hx

end IsPhraseIf

end NumericMethods.Formula
