/-
  NumericMethods/Proofs/Task/Line.lean
  ====================================
  **What the lines of a task document look like.**

  A title is an identifier, and an entry an identifier, a colon and a value.  Spaces and
  tabs may stand before and after the identifier, and any blanks around the value
  (`Line.IsWritten`).  A line is skipped if its first characters after any blanks are the
  mark of a comment, or if there are none (`IsBlankOrComment`).

  The reader of lines knows exactly these forms (`Line.read?_eq_some_iff`,
  `isSkipped_iff`), and no line has two of them.
-/
import Mathlib
import NumericMethods.Proofs.Formula.Token
import NumericMethods.Proofs.Text.Lines
import NumericMethods.Task.Line

namespace NumericMethods.Task

open Text
open Formula (takeWhile_append dropWhile_append isBlank_of_startsName)

variable {cs name key indent : List Char} {line : Line} {c : Char}

/-! ### Forms of lines -/

/-- A letter or an underscore, then letters, digits and underscores. -/
def IsIdentifier (cs : List Char) : Prop :=
  ∃ c r, cs = c :: r ∧ startsKey c = true ∧ ∀ d ∈ r, continuesKey d = true

/-- Spaces and tabs. -/
def IsIndentation (cs : List Char) : Prop := ∀ c ∈ cs, isIndent c = true

instance : DecidablePred IsIndentation := fun cs =>
  decidable_of_iff (cs.all isIndent = true) List.all_eq_true

instance : DecidablePred IsIdentifier
  | [] => .isFalse (by rintro ⟨c, r, h, -⟩; cases h)
  | c :: r =>
    decidable_of_iff (startsKey c = true ∧ r.all continuesKey = true) (by simp [IsIdentifier])

/-- The text is a writing of the line. -/
inductive Line.IsWritten : Line → List Char → Prop
  | title {indent name margin : List Char} (hindent : IsIndentation indent)
      (hname : IsIdentifier name) (hmargin : IsIndentation margin) :
      Line.IsWritten (.title name) (indent ++ (name ++ margin))
  | entry {indent key margin rest : List Char} (hindent : IsIndentation indent)
      (hkey : IsIdentifier key) (hmargin : IsIndentation margin) :
      Line.IsWritten (.entry key (trim rest)) (indent ++ (key ++ (margin ++ ':' :: rest)))

def IsTitle (cs : List Char) : Prop := ∃ name, (Line.title name).IsWritten cs

def IsEntry (key cs : List Char) : Prop := ∃ value, (Line.entry key value).IsWritten cs

/-- Nothing but blanks, or blanks and then one of the marks `//`, `#`, `%` and `;`. -/
def IsBlankOrComment (cs : List Char) : Prop :=
  ∃ blanks rest, cs = blanks ++ rest ∧ (∀ c ∈ blanks, isBlank c = true) ∧
    (rest = [] ∨ ['/', '/'] <+: rest ∨ ∃ c ∈ rest.head?, c = '#' ∨ c = '%' ∨ c = ';')

/-! ### Blank lines and comments -/

theorem isBlank_of_isIndent (h : isIndent c = true) : isBlank c = true := by
  simp only [isIndent, Bool.or_eq_true, decide_eq_true_eq] at h
  rcases h with rfl | rfl <;> rfl

theorem IsIndentation.blank (h : IsIndentation cs) : ∀ c ∈ cs, isBlank c = true :=
  fun c hc => isBlank_of_isIndent (h c hc)

/-- Whether a line is skipped is seen from its trimmed text. -/
theorem isSkipped_congr {ds : List Char} (h : trim cs = trim ds) : isSkipped cs = isSkipped ds := by
  unfold isSkipped
  rw [h]

theorem isSkipped_cons_iff {r : List Char} (hc : isBlank c = false) :
    isSkipped (c :: r) = true ↔ ['/', '/'] <+: c :: r ∨ c = '#' ∨ c = '%' ∨ c = ';' := by
  unfold isSkipped
  rw [trim_cons hc]
  constructor
  · intro h
    split at h
    · rename_i heq
      cases heq
    · rename_i rest heq
      obtain ⟨rfl, hrest⟩ := List.cons.inj heq
      obtain ⟨s, hs⟩ := trimEnd_isPrefix r
      rw [hrest] at hs
      exact .inl ⟨rest ++ s, by rw [← hs]; rfl⟩
    · rename_i heq
      cases heq
      exact .inr (by simpa [or_assoc] using h)
  · rintro (⟨s, hs⟩ | hmark)
    · obtain rfl : '/' = c := (List.cons.inj hs).1
      obtain rfl : '/' :: s = r := (List.cons.inj hs).2
      rw [trimEnd_cons rfl]
      rfl
    · rcases hmark with rfl | rfl | rfl <;> rfl

theorem isSkipped_iff : isSkipped cs = true ↔ IsBlankOrComment cs := by
  constructor
  · intro h
    obtain ⟨blanks, hblanks, hcs⟩ := exists_blanks_append cs
    refine ⟨blanks, trimStart cs, hcs, hblanks, ?_⟩
    rw [hcs, isSkipped_congr (trim_append_left hblanks)] at h
    cases hstart : trimStart cs with
    | nil => exact .inl rfl
    | cons d r =>
      have hd : isBlank d = false := isBlank_head_trimStart (by rw [hstart]; rfl)
      rw [hstart, isSkipped_cons_iff hd] at h
      rcases h with hslashes | hmark
      · exact .inr (.inl hslashes)
      · exact .inr (.inr ⟨d, rfl, hmark⟩)
  · rintro ⟨blanks, rest, rfl, hblanks, hrest⟩
    rw [isSkipped_congr (trim_append_left hblanks)]
    rcases hrest with rfl | ⟨r, rfl⟩ | ⟨d, hd, hmark⟩
    · rfl
    · exact (isSkipped_cons_iff rfl).2 (.inl ⟨r, rfl⟩)
    · obtain ⟨r, rfl⟩ := List.head?_eq_some_iff.1 hd
      have hblank : isBlank d = false := by rcases hmark with rfl | rfl | rfl <;> rfl
      exact (isSkipped_cons_iff hblank).2 (.inr hmark)

instance : DecidablePred IsBlankOrComment := fun _ => decidable_of_iff _ isSkipped_iff

/-! ### Titles and entries -/

theorem isBlank_of_startsKey (h : startsKey c = true) : isBlank c = false :=
  isBlank_of_startsName h

theorem dropIndent_append {r : List Char} (hindent : IsIndentation indent)
    (hr : ∀ c ∈ r.head?, isIndent c = false) : dropIndent (indent ++ r) = r :=
  dropWhile_append hindent hr

theorem exists_indentation (cs : List Char) :
    ∃ indent, IsIndentation indent ∧ cs = indent ++ dropIndent cs := by
  refine ⟨cs.takeWhile isIndent, ?_, List.takeWhile_append_dropWhile.symm⟩
  intro c hc
  exact List.mem_takeWhile_imp hc

theorem IsIdentifier.head (h : IsIdentifier key) (r : List Char) :
    ∀ c ∈ (key ++ r).head?, isIndent c = false := by
  obtain ⟨c, s, rfl, hc, -⟩ := h
  rintro _ ⟨⟩
  by_contra hindent
  have hblank := isBlank_of_isIndent (Bool.eq_true_of_not_eq_false hindent)
  rw [isBlank_of_startsKey hc] at hblank
  cases hblank

theorem key?_append {r : List Char} (h : IsIdentifier key)
    (hr : ∀ c ∈ r.head?, continuesKey c = false) : key? (key ++ r) = some (key, r) := by
  obtain ⟨c, s, rfl, hc, hs⟩ := h
  rw [List.cons_append, key?, if_pos hc, takeWhile_append hs hr, dropWhile_append hs hr]

theorem of_key?_eq_some {r : List Char} (h : key? cs = some (key, r)) :
    IsIdentifier key ∧ cs = key ++ r := by
  unfold key? at h
  split at h
  · rename_i c s
    split at h
    · rename_i hc
      cases h
      refine ⟨⟨c, _, rfl, hc, fun d hd => List.mem_takeWhile_imp hd⟩, ?_⟩
      rw [List.cons_append, List.takeWhile_append_dropWhile]
    · cases h
  · cases h

/-- Neither spaces and tabs nor a colon continue an identifier. -/
theorem head_margin {margin r : List Char} (hmargin : IsIndentation margin)
    (hr : ∀ c ∈ r.head?, c = ':') : ∀ c ∈ (margin ++ r).head?, continuesKey c = false := by
  cases margin with
  | nil =>
    intro c hc
    rw [hr c hc]
    rfl
  | cons d margin =>
    rintro _ ⟨⟩
    have hd := hmargin d List.mem_cons_self
    simp only [isIndent, Bool.or_eq_true, decide_eq_true_eq] at hd
    rcases hd with rfl | rfl <;> rfl

theorem Line.read?_of_isWritten (h : line.IsWritten cs) : Line.read? cs = some line := by
  cases h with
  | @title indent name margin hindent hname hmargin =>
    have hkey := key?_append (r := margin) hname (by simpa using head_margin hmargin (r := []))
    have hend : dropIndent margin = [] := by simpa using dropIndent_append hmargin (r := [])
    rw [Line.read?, dropIndent_append hindent (hname.head _), hkey]
    simp only [hend]
  | @entry indent key margin rest hindent hkey hmargin =>
    have hname := key?_append hkey (head_margin hmargin (r := ':' :: rest) (by simp))
    have hcolon : dropIndent (margin ++ ':' :: rest) = ':' :: rest :=
      dropIndent_append hmargin (by rintro _ ⟨⟩; rfl)
    rw [Line.read?, dropIndent_append hindent (hkey.head _), hname]
    simp only [hcolon]

theorem Line.read?_eq_some_iff : Line.read? cs = some line ↔ line.IsWritten cs := by
  constructor
  · intro h
    obtain ⟨indent, hindent, hcs⟩ := exists_indentation cs
    unfold Line.read? at h
    split at h
    · cases h
    · rename_i key r hkey
      obtain ⟨hname, hr⟩ := of_key?_eq_some hkey
      obtain ⟨margin, hmargin, hmargin_eq⟩ := exists_indentation r
      rw [hcs, hr, hmargin_eq]
      split at h
      · rename_i hend
        cases h
        rw [hend, List.append_nil]
        exact .title hindent hname hmargin
      · rename_i rest hcolon
        cases h
        rw [hcolon]
        exact .entry hindent hname hmargin
      · cases h
  · exact Line.read?_of_isWritten

/-- A text is a writing of one line. -/
theorem Line.IsWritten.unique {line' : Line} (h : line.IsWritten cs) (h' : line'.IsWritten cs) :
    line = line' := by
  have hread := Line.read?_of_isWritten h
  rw [Line.read?_of_isWritten h'] at hread
  exact (Option.some.inj hread).symm

/-- A line that starts with an identifier is not skipped. -/
theorem isSkipped_identifier {indent r : List Char} (hindent : IsIndentation indent)
    (hkey : IsIdentifier key) : isSkipped (indent ++ (key ++ r)) = false := by
  obtain ⟨c, s, rfl, hc, -⟩ := hkey
  have hne : ∀ d, startsKey d = false → c ≠ d := by
    rintro d hd rfl
    rw [hc] at hd
    cases hd
  rw [isSkipped_congr (trim_append_left hindent.blank), Bool.eq_false_iff, Ne, List.cons_append,
    isSkipped_cons_iff (isBlank_of_startsKey hc)]
  rintro (⟨t, ht⟩ | hmark | hmark | hmark)
  · exact hne '/' rfl (List.cons.inj ht).1.symm
  · exact hne '#' rfl hmark
  · exact hne '%' rfl hmark
  · exact hne ';' rfl hmark

theorem Line.IsWritten.isSkipped_eq_false (h : line.IsWritten cs) : isSkipped cs = false := by
  cases h with
  | title hindent hname _ => exact isSkipped_identifier hindent hname
  | entry hindent hkey _ => exact isSkipped_identifier hindent hkey

theorem Line.IsWritten.not_isBlankOrComment (h : line.IsWritten cs) : ¬ IsBlankOrComment cs := by
  rw [← isSkipped_iff, h.isSkipped_eq_false]
  exact Bool.false_ne_true

theorem IsTitle.not_isEntry (h : IsTitle cs) : ¬ IsEntry key cs := by
  rintro ⟨value, hentry⟩
  obtain ⟨name, htitle⟩ := h
  cases htitle.unique hentry

theorem IsEntry.key_unique {key' : List Char} (h : IsEntry key cs) (h' : IsEntry key' cs) :
    key = key' := by
  obtain ⟨value, hvalue⟩ := h
  obtain ⟨value', hvalue'⟩ := h'
  cases hvalue.unique hvalue'
  rfl

end NumericMethods.Task
