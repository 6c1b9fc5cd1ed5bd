/-
  NumericMethods/Proofs/Task/Rules.lean
  =====================================
  **Which documents are read, and which line is reported of the others.**

  The rules of a document are about its lines, and know nothing of sections being read
  (`KeepsRules`): every line is blank, a comment, a title or an entry, the first line that
  is not skipped is a title, and between two entries with one key stands a title.  Lines
  that keep the rules still keep them when the last lines are taken away, so that a
  document which breaks them has an earliest line at which it does.

  The reader goes through the lines once.  What it knows after some of them is
  `ReadSoFar`: that these lines keep the rules, and that the section it adds entries to
  has the keys of the entries after the last title (`IsOpenKey`).  One more line keeps the
  rules exactly if it is skipped, is a title, or is an entry below a title whose key is not
  open (`keepsRules_append_iff`), and these are the lines that the reader takes
  (`ReadSoFar.next`).
-/
import Mathlib
import NumericMethods.Proofs.Task.Document

namespace NumericMethods.Task

open Text

variable {ls ks : List (List Char)} {l key : List Char} {sections : List Section}

/-! ### The rules -/

/-- The rules of a document, as rules for its lines. -/
structure KeepsRules (ls : List (List Char)) : Prop where
  readable : ∀ l ∈ ls, IsBlankOrComment l ∨ IsTitle l ∨ ∃ key, IsEntry key l
  titled : ∀ skipped l rest, ls = skipped ++ l :: rest → (∀ k ∈ skipped, IsBlankOrComment k) →
    ¬ IsBlankOrComment l → IsTitle l
  distinct : ∀ before a between b after key, ls = before ++ a :: (between ++ b :: after) →
    IsEntry key a → IsEntry key b → ∃ l ∈ between, IsTitle l

/-- The key belongs to an entry after the last title. -/
def IsOpenKey (ls : List (List Char)) (key : List Char) : Prop :=
  ∃ before a between, ls = before ++ a :: between ∧ IsEntry key a ∧ ∀ l ∈ between, ¬ IsTitle l

theorem KeepsRules.nil : KeepsRules [] := by
  constructor
  case readable => simp
  case titled => simp
  case distinct => simp

theorem KeepsRules.of_append (h : KeepsRules (ls ++ ks)) : KeepsRules ls := by
  constructor
  case readable => exact fun l hl => h.readable l (List.mem_append_left ks hl)
  case titled =>
    rintro skipped l rest rfl
    exact h.titled skipped l (rest ++ ks) (by simp)
  case distinct =>
    rintro before a between b after key rfl
    exact h.distinct before a between b (after ++ ks) key (by simp)

/-- Lines that keep the rules and are not all skipped have a title. -/
theorem KeepsRules.exists_title (h : KeepsRules ls) (hl : ∃ l ∈ ls, ¬ IsBlankOrComment l) :
    ∃ t ∈ ls, IsTitle t := by
  classical
  obtain ⟨l, hl⟩ := hl
  obtain ⟨t, ht⟩ := Option.isSome_iff_exists.1
    ((List.find?_isSome (p := fun l => decide ¬ IsBlankOrComment l)).2
      ⟨l, hl.1, by simpa using hl.2⟩)
  obtain ⟨hne, skipped, rest, rfl, hskipped⟩ := List.find?_eq_some_iff_append.1 ht
  refine ⟨t, by simp, h.titled skipped t rest rfl ?_ (by simpa using hne)⟩
  intro k hk
  simpa using hskipped k hk

/-! ### One more line -/

/-- Where a line stands in a list with one more line at its end. -/
theorem append_singleton_eq_iff {before after : List (List Char)} {a : List Char} :
    ls ++ [l] = before ++ a :: after ↔
      (after = [] ∧ before = ls ∧ a = l) ∨
        ∃ rest, after = rest ++ [l] ∧ ls = before ++ a :: rest := by
  rcases List.eq_nil_or_concat after with rfl | ⟨rest, last, rfl⟩
  · constructor
    · intro h
      obtain ⟨rfl, hl⟩ := List.append_inj' h rfl
      exact .inl ⟨rfl, rfl, (List.cons.inj hl).1.symm⟩
    · rintro (⟨-, rfl, rfl⟩ | ⟨rest, hrest, -⟩)
      · rfl
      · simp at hrest
  · rw [List.concat_eq_append]
    constructor
    · intro h
      have h' : ls ++ [l] = (before ++ a :: rest) ++ [last] := by simpa using h
      obtain ⟨rfl, hl⟩ := List.append_inj' h' rfl
      exact .inr ⟨rest, by rw [hl], rfl⟩
    · rintro (⟨hnil, -⟩ | ⟨rest', hrest, rfl⟩)
      · simp at hnil
      · rw [hrest]
        simp

theorem not_isOpenKey_title (h : IsTitle l) : ¬ IsOpenKey (ls ++ [l]) key := by
  rintro ⟨before, a, between, hls, ha, hbetween⟩
  rcases append_singleton_eq_iff.1 hls with ⟨-, -, rfl⟩ | ⟨rest, rfl, -⟩
  · exact h.not_isEntry ha
  · exact hbetween l (by simp) h

theorem isOpenKey_append_iff (h : ¬ IsTitle l) :
    IsOpenKey (ls ++ [l]) key ↔ IsEntry key l ∨ IsOpenKey ls key := by
  constructor
  · rintro ⟨before, a, between, hls, ha, hbetween⟩
    rcases append_singleton_eq_iff.1 hls with ⟨-, -, rfl⟩ | ⟨rest, rfl, rfl⟩
    · exact .inl ha
    · exact .inr ⟨before, a, rest, rfl, ha, fun k hk => hbetween k (List.mem_append_left _ hk)⟩
  · rintro (hl | ⟨before, a, between, rfl, ha, hbetween⟩)
    · exact ⟨ls, l, [], rfl, hl, by simp⟩
    · refine ⟨before, a, between ++ [l], by simp, ha, ?_⟩
      intro k hk
      rcases List.mem_append.1 hk with hk | hk
      · exact hbetween k hk
      · rwa [List.mem_singleton.1 hk]

theorem keepsRules_append_iff :
    KeepsRules (ls ++ [l]) ↔ KeepsRules ls ∧
      (IsBlankOrComment l ∨ IsTitle l ∨
        ∃ key, IsEntry key l ∧ (∃ t ∈ ls, IsTitle t) ∧ ¬ IsOpenKey ls key) := by
  constructor
  · intro h
    refine ⟨h.of_append, ?_⟩
    rcases h.readable l (by simp) with hskipped | htitle | ⟨key, hkey⟩
    · exact .inl hskipped
    · exact .inr (.inl htitle)
    · refine .inr (.inr ⟨key, hkey, ?_, ?_⟩)
      · by_contra hnone
        have hskipped : ∀ k ∈ ls, IsBlankOrComment k := by
          intro k hk
          by_contra hne
          exact hnone (h.of_append.exists_title ⟨k, hk, hne⟩)
        obtain ⟨value, hvalue⟩ := hkey
        have htitle := h.titled ls l [] rfl hskipped hvalue.not_isBlankOrComment
        exact htitle.not_isEntry ⟨value, hvalue⟩
      · rintro ⟨before, a, between, rfl, ha, hbetween⟩
        obtain ⟨t, ht, htitle⟩ := h.distinct before a between l [] key (by simp) ha hkey
        exact hbetween t ht htitle
  · rintro ⟨h, hl⟩
    constructor
    case readable =>
      intro k hk
      rcases List.mem_append.1 hk with hk | hk
      · exact h.readable k hk
      · rw [List.mem_singleton.1 hk]
        rcases hl with hskipped | htitle | ⟨key, hkey, -⟩
        · exact .inl hskipped
        · exact .inr (.inl htitle)
        · exact .inr (.inr ⟨key, hkey⟩)
    case titled =>
      intro skipped a rest hls hskipped ha
      rcases append_singleton_eq_iff.1 hls with ⟨-, rfl, rfl⟩ | ⟨rest', -, rfl⟩
      · rcases hl with hblank | htitle | ⟨key, -, ⟨t, ht, name, hname⟩, -⟩
        · exact absurd hblank ha
        · exact htitle
        · exact absurd (hskipped t ht) hname.not_isBlankOrComment
      · exact h.titled skipped a rest' rfl hskipped ha
    case distinct =>
      intro before a between b after key hls ha hb
      have hls' : ls ++ [l] = (before ++ a :: between) ++ b :: after := by simpa using hls
      rcases append_singleton_eq_iff.1 hls' with ⟨-, rfl, rfl⟩ | ⟨rest, -, rfl⟩
      · -- the second entry is the new line, so its key is not open before it
        by_contra hnone
        push Not at hnone
        rcases hl with hblank | htitle | ⟨key', hkey', -, hopen⟩
        · obtain ⟨value, hvalue⟩ := hb
          exact hvalue.not_isBlankOrComment hblank
        · exact htitle.not_isEntry hb
        · obtain rfl := hkey'.key_unique hb
          exact hopen ⟨before, a, between, rfl, ha, hnone⟩
      · exact h.distinct before a between b rest key (by simp) ha hb

/-- What the rules ask of an entry. -/
theorem KeepsRules.of_entry (h : KeepsRules (ls ++ [l])) (hl : IsEntry key l) :
    (∃ t ∈ ls, IsTitle t) ∧ ¬ IsOpenKey ls key := by
  rcases (keepsRules_append_iff.1 h).2 with hskipped | htitle | ⟨key', hkey', hrest⟩
  · obtain ⟨value, hvalue⟩ := hl
    exact absurd hskipped hvalue.not_isBlankOrComment
  · exact absurd hl htitle.not_isEntry
  · rwa [hkey'.key_unique hl] at hrest

/-! ### What the reader knows -/

/-- The sections, the last of which comes first, are those of the lines, and the lines keep
    the rules. -/
structure ReadSoFar (ls : List (List Char)) (sections : List Section) : Prop where
  rules : KeepsRules ls
  isNil_iff : sections = [] ↔ ∀ l ∈ ls, ¬ IsTitle l
  openKeys : ∀ s ∈ sections.head?, ∀ key,
    String.ofList key ∈ s.entries.map Prod.fst ↔ IsOpenKey ls key
  distinct : ∀ s ∈ sections, (s.entries.map Prod.fst).Nodup

namespace ReadSoFar

theorem nil : ReadSoFar [] [] := by
  refine ⟨.nil, ?_, ?_, ?_⟩ <;> simp

theorem skip (h : ReadSoFar ls sections) (hl : IsBlankOrComment l) :
    ReadSoFar (ls ++ [l]) sections := by
  have htitle : ¬ IsTitle l := fun ⟨_, hname⟩ => hname.not_isBlankOrComment hl
  have hentry : ∀ key, ¬ IsEntry key l := fun _ ⟨_, hvalue⟩ => hvalue.not_isBlankOrComment hl
  constructor
  case rules => exact keepsRules_append_iff.2 ⟨h.rules, .inl hl⟩
  case isNil_iff =>
    rw [h.isNil_iff, List.forall_mem_append, List.forall_mem_singleton, and_iff_left htitle]
  case openKeys =>
    intro s hs key
    rw [isOpenKey_append_iff htitle, h.openKeys s hs, or_iff_right (hentry key)]
  case distinct => exact h.distinct

theorem openSection {name : List Char} (h : ReadSoFar ls sections)
    (hl : (Line.title name).IsWritten l) (title : String) (number : ℕ) :
    ReadSoFar (ls ++ [l]) (⟨title, number, []⟩ :: sections) := by
  have htitle : IsTitle l := ⟨name, hl⟩
  constructor
  case rules => exact keepsRules_append_iff.2 ⟨h.rules, .inr (.inl htitle)⟩
  case isNil_iff => simp [htitle]
  case openKeys =>
    rintro s ⟨⟩ key
    simp [not_isOpenKey_title htitle]
  case distinct =>
    intro s hs
    rcases List.mem_cons.1 hs with rfl | hs
    · exact List.nodup_nil
    · exact h.distinct s hs

theorem addEntry {s : Section} {value : List Char} (h : ReadSoFar ls (s :: sections))
    (hl : IsEntry key l) (hopen : ¬ IsOpenKey ls key) :
    ReadSoFar (ls ++ [l])
      (s.addEntry (String.ofList key) (String.ofList value) :: sections) := by
  have htitle : ¬ IsTitle l := fun htitle => htitle.not_isEntry hl
  have hkeys := h.openKeys s rfl
  constructor
  case rules =>
    refine keepsRules_append_iff.2 ⟨h.rules, .inr (.inr ⟨key, hl, ?_, hopen⟩)⟩
    by_contra hnone
    push Not at hnone
    cases h.isNil_iff.2 hnone
  case isNil_iff =>
    refine iff_of_false (by simp) ?_
    intro hnone
    cases h.isNil_iff.2 fun t ht => hnone t (List.mem_append_left _ ht)
  case openKeys =>
    rintro _ ⟨⟩ key'
    rw [Section.keys_addEntry, List.mem_append, hkeys, isOpenKey_append_iff htitle, or_comm,
      List.mem_singleton, String.ofList_inj]
    refine or_congr_left ?_
    constructor
    · rintro rfl
      exact hl
    · exact fun hl' => hl'.key_unique hl
  case distinct =>
    intro t ht
    rcases List.mem_cons.1 ht with rfl | ht
    · rw [Section.keys_addEntry]
      refine List.Nodup.append (h.distinct s List.mem_cons_self) (by simp) ?_
      rw [List.disjoint_singleton, hkeys]
      exact hopen
    · exact h.distinct t (List.mem_cons_of_mem _ ht)

/-- One more line is taken if it keeps the rules, and reported if it does not. -/
theorem next (h : ReadSoFar ls sections) (l : List Char) (number : ℕ) :
    (∃ sections', addLine sections number l = .ok sections' ∧ ReadSoFar (ls ++ [l]) sections') ∨
      ∃ fault, addLine sections number l = .error (.badLine number fault) ∧
        ¬ KeepsRules (ls ++ [l]) := by
  by_cases hskipped : isSkipped l = true
  · exact .inl ⟨_, addLine_skipped hskipped number, h.skip (isSkipped_iff.1 hskipped)⟩
  cases hread : Line.read? l with
  | none =>
    refine .inr ⟨_, addLine_unreadable hskipped hread number, ?_⟩
    have hnone : ∀ line : Line, ¬ line.IsWritten l := by
      intro line hline
      rw [Line.read?_of_isWritten hline] at hread
      cases hread
    intro hl
    rcases (keepsRules_append_iff.1 hl).2 with hblank | ⟨name, hname⟩ | ⟨key, ⟨value, hvalue⟩, -⟩
    · exact hskipped (isSkipped_iff.2 hblank)
    · exact hnone _ hname
    · exact hnone _ hvalue
  | some line =>
    have hwritten := Line.read?_eq_some_iff.1 hread
    cases line with
    | title name =>
      exact .inl ⟨_, addLine_title hwritten number, h.openSection hwritten _ _⟩
    | entry key value =>
      have hentry : IsEntry key l := ⟨value, hwritten⟩
      cases sections with
      | nil =>
        refine .inr ⟨_, addLine_beforeTitle hwritten number, ?_⟩
        intro hl
        obtain ⟨t, ht, htitle⟩ := (hl.of_entry hentry).1
        exact h.isNil_iff.1 rfl t ht htitle
      | cons s sections =>
        have hkeys := h.openKeys s rfl key
        by_cases hkey : String.ofList key ∈ s.entries.map Prod.fst
        · refine .inr ⟨_, addLine_duplicateKey hwritten hkey number, ?_⟩
          intro hl
          exact (hl.of_entry hentry).2 (hkeys.1 hkey)
        · refine .inl ⟨_, addLine_entry hwritten hkey number, h.addEntry hentry ?_⟩
          intro hopen
          exact hkey (hkeys.2 hopen)

/-- The further lines are taken if all lines keep the rules, and otherwise the line is
    reported up to which they are broken first. -/
theorem rest (h : ReadSoFar ls sections) (ks : List (List Char)) :
    (∃ sections', addLines sections (ls.length + 1) ks = .ok sections' ∧
        ReadSoFar (ls ++ ks) sections') ∨
      ∃ number fault, addLines sections (ls.length + 1) ks = .error (.badLine number fault) ∧
        IsLeast {n | ¬ KeepsRules ((ls ++ ks).take n)} number := by
  induction ks generalizing ls sections with
  | nil => exact .inl ⟨sections, rfl, by rwa [List.append_nil]⟩
  | cons k ks ih =>
    rcases h.next k (ls.length + 1) with ⟨sections', hadd, hnext⟩ | ⟨fault, hadd, hbroken⟩
    · have hih := ih hnext
      rw [List.length_append, List.append_assoc] at hih
      rw [addLines, hadd]
      exact hih
    · refine .inr ⟨ls.length + 1, fault, by rw [addLines, hadd], ?_, ?_⟩
      · have htake : (ls ++ k :: ks).take (ls.length + 1) = ls ++ [k] := by
          rw [List.take_length_add_append]
          rfl
        change ¬ KeepsRules _
        rwa [htake]
      · intro n hn
        by_contra hlt
        change ¬ KeepsRules _ at hn
        rw [List.take_append_of_le_length (by omega)] at hn
        have hrules := h.rules
        rw [← List.take_append_drop n ls] at hrules
        exact hn hrules.of_append

end ReadSoFar

/-! ### Whole documents -/

theorem skipped_of_no_title (h : KeepsRules ls) (hnone : ∀ l ∈ ls, ¬ IsTitle l) :
    ∀ l ∈ ls, IsBlankOrComment l := by
  intro l hl
  by_contra hne
  obtain ⟨t, ht, htitle⟩ := h.exists_title ⟨l, hl, hne⟩
  exact hnone t ht htitle

theorem keepsRules_of_skipped (h : ∀ l ∈ ls, IsBlankOrComment l) : KeepsRules ls := by
  constructor
  case readable => exact fun l hl => .inl (h l hl)
  case titled =>
    rintro skipped l rest rfl - hl
    exact absurd (h l (by simp)) hl
  case distinct =>
    rintro before a between b after key rfl ⟨value, hvalue⟩ -
    exact absurd (h a (by simp)) hvalue.not_isBlankOrComment

/-- A document is read if and only if some line is not skipped and the lines keep the
    rules.  One without such a line is empty.  Of any other, the line is reported up to
    which the rules are broken first.  The sections that are read have different keys. -/
theorem readSections_iff_keepsRules (text : String) :
    ((∃ sections, readSections text = .ok sections) ↔
        (∃ l ∈ lines text.toList, ¬ IsBlankOrComment l) ∧ KeepsRules (lines text.toList)) ∧
      ((∀ l ∈ lines text.toList, IsBlankOrComment l) → readSections text = .error .empty) ∧
      ((∃ l ∈ lines text.toList, ¬ IsBlankOrComment l) → ∀ e, readSections text = .error e →
        ∃ number fault, e = .badLine number fault ∧
          IsLeast {n | ¬ KeepsRules ((lines text.toList).take n)} number) ∧
      ∀ sections, readSections text = .ok sections →
        ∀ s ∈ sections, (s.entries.map Prod.fst).Nodup := by
  generalize hls : lines text.toList = ls
  have hrun := ReadSoFar.nil.rest ls
  rw [List.length_nil, Nat.zero_add, List.nil_append] at hrun
  rcases hrun with ⟨sections, hadd, hread⟩ | ⟨number, fault, hadd, hleast⟩
  · have htext : readSections text =
        if sections.isEmpty then .error .empty else .ok sections.reverse := by
      rw [readSections, hls, hadd]
    by_cases hnil : sections = []
    · have hskipped := skipped_of_no_title hread.rules (hread.isNil_iff.1 hnil)
      rw [htext, if_pos (List.isEmpty_iff.2 hnil)]
      refine ⟨⟨nofun, ?_⟩, fun _ => rfl, ?_, nofun⟩
      · rintro ⟨⟨l, hl, hne⟩, -⟩
        exact absurd (hskipped l hl) hne
      · rintro ⟨l, hl, hne⟩
        exact absurd (hskipped l hl) hne
    · rw [htext, if_neg (by simpa using hnil)]
      have hcontent : ∃ l ∈ ls, ¬ IsBlankOrComment l := by
        by_contra hnone
        push Not at hnone
        refine hnil (hread.isNil_iff.2 ?_)
        rintro l hl ⟨_, hname⟩
        exact hname.not_isBlankOrComment (hnone l hl)
      refine ⟨⟨fun _ => ⟨hcontent, hread.rules⟩, fun _ => ⟨_, rfl⟩⟩, ?_, fun _ => nofun, ?_⟩
      · intro hskipped
        obtain ⟨l, hl, hne⟩ := hcontent
        exact absurd (hskipped l hl) hne
      · rintro _ ⟨⟩ s hs
        exact hread.distinct s (List.mem_reverse.1 hs)
  · have htext : readSections text = .error (.badLine number fault) := by
      rw [readSections, hls, hadd]
    have hbroken : ¬ KeepsRules ls := by
      intro hrules
      rw [← List.take_append_drop number ls] at hrules
      exact hleast.1 hrules.of_append
    rw [htext]
    refine ⟨⟨nofun, fun h => absurd h.2 hbroken⟩, ?_, ?_, nofun⟩
    · intro hskipped
      exact absurd (keepsRules_of_skipped hskipped) hbroken
    · rintro - _ ⟨⟩
      exact ⟨number, fault, rfl, hleast⟩

/-- A key that stands twice below one title; the comment between counts as a line. -/
theorem readSections_second_key_reported :
    let text := "bisection\n  a: 1\n  # again\n  a: 2\n  b 3\n"
    (∃ l ∈ lines text.toList, ¬ IsBlankOrComment l) ∧
      readSections text = .error (.badLine 4 (.duplicateKey "a" "bisection")) ∧
      IsLeast {n | ¬ KeepsRules ((lines text.toList).take n)} 4 := by
  intro text
  have hcontent : ∃ l ∈ lines text.toList, ¬ IsBlankOrComment l := by
    refine ⟨"bisection".toList, by decide +kernel, ?_⟩
    rw [← isSkipped_iff]
    decide +kernel
  have hread : readSections text = .error (.badLine 4 (.duplicateKey "a" "bisection")) := by
    decide +kernel
  obtain ⟨number, fault, heq, hleast⟩ :=
    (readSections_iff_keepsRules text).2.2.1 hcontent _ hread
  cases heq
  exact ⟨hcontent, hread, hleast⟩

end NumericMethods.Task
