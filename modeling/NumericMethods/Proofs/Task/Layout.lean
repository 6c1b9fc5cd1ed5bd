/-
  NumericMethods/Proofs/Task/Layout.lean
  ======================================
  **A document that is written down is read back, in whatever layout.**

  What a document says is a list of sections (`Content`): a title, and entries with
  different keys.  How it is laid out is the writer's choice (`LaidLine`, `LineEnd`): lines
  are indented by spaces and tabs, which may also stand around the colon of an entry,
  blank lines and comments stand anywhere, and every line has either of the two ends.

  The layout is a list of lines that carries the contents in order.  The reader goes
  through it with the section that is open, and the lines that are left carry the rest of
  that section and then the further sections (`addLines_laid`).  Every title is found at the
  number of its line (`titleNumbers`), however many lines are skipped before it.
-/
import Mathlib
import NumericMethods.Proofs.Task.Document

namespace NumericMethods.Task

open Text

/-! ### Contents -/

structure Identifier where
  text : String
  isIdentifier : IsIdentifier text.toList

/-- A text that fits on the line of an entry and has no blanks at its ends. -/
structure Value where
  text : String
  noLineFeed : '\n' ∉ text.toList
  trimmed : trim text.toList = text.toList

/-- What a section says. -/
structure Content where
  title : Identifier
  entries : List (Identifier × Value)
  distinct : (entries.map fun entry => entry.1.text).Nodup

def entryTexts (entries : List (Identifier × Value)) : List (String × String) :=
  entries.map fun entry => (entry.1.text, entry.2.text)

def entryLine (entry : Identifier × Value) : Line :=
  .entry entry.1.text.toList entry.2.text.toList

/-- The lines that say it. -/
def Content.lines (content : Content) : List Line :=
  .title content.title.text.toList :: content.entries.map entryLine

/-! ### Layouts -/

structure Indentation where
  text : String
  isIndentation : IsIndentation text.toList

/-- A line of a document as it is written. -/
inductive LaidLine where
  | skipped (text : String) (noLineFeed : '\n' ∉ text.toList) (h : IsBlankOrComment text.toList)
  | title (indent : Indentation) (name : Identifier)
  | entry (indent : Indentation) (key : Identifier) (before after : Indentation) (value : Value)

inductive LineEnd where
  | lineFeed
  | returnLineFeed

/-- The carriage return before the line feed, if there is one. -/
def LineEnd.return : LineEnd → List Char
  | .lineFeed => []
  | .returnLineFeed => ['\r']

namespace LaidLine

def text : LaidLine → List Char
  | .skipped text _ _ => text.toList
  | .title indent name => indent.text.toList ++ name.text.toList
  | .entry indent key before after value =>
    indent.text.toList ++ (key.text.toList ++ (before.text.toList ++
      ':' :: (after.text.toList ++ value.text.toList)))

/-- What the line says. -/
def line? : LaidLine → Option Line
  | .skipped _ _ _ => none
  | .title _ name => some (.title name.text.toList)
  | .entry _ key _ _ value => some (entryLine (key, value))

def isTitle : LaidLine → Bool
  | .title _ _ => true
  | _ => false

end LaidLine

/-- The text of a document. -/
def documentText (ls : List (LaidLine × LineEnd)) : String :=
  String.ofList ((ls.map fun l => l.1.text ++ l.2.return).flatMap fun l => l ++ ['\n'])

/-- The numbers of the lines with a title, where the first line has the given number. -/
def titleNumbers (first : ℕ) (ls : List (LaidLine × LineEnd)) : List ℕ :=
  (ls.zipIdx first).filterMap fun l => if l.1.1.isTitle then some l.2 else none

/-! ### One line -/

variable {cs name key value indent : List Char} {number : ℕ} {s : Section}
  {sections : List Section} {e : LineEnd} {ls : List (LaidLine × LineEnd)}

theorem IsIndentation.not_mem {c : Char} (h : IsIndentation cs) (hc : isIndent c = false) :
    c ∉ cs := by
  intro hmem
  rw [h c hmem] at hc
  cases hc

theorem IsIdentifier.not_mem {c : Char} (h : IsIdentifier cs) (hstarts : startsKey c = false)
    (hcontinues : continuesKey c = false) : c ∉ cs := by
  obtain ⟨d, r, rfl, hd, hr⟩ := h
  rw [List.mem_cons]
  rintro (rfl | hmem)
  · rw [hstarts] at hd
    cases hd
  · rw [hr c hmem] at hcontinues
    cases hcontinues

theorem LaidLine.noLineFeed (l : LaidLine) (e : LineEnd) : '\n' ∉ l.text ++ e.return := by
  have hend : '\n' ∉ e.return := by cases e <;> simp [LineEnd.return]
  rw [List.mem_append, not_or]
  refine ⟨?_, hend⟩
  cases l with
  | skipped text h _ => exact h
  | title indent name =>
    have hindent := indent.isIndentation.not_mem (c := '\n') rfl
    have hname := name.isIdentifier.not_mem (c := '\n') rfl rfl
    simp [LaidLine.text, hindent, hname]
  | entry indent key before after value =>
    have hindent := indent.isIndentation.not_mem (c := '\n') rfl
    have hkey := key.isIdentifier.not_mem (c := '\n') rfl rfl
    have hbefore := before.isIndentation.not_mem (c := '\n') rfl
    have hafter := after.isIndentation.not_mem (c := '\n') rfl
    simp [LaidLine.text, hindent, hkey, hbefore, hafter, value.noLineFeed]

theorem getLast?_append_ne {ds : List Char} {c : Char} (hcs : c ∉ cs)
    (hds : ds.getLast? ≠ some c) : (cs ++ ds).getLast? ≠ some c := by
  rw [List.getLast?_append, Ne, Option.or_eq_some_iff, not_or]
  refine ⟨hds, ?_⟩
  rintro ⟨-, hlast⟩
  exact hcs (List.mem_of_getLast? hlast)

theorem Value.getLast?_ne_return (value : Value) : value.text.toList.getLast? ≠ some '\r' := by
  intro hlast
  have hblank := isBlank_getLast_of_trim value.trimmed hlast
  cases hblank

/-- A line that is not skipped has no carriage return at its end but that of the line end. -/
theorem LaidLine.getLast?_ne_return {l : LaidLine} {line : Line} (h : l.line? = some line) :
    l.text.getLast? ≠ some '\r' := by
  cases l with
  | skipped text _ _ => cases h
  | title indent name =>
    have hindent := indent.isIndentation.not_mem (c := '\r') rfl
    have hname := name.isIdentifier.not_mem (c := '\r') rfl rfl
    exact getLast?_append_ne hindent fun hlast => hname (List.mem_of_getLast? hlast)
  | entry indent key before after value =>
    have hindent := indent.isIndentation.not_mem (c := '\r') rfl
    have hkey := key.isIdentifier.not_mem (c := '\r') rfl rfl
    have hbefore := before.isIndentation.not_mem (c := '\r') rfl
    have hafter : '\r' ∉ ':' :: after.text.toList := by
      simpa using after.isIndentation.not_mem (c := '\r') rfl
    have hrest := getLast?_append_ne hafter value.getLast?_ne_return
    exact getLast?_append_ne hindent (getLast?_append_ne hkey (getLast?_append_ne hbefore hrest))

theorem LaidLine.isWritten {l : LaidLine} {line : Line} (h : l.line? = some line) :
    line.IsWritten l.text := by
  cases l with
  | skipped text _ _ => cases h
  | title indent name =>
    cases h
    have hmargin : IsIndentation [] := by simp [IsIndentation]
    simpa [LaidLine.text] using Line.IsWritten.title indent.isIndentation name.isIdentifier hmargin
  | entry indent key before after value =>
    cases h
    have htrim : trim (after.text.toList ++ value.text.toList) = value.text.toList := by
      rw [trim_append_left after.isIndentation.blank, value.trimmed]
    have hwritten : (Line.entry key.text.toList
        (trim (after.text.toList ++ value.text.toList))).IsWritten _ :=
      .entry indent.isIndentation key.isIdentifier before.isIndentation
    rwa [htrim] at hwritten

/-- A line of the document as the reader gets it. -/
def readText (l : LaidLine × LineEnd) : List Char := dropReturn (l.1.text ++ l.2.return)

theorem lines_documentText (ls : List (LaidLine × LineEnd)) :
    lines (documentText ls).toList = ls.map readText := by
  rw [documentText, String.toList_ofList, lines_terminated, List.map_map]
  · rfl
  · simp only [List.mem_map]
    rintro _ ⟨l, -, rfl⟩
    exact l.1.noLineFeed l.2

theorem isWritten_readText {l : LaidLine × LineEnd} {line : Line} (h : l.1.line? = some line) :
    line.IsWritten (readText l) := by
  have htext : readText l = l.1.text := by
    obtain ⟨l, e⟩ := l
    cases e with
    | lineFeed =>
      rw [readText, LineEnd.return, List.append_nil]
      exact dropReturn_eq_self (LaidLine.getLast?_ne_return h)
    | returnLineFeed => exact dropReturn_append_return _
  rw [htext]
  exact LaidLine.isWritten h

theorem isSkipped_readText {l : LaidLine × LineEnd} (h : l.1.line? = none) :
    isSkipped (readText l) = true := by
  obtain ⟨_ | _ | _, e⟩ := l
  case skipped text _ hskipped =>
    have hreturn : ∀ b ∈ e.return, isBlank b = true := by
      cases e <;> simp [LineEnd.return, isBlank]
    rw [readText, isSkipped_congr (trim_dropReturn _), isSkipped_congr (trim_append_right hreturn)]
    exact isSkipped_iff.2 hskipped
  all_goals cases h

theorem addLine_readText_skipped {text : String} {h : '\n' ∉ text.toList}
    {hskipped : IsBlankOrComment text.toList} :
    addLine sections number (readText (.skipped text h hskipped, e)) = .ok sections :=
  addLine_skipped (isSkipped_readText rfl) number

theorem addLine_readText_title {indent : Indentation} {name : Identifier} :
    addLine sections number (readText (.title indent name, e)) =
      .ok (⟨name.text, number, []⟩ :: sections) := by
  rw [addLine_title (isWritten_readText rfl), String.ofList_toList]

theorem addLine_readText_entry {indent before after : Indentation} {key : Identifier}
    {value : Value} (hkey : key.text ∉ s.entries.map Prod.fst) :
    addLine (s :: sections) number (readText (.entry indent key before after value, e)) =
      .ok (s.addEntry key.text value.text :: sections) := by
  rw [addLine_entry (isWritten_readText rfl) (by simpa using hkey), String.ofList_toList,
    String.ofList_toList]

/-! ### Reading a layout -/

def Content.record (content : Content) : String × List (String × String) :=
  (content.title.text, entryTexts content.entries)

def Section.record (s : Section) : String × List (String × String) := (s.title, s.entries)

theorem titleNumbers_cons_title {l : LaidLine × LineEnd} (h : l.1.isTitle = true) (first : ℕ) :
    titleNumbers first (l :: ls) = first :: titleNumbers (first + 1) ls := by
  simp [titleNumbers, h]

theorem titleNumbers_cons {l : LaidLine × LineEnd} (h : l.1.isTitle = false) (first : ℕ) :
    titleNumbers first (l :: ls) = titleNumbers (first + 1) ls := by
  simp [titleNumbers, h]

/-- The section with further entries. -/
def Section.addEntries (s : Section) (entries : List (Identifier × Value)) : Section :=
  { s with entries := s.entries ++ entryTexts entries }

theorem Section.addEntries_cons (s : Section) (key : Identifier) (value : Value)
    (entries : List (Identifier × Value)) :
    s.addEntries ((key, value) :: entries) =
      (s.addEntry key.text value.text).addEntries entries := by
  simp [addEntries, addEntry, entryTexts]

theorem modifyHead_addEntries_nil (sections : List Section) :
    sections.modifyHead (Section.addEntries · []) = sections := by
  cases sections <;> simp [Section.addEntries, entryTexts]

theorem entryLine_injective {entry entry' : Identifier × Value}
    (h : entryLine entry = entryLine entry') : entry = entry' := by
  obtain ⟨⟨key, _⟩, ⟨value, _, _⟩⟩ := entry
  obtain ⟨⟨key', _⟩, ⟨value', _, _⟩⟩ := entry'
  obtain ⟨hkey, hvalue⟩ := Line.entry.inj h
  obtain rfl := String.toList_inj.1 hkey
  obtain rfl := String.toList_inj.1 hvalue
  rfl

/-- The lines carry the rest of the section that is open, and then further sections. -/
theorem addLines_laid (sections : List Section) (rest : List (Identifier × Value))
    {contents : List Content}
    (hls : (ls.filterMap fun l => l.1.line?) =
      rest.map entryLine ++ contents.flatMap Content.lines)
    (hopen : sections = [] → rest = [])
    (hkeys : ∀ s ∈ sections.head?, ((s.addEntries rest).entries.map Prod.fst).Nodup)
    (number : ℕ) :
    ∃ further : List Section, addLines sections number (ls.map readText) =
        .ok (further.reverse ++ sections.modifyHead (Section.addEntries · rest)) ∧
      further.map Section.record = contents.map Content.record ∧
      further.map Section.line = titleNumbers number ls := by
  induction ls generalizing sections rest contents number with
  | nil =>
    rw [List.filterMap_nil, eq_comm, List.append_eq_nil_iff, List.map_eq_nil_iff] at hls
    obtain ⟨rfl, hcontents⟩ := hls
    cases contents with
    | nil => exact ⟨[], by rw [modifyHead_addEntries_nil]; rfl, rfl, rfl⟩
    | cons content contents => cases hcontents
  | cons l ls ih =>
    obtain ⟨l, e⟩ := l
    rw [List.map_cons, addLines]
    cases l with
    | skipped text h hskipped =>
      rw [addLine_readText_skipped, titleNumbers_cons rfl]
      exact ih sections rest hls hopen hkeys (number + 1)
    | title indent name =>
      -- nothing is left of the open section, and the title is that of the next one
      cases rest with
      | cons entry rest => cases hls
      | nil =>
        cases contents with
        | nil => cases hls
        | cons content contents =>
          obtain ⟨hname, hls⟩ := List.cons.inj hls
          have htitle : name.text = content.title.text :=
            String.toList_inj.1 (Line.title.inj hname)
          have hdistinct : ∀ s ∈ [(⟨name.text, number, []⟩ : Section)].head?,
              ((s.addEntries content.entries).entries.map Prod.fst).Nodup := by
            rintro _ ⟨⟩
            simpa [Section.addEntries, entryTexts, Function.comp_def] using content.distinct
          obtain ⟨further, hadd, hrecord, hline⟩ :=
            ih (⟨name.text, number, []⟩ :: sections) content.entries hls nofun hdistinct (number + 1)
          refine ⟨⟨name.text, number, entryTexts content.entries⟩ :: further, ?_, ?_, ?_⟩
          · rw [addLine_readText_title, modifyHead_addEntries_nil]
            simpa [Section.addEntries] using hadd
          · rw [List.map_cons, List.map_cons, hrecord, Section.record, Content.record, htitle]
          · rw [List.map_cons, hline, titleNumbers_cons_title rfl]
    | entry indent key before after value =>
      cases rest with
      | nil => cases contents <;> cases hls
      | cons entry rest =>
        obtain ⟨hentry, hrest⟩ := List.cons.inj hls
        obtain rfl := entryLine_injective hentry
        cases sections with
        | nil => cases hopen rfl
        | cons s sections =>
          have hdistinct := hkeys s rfl
          rw [Section.addEntries_cons] at hdistinct
          have hnew : key.text ∉ s.entries.map Prod.fst := by
            rw [Section.addEntries, List.map_append, Section.keys_addEntry] at hdistinct
            exact List.disjoint_singleton.1 (List.disjoint_of_nodup_append hdistinct.of_append_left)
          obtain ⟨further, hadd, hfurther⟩ :=
            ih (s.addEntry key.text value.text :: sections) rest hrest nofun
              (by rintro _ ⟨⟩; exact hdistinct) (number + 1)
          rw [addLine_readText_entry hnew, titleNumbers_cons rfl]
          rw [List.modifyHead_cons, ← Section.addEntries_cons] at hadd
          exact ⟨further, hadd, hfurther⟩

/-- A document of at least one section is read back from every layout: the sections with
    their titles and entries in order, each at the number of the line of its title.  Every
    key gives its value. -/
theorem readSections_documentText {contents : List Content} (hne : contents ≠ [])
    (ls : List (LaidLine × LineEnd))
    (hls : (ls.filterMap fun l => l.1.line?) = contents.flatMap Content.lines) :
    ∃ sections : List Section, readSections (documentText ls) = .ok sections ∧
      sections.map Section.record = contents.map Content.record ∧
      sections.map Section.line = titleNumbers 1 ls ∧
      ∀ s ∈ sections, ∀ entry ∈ s.entries, s.get? entry.1 = some entry.2 := by
  obtain ⟨sections, hadd, hrecord, hline⟩ :=
    addLines_laid [] [] hls (fun _ => rfl) nofun 1
  rw [List.modifyHead_nil, List.append_nil] at hadd
  refine ⟨sections, ?_, hrecord, hline, ?_⟩
  · have hsections : sections ≠ [] := by
      rintro rfl
      exact hne (List.map_eq_nil_iff.1 hrecord.symm)
    rw [readSections, lines_documentText, hadd]
    simp [hsections]
  · intro s hs entry hentry
    have hmem : s.record ∈ contents.map Content.record := by
      rw [← hrecord]
      exact List.mem_map_of_mem hs
    obtain ⟨content, -, hcontent⟩ := List.mem_map.1 hmem
    have hentries : s.entries = entryTexts content.entries := (congrArg Prod.snd hcontent).symm
    have hdistinct : (s.entries.map Prod.fst).Nodup := by
      rw [hentries]
      simpa [entryTexts, Function.comp_def] using content.distinct
    exact Section.get?_of_mem hdistinct hentry

/-- A comment and a blank line are counted, and the title on the second line is indented. -/
theorem readSections_two_entries :
    let text := "# a run\r\n  secant\n\ttol :\t1e-6\r\n\nrelative: \r\n"
    ∃ sections : List Section, readSections text = .ok sections ∧
      sections.map Section.record = [("secant", [("tol", "1e-6"), ("relative", "")])] ∧
      sections.map Section.line = [2] ∧
      ∀ s ∈ sections, ∀ entry ∈ s.entries, s.get? entry.1 = some entry.2 := by
  intro text
  let title : Identifier := ⟨"secant", by decide +kernel⟩
  let tol : Identifier := ⟨"tol", by decide +kernel⟩
  let relative : Identifier := ⟨"relative", by decide +kernel⟩
  let value : Value := ⟨"1e-6", by decide +kernel, by decide +kernel⟩
  let none : Value := ⟨"", by decide +kernel, by decide +kernel⟩
  let noIndent : Indentation := ⟨"", by decide +kernel⟩
  let space : Indentation := ⟨" ", by decide +kernel⟩
  let spaces : Indentation := ⟨"  ", by decide +kernel⟩
  let tab : Indentation := ⟨"\t", by decide +kernel⟩
  let content : Content := ⟨title, [(tol, value), (relative, none)], by decide +kernel⟩
  let ls : List (LaidLine × LineEnd) :=
    [(.skipped "# a run" (by decide +kernel) (by decide +kernel), .returnLineFeed),
      (.title spaces title, .lineFeed), (.entry tab tol space tab value, .returnLineFeed),
      (.skipped "" (by decide +kernel) (by decide +kernel), .lineFeed),
      (.entry noIndent relative noIndent space none, .returnLineFeed)]
  have htext : documentText ls = text := by decide +kernel
  obtain ⟨sections, hread, hrecord, hline, hget⟩ :=
    readSections_documentText (List.cons_ne_nil content []) ls rfl
  rw [htext] at hread
  exact ⟨sections, hread, hrecord, hline, hget⟩

end NumericMethods.Task
