/-
  NumericMethods/Proofs/Task/Document.lean
  ========================================
  **Sections, and what a line does to the sections read so far.**

  In a section whose keys are different every entry is found under its key
  (`Section.get?_of_mem`), and entries are added at the end.

  A line that is skipped leaves the sections as they are, a title opens a section, and an
  entry is added to the section that is open.  The line is reported if no section is open,
  if the open one has the key already, and if it is none of these forms.
-/
import Mathlib
import NumericMethods.Proofs.Task.Line
import NumericMethods.Task.Document

namespace NumericMethods.Task

/-! ### Sections -/

namespace Section

variable {s : Section} {k : String} {entry : String × String}

theorem get?_isSome_iff : (s.get? k).isSome = true ↔ k ∈ s.entries.map Prod.fst := by
  rw [get?, Option.isSome_map, List.find?_isSome, List.mem_map]
  simp only [decide_eq_true_eq]

theorem keys_addEntry (s : Section) (k v : String) :
    (s.addEntry k v).entries.map Prod.fst = s.entries.map Prod.fst ++ [k] := by
  simp [addEntry]

theorem get?_of_mem (h : (s.entries.map Prod.fst).Nodup) (hentry : entry ∈ s.entries) :
    s.get? entry.1 = some entry.2 := by
  cases hfind : s.entries.find? fun other => other.1 = entry.1 with
  | none => simpa using List.find?_eq_none.1 hfind entry hentry
  | some other =>
    have hkey : other.1 = entry.1 := by simpa using List.find?_some hfind
    have hother := List.inj_on_of_nodup_map h (List.mem_of_find?_eq_some hfind) hentry hkey
    rw [get?, hfind, hother]
    rfl

end Section

/-! ### One more line -/

variable {cs name key value : List Char} {sections : List Section} {s : Section}

theorem addLine_skipped (h : isSkipped cs = true) (number : ℕ) :
    addLine sections number cs = .ok sections := by
  rw [addLine, if_pos h]

theorem addLine_title (h : (Line.title name).IsWritten cs) (number : ℕ) :
    addLine sections number cs = .ok (⟨String.ofList name, number, []⟩ :: sections) := by
  rw [addLine, h.isSkipped_eq_false, if_neg Bool.false_ne_true, Line.read?_of_isWritten h]

theorem addLine_entry (h : (Line.entry key value).IsWritten cs)
    (hkey : String.ofList key ∉ s.entries.map Prod.fst) (number : ℕ) :
    addLine (s :: sections) number cs =
      .ok (s.addEntry (String.ofList key) (String.ofList value) :: sections) := by
  rw [← Section.get?_isSome_iff] at hkey
  rw [addLine, h.isSkipped_eq_false, if_neg Bool.false_ne_true, Line.read?_of_isWritten h]
  dsimp only
  rw [if_neg hkey]

theorem addLine_duplicateKey (h : (Line.entry key value).IsWritten cs)
    (hkey : String.ofList key ∈ s.entries.map Prod.fst) (number : ℕ) :
    addLine (s :: sections) number cs =
      .error (.badLine number (.duplicateKey (String.ofList key) s.title)) := by
  rw [← Section.get?_isSome_iff] at hkey
  rw [addLine, h.isSkipped_eq_false, if_neg Bool.false_ne_true, Line.read?_of_isWritten h]
  dsimp only
  rw [if_pos hkey]

theorem addLine_beforeTitle (h : (Line.entry key value).IsWritten cs) (number : ℕ) :
    addLine [] number cs = .error (.badLine number (.beforeTitle (String.ofList key))) := by
  rw [addLine, h.isSkipped_eq_false, if_neg Bool.false_ne_true, Line.read?_of_isWritten h]

theorem addLine_unreadable (hskipped : ¬ isSkipped cs = true) (h : Line.read? cs = none)
    (number : ℕ) :
    addLine sections number cs =
      .error (.badLine number (.unreadable (String.ofList (Text.trim cs)))) := by
  rw [addLine, if_neg hskipped, h]

end NumericMethods.Task
