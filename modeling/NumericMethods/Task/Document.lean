/-
  NumericMethods/Task/Document.lean
  =================================
  **Task documents: lists of titled sections.**

  A title on a line of its own opens a section, and the entries after it belong to it.
  Blank lines and comments (`//`, `#`, `%`, `;`) are skipped wherever they stand.  A title
  may occur again, a key only once in a section.  The first line that breaks these rules is
  reported.
-/
import NumericMethods.Task.Error
import NumericMethods.Task.Line
import NumericMethods.Text.Lines

namespace NumericMethods.Task

open Text

/-- A section: its title, the number of the line of the title, and its entries. -/
structure Section where
  title : String
  line : Nat
  entries : List (String × String)
deriving DecidableEq, Repr

namespace Section

/-- The text of an entry. -/
def get? (s : Section) (key : String) : Option String :=
  (s.entries.find? fun entry => entry.1 = key).map Prod.snd

/-- The section with one more entry. -/
def addEntry (s : Section) (key value : String) : Section :=
  { s with entries := s.entries ++ [(key, value)] }

end Section

/-- Adds a line to the sections read so far, the last of which comes first. -/
def addLine (sections : List Section) (number : Nat) (line : List Char) :
    Except TaskError (List Section) :=
  if isSkipped line then .ok sections
  else
    match Line.read? line with
    | some (.title name) => .ok (⟨String.ofList name, number, []⟩ :: sections)
    | some (.entry key value) =>
      let key := String.ofList key
      match sections with
      | [] => .error (.badLine number (.beforeTitle key))
      | s :: rest =>
        if (s.get? key).isSome then .error (.badLine number (.duplicateKey key s.title))
        else .ok (s.addEntry key (String.ofList value) :: rest)
    | none => .error (.badLine number (.unreadable (String.ofList (trim line))))

/-- Adds lines, the first of which has the given number. -/
def addLines (sections : List Section) (number : Nat) :
    List (List Char) → Except TaskError (List Section)
  | [] => .ok sections
  | line :: rest =>
    match addLine sections number line with
    | .ok sections => addLines sections (number + 1) rest
    | .error e => .error e

/-- The sections of a document, of which there is at least one. -/
def readSections (text : String) : Except TaskError (List Section) :=
  match addLines [] 1 (lines text.toList) with
  | .error e => .error e
  | .ok sections => if sections.isEmpty then .error .empty else .ok sections.reverse

end NumericMethods.Task
