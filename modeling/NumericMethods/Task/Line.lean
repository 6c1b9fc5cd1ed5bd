/-
  NumericMethods/Task/Line.lean
  =============================
  **The lines of a task document, and the lists in its values.**

  A line is a title or an entry `key: value`, both of which may be indented.  Titles and
  keys are identifiers.  A value may be a list, with commas between its items, or a list of
  rows with semicolons between them.
-/
import NumericMethods.Text.Blank

namespace NumericMethods.Task

open Text

/-- A line of a document that is neither blank nor a comment. -/
inductive Line where
  | title (name : List Char)
  | entry (key value : List Char)
deriving DecidableEq, Repr

/-! ### Titles and entries -/

/-- The first characters of an identifier. -/
def startsKey (c : Char) : Bool := c.isAlpha || c = '_'

/-- The further characters of an identifier. -/
def continuesKey (c : Char) : Bool := c.isAlphanum || c = '_'

/-- Splits off an identifier. -/
def key? (cs : List Char) : Option (List Char × List Char) :=
  match cs with
  | c :: r =>
    if startsKey c then some (c :: r.takeWhile continuesKey, r.dropWhile continuesKey)
    else none
  | [] => none

/-- The characters that indent a line and surround a colon. -/
def isIndent (c : Char) : Bool := c = ' ' || c = '\t'

/-- The text without its indentation. -/
def dropIndent (cs : List Char) : List Char := cs.dropWhile isIndent

/-- Reads a line.  An identifier that is followed by a colon is a key, and one that is
    followed by nothing a title. -/
def Line.read? (cs : List Char) : Option Line :=
  match key? (dropIndent cs) with
  | none => none
  | some (key, r) =>
    match dropIndent r with
    | [] => some (.title key)
    | ':' :: value => some (.entry key (trim value))
    | _ => none

/-- Whether a line is blank or a comment. -/
def isSkipped (cs : List Char) : Bool :=
  match trim cs with
  | [] => true
  | '/' :: '/' :: _ => true
  | c :: _ => c = '#' || c = '%' || c = ';'

/-! ### Lists and rows -/

/-- The characters inside an item. -/
def isItemChar (c : Char) : Bool := c ≠ ',' && c ≠ ';'

/-- Splits off an item, which is not empty but may be blank. -/
def item? (cs : List Char) : Option (List Char × List Char) :=
  match cs.takeWhile isItemChar with
  | [] => none
  | text => some (trim text, cs.dropWhile isItemChar)

theorem length_item_le {cs item rest : List Char} (h : item? cs = some (item, rest)) :
    rest.length ≤ cs.length := by
  unfold item? at h
  split at h
  · simp at h
  · simp only [Option.some.injEq, Prod.mk.injEq] at h
    rw [← h.2]
    exact length_dropWhile_le isItemChar cs

/-- Splits off the items after the first one; a comma without an item after it is left. -/
def furtherItems (cs : List Char) : List (List Char) × List Char :=
  match cs with
  | ',' :: r =>
    match h : item? r with
    | some (item, rest) =>
      have := length_item_le h
      let further := furtherItems rest
      (item :: further.1, further.2)
    | none => ([], cs)
  | _ => ([], cs)
termination_by cs.length
decreasing_by simp; omega

/-- Splits off a list of at least one item. -/
def list? (cs : List Char) : Option (List (List Char) × List Char) :=
  match item? cs with
  | some (item, rest) =>
    let further := furtherItems rest
    some (item :: further.1, further.2)
  | none => none

theorem length_furtherItems_le (cs : List Char) : (furtherItems cs).2.length ≤ cs.length := by
  fun_induction furtherItems cs with
  | case1 r item rest h this further ih =>
    have hle : further.2.length ≤ rest.length := ih
    simp only [List.length_cons]
    omega
  | case2 r h => simp
  | case3 cs h => simp

theorem length_list_le {cs rest : List Char} {items : List (List Char)}
    (h : list? cs = some (items, rest)) : rest.length ≤ cs.length := by
  unfold list? at h
  split at h
  · rename_i item r hi
    have := length_item_le hi
    have := length_furtherItems_le r
    simp only [Option.some.injEq, Prod.mk.injEq] at h
    rw [← h.2]
    omega
  · simp at h

/-- Splits off the rows after the first one; a semicolon without a row after it is left. -/
def furtherRows (cs : List Char) : List (List (List Char)) × List Char :=
  match cs with
  | ';' :: r =>
    match h : list? r with
    | some (row, rest) =>
      have := length_list_le h
      let further := furtherRows rest
      (row :: further.1, further.2)
    | none => ([], cs)
  | _ => ([], cs)
termination_by cs.length
decreasing_by simp; omega

/-- Splits off at least one row. -/
def rows? (cs : List Char) : Option (List (List (List Char)) × List Char) :=
  match list? cs with
  | some (row, rest) =>
    let further := furtherRows rest
    some (row :: further.1, further.2)
  | none => none

/-- The items of a text that is a list. -/
def wholeList? (cs : List Char) : Option (List (List Char)) :=
  match list? cs with
  | some (items, []) => some items
  | _ => none

/-- The rows of a text that is a list of rows. -/
def wholeRows? (cs : List Char) : Option (List (List (List Char))) :=
  match rows? cs with
  | some (rows, []) => some rows
  | _ => none

end NumericMethods.Task
