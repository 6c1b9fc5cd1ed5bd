/-
  NumericMethods/Text/Records.lean
  ================================
  **Records as lines of comma separated fields.**

  A field that holds a comma, a quote or a line break stands in quotes, and the quotes
  inside it are doubled.  A record that would be an empty line is written as an empty
  quoted field.  All records have as many fields as the first one.
-/

namespace NumericMethods.Text

/-- Records of different lengths. -/
inductive RecordError where
  | unequalLengths (found expected : Nat)
deriving DecidableEq, Repr

def RecordError.message : RecordError → String
  | .unequalLengths found expected =>
    "CSV error: found record with " ++ toString found ++
      " fields, but the previous record has " ++ toString expected ++ " fields"

namespace Records

/-- The characters that force a field into quotes. -/
def needsQuotes (c : Char) : Bool := c = ',' || c = '"' || c = '\r' || c = '\n'

/-- The text of a field inside quotes. -/
def doubled : List Char → List Char
  | [] => []
  | c :: cs => if c = '"' then '"' :: '"' :: doubled cs else c :: doubled cs

/-- A field as it is written. -/
def field (cs : List Char) : List Char :=
  if cs.any needsQuotes then '"' :: (doubled cs ++ ['"']) else cs

/-- A record as a line. -/
def line (fields : List String) : List Char :=
  let text := ((fields.map fun s => field s.toList).intersperse [',']).flatten
  (if text.isEmpty then ['"', '"'] else text) ++ ['\n']

/-- The first record whose length is not the expected one. -/
def checked (expected : Nat) (records : List (List String)) : Except RecordError Unit :=
  match records.find? fun r => r.length ≠ expected with
  | some r => .error (.unequalLengths r.length expected)
  | none => .ok ()

/-- The text of records of one length. -/
def text (records : List (List String)) : Except RecordError String := do
  checked (records.headD []).length records
  return String.ofList (records.map line).flatten

end Records

end NumericMethods.Text
