/-
  NumericMethods/Task/Error.lean
  ==============================
  **What can be wrong with a task document, and the wording of each.**
-/
import NumericMethods.Formula.Reader

namespace NumericMethods.Task

/-- The levels of the log, from silent to detailed. -/
inductive Level where
  | off
  | error
  | warn
  | info
  | debug
deriving DecidableEq, Repr

/-- What is wrong with a line. -/
inductive LineFault where
  | beforeTitle (key : String)
  | duplicateKey (key title : String)
  | unreadable (text : String)
deriving DecidableEq, Repr

def LineFault.message : LineFault → String
  | .beforeTitle key => "'" ++ key ++ "' appears before any section title"
  | .duplicateKey key title => "duplicate key '" ++ key ++ "' in section '" ++ title ++ "'"
  | .unreadable text => "cannot parse '" ++ text ++ "'"

/-- What is wrong with a value. -/
inductive ValueFault where
  | notConstant (e : ReadError)
  | emptyInteger
  | invalidDigit
  | integerTooLarge
  | notFlag
  | notList
  | notRows
  | unknownLevel (name : String)
deriving DecidableEq, Repr

/-- The wording of an unknown level. -/
def unknownLevelMessage (name : String) : String :=
  "loglevel must be debug, info, warn, error or off, got '" ++ name ++ "'"

def ValueFault.message : ValueFault → String
  | .notConstant e => e.message
  | .emptyInteger => "cannot parse integer from empty string"
  | .invalidDigit => "invalid digit found in string"
  | .integerTooLarge => "number too large to fit in target type"
  | .notFlag => "provided string was not `true` or `false`"
  | .notList => "expected a comma separated list"
  | .notRows => "expected rows separated by ';'"
  | .unknownLevel name => unknownLevelMessage name

/-- The failures of reading a document and building its tasks. -/
inductive TaskError where
  | empty
  | badLine (line : Nat) (fault : LineFault)
  | unknownTask (title : String)
  | missingKey (task key : String)
  | invalidValue (task key : String) (fault : ValueFault)
  | unreadableFile (path reason : String)
deriving DecidableEq, Repr

def TaskError.message : TaskError → String
  | .empty => "the task document has no sections"
  | .badLine line fault => "line " ++ toString line ++ ": " ++ fault.message
  | .unknownTask title => "unknown task '" ++ title ++ "'"
  | .missingKey task key => "task '" ++ task ++ "' needs the key '" ++ key ++ "'"
  | .invalidValue task key fault =>
    "task '" ++ task ++ "', key '" ++ key ++ "': " ++ fault.message
  | .unreadableFile path reason => "cannot read task file: " ++ path ++ ": " ++ reason

end NumericMethods.Task
