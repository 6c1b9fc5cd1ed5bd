/-
  NumericMethods/Task/Values.lean
  ===============================
  **Reading the values of a section.**

  Values stay texts until they are read as what they are needed for.  Numbers may be
  constant formulas such as `pi/4`, also inside lists and rows; counts and flags are plain.
  A value that cannot be read is reported with its section and key.
-/
import NumericMethods.Control
import NumericMethods.Task.Document
import NumericMethods.Text.LowerCase

namespace NumericMethods.Task

/-! ### Plain values -/

/-- The first number that a count cannot hold. -/
def countLimit : Nat := Nat.pow 2 64

/-- Reads the digits of a count, after the value `value` of the digits before them.  The
    first digit that is none or that exceeds the limit decides. -/
def countFrom (value : Nat) : List Char → Except ValueFault Nat
  | [] => .ok value
  | c :: cs =>
    if c.isDigit then
      let next := 10 * value + (c.toNat - '0'.toNat)
      if next < countLimit then countFrom next cs else .error .integerTooLarge
    else .error .invalidDigit

/-- Reads a count. -/
def count (cs : List Char) : Except ValueFault Nat :=
  match cs with
  | [] => .error .emptyInteger
  | ['+'] => .error .invalidDigit
  | '+' :: ds => countFrom 0 ds
  | ds => countFrom 0 ds

/-- Reads a flag. -/
def flagValue (text : String) : Except ValueFault Bool :=
  if text = "true" then .ok true
  else if text = "false" then .ok false
  else .error .notFlag

/-- Reads the name of a level of the log, in any case of letters. -/
def Level.ofName (name : String) : Except String Level :=
  match String.ofList (Text.toLowerCase (Text.trim name.toList)) with
  | "debug" => .ok .debug
  | "info" => .ok .info
  | "warn" => .ok .warn
  | "error" => .ok .error
  | "off" => .ok .off
  | "none" => .ok .off
  | other => .error other

/-- The name of a level. -/
def Level.name : Level → String
  | .off => "OFF"
  | .error => "ERROR"
  | .warn => "WARN"
  | .info => "INFO"
  | .debug => "DEBUG"

/-! ### Numbers -/

variable {α : Type} [Scalar α]

/-- Reads a number. -/
def numberValue (text : String) : Except ValueFault α :=
  (Formula.readConstant text).mapError .notConstant

/-- Reads numbers up to the first that cannot be read. -/
def numberValues : List (List Char) → Except ValueFault (List α)
  | [] => .ok []
  | item :: items => do
    let x ← numberValue (String.ofList item)
    let xs ← numberValues items
    return x :: xs

/-- Reads rows of numbers up to the first number that cannot be read. -/
def rowValues : List (List (List Char)) → Except ValueFault (List (List α))
  | [] => .ok []
  | row :: rows => do
    let r ← numberValues row
    let rs ← rowValues rows
    return r :: rs

/-- Reads a list of numbers. -/
def vectorValue (text : String) : Except ValueFault (List α) :=
  match wholeList? text.toList with
  | some items => numberValues items
  | none => .error .notList

/-- Reads rows of numbers. -/
def matrixValue (text : String) : Except ValueFault (List (List α)) :=
  match wholeRows? text.toList with
  | some rows => rowValues rows
  | none => .error .notRows

/-! ### Values of a section -/

namespace Section

/-- The text of an entry that must be there. -/
def required (s : Section) (key : String) : Except TaskError String :=
  match s.get? key with
  | some text => .ok text
  | none => .error (.missingKey s.title key)

/-- Reads the value of an entry, if it is there. -/
def readValue {τ : Type} (s : Section) (read : String → Except ValueFault τ) (key : String) :
    Except TaskError (Option τ) :=
  match s.get? key with
  | none => .ok none
  | some text =>
    match read text with
    | .ok v => .ok (some v)
    | .error fault => .error (.invalidValue s.title key fault)

/-- A number. -/
def number (s : Section) (key : String) : Except TaskError (Option α) :=
  s.readValue numberValue key

/-- A count. -/
def integer (s : Section) (key : String) : Except TaskError (Option Nat) :=
  s.readValue (fun text => count text.toList) key

/-- A flag. -/
def flag (s : Section) (key : String) : Except TaskError (Option Bool) :=
  s.readValue flagValue key

/-- A list of numbers. -/
def vector (s : Section) (key : String) : Except TaskError (Option (List α)) :=
  s.readValue vectorValue key

/-- Rows of numbers. -/
def matrix (s : Section) (key : String) : Except TaskError (Option (List (List α))) :=
  s.readValue matrixValue key

/-- The control of an iteration; what is not said is standard. -/
def control (s : Section) : Except TaskError (Control α) := do
  let tolerance ← s.number "tol"
  let maxIterations ← s.integer "niter"
  let relative ← s.flag "relative"
  let standard : Control α := Control.standard
  return ⟨tolerance.getD standard.tolerance, maxIterations.getD standard.maxIterations,
    relative.getD standard.relative⟩

end Section

end NumericMethods.Task
