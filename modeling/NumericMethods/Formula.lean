/-
  NumericMethods/Formula.lean
  ===========================
  **Formulas of one variable as trees.**

  A formula is built from variables, numbers, the four operations, powers, negation and the
  elementary functions.  The printed form puts every operation into parentheses, so that
  the tree can be read back from it.
-/
import NumericMethods.Scalar

namespace NumericMethods

/-- A formula over the numbers `α`. -/
inductive Formula (α : Type) where
  | var (name : String)
  | const (value : α)
  | add (l r : Formula α)
  | sub (l r : Formula α)
  | mul (l r : Formula α)
  | div (l r : Formula α)
  | pow (base exponent : Formula α)
  | neg (u : Formula α)
  | apply (f : Elementary) (u : Formula α)
deriving DecidableEq, BEq, Repr

namespace Formula

variable {α : Type}

/-- The name of the variable that formulas are written in. -/
def variableName : String := "x"

/-- The variable that formulas are written in. -/
def x : Formula α := .var variableName

/-- The number that the formula is, if it is a bare number. -/
def constant? : Formula α → Option α
  | .const v => some v
  | _ => none

/-- The number of nodes of the tree. -/
@[simp] def nodes : Formula α → Nat
  | .var _ => 1
  | .const _ => 1
  | .add l r => l.nodes + r.nodes + 1
  | .sub l r => l.nodes + r.nodes + 1
  | .mul l r => l.nodes + r.nodes + 1
  | .div l r => l.nodes + r.nodes + 1
  | .pow l r => l.nodes + r.nodes + 1
  | .neg u => u.nodes + 1
  | .apply _ u => u.nodes + 1

/-! ### Variables -/

/-- Whether the variable `name` occurs in the formula. -/
def mentions (name : String) : Formula α → Bool
  | .var n => n == name
  | .const _ => false
  | .add l r => l.mentions name || r.mentions name
  | .sub l r => l.mentions name || r.mentions name
  | .mul l r => l.mentions name || r.mentions name
  | .div l r => l.mentions name || r.mentions name
  | .pow l r => l.mentions name || r.mentions name
  | .neg u => u.mentions name
  | .apply _ u => u.mentions name

/-- The names of the variables in the order of their occurrences. -/
def occurrences : Formula α → List String
  | .var n => [n]
  | .const _ => []
  | .add l r => l.occurrences ++ r.occurrences
  | .sub l r => l.occurrences ++ r.occurrences
  | .mul l r => l.occurrences ++ r.occurrences
  | .div l r => l.occurrences ++ r.occurrences
  | .pow l r => l.occurrences ++ r.occurrences
  | .neg u => u.occurrences
  | .apply _ u => u.occurrences

/-- The names of the variables, sorted and without repetition. -/
def variableNames (e : Formula α) : List String :=
  e.occurrences.eraseDups.mergeSort fun a b => decide (a ≤ b)

/-- Whether the formula mentions no variable. -/
def isConstant (e : Formula α) : Bool := e.variableNames.isEmpty

/-! ### Printing -/

/-- The text of a number inside a formula; a negative one stands in parentheses. -/
def constantText [Scalar α] (v : α) : String :=
  if v < 0 then "(" ++ Scalar.text v ++ ")" else Scalar.text v

/-- The printed form. -/
def text [Scalar α] : Formula α → String
  | .var n => n
  | .const v => constantText v
  | .add l r => "(" ++ l.text ++ " + " ++ r.text ++ ")"
  | .sub l r => "(" ++ l.text ++ " - " ++ r.text ++ ")"
  | .mul l r => "(" ++ l.text ++ " * " ++ r.text ++ ")"
  | .div l r => "(" ++ l.text ++ " / " ++ r.text ++ ")"
  | .pow l r => "(" ++ l.text ++ " ^ " ++ r.text ++ ")"
  | .neg u => "(-" ++ u.text ++ ")"
  | .apply f u => f.name ++ "(" ++ u.text ++ ")"

end Formula

end NumericMethods
