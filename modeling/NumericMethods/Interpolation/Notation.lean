/-
  NumericMethods/Interpolation/Notation.lean
  ==========================================
  **How numbers and polynomials are written.**

  Numbers are rounded to ten decimal places, and what is closer to zero than that is
  written as zero.  Every text written here can be read back as a formula.
-/
import NumericMethods.Scalar

namespace NumericMethods.Written

variable {α : Type} [Scalar α]

/-- The smallest magnitude that is not written as zero. -/
def resolution : α := Scalar.ofDecimal 1 (-10)

/-- The number of units of the last place in one. -/
def unitsPerOne : α := Scalar.ofDecimal 1 10

/-- A number, rounded to ten places. -/
def number (v : α) : String :=
  if Scalar.abs v < resolution then "0"
  else Scalar.text (Scalar.round (v * unitsPerOne) / unitsPerOne + 0)

/-- Whether a number is written with a minus sign. -/
def isNegative (v : α) : Bool := (number v).startsWith "-"

/-- A number as a factor; a negative one stands in parentheses. -/
def factor (v : α) : String :=
  if isNegative v then "(" ++ number v ++ ")" else number v

/-- The sign between two terms, the second of which has coefficient `v`. -/
def sign (v : α) : String := if isNegative v then " - " else " + "

/-- The magnitude of a number. -/
def magnitude (v : α) : String := number (Scalar.abs v)

/-- The factor that is zero at `node`. -/
def linearFactor (node : α) : String :=
  if node < 0 then "(x + " ++ magnitude node ++ ")" else "(x - " ++ number node ++ ")"

/-- The ending of an ordinal. -/
def ordinalEnding (n : Nat) : String :=
  if 11 ≤ n % 100 && n % 100 ≤ 13 then "th"
  else
    match n % 10 with
    | 1 => "st"
    | 2 => "nd"
    | 3 => "rd"
    | _ => "th"

/-- The ordinal of a number. -/
def ordinal (n : Nat) : String := toString n ++ ordinalEnding n

/-- A power of `x` with the magnitude of its coefficient. -/
def monomial (coefficient : α) (power : Nat) : String :=
  match power with
  | 0 => magnitude coefficient
  | 1 => magnitude coefficient ++ "x"
  | p => magnitude coefficient ++ "x^" ++ toString p

/-- The terms after the first one, from the power below `power` down; the coefficients come
    highest power first. -/
def furtherTerms : List α → String
  | [] => ""
  | c :: cs => sign c ++ monomial c cs.length ++ furtherTerms cs

/-- A polynomial, highest power first, from its coefficients in ascending order. -/
def descendingPolynomial (ascending : List α) : String :=
  match ascending.reverse with
  | [] => ""
  | c :: cs => (if isNegative c then "-" else "") ++ monomial c cs.length ++ furtherTerms cs

/-- A line with slope `m`. -/
def line (m c : α) : String := number m ++ "x" ++ sign c ++ magnitude c

/-- A cubic polynomial, highest power first. -/
def cubic (a b c d : α) : String :=
  number a ++ "x^3" ++ sign b ++ magnitude b ++ "x^2" ++ sign c ++ magnitude c ++ "x" ++
    sign d ++ magnitude d

end NumericMethods.Written
