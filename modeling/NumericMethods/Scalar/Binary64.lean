/-
  NumericMethods/Scalar/Binary64.lean
  ===================================
  **Binary floating point numbers of 64 bits as `Scalar`s.**

  The arithmetic is the one of `Float`.  Printing takes a number apart into its
  significand and exponent and chooses the shortest decimal that reads back to it; reading
  rounds an exact decimal to the nearest number.  Rounding to a whole number works on the
  same parts.
-/
import NumericMethods.Scalar
import NumericMethods.Decimal.Shortest

namespace NumericMethods.Binary64

/-! ### The parts of a number -/

/-- The sign bit. -/
def isNegative (x : Float) : Bool := Nat.pow 2 63 ≤ x.toBits.toNat

/-- The magnitude of a finite number.  A significand with its leading bit alone has the
    narrow gap below it, except at the smallest exponent. -/
def magnitude (x : Float) : Decimal.Dyadic :=
  let bits := x.toBits.toNat
  let fraction : Nat := bits % Nat.pow 2 52
  let field : Nat := bits / Nat.pow 2 52 % Nat.pow 2 11
  if field = 0 then ⟨fraction, -1074, false⟩
  else ⟨Nat.pow 2 52 + fraction, (field : Int) - 1075, fraction = 0 && 1 < field⟩

/-- The shortest decimal that reads back to the magnitude of a finite number. -/
def shortestDecimal (x : Float) : Decimal :=
  let m := magnitude x
  if m.significand = 0 then ⟨0, 0⟩ else m.shortest

/-! ### Text -/

/-- The text of a number in a given layout of decimals; undefined and infinite numbers
    have names. -/
def textIn (layout : Decimal → List Char) (x : Float) : String :=
  if x.isNaN then "NaN"
  else
    let sign := if isNegative x then "-" else ""
    if x.isInf then sign ++ "inf"
    else sign ++ String.ofList (layout (shortestDecimal x))

/-- The number nearest to `m * 10 ^ e`.  Exponents far outside the range of the format
    are decided without computing the power. -/
def ofDecimal (m : Nat) (e : Int) : Float :=
  let size := e + (Decimal.digitsOf m).length
  if m = 0 then 0
  else if 320 < size then 1 / 0
  else if size < -340 then 0
  else Float.ofScientific m (e < 0) e.natAbs

/-- Reads the name of an infinite or undefined number, in either case of letters. -/
def special? (cs : List Char) : Option Float :=
  match String.ofList (cs.map Char.toLower) with
  | "inf" => some (1 / 0)
  | "infinity" => some (1 / 0)
  | "nan" => some (0 / 0)
  | _ => none

/-- Reads an unsigned number that is the whole text. -/
def unsigned? (cs : List Char) : Option Float :=
  match Decimal.numeral? cs with
  | some (n, []) => some (ofDecimal n.toDecimal.digits n.toDecimal.exponent)
  | _ => special? cs

/-- Reads a number, with an optional sign, that is the whole text. -/
def ofText? (text : String) : Option Float :=
  match text.toList with
  | '-' :: cs => (unsigned? cs).map Neg.neg
  | '+' :: cs => unsigned? cs
  | cs => unsigned? cs

/-! ### The operations -/

/-- A key that orders all numbers: the negative ones backwards below the positive ones. -/
def orderKey (x : Float) : Nat :=
  let bits := x.toBits.toNat
  if Nat.pow 2 63 ≤ bits then Nat.pow 2 64 - 1 - bits else Nat.pow 2 63 + bits

/-- The nearest whole number, halves away from zero and with the sign of the number.  A
    number whose last place is worth one or more is whole. -/
def nearestWhole (x : Float) : Float :=
  let m := magnitude x
  if !x.isFinite || 0 ≤ m.exponent then x
  else
    let places := m.exponent.natAbs
    let whole := (m.significand + Nat.pow 2 (places - 1)) / Nat.pow 2 places
    let size := whole.toUInt64.toFloat
    if isNegative x then -size else size

/-- The elementary functions of the platform. -/
def elementary : Elementary → Float → Float
  | .exp => Float.exp
  | .ln => Float.log
  | .sin => Float.sin
  | .cos => Float.cos
  | .tan => Float.tan
  | .sqrt => Float.sqrt
  | .asin => Float.asin
  | .acos => Float.acos
  | .atan => Float.atan

/-- A power; an undefined result counts as no result. -/
def power (base exponent : Float) : Option Float :=
  let value := base ^ exponent
  if value.isNaN then none else some value

/-- The power of two whose exponent is nearest to minus the binary logarithm of `m`; one
    for a magnitude that has no such logarithm. -/
def balance (m : Float) : Float :=
  if m == 0 || !m.isFinite then 1 else Float.exp2 (-(Float.round (Float.log2 m)))

instance : Scalar Float where
  decLt := inferInstance
  decLe := inferInstance
  ofDecimal := ofDecimal
  pi := 3.141592653589793
  euler := 2.718281828459045
  abs := Float.abs
  round := nearestWhole
  isFinite := Float.isFinite
  power := power
  elementary := elementary
  balance := balance
  totalLe x y := orderKey x ≤ orderKey y
  text := textIn Decimal.positional
  scientific := textIn Decimal.scientific

end NumericMethods.Binary64
