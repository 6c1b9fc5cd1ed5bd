/-
  NumericMethods/Scalar.lean
  ==========================
  **The numbers that the methods compute with.**

  Every method of this library is written once, for any type of numbers that offers the
  operations collected in `Scalar`.  The class has no laws: a theorem about a method names
  the laws it needs (those of an ordered field, of the real numbers, or none at all), and
  the programs run on binary floating point, where few laws hold.

  What can be said with those operations alone (the test for an undefined number, the
  larger of two numbers, natural powers, sums) is defined here once for all of them.
-/
import NumericMethods.Elementary

namespace NumericMethods

/-- The operations on numbers that the methods use, without laws. -/
class Scalar (α : Type) extends
    Add α, Sub α, Mul α, Div α, Neg α, Zero α, One α, LT α, LE α, BEq α where
  decLt : DecidableLT α
  decLe : DecidableLE α
  /-- The number nearest to `m * 10 ^ e`. -/
  ofDecimal : (m : Nat) → (e : Int) → α
  /-- The ratio of a circle's circumference to its diameter. -/
  pi : α
  /-- The base of the natural logarithm. -/
  euler : α
  abs : α → α
  /-- The nearest whole number, halves away from zero. -/
  round : α → α
  /-- Neither infinite nor undefined. -/
  isFinite : α → Bool
  /-- A power, where it is defined. -/
  power : α → α → Option α
  /-- The value of an elementary function on its domain. -/
  elementary : Elementary → α → α
  /-- The power of two that brings a positive magnitude close to one. -/
  balance : α → α
  /-- A total order that refines `≤` and also places the numbers `≤` cannot compare. -/
  totalLe : α → α → Bool
  /-- The shortest decimal text, never with an exponent. -/
  text : α → String
  /-- The shortest decimal text with one digit before the point and an exponent. -/
  scientific : α → String

namespace Scalar

variable {α : Type} [Scalar α]

instance : DecidableLT α := Scalar.decLt

instance : DecidableLE α := Scalar.decLe

/-! ### Numerals -/

/-- A natural number as a number of the type. -/
def ofNat (n : Nat) : α := ofDecimal n 0

/-- The spacing of binary floating point numbers just above one, `2 ^ -52`. -/
def epsilon : α := 1 / ofNat (Nat.pow 2 52)

/-! ### Undefined numbers -/

/-- An undefined number is the one that does not equal itself. -/
def isUndefined (x : α) : Bool := !(x == x)

/-- The larger of two numbers; an undefined one gives way to the other. -/
def larger (x y : α) : α :=
  if isUndefined x then y
  else if isUndefined y then x
  else if x < y then y else x

/-! ### Powers and sums -/

/-- `natPowFrom acc base n` is `acc * base ^ n`, one squaring for each binary digit
    of `n`. -/
def natPowFrom (acc base : α) (n : Nat) : α :=
  let acc := if n % 2 = 1 then acc * base else acc
  if n / 2 = 0 then acc else natPowFrom acc (base * base) (n / 2)
termination_by n
decreasing_by omega

/-- The natural power `base ^ n` by repeated squaring. -/
def natPow (base : α) (n : Nat) : α := natPowFrom 1 base n

/-- The sum of a list, from the left.  It starts at minus zero, the neutral element of
    floating point addition. -/
def total (xs : List α) : α := xs.foldl (· + ·) (-0)

/-- The sum of a list, from its first member, each further one added from the left. -/
def accumulated (xs : List α) : α :=
  match xs with
  | [] => 0
  | x :: xs => xs.foldl (fun sum y => y + sum) x

/-- The product of a list, from the left. -/
def product (xs : List α) : α := xs.foldl (· * ·) 1

/-- The largest of zero and the magnitudes in a list. -/
def largestMagnitude (xs : List α) : α := xs.foldl (fun m x => larger m (abs x)) 0

/-- The largest magnitude in a list, undefined if all its members are, and zero for an
    empty list. -/
def peakMagnitude (xs : List α) : α :=
  match xs with
  | [] => 0
  | x :: xs => xs.foldl (fun m y => larger m (abs y)) (abs x)

end Scalar

end NumericMethods
