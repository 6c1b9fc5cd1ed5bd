/-
  NumericMethods/Formula/Reader.lean
  ==================================
  **Reading a formula from text.**

  The grammar, from the loosest to the tightest binding:

      sum      := product (('+' | '-') product)*
      product  := unary (('*' | '/') unary | power)*
      unary    := '-' unary | '+' unary | power
      power    := primary (('^' | '**') unary)?
      primary  := number | '(' sum ')' | function '(' sum ')' | identifier

  A factor without a sign of multiplication starts with a letter, an underscore or an
  opening parenthesis.  Sums and products associate to the left, powers to the right, and
  a minus sign before a number becomes part of the number.

  A phrase that cannot be read is either *refused*, and the phrase around it may end or
  take another alternative, or *broken*, and the whole text is.  Only the argument of a
  function breaks a text.  Every reader recurses on the length of its text and on the
  level of the grammar, and its result carries the proof that the rest is shorter.
-/
import NumericMethods.Decimal
import NumericMethods.Formula
import NumericMethods.Text.Blank

namespace NumericMethods

/-- The ways in which a text fails to be a formula or a constant. -/
inductive ReadError where
  | empty
  | unexpected (position : Nat) (found : String)
  | unknownSymbol (name : String)
  | notConstant (text : String)
deriving DecidableEq, Repr

namespace ReadError

def message : ReadError → String
  | .empty => "empty expression"
  | .unexpected position found =>
    "unexpected input at position " ++ toString position ++ ": '" ++ found ++ "'"
  | .unknownSymbol name =>
    "unknown symbol '" ++ name ++ "', expressions are written in the variable 'x'"
  | .notConstant text => "'" ++ text ++ "' must be a constant expression"

end ReadError

namespace Formula

open Text

namespace Phrase

/-! ### Tokens -/

/-- The first characters of a factor without a sign of multiplication. -/
def startsFactor (c : Char) : Bool := c.isAlpha || c = '_' || c = '('

/-- The first characters of a name. -/
def startsName (c : Char) : Bool := c.isAlpha || c = '_'

/-- The further characters of a name. -/
def continuesName (c : Char) : Bool := c.isAlphanum || c = '_'

/-- Splits off the exponent sign, `^` or `**`, and the gap after it. -/
def exponentSign? (cs : List Char) : Option (List Char) :=
  match cs with
  | '^' :: r => some (dropGap r)
  | '*' :: '*' :: r => some (dropGap r)
  | _ => none

theorem length_exponentSign_lt {cs r : List Char} (h : exponentSign? cs = some r) :
    r.length < cs.length := by
  unfold exponentSign? at h
  split at h
  · rename_i t
    have hle := length_dropGap_le t
    cases h
    simp only [List.length_cons]
    omega
  · rename_i t
    have hle := length_dropGap_le t
    cases h
    simp only [List.length_cons]
    omega
  · cases h

/-! ### Phrases -/

/-- The outcome of reading a phrase: its value and the rest, whose length is below the
    bound, or the place where reading stopped. -/
inductive Reading (τ : Type) (bound : Nat) where
  | read (value : τ) (rest : List Char) (shorter : rest.length < bound)
  | refused (rest : List Char)
  | broken (rest : List Char)

variable {α : Type} [Scalar α]

/-- The negation of an operand; that of a number is a number. -/
def negated : Formula α → Formula α
  | .const v => .const (-v)
  | u => .neg u

/-- The formula a name stands for when it is not applied. -/
def named (name : String) : Formula α :=
  if name = "pi" then .const Scalar.pi
  else if name = "e" then .const Scalar.euler
  else .var name

/-- The number a numeral stands for. -/
def ofNumeral (n : Decimal.Numeral) : Formula α :=
  .const (Scalar.ofDecimal n.toDecimal.digits n.toDecimal.exponent)

mutual

/-- Reads terms joined by `+` and `-`. -/
def sum (cs : List Char) : Reading (Formula α) cs.length :=
  match product cs with
  | .read e r h =>
    match sumTail e r with
    | .read e' r' h' => .read e' r' (by omega)
    | .refused r' => .refused r'
    | .broken r' => .broken r'
  | .refused r => .refused r
  | .broken r => .broken r
termination_by (cs.length, 4)

/-- Reads the further terms of a sum. -/
def sumTail (acc : Formula α) (cs : List Char) : Reading (Formula α) (cs.length + 1) :=
  have hgap := length_dropGap_le cs
  match hcs : dropGap cs with
  | '+' :: r =>
    match product r with
    | .read e r' h =>
      match sumTail (.add acc e) r' with
      | .read e' r'' h' => .read e' r'' (by simp_all; omega)
      | .refused r'' => .refused r''
      | .broken r'' => .broken r''
    | .refused _ => .read acc cs (by omega)
    | .broken r' => .broken r'
  | '-' :: r =>
    match product r with
    | .read e r' h =>
      match sumTail (.sub acc e) r' with
      | .read e' r'' h' => .read e' r'' (by simp_all; omega)
      | .refused r'' => .refused r''
      | .broken r'' => .broken r''
    | .refused _ => .read acc cs (by omega)
    | .broken r' => .broken r'
  | _ => .read acc cs (by omega)
termination_by (cs.length, 0)
decreasing_by
  all_goals simp_all [Prod.lex_def]
  all_goals omega

/-- Reads factors joined by `*`, `/` or nothing. -/
def product (cs : List Char) : Reading (Formula α) cs.length :=
  match unary cs with
  | .read e r h =>
    match productTail e r with
    | .read e' r' h' => .read e' r' (by omega)
    | .refused r' => .refused r'
    | .broken r' => .broken r'
  | .refused r => .refused r
  | .broken r => .broken r
termination_by (cs.length, 3)

/-- Reads the further factors of a product.  Two stars are no sign of multiplication. -/
def productTail (acc : Formula α) (cs : List Char) : Reading (Formula α) (cs.length + 1) :=
  have hgap := length_dropGap_le cs
  match hcs : dropGap cs with
  | '*' :: '*' :: _ => .read acc cs (by omega)
  | '*' :: r =>
    match unary r with
    | .read e r' h =>
      match productTail (.mul acc e) r' with
      | .read e' r'' h' => .read e' r'' (by simp_all; omega)
      | .refused r'' => .refused r''
      | .broken r'' => .broken r''
    | .refused _ => .read acc cs (by omega)
    | .broken r' => .broken r'
  | '/' :: r =>
    match unary r with
    | .read e r' h =>
      match productTail (.div acc e) r' with
      | .read e' r'' h' => .read e' r'' (by simp_all; omega)
      | .refused r'' => .refused r''
      | .broken r'' => .broken r''
    | .refused _ => .read acc cs (by omega)
    | .broken r' => .broken r'
  | c :: r =>
    if startsFactor c then
      match power (c :: r) with
      | .read e r' h =>
        match productTail (.mul acc e) r' with
        | .read e' r'' h' => .read e' r'' (by simp_all; omega)
        | .refused r'' => .refused r''
        | .broken r'' => .broken r''
      | .refused _ => .read acc cs (by omega)
      | .broken r' => .broken r'
    else .read acc cs (by omega)
  | [] => .read acc cs (by omega)
termination_by (cs.length, 2)
decreasing_by
  all_goals simp_all [Prod.lex_def]
  all_goals omega

/-- Reads an operand with its signs. -/
def unary (cs : List Char) : Reading (Formula α) cs.length :=
  have hgap := length_dropGap_le cs
  match hcs : dropGap cs with
  | '-' :: r =>
    match unary r with
    | .read e r' h => .read (negated e) r' (by simp_all; omega)
    | .refused _ => .refused ('-' :: r)
    | .broken r' => .broken r'
  | '+' :: r =>
    match unary r with
    | .read e r' h => .read e r' (by simp_all; omega)
    | .refused _ => .refused ('+' :: r)
    | .broken r' => .broken r'
  | r =>
    match power r with
    | .read e r' h => .read e r' (by simp_all; omega)
    | .refused r' => .refused r'
    | .broken r' => .broken r'
termination_by (cs.length, 2)
decreasing_by
  all_goals simp_all [Prod.lex_def]
  all_goals omega

/-- Reads a primary and the exponent after it, if there is one. -/
def power (cs : List Char) : Reading (Formula α) cs.length :=
  match primary cs with
  | .read base r h =>
    have hgap := length_dropGap_le r
    match hsign : exponentSign? (dropGap r) with
    | some r' =>
      have hlt := length_exponentSign_lt hsign
      match unary r' with
      | .read exponent r'' h' => .read (.pow base exponent) r'' (by omega)
      | .refused _ => .read base r h
      | .broken r'' => .broken r''
    | none => .read base r h
  | .refused r => .refused r
  | .broken r => .broken r
termination_by (cs.length, 1)

/-- Reads a number, a parenthesis, a function with its argument, or a name. -/
def primary (cs : List Char) : Reading (Formula α) cs.length :=
  have hgap := length_dropGap_le cs
  match hnum : Decimal.numeral? (dropGap cs) with
  | some (n, r) => .read (ofNumeral n) r (by have := Decimal.length_numeral_lt hnum; omega)
  | none =>
    match hcs : dropGap cs with
    | '(' :: r =>
      match sum r with
      | .read e r' h =>
        have hgap' := length_dropGap_le r'
        match hclose : dropGap r' with
        | ')' :: r'' => .read e r'' (by simp_all; omega)
        | _ => .refused ('(' :: r)
      | .refused _ => .refused ('(' :: r)
      | .broken r' => .broken r'
    | c :: r =>
      if hc : startsName c then
        have hrest := length_dropWhile_le continuesName r
        let name := String.ofList (c :: r.takeWhile continuesName)
        match Elementary.ofName? name with
        | none => .read (named name) (r.dropWhile continuesName) (by simp_all; omega)
        | some f =>
          have hgap' := length_dropGap_le (r.dropWhile continuesName)
          match hopen : dropGap (r.dropWhile continuesName) with
          | '(' :: r' =>
            match sum r' with
            | .read e r'' h =>
              have hgap'' := length_dropGap_le r''
              match hclose : dropGap r'' with
              | ')' :: r''' => .read (.apply f e) r''' (by simp_all; omega)
              | stop => .broken stop
            | .refused stop => .broken stop
            | .broken stop => .broken stop
          | stop => .broken stop
      else .refused (c :: r)
    | [] => .refused []
termination_by (cs.length, 0)
decreasing_by
  all_goals simp_all [Prod.lex_def]
  all_goals omega

end

end Phrase

/-! ### Whole texts -/

variable {α : Type} [Scalar α]

/-- The error of a text of which `rest` was left over. -/
def unexpected (input rest : List Char) : ReadError :=
  let rest := trimStart rest
  .unexpected (utf8Length input - utf8Length rest)
    (if rest.isEmpty then "end of input" else String.ofList (rest.take 16))

/-- Reads a whole text as a formula, in any variables. -/
def readTree (input : List Char) : Except ReadError (Formula α) :=
  if (trim input).isEmpty then .error .empty
  else
    match (Phrase.sum input : Phrase.Reading (Formula α) input.length) with
    | .read e r _ =>
      if (trimStart r).isEmpty then .ok e else .error (unexpected input r)
    | .refused r => .error (unexpected input r)
    | .broken r => .error (unexpected input r)

/-- Reads a whole text as a formula in the variable `x`. -/
def read (input : String) : Except ReadError (Formula α) :=
  match readTree input.toList with
  | .error e => .error e
  | .ok e =>
    match e.variableNames.find? (· != variableName) with
    | some name => .error (.unknownSymbol name)
    | none => .ok e

end Formula

end NumericMethods
