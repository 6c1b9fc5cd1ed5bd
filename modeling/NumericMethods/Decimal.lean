/-
  NumericMethods/Decimal.lean
  ===========================
  **Decimal numerals: their two layouts and their reader.**

  A decimal is a natural number of digits times a power of ten.  It is laid out
  positionally (`0.0025`, `1200`, never with an exponent) or scientifically (`2.5e-3`,
  `1.2e3`, one digit before the point).  The reader takes the longest numeral at the head
  of a text: digits with an optional point, or a point and digits, followed by an exponent
  if the marker is followed by digits.
-/

namespace NumericMethods

/-- The number `digits * 10 ^ exponent`. -/
structure Decimal where
  digits : Nat
  exponent : Int
deriving DecidableEq, Repr

namespace Decimal

/-! ### Layouts -/

/-- The decimal digits of a natural number, `0` for zero. -/
def digitsOf (n : Nat) : List Char := Nat.toDigits 10 n

/-- The positional layout. -/
def positional (d : Decimal) : List Char :=
  let ds := digitsOf d.digits
  match d.exponent with
  | .ofNat zeros => if d.digits = 0 then ds else ds ++ List.replicate zeros '0'
  | .negSucc n =>
    let places := n + 1
    if places < ds.length then
      ds.take (ds.length - places) ++ '.' :: ds.drop (ds.length - places)
    else
      '0' :: '.' :: (List.replicate (places - ds.length) '0' ++ ds)

/-- The text of a whole number, with a minus sign if it is negative. -/
def wholeText : Int → List Char
  | .ofNat n => digitsOf n
  | .negSucc n => '-' :: digitsOf (n + 1)

/-- The scientific layout. -/
def scientific (d : Decimal) : List Char :=
  let ds := digitsOf d.digits
  let exponent := if d.digits = 0 then 0 else d.exponent + (ds.length - 1 : Nat)
  let point := if ds.length ≤ 1 then [] else ['.']
  ds.take 1 ++ point ++ ds.drop 1 ++ 'e' :: wholeText exponent

/-! ### Reading -/

/-- The value of a list of decimal digits. -/
def digitsValue (ds : List Char) : Nat :=
  ds.foldl (fun v c => 10 * v + (c.toNat - '0'.toNat)) 0

/-- A numeral as it is written: the digits before the point, those after it, and the
    exponent. -/
structure Numeral where
  whole : List Char
  fraction : List Char
  exponent : Int
deriving DecidableEq, Repr

/-- The number a numeral stands for. -/
def Numeral.toDecimal (n : Numeral) : Decimal :=
  ⟨digitsValue (n.whole ++ n.fraction), n.exponent - n.fraction.length⟩

/-- Splits off the mantissa: digits with an optional point and more digits, or a point
    and digits. -/
def mantissa? (cs : List Char) : Option (List Char × List Char × List Char) :=
  let whole := cs.takeWhile Char.isDigit
  match cs.dropWhile Char.isDigit with
  | '.' :: r =>
    let fraction := r.takeWhile Char.isDigit
    if whole = [] ∧ fraction = [] then none
    else some (whole, fraction, r.dropWhile Char.isDigit)
  | r => if whole = [] then none else some (whole, [], r)

/-- Splits off a run of at least one digit, as a number. -/
def digitRun? (cs : List Char) : Option (Nat × List Char) :=
  if cs.takeWhile Char.isDigit = [] then none
  else some (digitsValue (cs.takeWhile Char.isDigit), cs.dropWhile Char.isDigit)

/-- Splits off a run of digits with an optional sign. -/
def signedRun? (cs : List Char) : Option (Int × List Char) :=
  match cs with
  | '-' :: r => (digitRun? r).map fun (n, rest) => (-(n : Int), rest)
  | '+' :: r => (digitRun? r).map fun (n, rest) => ((n : Int), rest)
  | r => (digitRun? r).map fun (n, rest) => ((n : Int), rest)

/-- Splits off an exponent.  A marker that no digits follow is not an exponent, and
    nothing is split off. -/
def exponentOf (cs : List Char) : Int × List Char :=
  match cs with
  | 'e' :: r => (signedRun? r).getD (0, cs)
  | 'E' :: r => (signedRun? r).getD (0, cs)
  | _ => (0, cs)

/-- The longest numeral at the head of a text, and the rest of the text. -/
def numeral? (cs : List Char) : Option (Numeral × List Char) :=
  (mantissa? cs).map fun (whole, fraction, r) =>
    let (exponent, rest) := exponentOf r
    (⟨whole, fraction, exponent⟩, rest)

/-! ### A numeral is not empty -/

theorem length_dropDigits_le (cs : List Char) :
    (cs.dropWhile Char.isDigit).length ≤ cs.length :=
  (List.dropWhile_suffix Char.isDigit).length_le

theorem length_dropDigits_lt {cs : List Char} (h : cs.takeWhile Char.isDigit ≠ []) :
    (cs.dropWhile Char.isDigit).length < cs.length := by
  have hlen := congrArg List.length (List.takeWhile_append_dropWhile (p := Char.isDigit) (l := cs))
  have := List.length_pos_iff.2 h
  rw [List.length_append] at hlen
  omega

theorem length_mantissa_lt {cs whole fraction r : List Char}
    (h : mantissa? cs = some (whole, fraction, r)) : r.length < cs.length := by
  simp only [mantissa?] at h
  have hle := length_dropDigits_le cs
  split at h
  · rename_i t ht
    have hdrop := length_dropDigits_le t
    split at h
    · simp at h
    · simp only [Option.some.injEq, Prod.mk.injEq] at h
      obtain ⟨-, -, rfl⟩ := h
      rw [ht] at hle
      simp at hle
      omega
  · split at h
    · simp at h
    · rename_i hw
      simp only [Option.some.injEq, Prod.mk.injEq] at h
      obtain ⟨-, -, rfl⟩ := h
      exact length_dropDigits_lt hw

theorem length_digitRun_le {cs r : List Char} {n : Nat} (h : digitRun? cs = some (n, r)) :
    r.length ≤ cs.length := by
  have hle := length_dropDigits_le cs
  unfold digitRun? at h
  split at h
  · simp at h
  · simp_all

theorem length_signedRun_le {cs r : List Char} {n : Int} (h : signedRun? cs = some (n, r)) :
    r.length ≤ cs.length := by
  unfold signedRun? at h
  split at h <;> obtain ⟨⟨m, t⟩, hm, ht⟩ := Option.map_eq_some_iff.1 h <;>
    have hle := length_digitRun_le hm <;> simp_all <;> omega

theorem length_exponentOf_le (cs : List Char) : (exponentOf cs).2.length ≤ cs.length := by
  unfold exponentOf
  split
  · rename_i r
    cases hs : signedRun? r with
    | none => simp
    | some p => have := length_signedRun_le hs; simp; omega
  · rename_i r
    cases hs : signedRun? r with
    | none => simp
    | some p => have := length_signedRun_le hs; simp; omega
  · simp

theorem length_numeral_lt {cs r : List Char} {n : Numeral} (h : numeral? cs = some (n, r)) :
    r.length < cs.length := by
  unfold numeral? at h
  obtain ⟨⟨whole, fraction, t⟩, hm, ht⟩ := Option.map_eq_some_iff.1 h
  have hlt := length_mantissa_lt hm
  have hle := length_exponentOf_le t
  simp only [Prod.mk.injEq] at ht
  rw [← ht.2]
  omega

end Decimal

end NumericMethods
