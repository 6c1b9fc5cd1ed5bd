/-
  NumericMethods/Text/Blank.lean
  ==============================
  **White space around texts.**

  A text is trimmed of the characters with the Unicode property White_Space.  Inside a
  formula a narrower class separates tokens: space, tab and the two line breaks.
-/

namespace NumericMethods.Text

/-- The characters with the Unicode property White_Space. -/
def isBlank (c : Char) : Bool :=
  let n := c.toNat
  (9 ≤ n && n ≤ 13) || n = 0x20 || n = 0x85 || n = 0xA0 || n = 0x1680 ||
    (0x2000 ≤ n && n ≤ 0x200A) || n = 0x2028 || n = 0x2029 || n = 0x202F || n = 0x205F ||
    n = 0x3000

/-- The text without the blanks it starts with. -/
def trimStart (cs : List Char) : List Char := cs.dropWhile isBlank

/-- The text without the blanks it ends with. -/
def trimEnd (cs : List Char) : List Char := (cs.reverse.dropWhile isBlank).reverse

/-- The text without the blanks at either end. -/
def trim (cs : List Char) : List Char := trimEnd (trimStart cs)

/-- A string without the blanks at either end. -/
def trimmed (s : String) : String := String.ofList (trim s.toList)

/-- The characters that separate the tokens of a formula. -/
def isGap (c : Char) : Bool := c = ' ' || c = '\t' || c = '\r' || c = '\n'

/-- The text without the gap it starts with. -/
def dropGap (cs : List Char) : List Char := cs.dropWhile isGap

theorem length_dropWhile_le (p : Char → Bool) (cs : List Char) :
    (cs.dropWhile p).length ≤ cs.length :=
  (List.dropWhile_suffix p).length_le

theorem length_dropGap_le (cs : List Char) : (dropGap cs).length ≤ cs.length :=
  length_dropWhile_le isGap cs

/-- The number of bytes a text takes in UTF-8. -/
def utf8Length (cs : List Char) : Nat := cs.foldl (fun n c => n + c.utf8Size) 0

end NumericMethods.Text
