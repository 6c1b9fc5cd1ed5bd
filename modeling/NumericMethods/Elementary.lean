/-
  NumericMethods/Elementary.lean
  ==============================
  **The elementary functions a formula may apply.**

  A function has one canonical name, under which it is printed, and it is read under
  that name and a few common aliases (`log`, `tg`, `arcsin`, ...).
-/

namespace NumericMethods

/-- The elementary functions of one real variable. -/
inductive Elementary where
  | exp
  | ln
  | sin
  | cos
  | tan
  | sqrt
  | asin
  | acos
  | atan
deriving DecidableEq, Repr

namespace Elementary

/-- The canonical name, used for printing. -/
def name : Elementary → String
  | exp => "exp"
  | ln => "ln"
  | sin => "sin"
  | cos => "cos"
  | tan => "tan"
  | sqrt => "sqrt"
  | asin => "asin"
  | acos => "acos"
  | atan => "atan"

/-- Every name a function is read under, the canonical one first. -/
def names : Elementary → List String
  | exp => ["exp"]
  | ln => ["ln", "log"]
  | sin => ["sin"]
  | cos => ["cos"]
  | tan => ["tan", "tg"]
  | sqrt => ["sqrt"]
  | asin => ["asin", "arcsin"]
  | acos => ["acos", "arccos"]
  | atan => ["atan", "arctan", "arctg"]

/-- All functions. -/
def all : List Elementary := [exp, ln, sin, cos, tan, sqrt, asin, acos, atan]

/-- The function that goes by the given name, if there is one. -/
def ofName? (name : String) : Option Elementary :=
  all.find? fun f => f.names.contains name

end Elementary

end NumericMethods
