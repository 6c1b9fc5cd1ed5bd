/-
  NumericMethods/RootFinding/Bracketing.lean
  ==========================================
  **Root finders that keep the root in a bracket.**

  Bisection and false position share one process.  Its state is a bracket `[a, b]` at whose
  ends the function has opposite signs, and a point inside; a step replaces one end by the
  point and chooses the next point.  The two methods differ in the choice of the point and
  in the test that decides which end is replaced.
-/
import NumericMethods.RootFinding.Solution

namespace NumericMethods

variable {α : Type} [Scalar α]

/-- The ends of a bracket and the values there. -/
structure Bracket (α : Type) where
  a : α
  b : α
  fa : α
  fb : α
deriving DecidableEq, Repr

namespace Bracket

/-- What the first look at a bracket shows. -/
inductive Opening (α : Type) where
  | root (x : α)
  | signChange (bracket : Bracket α)

/-- Checks the order of the ends and the signs there.  An end at which the function is
    zero is a root. -/
def opened (f : Formula α) (a b : α) : Except (NumericError α) (Opening α) :=
  if b < a then .error (.invalid .bracketOrder)
  else do
    let fa ← liftDomain (f.eval a)
    let fb ← liftDomain (f.eval b)
    if fa == 0 then return .root a
    else if fb == 0 then return .root b
    else if 0 ≤ fa * fb then throw (.invalid (.noSignChange a b))
    else return .signChange ⟨a, b, fa, fb⟩

/-- The midpoint. -/
def midpoint (k : Bracket α) : Except (NumericError α) α := .ok ((k.a + k.b) / Scalar.ofNat 2)

/-- The point where the chord through the two ends crosses zero. -/
def chordRoot (k : Bracket α) : Except (NumericError α) α :=
  if k.fb == k.fa then .error .zeroDenominator
  else .ok (k.b - k.fb * (k.b - k.a) / (k.fb - k.fa))

/-- A bracketing method: the choice of the point, and the test for the sign change to lie
    to the right of the point, given the value there. -/
structure Rule (α : Type) where
  method : Method
  point : Bracket α → Except (NumericError α) α
  keepsRight : Bracket α → α → Bool

/-- Halving: the sign change is to the right if the left end has the sign of the point. -/
def halving : Rule α := ⟨.bisection, midpoint, fun k fm => decide (0 < k.fa * fm)⟩

/-- The chord: the sign change is to the right if the right end has the other sign. -/
def chord : Rule α := ⟨.falsePosition, chordRoot, fun k fm => decide (fm * k.fb < 0)⟩

/-- The part of a bracket on one side of a point. -/
def narrowed (rule : Rule α) (k : Bracket α) (mid fm : α) : Bracket α :=
  if rule.keepsRight k fm then { k with a := mid, fa := fm } else { k with b := mid, fb := fm }

/-- The state of a run: the bracket, and the row that shows it. -/
structure State (α : Type) where
  bracket : Bracket α
  row : BracketRow α

/-- The state before the first step. -/
def start (rule : Rule α) (f : Formula α) (k : Bracket α) :
    Except (NumericError α) (State α) := do
  let mid ← rule.point k
  let fm ← liftDomain (f.eval mid)
  return ⟨k, ⟨0, k.a, mid, k.b, fm, Control.initialError⟩⟩

/-- The next state. -/
def step (rule : Rule α) (f : Formula α) (c : Control α) (s : State α) :
    Except (NumericError α) (State α) := do
  let k := s.bracket.narrowed rule s.row.mid s.row.value
  let mid ← rule.point k
  let fm ← liftDomain (f.eval mid)
  let error ← liftDomain (c.stepError mid s.row.mid)
  return ⟨k, ⟨s.row.index + 1, k.a, mid, k.b, fm, error⟩⟩

/-- The process of a bracketing method. -/
def process (rule : Rule α) (f : Formula α) (c : Control α) : Process α (State α) where
  step := step rule f c
  error s := s.row.error
  exact s := s.row.value == 0

/-- The solution that a run of states shows. -/
def solution (rule : Rule α) (fallback : State α) (states : List (State α)) :
    RootSolution α (BracketRow α) :=
  ⟨(states.getLastD fallback).row.mid, some ⟨rule.method, states.map State.row⟩⟩

/-- Finds a root between `a` and `b`. -/
def find (rule : Rule α) (f : Formula α) (a b : α) (c : Control α) :
    Except (NumericError α) (RootSolution α (BracketRow α)) := do
  match ← opened f a b with
  | .root x => return .immediate x
  | .signChange k =>
    let s ← start rule f k
    let states ← (process rule f c).run c c.maxIterations s
    return solution rule s states

end Bracket

/-- Bisection: halves the bracket until the step is below the tolerance. -/
def bisection (f : Formula α) (a b : α) (c : Control α) :
    Except (NumericError α) (RootSolution α (BracketRow α)) :=
  Bracket.find Bracket.halving f a b c

/-- False position: the new point is where the chord through both ends crosses zero. -/
def falsePosition (f : Formula α) (a b : α) (c : Control α) :
    Except (NumericError α) (RootSolution α (BracketRow α)) :=
  Bracket.find Bracket.chord f a b c

end NumericMethods
