/-
  NumericMethods/Trace.lean
  =========================
  **The record of an iterative run.**

  A trace holds a row for every state of the run, in order.  Each family of methods has one
  kind of row, so that the rows of a trace have the same columns.  Row 0 is the state before
  the first step and carries the initial error.
-/
import NumericMethods.Method
import NumericMethods.Scalar
import NumericMethods.Text.Table

namespace NumericMethods

variable {α : Type}

/-! ### Rows -/

/-- What a kind of row offers to the trace: its columns, the texts of its cells, its index
    and its error. -/
class TraceRow (ρ : Type) (α : outParam Type) where
  columns : List String
  cells : ρ → List String
  index : ρ → Nat
  error : ρ → α

/-- A row of a bracketing method: the bracket, the point inside it, the value there. -/
structure BracketRow (α : Type) where
  index : Nat
  a : α
  mid : α
  b : α
  value : α
  error : α
deriving DecidableEq, Repr

/-- A row of an open method: the point and the value there. -/
structure PointRow (α : Type) where
  index : Nat
  point : α
  value : α
  error : α
deriving DecidableEq, Repr

/-- A row of an iteration on vectors. -/
structure VectorRow (α : Type) where
  index : Nat
  point : List α
  error : α
deriving DecidableEq, Repr

/-- A vector as text. -/
def vectorText [Scalar α] (xs : List α) : String :=
  "[" ++ String.intercalate ", " (xs.map Scalar.text) ++ "]"

variable [Scalar α]

instance : TraceRow (BracketRow α) α where
  index r := r.index
  error r := r.error
  columns := ["n", "a", "xm", "b", "f(xm)", "error"]
  cells r :=
    [toString r.index, Scalar.text r.a, Scalar.text r.mid, Scalar.text r.b,
      Scalar.text r.value, Scalar.text r.error]

instance : TraceRow (PointRow α) α where
  index r := r.index
  error r := r.error
  columns := ["n", "x", "f(x)", "error"]
  cells r := [toString r.index, Scalar.text r.point, Scalar.text r.value, Scalar.text r.error]

instance : TraceRow (VectorRow α) α where
  index r := r.index
  error r := r.error
  columns := ["n", "x", "error"]
  cells r := [toString r.index, vectorText r.point, Scalar.text r.error]

/-! ### Traces -/

/-- The rows of a run of a method. -/
structure Trace (ρ : Type) where
  method : Method
  rows : List ρ
deriving DecidableEq, Repr

namespace Trace

variable {ρ : Type}

/-- The number of steps of the run. -/
def iterations (t : Trace ρ) : Nat := t.rows.length - 1

variable [TraceRow ρ α]

/-- The error of the last row. -/
def finalError? (t : Trace ρ) : Option α := t.rows.getLast?.map TraceRow.error

/-- The index of the last row. -/
def lastIndex? (t : Trace ρ) : Option Nat := t.rows.getLast?.map TraceRow.index

omit [Scalar α]

/-- The header and the cells of all rows. -/
def records (t : Trace ρ) : List (List String) :=
  TraceRow.columns ρ :: t.rows.map TraceRow.cells

/-- The trace as a table. -/
def table (t : Trace ρ) : String := Text.Table.render t.records

/-- The table under the name of the method. -/
def text (t : Trace ρ) : String := t.method.name ++ "\n" ++ t.table

end Trace

end NumericMethods
