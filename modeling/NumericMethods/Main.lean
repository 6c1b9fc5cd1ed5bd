/-
  NumericMethods/Main.lean
  ========================
  **The command line.**

  The one argument is the path of a task document.  Its tasks are run in order and their
  reports printed; without an argument a short document that is built in is run.
-/
import NumericMethods.Scalar.Binary64
import NumericMethods.Task.Report

open NumericMethods

/-- The document that is run if there is no argument. -/
def builtInDocument : String := "
settings
    loglevel: info

bisection
    fx: x^2 - 2
    a: 1
    b: 2
    tol: 1e-6

newton
    fx: cos(x) - x
    x0: pi/4
    tol: 1e-10

compare_roots
    fx: x^3 - 2x - 5
    a: 2
    b: 3
    x0: 2
    x1: 3

lagrange
    x: -1, 0, 1
    y: 1, 0, 1

cubic_spline
    x: 0, 1, 2, 3
    y: 0, 1, 0, 1

compare_linear
    A: 4, -1, 0; -1, 4, -1; 0, -1, 4
    b: 2, 4, 10
    w: 1.1
    tol: 1e-8
"

/-- The wording of a failure to read a file. -/
def readFailure : IO.Error → String
  | .noFileOrDirectory _ code _ => "No such file or directory (os error " ++ toString code ++ ")"
  | e => toString e

/-- The session of the file at a path. -/
def sessionOfFile (path : String) : IO Session := do
  try
    let text ← IO.FS.readFile path
    return Session.ofText Float text
  catch e =>
    return Session.refused (.unreadableFile path (readFailure e))

/-- Writes what a session leaves behind. -/
def writeSession (s : Session) : IO UInt32 := do
  if s.logFile then
    IO.FS.writeFile ("log_" ++ toString (← IO.monoMsNow) ++ ".txt") ""
  for (name, content) in s.files do
    IO.FS.writeFile name content
  IO.print s.output
  IO.eprint s.errors
  return s.code.toUInt32

def main (args : List String) : IO UInt32 := do
  match args with
  | path :: _ => writeSession (← sessionOfFile path)
  | [] =>
    IO.println "usage: numeric-methods <task file>; running the built-in document"
    writeSession (Session.ofText Float builtInDocument)
