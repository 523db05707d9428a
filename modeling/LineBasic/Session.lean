import LineBasic.Machine.Run

/-!
# Sessions

A session is what the user of a machine sees. Lines are entered, and what stops
one of them is reported.

* `Session.report`: tells why a line stopped.
* `Session.interactive`: lines are entered until the user quits.
* `Session.batch`: a program is loaded and run.
-/

namespace LineBasic.Session

/-- Tells why a line stopped. The result is whether the session is over. If the
process is over, nothing can be told any more. -/
def report : Halt → Act Bool
  | .finished => return false
  | .quit => do
    try Act.printLine "GOOD BYE!" catch _ => pure ()
    return true
  | .failed e => do
    try
      Act.printLine ("?" ++ e.message)
      if !e.isSyntax && !e.isDirect then Machine.dump (← get).control.address ""
      return false
    catch _ => return true
  | .exhausted => return true
  | .aborted => throw .aborted

/-- Greets the user. -/
def greet : Act Unit := Act.printAll ["TINY BASIC INTERPRETER V1.00", "READY"]

/-- Asks for a line and does what it says. -/
def turn (run : Act Unit) : Act Unit := do
  let line ← Act.console (·.input "> ")
  Machine.enter run line

/-- Takes a turn and tells why it stopped, if it did. The result is whether the
session is over. -/
def attend (run : Act Unit) : Act Bool := do
  try
    turn run
    return false
  catch h => report h

/-- Takes at most so many turns, until the session is over. -/
def turns (run : Act Unit) : Nat → Act Unit
  | 0 => pure ()
  | n + 1 => do
    Act.printLine ""
    if ← attend run then pure () else turns run n

/-- A session at the console. Every turn takes an answer, and the session is
over when none is left. -/
def converse (run : Act Unit) : Act Unit := do
  greet
  turns run ((← get).console.answers.length + 1)

/-- Loads a program from a file and runs it. -/
def play (run : Act Unit) (file : String) : Act Unit := do
  Machine.enter run ("LOAD \"" ++ file ++ "\"")
  Machine.enter run "RUN"

/-- Loads a program from a file, runs it, and tells why it stopped, if it
did. -/
def perform (run : Act Unit) (file : String) : Act Unit := do
  try play run file
  catch h =>
    let _ ← report h

/-- The machine after an act, whether it halts or not. -/
def afterwards {α : Type} (act : Act α) (m : Machine) : Machine :=
  match act m with
  | .ok _ m | .error _ m => m

/-- The machine after a session at the console, with so many lines granted to
each run. -/
def interactive (budget : Nat) : Machine → Machine := afterwards (converse (Machine.run budget))

/-- The machine after a program from a file, with so many lines granted to each
run. -/
def batch (budget : Nat) (file : String) : Machine → Machine :=
  afterwards (perform (Machine.run budget) file)

end LineBasic.Session
