import LineBasic.Session

/-!
# The command line

With the name of a file, the program in it is loaded and run. Without one, lines
are read from the standard input until the user quits. A program can use the
files of the working directory, and what it writes to them is written back.

A machine knows the answers of its user in advance. So an act that asks and
finds no answer is taken back, and is done again with the answer that the user
gives.
-/

namespace LineBasic.CommandLine

/-- How many lines are granted to a run. -/
def budget : Nat := 1000000000000000000

/-- The files of the working directory, as far as they are texts. -/
def readFolder : IO Storage := do
  let mut storage : Storage := { naming := .paths }
  for entry in ← (← IO.currentDir).readDir do
    try
      let text ← IO.FS.readFile entry.fileName
      storage := { storage with files := storage.files.insert entry.fileName text }
    catch _ => pure ()
  return storage

/-- Writes the files that have changed. -/
def writeFolder (before after : Storage) : IO Unit := do
  for (name, text) in after.files.toList do
    if before.files[name]? != some text then IO.FS.writeFile name text

/-- Shows what a machine has printed, but for the characters that were shown
before. -/
def showOutput (m : Machine) (seen : Nat) : IO Unit := do
  let stdout ← IO.getStdout
  stdout.putStr (String.ofList (m.console.output.toList.drop seen))
  stdout.flush

/-- Does an act, and asks the user whenever an answer is missing. The result is
why the act stopped, if it did, and the machine behind it. -/
partial def doAsking (act : Act Unit) (m : Machine) (seen : Nat) : IO (Option Halt × Machine) := do
  let (halt, after) := match act m with
    | .ok _ after => (none, after)
    | .error h after => (some h, after)
  if seen = 0 && m.console.clears < after.console.clears then IO.print "\x1b[2J\x1b[H"
  showOutput after seen
  if after.console.unanswered then
    let line ← (← IO.getStdin).getLine
    if !line.isEmpty then
      let answer := (line.dropEndWhile fun c => c = '\n' || c = '\r').toString
      let m := { m with console := { m.console with answers := m.console.answers ++ [some answer] } }
      return ← doAsking act m (after.console.output.length + answer.length + 1)
  return (halt, after)

/-- Does an act and reports why it stopped. The result is whether the session is
over, and the machine, ready for another act. -/
def doReporting (act : Act Unit) (m : Machine) : IO (Bool × Machine) := do
  let (halt, stopped) ← doAsking act m 0
  let (ended, after) := match halt with
    | none => (false, stopped)
    | some h =>
      match Session.report h stopped with
      | .ok ended after => (ended, after)
      | .error _ after => (true, after)
  showOutput after stopped.console.output.length
  writeFolder m.console.storage after.console.storage
  return (ended, { after with console := { after.console with output := "", unanswered := false } })

/-- Takes turns until the session is over. -/
partial def takeTurns (m : Machine) : IO Unit := do
  let (ended, m) ← doReporting (do Act.printLine ""; Session.turn (Machine.run budget)) m
  unless ended do takeTurns m

end LineBasic.CommandLine

open LineBasic in
/-- Runs the program in a file, or a session at the console. -/
def main (args : List String) : IO Unit := do
  let storage ← CommandLine.readFolder
  let chance := mkStdGen (← IO.rand 1 2147483562)
  let m : Machine := { console := { storage }, chance }
  match args with
  | file :: _ => discard (CommandLine.doReporting (Session.play (Machine.run CommandLine.budget) file) m)
  | [] =>
    let (_, m) ← CommandLine.doReporting Session.greet m
    CommandLine.takeTurns m
