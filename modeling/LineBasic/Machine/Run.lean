import LineBasic.Machine.Exec
import LineBasic.Script.Reader

/-!
# Running programs

A run executes the lines of the program from the current one on. It ends behind
the last line, at `END`, or with an error. A line may start another run inside
the run, though not too deep. Since a program may go on forever, a run is
granted a number of lines, and halts when it has used them up.

* `Machine.execute`: a text as a line.
* `Machine.step`: the current line of the program.
* `Machine.run`: the program.
* `Machine.enter`: a line that the user enters.
-/

namespace LineBasic.Machine

/-- Executes a text. A line number before it counts as that of the line, but
nothing is stored. -/
def execute (run : Act Unit) (text : String) : Act Unit :=
  match Tape.ofLine text with
  | .cons ⟨.lineNumber n, _, _⟩ rest => (Script.read rest).exec run (some n)
  | t => (Script.read t).exec run none

/-- Executes the text of the program line `n`. -/
def executeLine (run : Act Unit) (n : Int64) (text : String) : Act Unit :=
  (Script.read (Tape.ofStatements text)).exec run (some n)

/-- On to the line that follows. -/
def advance : Act Unit := modify fun m => { m with control := m.control.advance }

/-- Does what program line `n` is to do, and goes on to the line that follows.
Errors name the line. -/
def asLine (n : Int64) (statements : Act Unit) : Act Bool := do
  try statements
  catch
    | .finished => do
      advance
      throw .finished
    | h => throw (h.inLine n)
  advance
  return true

/-- Executes the current line of the program. The result is whether there is
one. -/
def step (run : Act Unit) : Act Bool := do
  match (← get).control.fetch with
  | none => return false
  | some (n, control) =>
    modify ({ · with control })
    match (← get).listing.find? n with
    | none => Act.fail (.lineVanished n)
    | some text => asLine n (executeLine run n text)

/-- Stops with an error if the break key was pressed. -/
def checkBreak : Act Unit := do
  let m ← get
  if m.console.interrupted then
    set { m with console := { m.console with interrupted := false } }
    Act.fail <|
      match m.control.lineAt? m.control.address with
      | some n => Error.breakKey.inLine n
      | none => .breakKey

/-- Executes the current line in a run. The result is whether the run goes on:
not behind `END`, nor if tracing is on. -/
def advanceRun (nested : Act Unit) : Act Bool := do
  checkBreak
  try
    let _ ← step nested
    pure !(← get).control.trace
  catch
    | .finished => pure false
    | h => throw h

/-- Runs the program, at most `budget` lines of it. A run inside the run is
`nested`. -/
def runLines (nested : Act Unit) : Nat → Act Unit
  | 0 => do
    if (← get).control.inRange then throw .exhausted else Act.printLine "DONE."
  | budget + 1 => do
    if (← get).control.inRange then
      if ← advanceRun nested then runLines nested budget else Act.printLine "DONE."
    else Act.printLine "DONE."

/-- How deep runs may be nested. -/
def runDepth : Nat := 32

/-- Runs the program with so many lines granted to each run. Runs can be nested
`depth` deep. -/
def runNested (budget : Nat) : Nat → Act Unit
  | 0 => Act.fail .nestedTooDeep
  | depth + 1 => runLines (runNested budget depth) budget

/-- Runs the program with so many lines granted to each run. -/
def run (budget : Nat) : Act Unit := runNested budget runDepth

/-- Stores a line in the program, or deletes one. -/
def edit (text : String) : Act Unit := do
  let line ← Act.ofExcept (Line.parse text)
  let listing ← Act.inspect (·.listing.edit line)
  modify ({ · with listing })

/-- Does what the user enters: a line with a number edits the program, any other
one is executed. -/
def enter (run : Act Unit) (text : String) : Act Unit :=
  if isVacant text then pure ()
  else
    match Tape.ofLine text with
    | .broken e => Act.fail e
    | .cons ⟨.lineNumber _, _, _⟩ _ => edit text
    | _ =>
      try execute run text
      catch
        | .finished => pure ()
        | h => throw h

end LineBasic.Machine
