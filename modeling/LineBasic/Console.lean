import LineBasic.Storage
import LineBasic.Text.Blank
import LineBasic.Text.Lines

/-!
# The console

Everything a program reads or writes goes over a console: it prints, asks for
lines, clears the screen and has files. The user of the console is given in
advance: the answers to its questions, and when the break key is pressed or
printing fails.

* `Console.print`, `Console.input`, `Console.inputInteger`.
* `Console.readLines`, `Console.writeText`: files.
-/

namespace LineBasic

/-- A console and its user. -/
structure Console where
  /-- What was printed. -/
  output : String := ""
  /-- The answers still to come; none is the break key. -/
  answers : List (Option String) := []
  storage : Storage := {}
  /-- How often the screen was cleared. -/
  clears : Nat := 0
  /-- Whether the break key was pressed and nobody has looked. -/
  interrupted : Bool := false
  /-- With which print from now on the break key is pressed. -/
  breakIn : Option Nat := none
  /-- After how many prints from now on one fails. -/
  failIn : Option Nat := none
  /-- Whether a question was left without an answer. -/
  unanswered : Bool := false

namespace Console

/-- The console after one more print, as far as the break key is concerned. -/
def countPrint (c : Console) : Console :=
  match c.breakIn with
  | none => c
  | some n =>
    if n ≤ 1 then { c with interrupted := true, breakIn := none } else { c with breakIn := some (n - 1) }

/-- Prints a text, perhaps with a line feed. -/
def print (c : Console) (text : String) (newline : Bool) : Except Halt Unit × Console :=
  if c.failIn = some 0 then (.error (.failed .printFailed), { c with failIn := none })
  else
    let c := { c with failIn := c.failIn.map (· - 1) }.countPrint
    (.ok (), { c with output := c.output ++ text ++ if newline then "\n" else "" })

/-- Asks for a line. It is echoed. Without an answer the session is over. -/
def input (c : Console) (prompt : String) : Except Halt String × Console :=
  match c.answers with
  | [] => (.error .quit, { c with output := c.output ++ prompt, unanswered := true })
  | none :: rest => (.error (.failed .breakKey), { c with answers := rest })
  | some line :: rest =>
    (.ok line, { c with answers := rest, output := c.output ++ prompt ++ line ++ "\n" })

/-- The integer that an answer stands for. -/
def integerOf (line : String) : Except Halt Int64 :=
  match Integer.read? (trimList line.toList) with
  | some n => .ok n
  | none => .error (.failed (.notAnInteger (trim line)))

/-- Asks for an integer. -/
def inputInteger (c : Console) (prompt : String) : Except Halt Int64 × Console :=
  match c.input prompt with
  | (.ok line, c) => (integerOf line, c)
  | (.error h, c) => (.error h, c)

/-- Clears the screen. -/
def clear (c : Console) : Console := { c with clears := c.clears + 1 }

/-- The lines of a file. -/
def readLines (c : Console) (file : String) : Except Error (List String) :=
  match c.storage.read file with
  | .ok text => .ok (lines text)
  | .error e => .error (e.toError file)

/-- Writes a file. -/
def writeText (c : Console) (file text : String) : Except Error Console :=
  match c.storage.write file text with
  | .ok storage => .ok { c with storage }
  | .error e => .error (e.toError file)

end Console

end LineBasic
