import LineBasic.Console
import LineBasic.Control
import LineBasic.Listing
import LineBasic.Script.Basic

/-!
# The machine

A machine has a program, its variables, the place where the program is, and a
console. An act changes the machine; it may halt, and what it changed before it
halts stays changed.

* `Act`: what machines do.
* `Machine.reset`, `Machine.renew`, `Machine.dump`, `Machine.debug`.
-/

namespace LineBasic

/-- A machine. -/
structure Machine where
  listing : Listing := .empty
  memory : Memory := .empty
  control : Control := {}
  console : Console := {}
  /-- The source of random numbers. -/
  chance : StdGen := mkStdGen

/-- What a machine does, with a result or a halt. -/
abbrev Act := EStateM Halt Machine

namespace Act

/-- Raises an error. -/
def fail {α : Type} (e : Error) : Act α := throw (.failed e)

/-- Goes on with a result, or raises its error. -/
def ofExcept {α : Type} : Except Error α → Act α
  | .ok a => pure a
  | .error e => fail e

/-- Looks at something in the machine that may be an error. -/
def inspect {α : Type} (f : Machine → Except Error α) : Act α := fun m => ofExcept (f m) m

/-- Evaluates in the memory of the machine. -/
def evaluate {α : Type} (f : Memory → Eval α) : Act α := fun m =>
  match f m.memory m.chance with
  | .ok a chance => .ok a { m with chance }
  | .error e chance => .error (.failed e) { m with chance }

/-- Uses the console. -/
def console {α : Type} (f : Console → Except Halt α × Console) : Act α := fun m =>
  match f m.console with
  | (.ok a, console) => .ok a { m with console }
  | (.error h, console) => .error h { m with console }

/-- Changes the memory. -/
def memory (f : Memory → Except Error Unit × Memory) : Act Unit := fun m =>
  match f m.memory with
  | (.ok (), memory) => .ok () { m with memory }
  | (.error e, memory) => .error (.failed e) { m with memory }

/-- Replaces the memory, unless there is a halt. -/
def remember (f : Memory → Except Halt Memory) : Act Unit := fun m =>
  match f m.memory with
  | .ok memory => .ok () { m with memory }
  | .error h => .error h m

/-- Moves in the program, unless there is an error. -/
def control (f : Control → Except Error Control) : Act Unit := fun m =>
  match f m.control with
  | .ok control => .ok () { m with control }
  | .error e => .error (.failed e) m

/-- Prints a text, perhaps with a line feed. -/
def print (text : String) (newline : Bool) : Act Unit := console (·.print text newline)

/-- Prints a line. -/
def printLine (text : String) : Act Unit := print text true

/-- Prints lines. -/
def printAll : List String → Act Unit
  | [] => pure ()
  | text :: rest => do
    printLine text
    printAll rest

/-! ### Evaluation

The value of an expression, as what the statement demands it to be. -/

/-- The value of an expression. -/
def value (e : Expr) : Act Value := evaluate e.eval

/-- The integer of an expression. -/
def integer (e : Expr) : Act Int64 := do ofExcept (← value e).toInteger

/-- The text of an expression. -/
def text (e : Expr) : Act String := do ofExcept (← value e).toText

/-- Whether a condition holds. -/
def truth (e : Expr) : Act Bool := do ofExcept (← value e).truth

/-- The number of an expression. -/
def numeric (e : Expr) : Act Value := do ofExcept (← value e).numeric

/-- The step of a loop. -/
def stride (e : Expr) : Act Stride := do ofExcept (← value e).toStride

/-- The integer of an expression, if there is one. -/
def integer? : Option Expr → Act (Option Int64)
  | some e => do return some (← integer e)
  | none => return none

/-- The index of a place. -/
def index (p : Place) : Act Int64 := do return (← integer? p.index).getD 0

/-- Evaluates operands for their errors only. -/
def check : List Operand → Act Unit
  | [] => pure ()
  | o :: rest => do
    evaluate o.check
    check rest

end Act

namespace Machine

/-- Writes the number of its line to every label. -/
def bindLabels : List (String × Int64) → Act Unit
  | [] => pure ()
  | (name, n) :: rest => do
    Act.memory (·.write .numeric name 0 (.integer n))
    bindLabels rest

/-- Clears the memory but for the labels, and goes before the first line. The
labels are bound by name. Their order makes no difference as long as none of
them is refused. -/
def reset : Act Unit := do
  modify fun m => { m with memory := .empty }
  bindLabels (← get).listing.labels.toList
  modify fun m => { m with control := m.control.reset m.listing.numbers }

/-- Clears the program, the memory and the place in the program. -/
def renew (m : Machine) : Machine :=
  { m with listing := .empty, memory := .empty, control := m.control.clear }

/-- What there is to show of the line at an address: the address with its line
number, and the text of the line if it is still listed. -/
def lineInfo (m : Machine) (address : Nat) (tag : String) : List String :=
  match m.control.lineAt? address with
  | none => []
  | some n =>
    (tag ++ "IP=" ++ Nat.repr address ++ "@" ++ Integer.text n)
      :: ((m.listing.find? n).toList.map (tag ++ "LINE: " ++ ·))

/-- Shows the line at an address. -/
def dump (address : Nat) (tag : String) : Act Unit := do
  Act.printAll ((← get).lineInfo address tag)

/-- Shows the line that is executed, the one that follows, and the frames. -/
def debug : Act Unit := do
  let m ← get
  dump m.control.address ""
  dump m.control.following "NEXT "
  Act.printLine ("STACK (" ++ Nat.repr m.control.stack.depth ++ " entries): ")
  Act.printAll (m.control.stack.frames.reverse.map fun f => "   " ++ f.text)

end Machine

end LineBasic
