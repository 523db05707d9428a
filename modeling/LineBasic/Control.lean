import LineBasic.Value.Basic

/-!
# Control

A running program has a table of its line numbers. A place in the table is an
address: one of the line that is executed and one of the line that follows. A
stack of frames remembers the loops that are under way and the places to return
to.

* `Control.resolve`: the address of a line.
* `Stack.push`: a frame more, if there is room.
* `Loop.admits`: whether a loop goes on with a value.
-/

namespace LineBasic

/-- A loop over lines that is under way. -/
structure Loop where
  counter : String
  index : Int64
  /-- The address of the first line of the body. -/
  start : Nat
  limit : Int64
  step : Int64
  deriving DecidableEq, Repr

/-- Whether a loop with the limit and the step goes on with the value: it does
up to the limit, or down to it if the step is negative. -/
def Loop.within (limit step : Int64) : Value → Bool
  | .integer n => if step < 0 then limit ≤ n else n ≤ limit
  | .float x => if step < 0 then x ≥ limit.toFloat else x ≤ limit.toFloat
  | .text _ => false

/-- Whether the loop goes on with the value. -/
def Loop.admits (l : Loop) : Value → Bool := Loop.within l.limit l.step

/-- What is under way. -/
inductive Frame where
  /-- A subroutine, which returns to an address. -/
  | returnTo (address : Nat)
  | loop (l : Loop)
  deriving DecidableEq, Repr

/-- A frame as it is shown to the user. -/
def Frame.text : Frame → String
  | returnTo address => "RETURN " ++ Nat.repr address
  | loop l =>
    "FOR " ++ l.counter ++ "(" ++ Integer.text l.index ++ ") START " ++ Nat.repr l.start
      ++ " LIMIT " ++ Integer.text l.limit ++ " STEP " ++ Integer.text l.step

/-- The frames that are under way, the latest first, and their number. -/
structure Stack where
  frames : List Frame := []
  depth : Nat := frames.length
  depth_eq : depth = frames.length := by rfl

namespace Stack

/-- No frames. -/
def empty : Stack := {}

/-- The most frames there is room for. -/
def capacity : Nat := 65535

/-- The latest frame. -/
def top? (s : Stack) : Option Frame := s.frames.head?

/-- The stack with one frame more. -/
def push (s : Stack) (f : Frame) : Except Error Stack :=
  if capacity ≤ s.depth then .error .stackOverflow
  else .ok ⟨f :: s.frames, s.depth + 1, by simp [s.depth_eq]⟩

/-- The stack without its latest frame. -/
def pop (s : Stack) : Stack :=
  ⟨s.frames.tail, s.depth - 1, by simp [s.depth_eq]⟩

/-- The stack without its latest `n` frames. -/
def drop (s : Stack) (n : Nat) : Stack :=
  ⟨s.frames.drop n, s.depth - n, by simp [s.depth_eq]⟩

/-- How many frames lie above the latest loop, or the latest loop over the
variable `name`. A subroutine hides the loops below it. -/
def findLoop? (name : Option String) : List Frame → Option Nat
  | [] | .returnTo _ :: _ => none
  | .loop l :: rest =>
    if name.all (· == l.counter) then some 0 else (findLoop? name rest).map (· + 1)

end Stack

/-- Where a program is. -/
structure Control where
  /-- The address of the line that is executed. -/
  address : Nat := 0
  /-- The address of the line that follows. -/
  following : Nat := 1
  stack : Stack := .empty
  /-- Whether a run stops behind every line. -/
  trace : Bool := false
  /-- The line numbers of the program, in ascending order. -/
  table : Array Int64 := #[]

namespace Control

/-- Before the first line of a program with the given line numbers. -/
def reset (c : Control) (numbers : List Int64) : Control :=
  { c with table := numbers.toArray, stack := .empty, address := 0 }

/-- No program; tracing stays as it is. -/
def clear (c : Control) : Control := { trace := c.trace }

/-- The number of lines. -/
def size (c : Control) : Nat := c.table.size

/-- Whether there is a line to execute. -/
def inRange (c : Control) : Bool := c.address < c.table.size

/-- The number of the line at an address. -/
def lineAt? (c : Control) (address : Nat) : Option Int64 := c.table[address]?

/-- The number of the line to execute; the line behind it follows. -/
def fetch (c : Control) : Option (Int64 × Control) :=
  (c.lineAt? c.address).map fun n => (n, { c with following := c.address + 1 })

/-- On to the line that follows. -/
def advance (c : Control) : Control := { c with address := c.following }

/-- Searches a table whose numbers ascend, from `low` on and below `high`, by
halves. -/
def search (table : Array Int64) (n : Int64) (low high : Nat) : Option Nat :=
  if low < high then
    let middle := (low + high) / 2
    match table[middle]? with
    | none => none
    | some k =>
      if k = n then some middle
      else if k < n then search table n (middle + 1) high
      else search table n low middle
  else none
termination_by high - low

/-- The address of a line. -/
def resolve (c : Control) (n : Int64) : Except Error Nat :=
  match search c.table n 0 c.table.size with
  | some address => .ok address
  | none => .error (.undefinedLine n)

/-- The line `n` follows. -/
def jump (c : Control) (n : Int64) : Except Error Control :=
  (c.resolve n).map fun address => { c with following := address }

/-- One frame more. -/
def push (c : Control) (f : Frame) : Except Error Control :=
  (c.stack.push f).map fun stack => { c with stack }

end Control

end LineBasic
