import LineBasic.Expr.Basic

/-!
# Scripts

A script is what a line does: actions one after the other, a condition with two
ways to go on, or a loop whose body stands in the same line. A line that stops
making sense has a script all the same. The script breaks off there: what is
complete by then is executed, the operands of the statement that breaks off are
evaluated, and the error is raised.

* `Action`: what a single statement does.
* `Script`: what a line does.
-/

namespace LineBasic

/-- A slot of a variable: slot 0 if no index is given. -/
structure Place where
  name : String
  index : Option Expr

/-- The operands of a place. -/
def Place.operands (p : Place) : List Operand :=
  p.index.toList.map (.expr .integer)

/-- What stands behind an item that is printed. -/
inductive Separator where
  /-- Nothing: it is the last item. -/
  | none
  /-- A comma: the next item follows at once. -/
  | comma
  /-- A semicolon: the next item follows behind a space. -/
  | semicolon
  deriving DecidableEq, Repr

/-- The beginning of a loop. -/
structure LoopHead where
  place : Place
  start : Expr
  limit : Expr
  step : Expr

/-- What a single statement does. -/
inductive Action where
  /-- Gives a name the number of its line. -/
  | label (name : String)
  /-- Shows where the program is. -/
  | debug
  /-- Switches tracing, and shows whether it is on. -/
  | trace (mode : Option Expr)
  | remark (comment : String)
  | assign (place : Place) (value : Expr)
  | dim (name : String) (size : Expr)
  | goto (target : Expr)
  | gosub (target : Expr)
  | returns
  | clear
  | print (items : List (Expr × Separator))
  /-- Asks for a value; the question may end in a question mark of its own. -/
  | input (prompt : Expr) (mark : Bool) (place : Place)
  | new
  | list (first last : Option Expr)
  | read (name : String) (file : Expr)
  | write (name : String) (file : Expr)
  | load (file : Expr)
  | save (file : Expr)
  | finish
  | quit
  | run
  | reset
  | resume
  /-- Opens a loop over the lines that follow. -/
  | startLoop (head : LoopHead)
  /-- Closes a loop over lines. -/
  | next (name : Option String)

/-- What a line does. -/
inductive Script where
  /-- Nothing more. -/
  | done
  /-- Evaluates some operands, then raises an error. -/
  | broken (before : List Operand) (error : Error)
  | step (action : Action) (rest : Script)
  | branch (condition : Expr) (yes no : Script)
  /-- A loop with its body in the same line. -/
  | loop (head : LoopHead) (body rest : Script)

end LineBasic
