import LineBasic.Builtin
import LineBasic.Value.Operator

/-!
# Expressions

The tree of an expression, and its value in a memory. Operands are evaluated
from left to right, and the first error ends the evaluation.

Where a line breaks off inside a statement, what stands before is still
evaluated. An `Operand` is such a piece: an expression together with what is
demanded of its value.

* `Expr.eval`: the value of an expression.
* `Operand.check`: evaluates an operand for its errors only.
-/

namespace LineBasic

/-- What may be demanded of a value. -/
inductive Demand where
  | any
  | integer
  | text
  | numeric
  | truth
  /-- An integer other than zero. -/
  | stride
  deriving DecidableEq, Repr

/-- The step of a loop: an integer other than zero. -/
abbrev Stride := { n : Int64 // n ≠ 0 }

/-- The value as the step of a loop. -/
def Value.toStride (v : Value) : Except Error Stride := do
  let n ← v.toInteger
  if h : n = 0 then throw .stepZero else return ⟨n, h⟩

/-- Whether a value is what is demanded. -/
def Demand.check : Demand → Value → Except Error Unit
  | any, _ => .ok ()
  | integer, v => v.toInteger.map fun _ => ()
  | text, v => v.toText.map fun _ => ()
  | numeric, v => v.numeric.map fun _ => ()
  | truth, v => v.truth.map fun _ => ()
  | stride, v => v.toStride.map fun _ => ()

/-- What a function demands of a value at one place. -/
def Slot.demand : Slot → Demand
  | any | handle => .any
  | text => .text
  | integer => .integer

mutual

/-- An expression. -/
inductive Expr where
  | number (n : Int64)
  | text (s : String)
  /-- Slot 0 of a variable. -/
  | scalar (name : String)
  /-- A slot of a variable. -/
  | element (name : String) (index : Expr)
  | unary (op : Unary) (e : Expr)
  | binary (op : Binary) (l r : Expr)
  | call (f : Builtin) (args : Args)

/-- The arguments of a call. -/
inductive Args where
  | nil
  | value (d : Demand) (e : Expr) (rest : Args)
  | handle (name : String) (rest : Args)

end

mutual

/-- The value of an expression. -/
def Expr.eval (m : Memory) : Expr → Eval Value
  | .number n => return .integer n
  | .text s => return .text s
  | .scalar name => m.read name 0
  | .element name index => do
    let i ← (← index.eval m).toInteger
    m.read name i
  | .unary op e => do op.apply (← e.eval m)
  | .binary op l r => do
    let a ← l.eval m
    let b ← r.eval m
    op.apply a b
  | .call f args => do f.call (← args.eval m)

/-- The values of the arguments of a call. -/
def Args.eval (m : Memory) : Args → Eval (List Argument)
  | .nil => return []
  | .value d e rest => do
    let v ← e.eval m
    d.check v
    return .value v :: (← rest.eval m)
  | .handle name rest => do
    let v ← m.find name
    return .handle v.handle :: (← rest.eval m)

end

/-- A piece of a statement that is evaluated although the statement breaks off
behind it. -/
inductive Operand where
  | expr (d : Demand) (e : Expr)
  /-- A variable that must exist. -/
  | lookup (name : String)

/-- Evaluates an operand for its errors only. -/
def Operand.check (m : Memory) : Operand → Eval Unit
  | expr d e => do d.check (← e.eval m)
  | lookup name => do
    let _ ← m.find name

end LineBasic
