import LineBasic.Value.Basic

/-!
# Operators

Operators on values. Two integers give an integer, exactly or not at all; an
integer beside a floating point number is made one.

* `Unary.apply`, `Binary.apply`: what the operators do.
-/

namespace LineBasic

/-- Operators in front of their operand. -/
inductive Unary where
  | negate
  | plus
  | not
  deriving DecidableEq, Repr

/-- Operators between their operands. -/
inductive Binary where
  | or
  | and
  | xor
  | equal
  | notEqual
  | less
  | lessEqual
  | greater
  | greaterEqual
  | add
  | subtract
  | multiply
  | divide
  | quotient
  | remainder
  deriving DecidableEq, Repr

namespace Value

/-- The integer `n`, which must fit into 64 bits. -/
def exactly (n : Int) : Except Error Value :=
  match Integer.ofInt? n with
  | some n => .ok (integer n)
  | none => .error .overflow

/-- Two numbers as floating point numbers. -/
def floats : Value → Value → Except Error (Float × Float)
  | integer l, integer r => .ok (l.toFloat, r.toFloat)
  | integer l, float r => .ok (l.toFloat, r)
  | float l, integer r => .ok (l, r.toFloat)
  | float l, float r => .ok (l, r)
  | _, _ => .error .wrongOperands

/-- An operator given on integers and on floating point numbers. -/
def arithmetic (onInts : Int → Int → Int) (onFloats : Float → Float → Float) :
    Value → Value → Except Error Value
  | integer l, integer r => exactly (onInts l.toInt r.toInt)
  | l, r => (floats l r).map fun (x, y) => float (onFloats x y)

/-- The sum of two numbers, or two texts one after the other. -/
def add : Value → Value → Except Error Value
  | text l, text r => .ok (text (l ++ r))
  | l, r => arithmetic (· + ·) (· + ·) l r

/-! Two integers are divided as numbers of 64 bits. The division fails if the
divisor is zero, and also if the quotient does not fit, which is so of the least
number and -1, whatever is to be made of it. -/

/-- The quotient rounded toward zero, if there is one. -/
def quotient? (l r : Int64) : Option Int64 :=
  if r = 0 ∨ (l = Int64.minValue ∧ r = -1) then none else some (l / r)

/-- The remainder that is never negative, if there is a quotient. -/
def remainder? (l r : Int64) : Option Int64 :=
  if r = 0 ∨ (l = Int64.minValue ∧ r = -1) then none else some (Int64.ofInt (l.toInt % r.toInt))

/-- Whether a quotient rounded toward zero was rounded up: it is negative and
not exact. -/
def roundedUp (l r : Int64) : Bool := l % r != 0 && decide (l < 0) != decide (r < 0)

/-- The quotient rounded down. -/
def floorDiv (l r : Int64) : Except Error Int64 :=
  if r = 0 then .error .divisionByZero
  else match quotient? l r with
    | some q => .ok (if roundedUp l r then q - 1 else q)
    | none => .error .overflow

/-- The remainder with the sign of the divisor. -/
def floorMod (l r : Int64) : Except Error Int64 :=
  if r = 0 then .error .divisionByZero
  else match remainder? l r with
    | some k => .ok (if k ≠ 0 ∧ r < 0 then k + r else k)
    | none => .error .overflow

/-- A kind of division, given on integers and on floating point numbers. It
fails if the divisor is zero. -/
def division (onInts : Int64 → Int64 → Except Error Int64) (onFloats : Float → Float → Float) :
    Value → Value → Except Error Value
  | integer l, integer r => (onInts l r).map integer
  | l, r =>
    match floats l r with
    | .ok (x, y) => if y == 0 then .error .divisionByZero else .ok (float (onFloats x y))
    | .error e => .error e

/-- The order of two floating point numbers; a NaN has none. -/
def compareFloats (x y : Float) : Option Ordering :=
  if x < y then some .lt else if y < x then some .gt else if x == y then some .eq else none

/-- The order of two numbers or two texts. -/
def order? : Value → Value → Option Ordering
  | integer l, integer r => some (compare l r)
  | integer l, float r => compareFloats l.toFloat r
  | float l, integer r => compareFloats l r.toFloat
  | float l, float r => compareFloats l r
  | text l, text r => some (compare l r)
  | _, _ => none

/-- Whether the order of two values is one of those wanted. -/
def ordered (wanted : Ordering → Bool) (l r : Value) : Except Error Value :=
  match order? l r with
  | some o => .ok (ofBool (wanted o))
  | none => .error .incomparable

/-- A connective that is decided if its left operand is `decided`, and looks at
the right one only otherwise. -/
def connect (decided : Bool) (l r : Value) : Except Error Value :=
  match l.truth with
  | .error e => .error e
  | .ok b => if b = decided then .ok (ofBool decided) else r.truth.map ofBool

/-- The connective that holds if exactly one operand does. -/
def exclusive (l r : Value) : Except Error Value := do
  let a ← l.truth
  let b ← r.truth
  .ok (ofBool (a != b))

end Value

/-- What an operator in front of its operand does. -/
def Unary.apply : Unary → Value → Except Error Value
  | negate, .integer n => Value.exactly (-n.toInt)
  | negate, .float x => .ok (.float (-x))
  | negate, .text _ => .error .wrongOperands
  | plus, v => if v.isNumeric then .ok v else .error .wrongOperands
  | not, v => v.truth.map fun b => .ofBool (!b)

/-- What an operator between its operands does. Equality holds for no two values
that have no order, and is never refused. -/
def Binary.apply : Binary → Value → Value → Except Error Value
  | or => Value.connect true
  | and => Value.connect false
  | xor => Value.exclusive
  | equal => fun l r => .ok (.ofBool (l.order? r == some .eq))
  | notEqual => fun l r => .ok (.ofBool (l.order? r != some .eq))
  | less => Value.ordered (· == .lt)
  | lessEqual => Value.ordered (· != .gt)
  | greater => Value.ordered (· == .gt)
  | greaterEqual => Value.ordered (· != .lt)
  | add => Value.add
  | subtract => Value.arithmetic (· - ·) (· - ·)
  | multiply => Value.arithmetic (· * ·) (· * ·)
  | divide => Value.division Value.floorDiv (· / ·)
  | quotient => Value.division Value.floorDiv fun x y => (x / y).floor
  | remainder => Value.division Value.floorMod fun x y => x - y * (x / y).floor

end LineBasic
