import LineBasic.Decimal.Reader
import LineBasic.Memory
import LineBasic.Text.Blank
import LineBasic.Token.Basic

/-!
# Functions

The functions that are built in. A signature says how many arguments a function
takes and what each of them must be; a call checks their number and computes.

Evaluation may draw random numbers, so it carries a generator along (`Eval`).

* `Builtin.signature`, `Builtin.call`.
-/

namespace LineBasic

/-- Computations that may fail and may draw random numbers. -/
abbrev Eval := EStateM Error StdGen

/-- A computation that draws nothing is one that may. -/
instance : MonadLift (Except Error) Eval where
  monadLift
    | .ok a => pure a
    | .error e => throw e

/-- What a function wants at one place. -/
inductive Slot where
  | any
  | text
  | integer
  | handle
  deriving DecidableEq, Repr

/-- What is known of a variable without its values. -/
structure Handle where
  name : String
  kind : VariableKind
  size : Nat
  deriving DecidableEq, Repr

/-- The handle of a variable. -/
def Variable.handle (v : Variable) : Handle := ⟨v.name, v.kind, v.size⟩

/-- What a function gets at one place. -/
inductive Argument where
  | value (v : Value)
  | handle (h : Handle)
  deriving Repr

/-- How a function is called. -/
structure Signature where
  /-- The kind of its value. -/
  returns : ValueKind
  /-- The fewest arguments it takes. -/
  least : Nat
  /-- What it wants at each place. -/
  slots : List Slot
  deriving DecidableEq, Repr

/-- The most arguments a function takes. -/
def Signature.most (s : Signature) : Nat := s.slots.length

namespace Builtin

/-- The signature of a function. -/
def signature : Builtin → Signature
  | text => ⟨.text, 1, [.any]⟩
  | integer => ⟨.integer, 1, [.any]⟩
  | number => ⟨.float, 1, [.any]⟩
  | length => ⟨.integer, 1, [.text]⟩
  | size => ⟨.integer, 1, [.handle]⟩
  | slice => ⟨.text, 2, [.text, .integer, .integer]⟩
  | random => ⟨.integer, 1, [.integer, .integer]⟩

/-! ### What the functions compute -/

/-- The integer of a floating point number, its fraction cut off. -/
def truncate (x : Float) : Except Error Value :=
  if x.isNaN || x < -9223372036854775808 || x ≥ 9223372036854775808 then .error .overflow
  else .ok (.integer x.toInt64)

/-- The integer of a value: a text is read. -/
def toInteger : Value → Except Error Value
  | .integer n => .ok (.integer n)
  | .float x => truncate x
  | .text s =>
    match Integer.read? (trimList s.toList) with
    | some n => .ok (.integer n)
    | none => .error (.notAnInteger s)

/-- The floating point number of a value: a text is read. -/
def toNumber : Value → Except Error Value
  | .integer n => .ok (.float n.toFloat)
  | .float x => .ok (.float x)
  | .text s =>
    match Decimal.readFloat? (trimList s.toList) with
    | some x => .ok (.float x)
    | none => .error (.notANumber s)

/-- The character at an index of a text, which must be there. -/
def charAt (s : String) (start : Nat) : Except Error Value :=
  match s.toList[start]? with
  | some c => .ok (.text c.toString)
  | none => .error .indexOutOfRange

/-- The characters of a text from an index on, at most so many. -/
def charsFrom (s : String) (start len : Nat) : Value :=
  .text (String.ofList ((s.toList.drop start).take len))

/-- A random integer from `lo` on and below `hi`. -/
def draw (lo hi : Int64) : Eval Value :=
  if hi ≤ lo then throw (.emptyRange lo hi)
  else do
    let (k, g) := randNat (← get) 0 (hi.toInt - lo.toInt - 1).toNat
    set g
    return .integer (Int64.ofInt (lo.toInt + k))

/-! ### Calls -/

/-- The value at a place among the arguments. -/
def valueAt (args : List Argument) (i : Nat) : Except Error Value :=
  match args[i]? with
  | some (.value v) => .ok v
  | _ => .error .argumentExpected

/-- The integer at a place among the arguments. -/
def integerAt (args : List Argument) (i : Nat) : Except Error Int64 := do
  (← valueAt args i).toInteger

/-- The integer at a place among the arguments, which must not be negative. -/
def naturalAt (args : List Argument) (i : Nat) (negative : Error) : Except Error Nat := do
  let n ← integerAt args i
  if n.toInt < 0 then throw negative
  return n.toInt.toNat

/-- The text at a place among the arguments. -/
def textAt (args : List Argument) (i : Nat) : Except Error String := do
  (← valueAt args i).toText

/-- A part of a text: one character, or a number of them. -/
def sliceOf (args : List Argument) : Except Error Value := do
  let s ← textAt args 0
  let start ← naturalAt args 1 .negativeIndex
  if args.length < 3 then charAt s start
  else return charsFrom s start (← naturalAt args 2 .negativeLength)

/-- The bounds of a random number. With one argument the lower one is 0. -/
def bounds (args : List Argument) : Except Error (Int64 × Int64) := do
  if args.length = 2 then return (← integerAt args 0, ← integerAt args 1)
  else return (0, ← integerAt args 0)

/-- The number of slots of the variable among the arguments. -/
def sizeOf : List Argument → Except Error Value
  | .handle h :: _ => .ok (.integer (Int64.ofNat h.size))
  | _ => .error .variableExpected

/-- What a function computes of arguments in the right number. -/
def compute (args : List Argument) : Builtin → Eval Value
  | text => do return .text (← valueAt args 0).display
  | integer => do toInteger (← valueAt args 0)
  | number => do toNumber (← valueAt args 0)
  | length => do return .integer (Int64.ofNat (← textAt args 0).length)
  | size => sizeOf args
  | slice => sliceOf args
  | random => do
    let (lo, hi) ← bounds args
    draw lo hi

/-- A call of a function. -/
def call (f : Builtin) (args : List Argument) : Eval Value :=
  if args.length < f.signature.least then throw (.tooFewArguments f.spelling)
  else if f.signature.most < args.length then throw (.tooManyArguments f.spelling)
  else f.compute args

end Builtin

end LineBasic
