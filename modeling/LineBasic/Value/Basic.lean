import LineBasic.Decimal.Layout
import LineBasic.Error

/-!
# Values

A value is an integer, a floating point number or a text.

* `Value.display`: how a value is printed.
* `Value.truth`, `Value.toInteger`, `Value.toFloat`, `Value.toText`: what a
  value counts as where one kind is asked for. Integers are never made out of
  other values here.
-/

namespace LineBasic

/-- The kinds of values. -/
inductive ValueKind where
  | integer
  | float
  | text
  deriving DecidableEq, Repr

/-- What messages call a kind of values. -/
def ValueKind.label : ValueKind → String
  | integer => "INTEGER"
  | float => "FLOAT"
  | text => "STRING"

/-- A value of the language. -/
inductive Value where
  | integer (n : Int64)
  | float (x : Float)
  | text (s : String)
  deriving Repr, Inhabited

namespace Value

/-- The kind of a value. -/
def kind : Value → ValueKind
  | integer _ => .integer
  | float _ => .float
  | text _ => .text

/-- Whether a value is a number. -/
def isNumeric : Value → Bool
  | integer _ | float _ => true
  | text _ => false

/-- How a value is printed. -/
def display : Value → String
  | integer n => Integer.text n
  | float x => Decimal.floatText x
  | text s => s

/-- The value of a truth value: 1 or 0. -/
def ofBool (b : Bool) : Value := integer (if b then 1 else 0)

/-- Whether a number counts as true: if it is not zero. -/
def truth : Value → Except Error Bool
  | integer n => .ok (n != 0)
  | float x => .ok (x != 0)
  | text _ => .error .conditionExpected

/-- The value as an integer, which it must be already. -/
def toInteger : Value → Except Error Int64
  | integer n => .ok n
  | v => .error (.kindExpected "INTEGER" v.kind.label)

/-- The value as a floating point number. An integer is rounded to the
nearest. -/
def toFloat : Value → Except Error Float
  | integer n => .ok n.toFloat
  | float x => .ok x
  | text _ => .error (.kindExpected "NUMBER" "STRING")

/-- The value as a text, which it must be already. -/
def toText : Value → Except Error String
  | text s => .ok s
  | v => .error (.kindExpected "STRING" v.kind.label)

/-- The value, which must be a number. -/
def numeric (v : Value) : Except Error Value :=
  if v.isNumeric then .ok v else .error .numericExpected

end Value

end LineBasic
