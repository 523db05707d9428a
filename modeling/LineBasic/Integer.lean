/-!
# Integers of the language and their text

The whole numbers of the language are the signed 64-bit numbers. Arithmetic on
them is exact or fails. Sums and products are found in `Int` and brought back by
`ofInt?`.

* `text`, `read?`: decimal text of an integer, and the integer that a decimal
  text stands for.
-/

namespace LineBasic.Integer

/-- The integer equal to `n`, if `n` fits into 64 bits. -/
def ofInt? (n : Int) : Option Int64 :=
  if -9223372036854775808 ≤ n ∧ n ≤ 9223372036854775807 then some (Int64.ofInt n) else none

/-- The decimal digits of a number. -/
def digits (n : Nat) : List Char :=
  Nat.toDigits 10 n

/-- The decimal text of an integer, as characters. -/
def chars (n : Int64) : List Char :=
  if n.toInt < 0 then '-' :: digits n.toInt.natAbs else digits n.toInt.natAbs

/-- The decimal text of an integer. -/
def text (n : Int64) : String :=
  String.ofList (chars n)

/-- The integer whose digits are `ds`, negated if `negative`, if there are
digits only, at least one, and it fits. -/
def ofDigits? (negative : Bool) (ds : List Char) : Option Int64 :=
  if ds.isEmpty || !ds.all Char.isDigit then none
  else
    let n : Int := Nat.ofDigitChars 10 ds 0
    ofInt? (if negative then -n else n)

/-- The integer that a decimal text stands for: digits with at most one sign
before them. -/
def read? : List Char → Option Int64
  | '-' :: ds => ofDigits? true ds
  | '+' :: ds => ofDigits? false ds
  | ds => ofDigits? false ds

end LineBasic.Integer
