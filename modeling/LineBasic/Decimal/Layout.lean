import LineBasic.Decimal.Shortest

/-!
# The text of a floating point number

The shortest decimal is written with a point, and at least one digit on both
sides of it, if the number is neither too large nor too small; otherwise with an
exponent.

* `floatText`: the text of a floating point number.
-/

namespace LineBasic.Decimal

/-- Which numbers are written without an exponent: those whose first digit
counts for `10 ^ lowest` up to `10 ^ highest`. -/
structure Layout where
  lowest : Int
  highest : Int
  deriving DecidableEq, Repr

/-- Without an exponent are written 0.0001 and above, below
10000000000000000. -/
def Layout.plain : Layout := ⟨-4, 15⟩

/-- The digits of a number without zeros at the end; at least one remains. -/
def significant (n : Nat) : List Char :=
  match ((Integer.digits n).reverse.dropWhile (· == '0')).reverse with
  | [] => ['0']
  | ds => ds

/-- Digits of which the first counts for `10 ^ top`, with a point. -/
def positional (ds : List Char) (top : Int) : List Char :=
  if top < 0 then '0' :: '.' :: List.replicate (-top - 1).toNat '0' ++ ds
  else
    let whole := top.toNat + 1
    let padded := ds ++ List.replicate (whole - ds.length) '0'
    padded.take whole ++ '.' :: if (padded.drop whole).isEmpty then ['0'] else padded.drop whole

/-- Digits of which the first counts for `10 ^ top`, with an exponent. -/
def exponential (ds : List Char) (top : Int) : List Char :=
  let mantissa := match ds with
    | [d] => [d]
    | d :: more => d :: '.' :: more
    | [] => []
  let exponent := if top < 0 then '-' :: Integer.digits top.natAbs else Integer.digits top.natAbs
  mantissa ++ 'e' :: exponent

/-- The text of a decimal. -/
def Layout.write (l : Layout) (d : Scientific) : List Char :=
  let top := d.exponent + ((Integer.digits d.digits).length - 1)
  let ds := significant d.digits
  if l.lowest ≤ top ∧ top ≤ l.highest then positional ds top else exponential ds top

/-- What the last bit of the exponent counts for: there are 52 bits behind
it. -/
def exponentUnit : Nat := 4503599627370496

/-- What the sign bit counts for: there are 11 bits for the exponent behind
it. -/
def signUnit : Nat := 2048 * exponentUnit

/-- The text of the absolute value of the number with the given bits. -/
def magnitudeText (bits : Nat) : List Char :=
  let field := bits / exponentUnit % 2048
  let fraction := bits % exponentUnit
  if field = 2047 then (if fraction = 0 then "inf" else "NaN").toList
  else if field = 0 then
    if fraction = 0 then "0.0".toList else Layout.plain.write (shortest fraction (-1074) false)
  else Layout.plain.write (shortest (exponentUnit + fraction) (field - 1075) (fraction = 0 && field != 1))

/-- The text of a floating point number. A NaN has no sign. -/
def floatText (x : Float) : String :=
  let bits := x.toBits.toNat
  let text := magnitudeText bits
  String.ofList (if signUnit ≤ bits && !x.isNaN then '-' :: text else text)

end LineBasic.Decimal
