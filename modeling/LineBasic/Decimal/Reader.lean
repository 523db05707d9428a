import LineBasic.Integer

/-!
# Reading a floating point number

A number is digits, perhaps with a point among, before or behind them, perhaps
with an exponent, and perhaps with a sign in front. Infinity and NaN are words
in any case. The value is rounded to the nearest floating point number.

* `readFloat?`: the floating point number that a text stands for.
-/

namespace LineBasic.Decimal

/-- The exponent of a number: nothing, or `e`, perhaps a sign, and digits. -/
def readExponent? : List Char → Option Int
  | [] => some 0
  | e :: cs =>
    if e == 'e' || e == 'E' then
      let (negative, ds) := match cs with
        | '-' :: ds => (true, ds)
        | '+' :: ds => (false, ds)
        | ds => (false, ds)
      if ds.isEmpty || !ds.all Char.isDigit then none
      else
        let n : Int := Nat.ofDigitChars 10 ds 0
        some (if negative then -n else n)
    else none

/-- The floating point number nearest to `m * 10 ^ e`. Powers far outside the
range need not be computed: the result is infinite or zero. -/
def nearest (m : Nat) (e : Int) : Float :=
  let top : Int := (Integer.digits m).length + e
  if m = 0 || top < -400 then 0
  else if 400 < top then 1 / 0
  else Float.ofScientific m (e < 0) e.natAbs

/-- A number without a sign. -/
def readUnsigned? (cs : List Char) : Option Float :=
  let whole := cs.takeWhile Char.isDigit
  let (fraction, rest) := match cs.dropWhile Char.isDigit with
    | '.' :: more => (more.takeWhile Char.isDigit, more.dropWhile Char.isDigit)
    | more => ([], more)
  if whole.isEmpty && fraction.isEmpty then none
  else (readExponent? rest).map fun e =>
    nearest (Nat.ofDigitChars 10 (whole ++ fraction) 0) (e - fraction.length)

/-- A number or a word without a sign. -/
def readMagnitude? (cs : List Char) : Option Float :=
  (readUnsigned? cs).or <|
    match String.ofList (cs.map Char.toLower) with
    | "inf" | "infinity" => some (1 / 0)
    | "nan" => some (0 / 0)
    | _ => none

/-- The floating point number that a text stands for. -/
def readFloat? : List Char → Option Float
  | '-' :: cs => (readMagnitude? cs).map fun x => -x
  | '+' :: cs => readMagnitude? cs
  | cs => readMagnitude? cs

end LineBasic.Decimal
