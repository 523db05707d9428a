import LineBasic.Integer

/-!
# The shortest decimal of a floating point number

A positive floating point number is `m * 2 ^ q`. All real numbers in an interval
around it round to it, the ends of the interval too if `m` is even. Its shortest
decimal is the one with the fewest digits in that interval, and of those with
equally many the nearest; half way between two, the upper one.

All arithmetic is exact, on fractions of natural numbers.
-/

namespace LineBasic.Decimal

/-- A fraction. -/
structure Ratio where
  num : Nat
  den : Nat
  deriving DecidableEq, Repr

namespace Ratio

/-- The fraction `n * b ^ e`. -/
def scaled (n b : Nat) (e : Int) : Ratio :=
  if 0 ≤ e then ⟨n * Nat.pow b e.toNat, 1⟩ else ⟨n, Nat.pow b (-e).toNat⟩

/-- Whether one fraction is at most another. -/
def le (a b : Ratio) : Bool := a.num * b.den ≤ b.num * a.den

/-- The largest integer at most `a / b`. -/
def floorDiv (a b : Ratio) : Nat := a.num * b.den / (a.den * b.num)

/-- The exponent of the largest power of ten at most a positive fraction. -/
def floorLog (a : Ratio) : Int :=
  if a.den ≤ a.num then (Integer.digits (a.num / a.den)).length - 1
  else -(Integer.digits ((a.den - 1) / a.num)).length

end Ratio

/-- The number `digits * 10 ^ exponent`. -/
structure Scientific where
  digits : Nat
  exponent : Int
  deriving DecidableEq, Repr

/-- The real numbers that round to a floating point number. -/
structure Interval where
  low : Ratio
  high : Ratio
  /-- Whether the ends belong to it. -/
  closed : Bool
  deriving DecidableEq, Repr

/-- Whether a fraction lies in an interval. -/
def Interval.contains (i : Interval) (a : Ratio) : Bool :=
  if i.closed then i.low.le a && a.le i.high else !a.le i.low && !i.high.le a

/-- The numbers that round to `m * 2 ^ q`: up to half way to its neighbours. The
neighbour below is only half as far away if `narrow`. -/
def Interval.around (m : Nat) (q : Int) (narrow : Bool) : Interval where
  low := .scaled (4 * m - if narrow then 1 else 2) 2 (q - 2)
  high := .scaled (4 * m + 2) 2 (q - 2)
  closed := m % 2 == 0

/-- The multiple of `10 ^ s` that lies in the interval, and the nearer one of
two. -/
def onGrid? (value : Ratio) (i : Interval) (s : Int) : Option Scientific :=
  let unit := Ratio.scaled 1 10 s
  let below := value.floorDiv unit
  let inside (n : Nat) := i.contains (.scaled n 10 s)
  let upperNearer := (Ratio.scaled (2 * below + 1) 10 s).le ⟨2 * value.num, value.den⟩
  if inside below && inside (below + 1) then
    some ⟨if upperNearer then below + 1 else below, s⟩
  else if inside below then some ⟨below, s⟩
  else if inside (below + 1) then some ⟨below + 1, s⟩
  else none

/-- The shortest decimal of `m * 2 ^ q`. Seventeen digits always suffice. -/
def shortest (m : Nat) (q : Int) (narrow : Bool) : Scientific :=
  let value := Ratio.scaled m 2 q
  let i := Interval.around m q narrow
  let top := value.floorLog
  ((List.range 17).findSome? fun (k : Nat) => onGrid? value i (top - k)).getD
    ⟨value.floorDiv (.scaled 1 10 (top - 16)), top - 16⟩

end LineBasic.Decimal
