import LineBasic.Machine.Perform

/-!
# Executing scripts

A script is executed from front to back. A loop in one line executes its body
for every value of its counter: from the first one on, for as long as the value
is within the limit and fits a number.

* `Act.passes`: a loop in one line.
* `Script.exec`: what a line does.
-/

namespace LineBasic

namespace Stride

/-- The value one step on, if it fits. -/
def next? (step : Stride) (v : Int64) : Option Int64 := Integer.ofInt? (v.toInt + step.val.toInt)

/-- How far a value is from the last of the numbers in the direction of the
step. -/
def room (step : Stride) (v : Int64) : Nat :=
  if step.val.toInt < 0 then (v.toInt + 9223372036854775808).toNat
  else (9223372036854775807 - v.toInt).toNat

/-- A step leaves less room. -/
theorem room_lt_of_next? {step : Stride} {v w : Int64} (h : step.next? v = some w) :
    step.room w < step.room v := by
  have hs : step.val.toInt ≠ 0 := fun h0 => step.property (Int64.toInt_inj.1 h0)
  have hv := v.toInt_lt
  have hv' := v.le_toInt
  simp only [next?, Integer.ofInt?] at h
  split at h
  case isTrue hb =>
    have hw : w.toInt = v.toInt + step.val.toInt := by
      rw [← Option.some.inj h, Int64.toInt_ofInt_of_le (by omega) (by omega)]
    simp only [room, hw]
    split <;> omega
  case isFalse => cases h

end Stride

/-- Makes a pass for every value from `v` on in steps, for as long as it is
within the limit and fits. -/
def Act.passes (limit : Int64) (step : Stride) (pass : Int64 → Act Unit) (v : Int64) : Act Unit :=
  if Loop.within limit step (.integer v) then do
    pass v
    match h : step.next? v with
    | some w =>
      have := Stride.room_lt_of_next? h
      passes limit step pass w
    | none => pure ()
  else pure ()
termination_by step.room v

/-- What a line does, in a program or outside of any. -/
def Script.exec (run : Act Unit) (line : Option Int64) : Script → Act Unit
  | done => pure ()
  | broken before error => do
    Act.check before
    Act.fail error
  | step action rest => do
    action.perform run line
    rest.exec run line
  | branch condition yes no => do
    if ← Act.truth condition then yes.exec run line else no.exec run line
  | loop head body rest => do
    let (i, start, limit, stride) ← Act.range head
    Act.passes limit stride (fun v => do
      Act.writeNumber head.place.name i (.integer v)
      body.exec run line) start
    rest.exec run line

end LineBasic
