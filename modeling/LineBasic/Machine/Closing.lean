import LineBasic.Machine.Basic

/-!
# Where a loop over lines is closed

A loop over lines that is not entered goes on behind its `NEXT`. That is looked
for in the lines that follow. Loops that open and close in between are passed
over, both those over lines and those in one line.

* `searchNext`: one line of the search.
* `Machine.closing`: the address of the line with the `NEXT`.
-/

namespace LineBasic

/-- Looks through the tokens of a line for the `NEXT` of a loop over `counter`.
So many loops over lines, and so many loops in this line, are to be closed
before it. The result is the number of loops over lines that are still to be
closed behind the line, or none if the `NEXT` is in the line.

A `FOR` opens a loop in its line if a colon stands anywhere behind it. A `NEXT`
closes the loop in its line first. -/
def searchNext (counter : String) (depth inline : Nat) : List Token → Option Nat
  | [] => some depth
  | .verb .loop :: rest =>
    if rest.contains .colon then searchNext counter depth (inline + 1) rest
    else searchNext counter (depth + 1) inline rest
  | .verb .next :: rest =>
    if 0 < inline then searchNext counter depth (inline - 1) rest
    else if 0 < depth then searchNext counter (depth - 1) inline rest
    else
      match rest with
      | .name s :: _ => if s = counter then none else searchNext counter depth inline rest
      | _ => none
  | _ :: rest => searchNext counter depth inline rest

namespace Listing

/-- The tokens of a line. There are none if the line is not listed or cannot be
scanned. -/
def tokensOf (l : Listing) (n : Int64) : List Token :=
  match (l.find? n).map Line.parse with
  | some (.ok line) => line.tokens
  | _ => []

/-- The place of the line with the `NEXT` of a loop over `counter` among some
lines. -/
def searchLines (l : Listing) (counter : String) (depth : Nat) : List Int64 → Option Nat
  | [] => none
  | n :: rest =>
    match searchNext counter depth 0 (l.tokensOf n) with
    | some depth => (l.searchLines counter depth rest).map (· + 1)
    | none => some 0

end Listing

/-- The address of the line that closes a loop over `counter`, if it begins in
the line that is executed. Outside of a program line there is none. -/
def Machine.closing (m : Machine) (line : Option Int64) (counter : String) : Except Error Nat :=
  let later := m.control.table.toList.drop (m.control.address + 1)
  match if line.isSome then m.listing.searchLines counter 0 later else none with
  | some i => .ok (m.control.address + 1 + i)
  | none => .error (.forWithoutNext counter)

end LineBasic
