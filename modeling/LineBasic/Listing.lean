import Std.Data.ExtTreeMap
import LineBasic.Line
import LineBasic.Text.Blank

/-!
# The listing of a program

A program is kept as the canonical texts of its lines in the order of their
numbers.

* `Listing.edit`: stores or deletes one line.
* `Listing.load`: takes all lines from a file; those without a number get one.
* `Listing.range`: the lines as they are listed.
* `Listing.labels`: the labelled lines.
-/

namespace LineBasic

/-- The lines of a program by number. -/
structure Listing where
  lines : List (Int64 × String) := []
  deriving DecidableEq, Repr

namespace Listing

/-- The program without lines. -/
def empty : Listing := {}

/-- The number of lines. -/
def size (l : Listing) : Nat := l.lines.length

/-- The text of a line. -/
def find? (l : Listing) (n : Int64) : Option String := l.lines.lookup n

/-- The line numbers in ascending order. -/
def numbers (l : Listing) : List Int64 := l.lines.map (·.1)

/-- Lines with the line `n` among them, in place of any other one with that
number. -/
def insertLine (n : Int64) (text : String) : List (Int64 × String) → List (Int64 × String)
  | [] => [(n, text)]
  | (k, t) :: rest =>
    if n < k then (n, text) :: (k, t) :: rest
    else if n = k then (n, text) :: rest
    else (k, t) :: insertLine n text rest

/-- The program with a line, in place of any other one with its number. -/
def insert (l : Listing) (n : Int64) (text : String) : Listing := ⟨insertLine n text l.lines⟩

/-- The program without a line. -/
def erase (l : Listing) (n : Int64) : Listing := ⟨l.lines.filter (·.1 ≠ n)⟩

/-- Stores a line under a number. An empty line deletes, and what it deletes
must be there. -/
def store (l : Listing) (n : Int64) (line : Line) : Except Error Listing :=
  if line.isEmpty then
    if (l.find? n).isSome then .ok (l.erase n) else .error (.undefinedLine n)
  else .ok (l.insert n line.text)

/-- Stores a line under its own number. -/
def edit (l : Listing) (line : Line) : Except Error Listing :=
  match line.number with
  | some n => l.store n line
  | none => .error .lineNumberExpected

/-- The number of a line of a file: its own, or ten more than that of the line
before. -/
def numberAfter (previous : Int64) (line : Line) : Except Error Int64 :=
  match line.number with
  | some n => .ok n
  | none =>
    match Integer.ofInt? (previous.toInt + 10) with
    | some n => .ok n
    | none => .error (.noLineAfter previous)

/-- The program with one more line of a file, and its number. -/
def loadLine (l : Listing) (previous : Int64) (text : String) : Except Error (Int64 × Listing) := do
  let line ← Line.parse text
  let n ← numberAfter previous line
  return (n, ← l.store n line)

/-- The program with the lines of a file, vacant ones apart. At an error the
lines before are kept. -/
def loadFrom (l : Listing) (previous : Int64) : List String → Except Error Nat × Listing
  | [] => (.ok l.size, l)
  | text :: rest =>
    if isVacant text then loadFrom l previous rest
    else match l.loadLine previous text with
      | .ok (n, l) => loadFrom l n rest
      | .error e => (.error e, l)

/-- The program of the lines of a file, and their number. -/
def load (texts : List String) : Except Error Nat × Listing := loadFrom empty 0 texts

/-- The lines from one number up to another, as they are listed. -/
def range (l : Listing) (first last : Option Int64) : List String :=
  let wanted (n : Int64) : Bool := first.all (· ≤ n) && last.all (n ≤ ·)
  (l.lines.filter (wanted ·.1)).map fun (n, text) => Line.listed n text

/-- The label of the text of a line. -/
def labelOf (text : String) : Option String :=
  match Line.parse text with
  | .ok line => line.label
  | .error _ => none

/-- The labels with the numbers of their lines, in the order of the lines. -/
def labelled (l : Listing) : List (String × Int64) :=
  l.lines.filterMap fun (n, text) => (labelOf text).map (·, n)

/-- The labels by name. The last line with a label has it. -/
def labels (l : Listing) : Std.ExtTreeMap String Int64 :=
  l.labelled.foldl (fun m (name, n) => m.insert name n) ∅

end Listing

end LineBasic
