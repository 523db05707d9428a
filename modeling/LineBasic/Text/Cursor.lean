import LineBasic.Error
import LineBasic.Text.Blank

/-!
# Cursors

A cursor stands in a text: it has the characters still to come and the position
of the first of them. Reading moves it on. A reading that fails says why, and
leaves the cursor where it gave up.

* `Cursor.atOffset`: the cursor at an offset of a text.
* `Cursor.readWhile`, `Cursor.readNumber`, `Cursor.readName`: what can be read.
  Blanks behind a word are passed over.
-/

namespace LineBasic

/-- A letter or an underscore. -/
def isLetter (c : Char) : Bool := c.isAlpha || c == '_'

/-- A character of a name, its first apart. -/
def isNameChar (c : Char) : Bool := isLetter c || c.isDigit

/-- A place in a text. -/
structure Cursor where
  /-- The position of the next character. -/
  position : Position
  /-- The characters still to come. -/
  rest : List Char
  deriving DecidableEq, Repr

namespace Cursor

/-- The characters within the first `n` bytes of a text and those behind them. A
character that is cut is counted to the first part. -/
def splitBytes : Nat → List Char → List Char × List Char
  | 0, cs => ([], cs)
  | _ + 1, [] => ([], [])
  | n + 1, c :: cs =>
    let (before, rest) := splitBytes (n + 1 - c.utf8Size) cs
    (c :: before, rest)
termination_by _ cs => cs.length

/-- The cursor at the beginning of a text. -/
def ofText (cs : List Char) : Cursor := ⟨.start, cs⟩

/-- The cursor `offset` bytes behind the beginning of a text, or at its end if
it is shorter. -/
def atOffset (cs : List Char) (offset : Nat) : Cursor :=
  let (before, rest) := splitBytes offset cs
  ⟨.after before, rest⟩

/-- The next character. -/
def peek? (c : Cursor) : Option Char := c.rest.head?

/-- Whether the next character has a property; at the end there is none. -/
def atChar (c : Cursor) (p : Char → Bool) : Bool := c.rest.head?.any p

/-- The cursor behind the next character. -/
def next (c : Cursor) : Cursor :=
  match c.rest with
  | [] => c
  | ch :: rest => ⟨c.position.next ch, rest⟩

/-- The cursor behind all characters with a property that come next. -/
def skipWhile (p : Char → Bool) (c : Cursor) : Cursor :=
  ⟨(c.rest.takeWhile p).foldl Position.next c.position, c.rest.dropWhile p⟩

/-- The cursor behind the blanks that come next. -/
def skipBlanks (c : Cursor) : Cursor := c.skipWhile isBlank

/-- The characters with a property that come next, and the cursor behind them
and the blanks that follow. -/
def readWhile (p : Char → Bool) (c : Cursor) : List Char × Cursor :=
  (c.rest.takeWhile p, (c.skipWhile p).skipBlanks)

/-- The error that something else than `name` comes next. -/
def expected (c : Cursor) (name : String) : Error :=
  .expected c.position name (c.peek?.map Char.toString)

/-- Reads digits that make up an integer. -/
def readDigits (negative : Bool) (c : Cursor) : Except Error Int64 × Cursor :=
  if c.atChar Char.isDigit then
    let (ds, after) := c.readWhile Char.isDigit
    match Integer.ofDigits? negative ds with
    | some n => (.ok n, after)
    | none => (.error (.numberTooLarge c.position), after)
  else (.error (c.expected "NUMBER"), c)

/-- Reads an integer: digits, perhaps a minus sign and blanks before them. -/
def readNumber (c : Cursor) : Except Error Int64 × Cursor :=
  if c.peek? = some '-' then c.next.skipBlanks.readDigits true else c.readDigits false

/-- Reads a name: a letter, then letters and digits. -/
def readName (c : Cursor) : Except Error String × Cursor :=
  if c.atChar isLetter then
    let (cs, after) := c.readWhile isNameChar
    (.ok (String.ofList cs), after)
  else (.error (c.expected "IDENTIFIER"), c)

/-- The cursor behind the character `ch`, and behind the blanks that follow if
`skip`, if `ch` comes next. -/
def take? (ch : Char) (skip : Bool) (c : Cursor) : Option Cursor :=
  if c.peek? = some ch then some (if skip then c.next.skipBlanks else c.next) else none

/-- Reads the character `ch` and the blanks behind it. -/
def expect (ch : Char) (c : Cursor) : Except Error Unit × Cursor :=
  match c.take? ch true with
  | some after => (.ok (), after)
  | none => (.error (c.expected ("'" ++ ch.toString ++ "'")), c)

end Cursor

end LineBasic
