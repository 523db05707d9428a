/-!
# Positions in a text

A position counts lines and columns from 1, columns in characters, and the
offset from 0 in bytes of UTF-8.

* `Position.next`: the position behind one more character.
* `Position.after`: the position behind a whole text, by counting.
-/

namespace LineBasic

/-- Where a character stands in a text. -/
structure Position where
  /-- The number of the line, from 1. -/
  line : Nat
  /-- The number of the character in its line, from 1. -/
  column : Nat
  /-- The number of bytes before the character. -/
  offset : Nat
  deriving DecidableEq, Repr

namespace Position

/-- The first position of a text. -/
def start : Position := ⟨1, 1, 0⟩

/-- The position behind the character `c` that stands at `p`. -/
def next (p : Position) (c : Char) : Position :=
  if c = '\n' then ⟨p.line + 1, 1, p.offset + c.utf8Size⟩
  else ⟨p.line, p.column + 1, p.offset + c.utf8Size⟩

/-- The number of bytes of some characters. -/
def byteCount (cs : List Char) : Nat :=
  cs.foldr (fun c n => c.utf8Size + n) 0

/-- The position behind the text `before`: one line more for every line feed,
and one column for every character since the last. -/
def after (before : List Char) : Position where
  line := 1 + before.count '\n'
  column := 1 + (before.reverse.takeWhile (· ≠ '\n')).length
  offset := byteCount before

/-- Line and column with a colon between them. -/
def text (p : Position) : String :=
  Nat.repr p.line ++ ":" ++ Nat.repr p.column

end Position

end LineBasic
