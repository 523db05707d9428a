import LineBasic.Lexeme

/-!
# Lines

A line is scanned as a whole: its number, if it has one, and the lexemes of its
statements.

* `Line.parse`: the line of a text, if the text can be scanned.
* `Line.text`: the canonical text of the statements, which is what a program
  keeps.
* `Line.label`: the name before a colon at the beginning.
-/

namespace LineBasic

/-- A line of input or of a program. -/
structure Line where
  /-- The line number, if the line begins with one. -/
  number : Option Int64
  /-- The lexemes behind the number. -/
  lexemes : List Lexeme
  deriving DecidableEq, Repr

namespace Line

/-- The line of some lexemes, of which a line number can be the first. -/
def ofLexemes : List Lexeme → Line
  | ⟨.lineNumber n, _, _⟩ :: xs => ⟨some n, xs⟩
  | xs => ⟨none, xs⟩

/-- The line of a text, or the error at the first place where it cannot be
scanned. -/
def parse (s : String) : Except Error Line :=
  (Tape.ofLine s).lexemes.map ofLexemes

/-- The tokens behind the line number. -/
def tokens (l : Line) : List Token := l.lexemes.map (·.token)

/-- Whether nothing stands behind the line number. -/
def isEmpty (l : Line) : Bool := l.lexemes.isEmpty

/-- The spellings of some tokens with a space between them. A token with an
empty spelling leaves no trace. -/
def spell (ts : List Token) : String :=
  " ".intercalate ((ts.map Token.spelling).filter (!·.isEmpty))

/-- The canonical text of the statements. -/
def text (l : Line) : String := spell l.tokens

/-- A numbered line as it is listed. -/
def listed (n : Int64) (text : String) : String := Integer.text n ++ " " ++ text

/-- The canonical text of the line with its number. -/
def display (l : Line) : String :=
  match l.number with
  | some n => listed n l.text
  | none => l.text

/-- The name that labels the line: a colon stands behind it. -/
def label (l : Line) : Option String :=
  match l.tokens with
  | .name s :: .colon :: _ => some s
  | _ => none

end Line

end LineBasic
