import LineBasic.Integer
import LineBasic.Text.Position

/-!
# Errors and halts

An error has a kind, with a number and a title, and may say in which program
line it arose, where in the text it was noticed, and a detail. All wording is
here: the rest of the library names the cause. An error is one of the reasons
why execution stops.

* `Error.message`: the text a user sees.
* `Error.inLine`: tags an error with a program line; the first tag stays.
* `Halt`: why execution stops.
-/

namespace LineBasic

/-- What went wrong. -/
inductive ErrorKind where
  | nextWithoutFor
  | syntaxError
  | returnWithoutGosub
  | illegalFunctionCall
  | overflow
  | outOfMemory
  | undefinedLine
  | subscriptOutOfRange
  | divisionByZero
  | typeMismatch
  | cantContinue
  | forWithoutNext
  | internalError
  | fileNotFound
  | undefinedVariable
  | unassignedVariable
  | breakKey
  deriving DecidableEq, Repr

namespace ErrorKind

/-- The number of a kind of error. -/
def code : ErrorKind → Nat
  | nextWithoutFor => 1
  | syntaxError => 2
  | returnWithoutGosub => 3
  | illegalFunctionCall => 5
  | overflow => 6
  | outOfMemory => 7
  | undefinedLine => 8
  | subscriptOutOfRange => 9
  | divisionByZero => 11
  | typeMismatch => 13
  | cantContinue => 17
  | forWithoutNext => 26
  | internalError => 51
  | fileNotFound => 53
  | undefinedVariable => 70
  | unassignedVariable => 71
  | breakKey => 72

/-- The title of a kind of error, with which its message begins. -/
def title : ErrorKind → String
  | nextWithoutFor => "NEXT WITHOUT FOR"
  | syntaxError => "SYNTAX ERROR"
  | returnWithoutGosub => "RETURN WITHOUT GOSUB"
  | illegalFunctionCall => "ILLEGAL FUNCTION CALL"
  | overflow => "OVERFLOW"
  | outOfMemory => "OUT OF MEMORY"
  | undefinedLine => "UNDEFINED LINE"
  | subscriptOutOfRange => "SUBSCRIPT OUT OF RANGE"
  | divisionByZero => "DIVISION BY ZERO"
  | typeMismatch => "TYPE MISMATCH"
  | cantContinue => "CAN'T CONTINUE"
  | forWithoutNext => "FOR WITHOUT NEXT"
  | internalError => "INTERNAL ERROR"
  | fileNotFound => "FILE NOT FOUND"
  | undefinedVariable => "UNDEFINED VARIABLE"
  | unassignedVariable => "UNASSIGNED VARIABLE"
  | breakKey => "BREAK"

end ErrorKind

/-- An error, with what is known of its place. -/
structure Error where
  /-- What went wrong. -/
  kind : ErrorKind
  /-- The program line in which it arose. -/
  line : Option Int64 := none
  /-- Where in the text of the line it was noticed. -/
  position : Option Position := none
  /-- What to say besides, or nothing. -/
  detail : String := ""
  deriving DecidableEq, Repr

namespace Error

/-- The error, said to have arisen in program line `n` unless it already names a
line. -/
def inLine (e : Error) (n : Int64) : Error :=
  match e.line with
  | some _ => e
  | none => { e with line := some n }

/-- Title, line, position and detail, as far as they are known. -/
def message (e : Error) : String :=
  e.kind.title
    ++ (match e.line with | some n => " IN " ++ Integer.text n | none => "")
    ++ (match e.position with | some p => " AT " ++ p.text | none => "")
    ++ (if e.detail.isEmpty then "" else "; " ++ e.detail)

/-- The message between braces, behind the word `Error`. -/
def bracketed (e : Error) : String :=
  "Error \x7b " ++ e.message ++ " \x7d"

/-- Whether the text itself was at fault. -/
def isSyntax (e : Error) : Bool := e.kind == .syntaxError

/-- Whether the interpreter itself was at fault. -/
def isInternal (e : Error) : Bool := e.kind == .internalError

/-- Whether the error arose outside any program line. -/
def isDirect (e : Error) : Bool := e.line.isNone

/-! ### Errors in the text -/

/-- What a message calls the thing found: the character or word in quotes, or
the end of the line. -/
def found : Option String → String
  | some s => "'" ++ s ++ "'"
  | none => "END OF LINE"

/-- One thing was expected at `p` and another found; nothing is found at the end
of the line. -/
def expected (p : Position) (name : String) (thing : Option String) : Error where
  kind := .syntaxError
  position := some p
  detail := name ++ " EXPECTED, BUT " ++ found thing ++ " FOUND"

/-- A number that does not fit into 64 bits. -/
def numberTooLarge (p : Position) : Error where
  kind := .syntaxError
  position := some p
  detail := "NUMBER TOO LARGE"

/-- The line number 0. -/
def lineNumberZero (p : Position) : Error where
  kind := .syntaxError
  position := some p
  detail := "LINE NUMBER MUST BE POSITIVE"

/-! ### Errors of values -/

def overflow : Error where
  kind := .overflow

def divisionByZero : Error where
  kind := .divisionByZero

/-- Operands an operator has no meaning for. -/
def wrongOperands : Error where
  kind := .typeMismatch

/-- A value of another kind than is asked for. -/
def kindExpected (wanted got : String) : Error where
  kind := .typeMismatch
  detail := wanted ++ " EXPECTED, " ++ got ++ " FOUND"

/-- A condition that is no number. -/
def conditionExpected : Error where
  kind := .typeMismatch
  detail := "NUMERIC CONDITION EXPECTED"

/-- An expression without a number as its value where one is needed. -/
def numericExpected : Error where
  kind := .typeMismatch
  detail := "NUMERIC EXPRESSION EXPECTED"

/-- Two values that have no order. -/
def incomparable : Error where
  kind := .typeMismatch
  detail := "CAN'T COMPARE STRING WITH NUMBER"

/-- A text that stands for no integer. -/
def notAnInteger (s : String) : Error where
  kind := .typeMismatch
  detail := "\"" ++ s ++ "\" IS NOT AN INTEGER"

/-- A text that stands for no number. -/
def notANumber (s : String) : Error where
  kind := .typeMismatch
  detail := "\"" ++ s ++ "\" IS NOT A NUMBER"

/-! ### Errors of functions -/

def tooFewArguments (function : String) : Error where
  kind := .illegalFunctionCall
  detail := "TOO FEW ARGUMENTS FOR " ++ function

def tooManyArguments (function : String) : Error where
  kind := .illegalFunctionCall
  detail := "TOO MANY ARGUMENTS FOR " ++ function

/-- A function that got no value where it needs one. -/
def argumentExpected : Error where
  kind := .internalError
  detail := "ARGUMENT EXPECTED"

/-- A function that got no variable where it needs one. -/
def variableExpected : Error where
  kind := .internalError
  detail := "VARIABLE EXPECTED"

def negativeIndex : Error where
  kind := .illegalFunctionCall
  detail := "NEGATIVE INDEX IN MID$"

def indexOutOfRange : Error where
  kind := .illegalFunctionCall
  detail := "INDEX OUT OF RANGE IN MID$"

def negativeLength : Error where
  kind := .illegalFunctionCall
  detail := "NEGATIVE LENGTH IN MID$"

/-- A range from `lo` up to, and without, `hi` that holds no number. -/
def emptyRange (lo hi : Int64) : Error where
  kind := .illegalFunctionCall
  detail := "EMPTY RANGE " ++ Integer.text lo ++ ".." ++ Integer.text hi

/-! ### Errors of variables -/

/-- A name that cannot belong to a variable of the kind. -/
def nameRefused (name kind : String) : Error where
  kind := .typeMismatch
  detail := name ++ " CAN'T BE " ++ kind

/-- A variable of another kind than is asked for. -/
def otherKind (name kind : String) : Error where
  kind := .typeMismatch
  detail := name ++ " IS NOT " ++ kind

/-- A value that a variable cannot hold. -/
def valueRefused (name kind : String) : Error where
  kind := .typeMismatch
  detail := name ++ " CAN'T HOLD A " ++ kind

/-- A loop over a variable that holds no numbers. -/
def notNumericVariable (name : String) : Error where
  kind := .typeMismatch
  detail := name ++ " IS NOT A NUMERIC VARIABLE"

def negativeSize (name : String) (size : Int64) : Error where
  kind := .illegalFunctionCall
  detail := "DIM " ++ name ++ "(" ++ Integer.text size ++ ")"

/-- More variables than the memory has room for. -/
def memoryFull : Error where
  kind := .outOfMemory

def undefinedVariable (name : String) : Error where
  kind := .undefinedVariable
  detail := name

def unassignedVariable (name : String) : Error where
  kind := .unassignedVariable
  detail := name

/-- A variable that is missing although it was made just before. -/
def variableVanished : Error where
  kind := .internalError
  detail := "VARIABLE VANISHED"

/-- An index outside the slots of a variable. -/
def subscript (name : String) (index : Int64) (size : Nat) : Error where
  kind := .subscriptOutOfRange
  detail := name ++ "(" ++ Integer.text index ++ ") OUTSIDE 0.." ++ Nat.repr size

/-! ### Errors of programs -/

def undefinedLine (n : Int64) : Error where
  kind := .undefinedLine
  detail := "LINE " ++ Integer.text n ++ " NOT FOUND"

/-- No line number is left for the next line of a program. -/
def noLineAfter (n : Int64) : Error where
  kind := .overflow
  detail := "NO LINE NUMBER AFTER " ++ Integer.text n

/-- A line to be stored that has no number. -/
def lineNumberExpected : Error where
  kind := .internalError
  detail := "LINE NUMBER EXPECTED"

/-- A line of the running program that is no longer listed. -/
def lineVanished (n : Int64) : Error where
  kind := .internalError
  line := some n
  detail := "LINE VANISHED"

def stackOverflow : Error where
  kind := .outOfMemory
  detail := "STACK OVERFLOW"

def nestedTooDeep : Error where
  kind := .outOfMemory
  detail := "RUN NESTED TOO DEEP"

def nextWithoutFor (name : Option String) : Error where
  kind := .nextWithoutFor
  detail := name.getD ""

/-- A loop that is missing although it was found just before. -/
def loopVanished : Error where
  kind := .internalError
  detail := "LOOP FRAME VANISHED"

def forWithoutNext (name : String) : Error where
  kind := .forWithoutNext
  detail := name

/-- A loop that would never move. -/
def stepZero : Error where
  kind := .illegalFunctionCall
  detail := "STEP 0"

/-- A return to a place outside the program. -/
def returnOutside (address : Nat) : Error where
  kind := .returnWithoutGosub
  detail := Nat.repr address ++ " IS NOT A VALID IP"

/-- A return out of a loop. -/
def returnInLoop : Error where
  kind := .returnWithoutGosub
  detail := "STACK TOP IS A LOOP"

/-- A return with nowhere to return to. -/
def returnNowhere : Error where
  kind := .returnWithoutGosub
  detail := "STACK IS EMPTY"

def cantContinue : Error where
  kind := .cantContinue

/-- The break key. -/
def breakKey : Error where
  kind := .breakKey

/-! ### Errors of the console -/

def fileNotFound (file : String) : Error where
  kind := .fileNotFound
  detail := file

/-- A file that could not be read or written for another reason than that it is
missing. -/
def fileRefused (file reason : String) : Error where
  kind := .internalError
  detail := file ++ ": " ++ reason

def printFailed : Error where
  kind := .internalError
  detail := "PRINT FAILED"

end Error

/-! ### Halts -/

/-- Why execution stops before the end of a line. -/
inductive Halt where
  /-- The program is over. -/
  | finished
  /-- The session is over. -/
  | quit
  | failed (e : Error)
  /-- A run took more lines than it was granted. -/
  | exhausted
  /-- The process is over: it asked for a block of memory larger than any can
  be. Nothing is said to the user, and there is no machine to go on with. -/
  | aborted
  deriving DecidableEq, Repr

/-- The halt, with its error in program line `n` unless it already names a
line. -/
def Halt.inLine (n : Int64) : Halt → Halt
  | failed e => failed (e.inLine n)
  | h => h

end LineBasic
