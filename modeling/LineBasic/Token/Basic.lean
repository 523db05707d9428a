import LineBasic.Integer

/-!
# Tokens

The words and signs of a line. Every token has one canonical spelling, and
belongs to a class that messages name.

* `Token.spelling`: how a token is written.
* `Token.className`: what messages call it.
-/

namespace LineBasic

/-- The words that open a statement. -/
inductive Verb where
  | debug
  | trace
  | remark
  | assign
  | dim
  | goto
  | gosub
  | returns
  | clear
  | print
  | input
  | new
  | list
  | read
  | write
  | load
  | save
  | finish
  | quit
  | run
  | reset
  | resume
  | when
  | on
  | loop
  | next
  deriving DecidableEq, Repr

/-- The spelling of a verb. -/
def Verb.spelling : Verb → String
  | debug => "DEBUG"
  | trace => "TRACE"
  | remark => "REM"
  | assign => "LET"
  | dim => "DIM"
  | goto => "GOTO"
  | gosub => "GOSUB"
  | returns => "RETURN"
  | clear => "CLS"
  | print => "PRINT"
  | input => "INPUT"
  | new => "NEW"
  | list => "LIST"
  | read => "READ"
  | write => "WRITE"
  | load => "LOAD"
  | save => "SAVE"
  | finish => "END"
  | quit => "QUIT"
  | run => "RUN"
  | reset => "RESET"
  | resume => "CONT"
  | when => "IF"
  | on => "ON"
  | loop => "FOR"
  | next => "NEXT"

/-- Every verb. -/
def Verb.all : List Verb :=
  [debug, trace, remark, assign, dim, goto, gosub, returns, clear, print, input, new, list, read, write,
    load, save, finish, quit, run, reset, resume, when, on, loop, next]

/-- The words inside a statement that are no operators. -/
inductive Keyword where
  | upTo
  | step
  | thenDo
  | otherwise
  deriving DecidableEq, Repr

/-- The spelling of a keyword. -/
def Keyword.spelling : Keyword → String
  | upTo => "TO"
  | step => "STEP"
  | thenDo => "THEN"
  | otherwise => "ELSE"

/-- Every keyword. -/
def Keyword.all : List Keyword := [upTo, step, thenDo, otherwise]

/-- The functions that are built in. -/
inductive Builtin where
  /-- The text of a value. -/
  | text
  /-- The integer of a value. -/
  | integer
  /-- The floating point number of a value. -/
  | number
  /-- The length of a text. -/
  | length
  /-- The number of slots of a variable. -/
  | size
  /-- A part of a text. -/
  | slice
  /-- A random integer. -/
  | random
  deriving DecidableEq, Repr

/-- The spelling of a function. -/
def Builtin.spelling : Builtin → String
  | text => "STR$"
  | integer => "INT"
  | number => "NUM"
  | length => "LEN"
  | size => "ALEN"
  | slice => "MID$"
  | random => "RND"

/-- Every function. -/
def Builtin.all : List Builtin := [text, integer, number, length, size, slice, random]

/-- The operators on truth values. -/
inductive Connective where
  | not
  | and
  | or
  | xor
  deriving DecidableEq, Repr

/-- The spelling of a connective. -/
def Connective.spelling : Connective → String
  | not => "NOT"
  | and => "AND"
  | or => "OR"
  | xor => "XOR"

/-- Every connective. -/
def Connective.all : List Connective := [not, and, or, xor]

/-- The operators that compare, equality apart. -/
inductive Relation where
  | notEqual
  | less
  | lessEqual
  | greater
  | greaterEqual
  deriving DecidableEq, Repr

/-- The spelling of a relation. -/
def Relation.spelling : Relation → String
  | notEqual => "<>"
  | less => "<"
  | lessEqual => "<="
  | greater => ">"
  | greaterEqual => ">="

/-- The operators of a sum, and the signs of a number. -/
inductive Sign where
  | plus
  | minus
  deriving DecidableEq, Repr

/-- The spelling of a sign. -/
def Sign.spelling : Sign → String
  | plus => "+"
  | minus => "-"

/-- The operators of a product. -/
inductive Scaling where
  | times
  | divide
  | quotient
  | remainder
  deriving DecidableEq, Repr

/-- The spelling of an operator of a product. -/
def Scaling.spelling : Scaling → String
  | times => "*"
  | divide => "/"
  | quotient => "DIV"
  | remainder => "MOD"

/-- A word or sign of a line. -/
inductive Token where
  | lineNumber (n : Int64)
  | verb (v : Verb)
  | keyword (k : Keyword)
  | builtin (f : Builtin)
  | comment (s : String)
  | name (s : String)
  | number (n : Int64)
  | quoted (s : String)
  | equal
  | scaling (op : Scaling)
  | sign (op : Sign)
  | connective (op : Connective)
  | relation (op : Relation)
  | comma
  | colon
  | semicolon
  | openParen
  | closeParen
  | openBracket
  | closeBracket
  deriving DecidableEq, Repr

namespace Token

/-- The canonical spelling of a token. -/
def spelling : Token → String
  | lineNumber n => Integer.text n
  | verb v => v.spelling
  | keyword k => k.spelling
  | builtin f => f.spelling
  | comment s => s
  | name s => s
  | number n => Integer.text n
  | quoted s => "\"" ++ s ++ "\""
  | equal => "="
  | scaling op => op.spelling
  | sign op => op.spelling
  | connective op => op.spelling
  | relation op => op.spelling
  | comma => ","
  | colon => ":"
  | semicolon => ";"
  | openParen => "("
  | closeParen => ")"
  | openBracket => "["
  | closeBracket => "]"

/-- What messages call a token. -/
def className : Token → String
  | lineNumber _ => "LINE NUMBER"
  | verb _ => "STATEMENT"
  | keyword _ => "KEYWORD"
  | builtin _ => "FUNCTION"
  | comment _ => "COMMENT"
  | name _ => "IDENTIFIER"
  | number _ => "NUMBER"
  | quoted _ => "STRING"
  | equal => "'='"
  | scaling _ | sign _ => "OPERATOR"
  | connective _ => "BOOLEAN OPERATOR"
  | relation _ => "COMPARISON"
  | comma => "','"
  | colon => "':'"
  | semicolon => "';'"
  | openParen => "'('"
  | closeParen => "')'"
  | openBracket => "'['"
  | closeBracket => "']'"

/-- The tokens that are written as a word of their own. -/
def words : List Token :=
  Verb.all.map verb ++ Connective.all.map connective ++ Keyword.all.map keyword ++
    Builtin.all.map builtin ++ [scaling .quotient, scaling .remainder]

/-- The token that is written as the word `w`, in capital letters, unless `w` is
a name. -/
def ofWord? (w : String) : Option Token :=
  words.find? (·.spelling == w)

/-- The token that a sign of one character stands for, unless another character
may follow in it. -/
def ofSign? : Char → Option Token
  | ':' => some colon
  | ',' => some comma
  | ';' => some semicolon
  | '+' => some (sign .plus)
  | '-' => some (sign .minus)
  | '*' => some (scaling .times)
  | '/' => some (scaling .divide)
  | '=' => some equal
  | '(' => some openParen
  | ')' => some closeParen
  | '[' => some openBracket
  | ']' => some closeBracket
  | _ => none

end Token

end LineBasic
