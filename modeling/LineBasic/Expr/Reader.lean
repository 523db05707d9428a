import LineBasic.Expr.Basic
import LineBasic.Lexeme

/-!
# Reading expressions

Expressions are read off a tape, with one lexeme of lookahead:

```text
expression = and { OR and }
and        = xor { AND xor }
xor        = term { XOR term }
term       = NOT expression | comparison
comparison = sum [ ( '=' | '<>' | '<' | '<=' | '>' | '>=' ) sum ]
sum        = product { ( '+' | '-' ) product }
product    = factor { ( '*' | '/' | DIV | MOD ) factor }
factor     = ( '-' | '+' ) factor | '(' expression ')' | number | text
           | name [ '(' expression ')' ] | function '(' arguments ')'
```

A lexeme has been read only if the one behind it could be scanned. Where reading
breaks off, the operands that were complete by then are kept, since they are
evaluated before the error is raised.

* `Expr.read`: the expression at the beginning of a tape, and the tape behind
  it.
-/

namespace LineBasic

/-- Why reading broke off, and what was complete by then. -/
structure Broken where
  before : List Operand
  error : Error

/-- Reading off a tape. What is read comes with the tape behind it. -/
abbrev Reading := Except Broken

/-- Reading that breaks off with nothing complete. -/
def breakOff {α : Type} (e : Error) : Reading α := .error ⟨[], e⟩

/-- Reading behind some operands that are complete. -/
def behind {α : Type} (ops : List Operand) (r : Reading α) : Reading α :=
  r.mapError fun b => ⟨ops ++ b.before, b.error⟩

namespace Tape

/-- The error that something else than `name` comes next. -/
def expected (t : Tape) (name : String) : Error :=
  match t with
  | stop p => .expected p name none
  | broken e => e
  | cons x _ => .expected x.start name (some x.token.spelling)

/-- The token that comes next. -/
def peek? : Tape → Option Token
  | cons x _ => some x.token
  | stop _ | broken _ => none

/-- The tape behind a lexeme. The lexeme has been read only if the next one
could be scanned. -/
def ready : Tape → Reading Tape
  | broken e => breakOff e
  | t => .ok t

/-- Whether a statement ends here. -/
def atStatementEnd : Tape → Bool
  | stop _ => true
  | t => t.peek? == some .colon

/-- The tape behind the token, if it comes next. -/
def accept? (token : Token) : Tape → Reading (Option Tape)
  | cons x rest => if x.token = token then rest.ready.map some else .ok none
  | stop _ | broken _ => .ok none

/-- The tape behind the token, which must come next. -/
def expect (token : Token) (t : Tape) : Reading Tape := do
  match ← t.accept? token with
  | some t => return t
  | none => breakOff (t.expected token.className)

/-- The name that must come next. -/
def expectName (t : Tape) : Reading (String × Tape) :=
  match t with
  | cons ⟨.name s, _, _⟩ rest => return (s, ← rest.ready)
  | _ => breakOff (t.expected "IDENTIFIER")

end Tape

namespace Token

/-- The operators that join the operands of a disjunction. -/
def disjunction? : Token → Option Binary
  | connective .or => some .or
  | _ => none

/-- The operators that join the operands of a conjunction. -/
def conjunction? : Token → Option Binary
  | connective .and => some .and
  | _ => none

/-- The operators that join the operands of an exclusive disjunction. -/
def exclusion? : Token → Option Binary
  | connective .xor => some .xor
  | _ => none

/-- The operators that compare. -/
def comparison? : Token → Option Binary
  | equal => some .equal
  | relation .notEqual => some .notEqual
  | relation .less => some .less
  | relation .lessEqual => some .lessEqual
  | relation .greater => some .greater
  | relation .greaterEqual => some .greaterEqual
  | _ => none

/-- The operators of a sum. -/
def sum? : Token → Option Binary
  | sign .plus => some .add
  | sign .minus => some .subtract
  | _ => none

/-- The operators of a product. -/
def product? : Token → Option Binary
  | scaling .times => some .multiply
  | scaling .divide => some .divide
  | scaling .quotient => some .quotient
  | scaling .remainder => some .remainder
  | _ => none

end Token

namespace Expr

/-- A way to read an expression. -/
abbrev Reader := Tape → Reading (Expr × Tape)

/-- The operator of a sign before its operand. -/
def signed : Sign → Unary
  | .plus => .plus
  | .minus => .negate

/-! What is read in a repeated or nested way takes up lexemes, so a tape bounds
how often that happens: the readers below use up `bound` while they read, and
are called with the tape that they read. -/

/-- Reads on behind the operand `l` for as long as operators come. -/
def readChainFrom (op? : Token → Option Binary) (operand : Reader) (bound : Tape) (l : Expr) : Reader :=
  fun t =>
    match bound, t with
    | .cons _ bound, .cons x rest =>
      match op? x.token with
      | some op => do
        let (r, t) ← behind [.expr .any l] do operand (← rest.ready)
        readChainFrom op? operand bound (.binary op l r) t
      | none => .ok (l, t)
    | _, _ => .ok (l, t)

/-- Reads operands with operators of one kind between them, which group to the
left. -/
def readChain (op? : Token → Option Binary) (operand : Reader) (t : Tape) : Reading (Expr × Tape) := do
  let (l, t) ← operand t
  readChainFrom op? operand t l t

/-- Reads one operand, or two with an operator between them. -/
def readPair (op? : Token → Option Binary) (operand : Reader) (t : Tape) : Reading (Expr × Tape) := do
  let (l, t) ← operand t
  match t with
  | .cons x rest =>
    match op? x.token with
    | some op => do
      let (r, t) ← behind [.expr .any l] do operand (← rest.ready)
      return (.binary op l r, t)
    | none => return (l, t)
  | _ => return (l, t)

/-- Reads an index in parentheses, if one comes next. -/
def readIndex (nested : Reader) (t : Tape) : Reading (Option Expr × Tape) := do
  match ← t.accept? .openParen with
  | none => return (none, t)
  | some t =>
    let (e, t) ← nested t
    let t ← behind [.expr .integer e] (t.expect .closeParen)
    return (some e, t)

/-- The tape behind the comma that follows an argument; none is needed before
the closing parenthesis. -/
def readSeparator (t : Tape) : Reading Tape :=
  if t.peek? = some .closeParen then .ok t else t.expect .comma

/-- Reads arguments up to the closing parenthesis, as far as the function has
places for them. -/
def readArgs (nested : Reader) (f : Builtin) (slots : List Slot) (t : Tape) :
    Reading (Args × Tape) :=
  if t.peek? = some .closeParen then .ok (.nil, t)
  else match slots with
    | [] => breakOff (.tooManyArguments f.spelling)
    | .handle :: slots => do
      let (name, t) ← t.expectName
      let (args, t) ← behind [.lookup name] do readArgs nested f slots (← readSeparator t)
      return (.handle name args, t)
    | slot :: slots => do
      let (e, t) ← nested t
      let (args, t) ← behind [.expr slot.demand e] do readArgs nested f slots (← readSeparator t)
      return (.value slot.demand e args, t)

/-- Reads the arguments of a function in their parentheses. -/
def readCall (nested : Reader) (f : Builtin) (t : Tape) : Reading (Expr × Tape) := do
  let t ← t.expect .openParen
  let (args, t) ← readArgs nested f f.signature.slots t
  let t ← behind [.expr .any (.call f args)] (t.expect .closeParen)
  return (.call f args, t)

/-- Reads a factor. -/
def readFactor (nested : Reader) (t : Tape) : Reading (Expr × Tape) :=
  match t with
  | .cons x rest =>
    match x.token with
    | .sign s => do
      let (e, t) ← readFactor nested rest
      return (.unary (signed s) e, t)
    | .openParen => do
      let (e, t) ← nested (← rest.ready)
      let t ← behind [.expr .any e] (t.expect .closeParen)
      return (e, t)
    | .number n => return (.number n, ← rest.ready)
    | .quoted s => return (.text s, ← rest.ready)
    | .name s => do
      let (index, t) ← readIndex nested (← rest.ready)
      return (match index with | some e => .element s e | none => .scalar s, t)
    | .builtin f => do readCall nested f (← rest.ready)
    | _ => breakOff (t.expected "EXPRESSION")
  | _ => breakOff (t.expected "EXPRESSION")

/-- Reads a negation, or a comparison. -/
def readTerm (nested : Reader) (t : Tape) : Reading (Expr × Tape) := do
  match ← t.accept? (.connective .not) with
  | some t =>
    let (e, t) ← nested t
    return (.unary .not e, t)
  | none =>
    let product := readChain Token.product? (readFactor nested)
    let sum := readChain Token.sum? product
    readPair Token.comparison? sum t

/-- Reads an expression, given how to read one that is nested in it. -/
def readWith (nested : Reader) : Reader :=
  let exclusion := readChain Token.exclusion? (readTerm nested)
  let conjunction := readChain Token.conjunction? exclusion
  readChain Token.disjunction? conjunction

/-- Reads an expression with no more levels of nesting than there are lexemes in
`bound`. -/
def readNested : (bound : Tape) → Reader
  | .cons _ bound, t => readWith (readNested bound) t
  | _, t => breakOff (t.expected "EXPRESSION")

/-- Reads an expression. It nests no deeper than it is long. -/
def read : Reader := fun t => readNested t t

end Expr

end LineBasic
