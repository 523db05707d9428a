import LineBasic.Expr.Reader
import LineBasic.Script.Basic
import LineBasic.Script.Body

/-!
# Reading scripts

The script of a line is read off its tape:

```text
line      = statement END
statement = ( name ':' [ statement ] | verb ... | place '=' expression )
            [ ':' statement ]
```

Reading never fails; a line that breaks off has a script that does.

* `Script.read`: the script of a tape.
-/

namespace LineBasic

namespace Script

/-- A script that was read, or the one that breaks off where reading did. -/
def ofReading : Reading Script → Script
  | .ok s => s
  | .error b => broken b.before b.error

/-- The script that skips the rest of a line. The line must be such that it can
be scanned. -/
def skip : Tape → Script
  | .stop _ => done
  | .broken e => broken [] e
  | .cons _ rest => skip rest

/-- Reads a variable, perhaps with an index. -/
def readPlace (t : Tape) : Reading (Place × Tape) := do
  let (name, t) ← t.expectName
  let (index, t) ← Expr.readIndex Expr.read t
  return (⟨name, index⟩, t)

/-- Reads what to print, no more items than there are lexemes in `bound`. -/
def readItems : (bound t : Tape) → Reading (List (Expr × Separator) × Tape)
  | .cons _ bound, t =>
    if t.atStatementEnd then return ([], t)
    else do
      let (e, t) ← Expr.read t
      match t with
      | .cons ⟨.comma, _, _⟩ rest =>
        let (items, t) ← behind [.expr .any e] do readItems bound (← rest.ready)
        return ((e, .comma) :: items, t)
      | .cons ⟨.semicolon, _, _⟩ rest =>
        let (items, t) ← behind [.expr .any e] do readItems bound (← rest.ready)
        return ((e, .semicolon) :: items, t)
      | _ => return ([(e, .none)], t)
  | _, t => return ([], t)

/-! Every reader below is given how to read a statement, `again`, for the
statements that follow or are nested. -/

/-- The script behind a statement: a colon and another one, or the end of the
line. -/
def readRest (again : Tape → Script) (t : Tape) : Script :=
  match t with
  | .cons ⟨.colon, _, _⟩ rest => ofReading (rest.ready.map again)
  | .stop _ => done
  | _ => broken [] (t.expected "END OF LINE")

/-- Reads a statement that consists of a verb and one expression. -/
def readOne (again : Tape → Script) (action : Expr → Action) (t : Tape) : Reading Script := do
  let (e, t) ← Expr.read t
  return step (action e) (readRest again t)

/-- Reads an assignment behind its place. -/
def readAssignment (again : Tape → Script) (place : Place) (t : Tape) : Reading Script :=
  behind place.operands do
    let t ← t.expect .equal
    readOne again (.assign place) t

/-- Reads new variables with their sizes, no more of them than there are lexemes
in `bound`. Each is made before the next is read. -/
def readDims (again : Tape → Script) : (bound t : Tape) → Script
  | .cons _ bound, t => ofReading do
    let (name, t) ← t.expectName
    let t ← t.expect .openParen
    let (size, t) ← Expr.read t
    let t ← behind [.expr .integer size] (t.expect .closeParen)
    return step (.dim name size) <|
      match t with
      | .cons ⟨.comma, _, _⟩ rest => ofReading (rest.ready.map (readDims again bound))
      | _ => readRest again t
  | _, t => broken [] (t.expected "IDENTIFIER")

/-- Reads a question and the place for its answer. -/
def readInput (again : Tape → Script) (t : Tape) : Reading Script := do
  let (prompt, t) ← Expr.read t
  behind [.expr .text prompt] do
    match ← t.accept? .semicolon with
    | some t =>
      let (place, t) ← readPlace t
      return step (.input prompt true place) (readRest again t)
    | none =>
      let t ← t.expect .comma
      let (place, t) ← readPlace t
      return step (.input prompt false place) (readRest again t)

/-- Reads which lines to list. -/
def readList (again : Tape → Script) (t : Tape) : Reading Script :=
  if t.atStatementEnd then return step (.list none none) (readRest again t)
  else do
    let (first, t) ← Expr.read t
    behind [.expr .integer first] do
      match ← t.accept? .comma with
      | some t =>
        let (last, t) ← Expr.read t
        return step (.list (some first) (some last)) (readRest again t)
      | none => return step (.list (some first) none) (readRest again t)

/-- Reads what follows a condition that holds: a jump, or `THEN` and a jump or a
statement. -/
def readThen (again : Tape → Script) (t : Tape) : Script :=
  let jump := readOne again .goto
  ofReading <|
    match t with
    | .cons ⟨.verb .goto, _, _⟩ rest => do jump (← rest.ready)
    | .cons ⟨.number _, _, _⟩ _ => jump t
    | .cons ⟨.keyword .thenDo, _, _⟩ rest => do
      let t ← rest.ready
      match t.peek? with
      | some (.number _) => jump t
      | _ => return again t
    | _ => breakOff (t.expected (Token.keyword .thenDo).className)

/-- Reads a condition and what follows it. If it does not hold, the rest of the
line is skipped. -/
def readWhen (again : Tape → Script) (t : Tape) : Reading Script := do
  let (c, t) ← Expr.read t
  return branch c (readThen again t) (skip t)

/-- Reads a condition and a jump. -/
def readOn (again : Tape → Script) (t : Tape) : Reading Script := do
  let (c, t) ← Expr.read t
  let t ← behind [.expr .truth c] (t.expect (.verb .goto))
  return branch c (ofReading (readOne again .goto t)) (skip t)

/-- The script of the body of a loop. -/
def readBody (again : Tape → Script) (xs : List Lexeme) : Script :=
  match Tape.ofBody xs with
  | some t => again t
  | none => done

/-- Reads what follows the head of a loop: the body and the rest of the line, or
the end of the line. -/
def readLoopRest (again : Tape → Script) (head : LoopHead) (t : Tape) : Reading Script :=
  match t with
  | .cons ⟨.colon, _, _⟩ rest =>
    match rest.untilNext head.place.name 0 with
    | .error e => breakOff e
    | .ok (body, some t) => return loop head (readBody again body) (readRest again t)
    | .ok (body, none) => return loop head (readBody again body) done
  | .stop _ => return step (.startLoop head) done
  | _ => breakOff (t.expected "':' OR END OF LINE")

/-- Reads a loop. -/
def readLoop (again : Tape → Script) (t : Tape) : Reading Script := do
  let (place, t) ← readPlace t
  behind place.operands do
    if VariableKind.ofName place.name ≠ .numeric then breakOff (.notNumericVariable place.name)
    let t ← t.expect .equal
    let (start, t) ← Expr.read t
    behind [.expr .integer start] do
      let t ← t.expect (.keyword .upTo)
      let (limit, t) ← Expr.read t
      behind [.expr .integer limit] do
        match ← t.accept? (.keyword .step) with
        | some t =>
          let (stride, t) ← Expr.read t
          behind [.expr .stride stride] (readLoopRest again ⟨place, start, limit, stride⟩ t)
        | none => readLoopRest again ⟨place, start, limit, .number 1⟩ t

/-- Reads the variable behind `NEXT`, if one is named. -/
def readNext (again : Tape → Script) (t : Tape) : Reading Script :=
  match t with
  | .cons ⟨.name s, _, _⟩ rest => do
    let t ← rest.ready
    return step (.next (some s)) (readRest again t)
  | _ => return step (.next none) (readRest again t)

/-- Reads a statement behind its verb. -/
def readVerb (again : Tape → Script) (v : Verb) (t : Tape) : Reading Script :=
  let plain (action : Action) : Reading Script := .ok (step action (readRest again t))
  match v with
  | .debug => plain .debug
  | .trace => if t.atStatementEnd then plain (.trace none) else readOne again (.trace <| some ·) t
  | .remark =>
    match t with
    | .cons ⟨.comment s, _, _⟩ rest => do return step (.remark s) (readRest again (← rest.ready))
    | _ => breakOff (t.expected "COMMENT")
  | .assign => do
    let (place, t) ← readPlace t
    readAssignment again place t
  | .dim => .ok (readDims again t t)
  | .goto => readOne again .goto t
  | .gosub => readOne again .gosub t
  | .returns => plain .returns
  | .clear => plain .clear
  | .print => do
    let (items, t) ← readItems t t
    return step (.print items) (readRest again t)
  | .input => readInput again t
  | .new => plain .new
  | .list => readList again t
  | .read => do
    let (name, t) ← t.expectName
    let t ← t.expect .comma
    readOne again (.read name) t
  | .write => do
    let (name, t) ← t.expectName
    behind [.lookup name] do
      let t ← t.expect .comma
      readOne again (.write name) t
  | .load => readOne again .load t
  | .save => readOne again .save t
  | .finish => plain .finish
  | .quit => plain .quit
  | .run => plain .run
  | .reset => plain .reset
  | .resume => plain .resume
  | .when => readWhen again t
  | .on => readOn again t
  | .loop => readLoop again t
  | .next => readNext again t

/-- Reads a statement that begins with a name: a label, or an assignment. -/
def readNamed (again : Tape → Script) (name : String) (t : Tape) : Reading Script :=
  match t with
  | .cons ⟨.colon, _, _⟩ rest => do
    let t ← rest.ready
    return step (.label name) (match t with | .stop _ => done | _ => again t)
  | _ => do
    let (index, t) ← Expr.readIndex Expr.read t
    readAssignment again ⟨name, index⟩ t

/-- Reads a statement and what follows it. -/
def readStatement (again : Tape → Script) (t : Tape) : Script :=
  ofReading <|
    match t with
    | .cons ⟨.verb v, _, _⟩ rest => do readVerb again v (← rest.ready)
    | .cons ⟨.name s, _, _⟩ rest => do readNamed again s (← rest.ready)
    | _ => breakOff (t.expected "STATEMENT")

/-- Reads no more statements than there are lexemes in `bound`. -/
def readUpTo : (bound t : Tape) → Script
  | .cons _ bound, t => readStatement (readUpTo bound) t
  | _, t => broken [] (t.expected "STATEMENT")

/-- The script of a tape. It has no more statements than lexemes. -/
def read (t : Tape) : Script := readUpTo t t

end Script

end LineBasic
