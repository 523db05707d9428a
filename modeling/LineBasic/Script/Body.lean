import LineBasic.Lexeme
import LineBasic.Text.Blank

/-!
# The body of a loop in one line

A loop in one line reaches up to the `NEXT` that closes it, or to the end of the
line. Loops inside it are closed by their own `NEXT`; a `NEXT` for another
variable closes nothing.

* `Tape.untilNext`: the lexemes up to the closing `NEXT`, and the tape behind
  it.
* `Tape.ofBody`: the body as a text of its own, without a colon at its end.
-/

namespace LineBasic.Tape

/-- Puts lexemes before a body that was found. -/
def keep (xs : List Lexeme) (r : Except Error (List Lexeme × Option Tape)) :
    Except Error (List Lexeme × Option Tape) :=
  r.map fun (body, rest) => (xs ++ body, rest)

/-- The tape, if its first lexeme could be scanned. -/
def scanned : Tape → Except Error Tape
  | broken e => .error e
  | t => .ok t

/-- The lexemes up to the `NEXT` that closes a loop over `counter`, and the tape
behind it and its variable; no tape if there is no such `NEXT`. So many loops
inside the body are still to be closed. The lexeme behind any `NEXT` is taken
for its variable and passed over. -/
def untilNext (counter : String) : Nat → Tape → Except Error (List Lexeme × Option Tape)
  | _, stop _ => .ok ([], none)
  | _, broken e => .error e
  | depth, cons x rest =>
    match x.token with
    | .verb .loop => keep [x] (untilNext counter (depth + 1) rest)
    | .verb .next =>
      match rest with
      | broken e => .error e
      | stop p => if depth = 0 then .ok ([], some (stop p)) else .ok ([x], none)
      | cons y more =>
        match depth, y.token with
        | inner + 1, _ => keep [x, y] (untilNext counter inner more)
        | 0, .name s =>
          if s = counter then more.scanned.map fun t => ([], some t)
          else keep [x, y] (untilNext counter 0 more)
        | 0, _ => .ok ([], some (cons y more))
    | _ => keep [x] (untilNext counter depth rest)

/-- A comment without a colon at its end. -/
def shortenComment (s : String) (start : Position) : Lexeme × Position :=
  let cs := s.toList.dropLast
  let kept := trimEndList cs
  (⟨.comment (String.ofList kept), start, kept.foldl Position.next start⟩, cs.foldl Position.next start)

/-- The body of a loop as a text of its own, if there is one. The text ends
behind the last lexeme. A colon that ends it does not belong to it, not even one
that ends a comment. -/
def ofBody (xs : List Lexeme) : Option Tape :=
  match xs.getLast? with
  | none => none
  | some x =>
    match x.token with
    | .colon => if xs.dropLast.isEmpty then none else some (ofList x.start xs.dropLast)
    | .comment s =>
      if s.toList.getLast? = some ':' then
        let (comment, p) := shortenComment s x.start
        some (ofList p (xs.dropLast ++ [comment]))
      else some (ofList x.stop xs)
    | _ => some (ofList x.stop xs)

end LineBasic.Tape
