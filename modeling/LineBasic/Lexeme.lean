import LineBasic.Text.Cursor
import LineBasic.Token.Basic

/-!
# Lexemes

A lexeme is a token together with the place where its text begins and ends. A
scanner takes the lexemes off a text one by one. The tape of a text holds all of
them, up to the end of the text or to the first place where it cannot be
scanned.

* `Scanner.next`: the next lexeme, nothing at the end of the text, or an error.
* `Scanner.size_lt_of_next`: every lexeme uses the text up.
* `Scanner.tape`: the lexemes of a text.
-/

namespace LineBasic

/-- A token in its place. -/
structure Lexeme where
  /-- The token. -/
  token : Token
  /-- The position of its first character. -/
  start : Position
  /-- The position behind its last character. -/
  stop : Position
  deriving DecidableEq, Repr

/-! ### Reading one token

The cursor stands on the first character. It is left right behind the token, or
where reading gave up. -/

/-- The token written as a word in any case. -/
def wordToken (cs : List Char) : Token :=
  let w := String.ofList (cs.map Char.toUpper)
  (Token.ofWord? w).getD (.name w)

/-- Reads a word. A `$` ends it, also behind blanks. -/
def scanWord (c : Cursor) : Token × Cursor :=
  let word := c.rest.takeWhile isNameChar
  let after := c.skipWhile isNameChar
  match after.skipBlanks.take? '$' false with
  | some behind => (wordToken (word ++ ['$']), behind)
  | none => (wordToken word, after)

/-- Reads a relation of which `<` or `>` has been read. A second character may
follow behind blanks. -/
def scanRelation (single : Relation) (pairs : List (Char × Relation)) (after : Cursor) : Token × Cursor :=
  match pairs.findSome? fun (ch, r) => (after.skipBlanks.take? ch false).map ((r, ·)) with
  | some (r, behind) => (.relation r, behind)
  | none => (.relation single, after)

/-- Reads a text of which the first quote has been read. -/
def scanQuoted (after : Cursor) : Except Error Token × Cursor :=
  let closing := after.skipWhile (· ≠ '"')
  match closing.take? '"' false with
  | some behind => (.ok (.quoted (String.ofList (after.rest.takeWhile (· ≠ '"')))), behind)
  | none => (.error (closing.expected "'\"'"), closing)

/-- Reads a token inside a statement. -/
def scanToken (c : Cursor) : Except Error Token × Cursor :=
  match c.rest with
  | [] => (.error (c.expected "STATEMENT"), c)
  | ch :: _ =>
    match Token.ofSign? ch with
    | some t => (.ok t, c.next)
    | none =>
      if ch = '<' then
        let (t, after) := scanRelation .less [('=', .lessEqual), ('>', .notEqual)] c.next
        (.ok t, after)
      else if ch = '>' then
        let (t, after) := scanRelation .greater [('=', .greaterEqual)] c.next
        (.ok t, after)
      else if ch.isDigit then ((c.readDigits false).1.map .number, c.skipWhile Char.isDigit)
      else if ch = '"' then scanQuoted c.next
      else if isLetter ch then
        let (t, after) := scanWord c
        (.ok t, after)
      else (.error (c.expected "STATEMENT"), c)

/-- Reads the number of a line, which is positive. -/
def scanLineNumber (c : Cursor) : Except Error Token × Cursor :=
  let read := match (c.readDigits false).1 with
    | .ok n => if n = 0 then .error (.lineNumberZero c.position) else .ok (.lineNumber n)
    | .error e => .error e
  (read, c.skipWhile Char.isDigit)

/-! ### Reading a text -/

/-- What may come next in a text. -/
inductive Mode where
  /-- A line number, or a statement. -/
  | start
  /-- The rest of a statement. -/
  | statement
  /-- A comment, which takes up all the rest. -/
  | comment
  deriving DecidableEq, Repr

/-- The lexemes that are due even at the end of the text: a comment may be
empty. -/
def Mode.due : Mode → Nat
  | comment => 1
  | start | statement => 0

theorem Mode.due_le (m : Mode) : m.due ≤ 1 := by
  cases m <;> simp [due]

/-- A cursor, and what it is about to read. -/
structure Scanner where
  cursor : Cursor
  mode : Mode
  deriving DecidableEq, Repr

namespace Scanner

/-- The scanner of a line, which may have a number. -/
def ofText (cs : List Char) : Scanner := ⟨(Cursor.ofText cs).skipBlanks, .start⟩

/-- The scanner of the statements of a text behind its first `offset` bytes. -/
def atOffset (cs : List Char) (offset : Nat) : Scanner :=
  ⟨(Cursor.atOffset cs offset).skipBlanks, .statement⟩

/-- The mode, less the line number if no digit comes next. -/
def settledMode (s : Scanner) : Mode :=
  if s.mode = .start ∧ ¬ s.cursor.atChar Char.isDigit then .statement else s.mode

/-- Reads the token that the mode asks for, comments apart. -/
def scan (s : Scanner) : Except Error Token × Cursor :=
  if s.settledMode = .start then scanLineNumber s.cursor else scanToken s.cursor

/-- Takes all the rest as a comment, without the spaces at its end. -/
def nextComment (s : Scanner) : Lexeme × Scanner :=
  let text := trimEndList s.cursor.rest
  let start := s.cursor.position
  (⟨.comment (String.ofList text), start, text.foldl Position.next start⟩,
    ⟨s.cursor.skipWhile fun _ => true, .statement⟩)

/-- The next lexeme, or nothing at the end of the text. Blanks behind it are
passed over. An error keeps the mode and leaves the cursor where reading gave
up. -/
def next (s : Scanner) : Except Error (Option Lexeme) × Scanner :=
  if s.mode = .comment then (.ok (some s.nextComment.1), s.nextComment.2)
  else if s.cursor.rest.isEmpty then (.ok none, s)
  else
    match s.scan with
    | (.ok t, stop) =>
      (.ok (some ⟨t, s.cursor.position, stop.position⟩),
        ⟨stop.skipBlanks, if t = .verb .remark then .comment else .statement⟩)
    | (.error e, stop) => (.error e, ⟨stop.skipBlanks, s.settledMode⟩)

/-- A bound on the lexemes still to come. -/
def size (s : Scanner) : Nat :=
  2 * s.cursor.rest.length + s.mode.due

end Scanner

/-! ### Every token uses up text -/

theorem Cursor.length_skipWhile_le (p : Char → Bool) (c : Cursor) :
    (c.skipWhile p).rest.length ≤ c.rest.length := by
  simpa [Cursor.skipWhile] using (List.dropWhile_suffix p).length_le

theorem Cursor.length_skipWhile_lt {p : Char → Bool} {c : Cursor} (h : c.atChar p = true) :
    (c.skipWhile p).rest.length < c.rest.length := by
  rcases c with ⟨pos, _ | ⟨ch, rest⟩⟩
  · simp [Cursor.atChar] at h
  · have hp : p ch = true := by simpa [Cursor.atChar] using h
    have := (List.dropWhile_suffix (l := rest) p).length_le
    simp only [Cursor.skipWhile, List.dropWhile_cons, hp, if_true, List.length_cons]
    omega

theorem Cursor.length_next (c : Cursor) : c.next.rest.length = c.rest.length - 1 := by
  rcases c with ⟨pos, _ | ⟨ch, rest⟩⟩ <;> simp [Cursor.next]

theorem Cursor.length_take?_lt {ch : Char} {skip : Bool} {c d : Cursor} (h : c.take? ch skip = some d) :
    d.rest.length < c.rest.length := by
  rcases c with ⟨pos, _ | ⟨x, rest⟩⟩
  · simp [Cursor.take?, Cursor.peek?] at h
  · unfold Cursor.take? at h
    split at h
    · have h1 := Cursor.length_skipWhile_le isBlank (Cursor.next ⟨pos, x :: rest⟩)
      have h2 := Cursor.length_next ⟨pos, x :: rest⟩
      simp only [Option.some.injEq] at h
      subst h
      simp only [List.length_cons] at h2 ⊢
      split
      · simp only [Cursor.skipBlanks]; omega
      · omega
    · simp at h

theorem length_scanRelation_le (single : Relation) (pairs : List (Char × Relation)) (c : Cursor) :
    (scanRelation single pairs c).2.rest.length ≤ c.rest.length := by
  unfold scanRelation
  split
  · rename_i r behind h
    obtain ⟨⟨ch, r'⟩, _, h⟩ := List.exists_of_findSome?_eq_some h
    obtain ⟨d, hd, heq⟩ := Option.map_eq_some_iff.1 h
    have h1 := Cursor.length_take?_lt hd
    have h2 := Cursor.length_skipWhile_le isBlank c
    simp only [Prod.mk.injEq] at heq
    simp only [Cursor.skipBlanks] at h1
    simp only [← heq.2]
    omega
  · exact Nat.le_refl _

theorem length_scanQuoted_le (c : Cursor) : (scanQuoted c).2.rest.length ≤ c.rest.length := by
  have h1 := Cursor.length_skipWhile_le (· ≠ '"') c
  unfold scanQuoted
  simp only
  split
  · rename_i behind h
    have h2 := Cursor.length_take?_lt h
    simp only
    omega
  · exact h1

theorem length_scanWord_lt {c : Cursor} (h : c.atChar isNameChar = true) :
    (scanWord c).2.rest.length < c.rest.length := by
  have h1 := Cursor.length_skipWhile_lt h
  unfold scanWord
  simp only
  split
  · rename_i behind h'
    have h2 := Cursor.length_take?_lt h'
    have h3 := Cursor.length_skipWhile_le isBlank (c.skipWhile isNameChar)
    simp only [Cursor.skipBlanks] at h2
    simp only
    omega
  · exact h1

/-- A token that was read is not empty. -/
theorem length_scanToken_lt {c : Cursor} {t : Token} (h : (scanToken c).1 = .ok t) :
    (scanToken c).2.rest.length < c.rest.length := by
  rcases c with ⟨pos, _ | ⟨ch, rest⟩⟩
  · simp [scanToken] at h
  · have hn : (Cursor.next ⟨pos, ch :: rest⟩).rest.length = rest.length := by
      simp [Cursor.length_next]
    unfold scanToken at h ⊢
    simp only at h ⊢
    split
    · simp only [hn, List.length_cons]; omega
    · split
      · have := length_scanRelation_le .less [('=', .lessEqual), ('>', .notEqual)]
          (Cursor.next ⟨pos, ch :: rest⟩)
        simp only [List.length_cons]; omega
      · split
        · have := length_scanRelation_le .greater [('=', .greaterEqual)]
            (Cursor.next ⟨pos, ch :: rest⟩)
          simp only [List.length_cons]; omega
        · split
          · exact Cursor.length_skipWhile_lt (by simpa [Cursor.atChar])
          · split
            · have := length_scanQuoted_le (Cursor.next ⟨pos, ch :: rest⟩)
              simp only [List.length_cons]; omega
            · split
              · exact length_scanWord_lt (by simp_all [Cursor.atChar, isNameChar])
              · simp_all

theorem length_scanLineNumber_lt {c : Cursor} (h : c.atChar Char.isDigit = true) :
    (scanLineNumber c).2.rest.length < c.rest.length :=
  Cursor.length_skipWhile_lt h

namespace Scanner

theorem length_scan_lt {s : Scanner} {t : Token} {stop : Cursor} (h : s.scan = (.ok t, stop)) :
    stop.rest.length < s.cursor.rest.length := by
  unfold scan at h
  split at h
  · rename_i hs
    have hd : s.cursor.atChar Char.isDigit = true := by
      unfold settledMode at hs
      split at hs
      · simp at hs
      · rename_i hn
        exact Classical.not_not.1 fun hd => hn ⟨hs, hd⟩
    have := length_scanLineNumber_lt hd
    rwa [h] at this
  · have := length_scanToken_lt (c := s.cursor) (t := t) (by rw [h])
    rwa [h] at this

/-- **Every lexeme uses the text up.** -/
theorem size_lt_of_next {s after : Scanner} {x : Lexeme} (h : s.next = (.ok (some x), after)) :
    after.size < s.size := by
  unfold next at h
  by_cases hm : s.mode = .comment
  · have := Cursor.length_skipWhile_le (fun _ => true) s.cursor
    simp only [hm, if_true, Prod.mk.injEq] at h
    simp only [← h.2, size, nextComment, hm, Mode.due]
    omega
  · by_cases hr : s.cursor.rest.isEmpty
    · simp [hm, hr] at h
    · simp only [hm, hr, if_false, Bool.false_eq_true] at h
      split at h
      · rename_i t stop hp
        have h1 := length_scan_lt hp
        have h2 := Cursor.length_skipWhile_le isBlank stop
        have h3 := after.mode.due_le
        simp only [Prod.mk.injEq] at h
        simp only [size, ← h.2, Cursor.skipBlanks] at h3 ⊢
        omega
      · simp at h

end Scanner

/-! ### Tapes -/

/-- The lexemes of a text. -/
inductive Tape where
  /-- The end of the text. -/
  | stop (p : Position)
  /-- A place from which the text cannot be scanned. -/
  | broken (e : Error)
  /-- A lexeme, and what follows it. -/
  | cons (x : Lexeme) (rest : Tape)
  deriving DecidableEq, Repr

/-- All lexemes that a scanner has still to take. -/
def Scanner.tape (s : Scanner) : Tape :=
  match h : s.next with
  | (.error e, _) => .broken e
  | (.ok none, _) => .stop s.cursor.position
  | (.ok (some x), after) =>
    have := size_lt_of_next h
    .cons x after.tape
termination_by s.size

namespace Tape

/-- The number of lexemes. -/
def length : Tape → Nat
  | stop _ | broken _ => 0
  | cons _ rest => rest.length + 1

/-- The lexemes of a text that can be scanned to its end. -/
def lexemes : Tape → Except Error (List Lexeme)
  | stop _ => .ok []
  | broken e => .error e
  | cons x rest => rest.lexemes.map (x :: ·)

/-- The tape of some lexemes and of the end of the text at `p`. -/
def ofList (p : Position) : List Lexeme → Tape
  | [] => stop p
  | x :: xs => cons x (ofList p xs)

theorem length_ofList (p : Position) (xs : List Lexeme) : (ofList p xs).length = xs.length := by
  induction xs with
  | nil => rfl
  | cons x xs ih => rw [ofList, length, ih, List.length_cons]

/-- The tape of a line, which may have a number. -/
def ofLine (s : String) : Tape := (Scanner.ofText s.toList).tape

/-- The tape of the statements of a line. -/
def ofStatements (s : String) : Tape := (Scanner.atOffset s.toList 0).tape

end Tape

end LineBasic
