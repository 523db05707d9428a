import LineBasic.Machine.Perform
import LineBasic.Proofs.Lexeme.Standing
import LineBasic.Proofs.Line.Joined
import LineBasic.Proofs.Listing.View

/-!
# Loading a program and typing it

Whoever types the lines of a file clears the listing first, leaves out the
vacant lines, and puts a number before each line that has none: ten more than
that of the line before. Loading the file makes the same listing, and stops at
the same line with an error of the same kind.

* `Line.beginsWithDigit`: the texts that have a number, or fail.
* `Line.parse_behind_number`: a number put before a line changes nothing else in
  it.
* `Listing.typeLine`, `Listing.typeAll`: typing a line, and all lines of a file.
* `Listing.loadLine_typeLine`: one line; `Listing.loadFrom_typeAll`: all of
  them.
* `Listing.load_like_typing`: the same of a file that is loaded into a machine.
-/

namespace LineBasic

/-! ### Lines with and without a number -/

namespace Line

/-- Behind its blanks the text begins with a digit, and so with a line
number. -/
def beginsWithDigit (text : String) : Bool := (text.toList.dropWhile isBlank).head?.any Char.isDigit

variable {text : String} {line : Line}

theorem kind_of_parse_error {e : Error} (h : parse text = .error e) : e.kind = .syntaxError := by
  have hmisread : Raises (Error.Misread (Position.LiesIn text.toList)) (parse text) :=
    (Scanner.misread_tape (Scanner.ready_ofText text.toList)).map ofLexemes
  exact (hmisread e h).kind

/-- Without a digit at its beginning a text is scanned as statements. -/
theorem ofLine_of_no_digit (h : beginsWithDigit text = false) :
    Tape.ofLine text = (Scanner.mk (Cursor.ofText text.toList).skipBlanks .statement).tape := by
  unfold Tape.ofLine Scanner.ofText
  rw [Scanner.tape_start_of_not_digit]
  intro x hx
  have hhead : (text.toList.dropWhile isBlank).head? = some x := hx
  simpa [beginsWithDigit, hhead] using h

/-- **A line has a number if and only if its text begins with a digit.** -/
theorem isSome_number_iff (h : parse text = .ok line) : line.number.isSome ↔ beginsWithDigit text = true := by
  constructor
  · intro hsome
    obtain ⟨n, hn⟩ := Option.isSome_iff_exists.1 hsome
    by_contra hdigit
    have htokens := tokens?_ofLine h
    rw [ofLine_of_no_digit (by simpa using hdigit), allTokens, hn] at htokens
    exact (scans_of_tape rfl htokens).ne_lineNumber n line.tokens rfl
  · intro hdigit
    obtain ⟨x, hx, hd⟩ := (Option.any_eq_true _ _).1 hdigit
    exact Option.isSome_iff_ne_none.2 (number_ne_none_of_digit hx hd h)

/-- The tokens of a text do not change behind a number, unless they would begin
with another one. -/
theorem tokens?_behind_number {n : Int64} (hn : 0 < n.toInt) (h : beginsWithDigit text = false) :
    (Tape.ofLine (listed n text)).tokens? = (Tape.ofLine text).tokens?.map (.lineNumber n :: ·) := by
  obtain ⟨c, hc, htokens⟩ := tokens?_listed hn text
  have hrest : c.rest = (Cursor.ofText text.toList).skipBlanks.rest := hc
  rw [htokens, ofLine_of_no_digit h, Scans.tokens?_tape_congr hrest]

/-- **A number put before a line** becomes its number, and the line is the same
otherwise. -/
theorem parse_behind_number {n : Int64} (hn : 0 < n.toInt) (hp : parse text = .ok line) (hnumber : line.number = none) :
    ∃ line', parse (listed n text) = .ok line' ∧ line'.number = some n ∧ line'.tokens = line.tokens := by
  have hdigit : beginsWithDigit text = false := by
    rw [← Bool.not_eq_true, ← isSome_number_iff hp, hnumber]
    exact Bool.false_ne_true
  refine parse_numbered ?_
  rw [tokens?_behind_number hn hdigit, tokens?_of_unnumbered hp hnumber]
  rfl

/-- A number before it does not mend a text. -/
theorem parse_error_behind_number {n : Int64} (hn : 0 < n.toInt) (h : beginsWithDigit text = false) {e : Error}
    (hp : parse text = .error e) : ∃ e', parse (listed n text) = .error e' := by
  cases hlisted : parse (listed n text) with
  | error e' => exact ⟨e', rfl⟩
  | ok line' =>
    have htokens := tokens?_ofLine hlisted
    rw [tokens?_behind_number hn h] at htokens
    obtain ⟨ts, hts, -⟩ := Option.map_eq_some_iff.1 htokens
    obtain ⟨line, hline, -⟩ := parse_of_tokens? hts
    rw [hp] at hline
    cases hline

end Line

namespace Listing

/-! ### Typing lines -/

/-- What is typed for a line of a file. -/
def typed? (previous : Int64) (text : String) : Option String :=
  if Line.beginsWithDigit text then some text
  else (Integer.ofInt? (previous.toInt + 10)).map (Line.listed · text)

/-- Types a line of a file. The result is the number that was typed, and the
listing. A line that cannot be scanned fails also where no number is left. -/
def typeLine (l : Listing) (previous : Int64) (text : String) : Except Error (Int64 × Listing) :=
  match typed? previous text with
  | some entry => do
    let line ← Line.parse entry
    return (line.number.getD previous, ← l.edit line)
  | none => do
    let _ ← Line.parse text
    throw (.noLineAfter previous)

/-- Types the lines of a file, vacant ones apart, until one fails. -/
def typeAll (l : Listing) (previous : Int64) (texts : List String) : Except Error (Int64 × Listing) :=
  (texts.filter (!isVacant ·)).foldlM (fun x text => x.2.typeLine x.1 text) (previous, l)

/-- Two errors at one line are of the same kind: an overflow if and only if the
line can be scanned, has no number, and none is left for it. -/
structure Matching (previous : Int64) (text : String) (e e' : Error) : Prop where
  kind : e.kind = e'.kind
  overflow_iff : e.kind = .overflow ↔
    (∃ line, Line.parse text = .ok line ∧ line.number = none) ∧ 9223372036854775797 < previous.toInt

variable {l : Listing} {previous n : Int64} {text : String} {line : Line}

theorem ofInt?_eq_none_iff {k : Int} (h : 0 ≤ k) : Integer.ofInt? (k + 10) = none ↔ 9223372036854775797 < k := by
  unfold Integer.ofInt?
  split
  case isTrue hfits => exact iff_of_false (Option.some_ne_none _) (by omega)
  case isFalse hfits => exact iff_of_true rfl (by omega)

theorem store_congr {line' : Line} (h : line'.tokens = line.tokens) : l.store n line' = l.store n line := by
  rw [store, store, Line.isEmpty_eq, Line.isEmpty_eq, Line.text, Line.text, h]

theorem loadLine_eq_map (hp : Line.parse text = .ok line) (hn : numberAfter previous line = .ok n) :
    l.loadLine previous text = (l.store n line).map (n, ·) := by
  simp only [loadLine, hp, hn, bind, Except.bind, pure, Except.pure]
  cases l.store n line <;> rfl

theorem typeLine_eq_map {entry : String} (ht : typed? previous text = some entry)
    (hp : Line.parse entry = .ok line) (hn : line.number = some n) :
    l.typeLine previous text = (l.store n line).map (n, ·) := by
  simp only [typeLine, ht, hp, edit, hn, Option.getD_some, bind, Except.bind, pure, Except.pure]
  cases l.store n line <;> rfl

/-! ### One line -/

/-- What loading and typing do to a line: they store it under the same number,
or they both fail. -/
def Agree (previous : Int64) (text : String) (x y : Except Error (Int64 × Listing)) : Prop :=
  (∃ n l, 0 < n.toInt ∧ x = .ok (n, l) ∧ y = .ok (n, l)) ∨
    ∃ e e', x = .error e ∧ y = .error e' ∧ Matching previous text e e'

/-- A line that has a number, its own or another one, is stored by both or by
none. -/
theorem agree_of_store (hn : 0 < n.toInt)
    (hleft : ¬ ((∃ line, Line.parse text = .ok line ∧ line.number = none) ∧ 9223372036854775797 < previous.toInt)) :
    Agree previous text ((l.store n line).map (n, ·)) ((l.store n line).map (n, ·)) := by
  cases hs : l.store n line with
  | ok l' => exact .inl ⟨n, l', hn, rfl, rfl⟩
  | error e =>
    obtain ⟨-, -, rfl⟩ := store_eq_error hs
    exact .inr ⟨_, _, rfl, rfl, rfl, iff_of_false ErrorKind.noConfusion hleft⟩

/-- A line that cannot be scanned fails in both ways. -/
theorem agree_of_parse_error (hprev : 0 ≤ previous.toInt) {e : Error} (hp : Line.parse text = .error e) :
    Agree previous text (l.loadLine previous text) (l.typeLine previous text) := by
  have hload : l.loadLine previous text = .error e := by
    simp only [loadLine, hp, bind, Except.bind]
  have hmatching : ∀ e', e'.kind = .syntaxError → Matching previous text e e' := by
    intro e' he'
    have he := Line.kind_of_parse_error hp
    refine ⟨he.trans he'.symm, iff_of_false (by rw [he]; exact ErrorKind.noConfusion) ?_⟩
    rintro ⟨⟨line, hline, -⟩, -⟩
    rw [hp] at hline
    cases hline
  obtain ⟨e', htype, he'⟩ : ∃ e', l.typeLine previous text = .error e' ∧ e'.kind = .syntaxError := by
    cases ht : typed? previous text with
    | none => exact ⟨e, by simp only [typeLine, ht, hp, bind, Except.bind], Line.kind_of_parse_error hp⟩
    | some entry =>
      obtain ⟨e', he'⟩ : ∃ e', Line.parse entry = .error e' := by
        cases hdigit : Line.beginsWithDigit text with
        | true =>
          rw [typed?, if_pos hdigit] at ht
          exact ⟨e, Option.some.inj ht ▸ hp⟩
        | false =>
          rw [typed?, if_neg (by rw [hdigit]; exact Bool.false_ne_true)] at ht
          obtain ⟨n, hn, rfl⟩ := Option.map_eq_some_iff.1 ht
          have hpos : 0 < n.toInt := by
            rw [Integer.ofInt?_eq_some_iff.1 hn]
            omega
          exact Line.parse_error_behind_number hpos hdigit hp
      exact ⟨e', by simp only [typeLine, ht, he', bind, Except.bind], Line.kind_of_parse_error he'⟩
  exact .inr ⟨e, e', hload, htype, hmatching e' he'⟩

/-- **Loading a line is typing it.** -/
theorem loadLine_typeLine (l : Listing) (hprev : 0 ≤ previous.toInt) (text : String) :
    Agree previous text (l.loadLine previous text) (l.typeLine previous text) := by
  cases hp : Line.parse text with
  | error e => exact agree_of_parse_error hprev hp
  | ok line =>
    have hdigit := Line.isSome_number_iff hp
    cases hn : line.number with
    | some n =>
      -- the line is typed as it is
      have htyped : typed? previous text = some text := if_pos (hdigit.1 (by rw [hn]; rfl))
      have hafter : numberAfter previous line = .ok n := by rw [numberAfter, hn]
      rw [loadLine_eq_map hp hafter, typeLine_eq_map htyped hp hn]
      refine agree_of_store ((Line.scans_of_parse hp).2.2 n hn) ?_
      rintro ⟨⟨line', hline', hnone⟩, -⟩
      rw [hp] at hline'
      rw [← Except.ok.inj hline', hn] at hnone
      cases hnone
    | none =>
      have hno : ¬ Line.beginsWithDigit text = true := by
        rw [← hdigit, hn]
        exact Bool.false_ne_true
      have hleft := ofInt?_eq_none_iff hprev
      cases hk : Integer.ofInt? (previous.toInt + 10) with
      | some n =>
        -- a number is put before it
        have hpos : 0 < n.toInt := by
          rw [Integer.ofInt?_eq_some_iff.1 hk]
          omega
        obtain ⟨line', hline', hnumber, htokens⟩ := Line.parse_behind_number hpos hp hn
        have htyped : typed? previous text = some (Line.listed n text) := by
          rw [typed?, if_neg hno, hk]
          rfl
        have hafter : numberAfter previous line = .ok n := by simp only [numberAfter, hn, hk]
        rw [loadLine_eq_map hp hafter, typeLine_eq_map htyped hline' hnumber, store_congr htokens]
        refine agree_of_store hpos fun h => ?_
        rw [hleft.2 h.2] at hk
        cases hk
      | none =>
        have htyped : typed? previous text = none := by
          rw [typed?, if_neg hno, hk]
          rfl
        refine .inr ⟨.noLineAfter previous, .noLineAfter previous, ?_, ?_, rfl, ?_⟩
        · simp only [loadLine, hp, numberAfter, hn, hk, bind, Except.bind]
        · simp only [typeLine, htyped, hp, bind, Except.bind, throw, throwThe, MonadExceptOf.throw]
        · exact iff_of_true rfl ⟨⟨line, hp, hn⟩, hleft.1 hk⟩

/-! ### All lines -/

theorem typeAll_vacant (h : isVacant text = true) (texts : List String) :
    l.typeAll previous (text :: texts) = l.typeAll previous texts := by
  rw [typeAll, List.filter_cons_of_neg (by simp [h]), typeAll]

theorem typeAll_cons (h : isVacant text = false) (texts : List String) :
    l.typeAll previous (text :: texts) = (do let x ← l.typeLine previous text; x.2.typeAll x.1 texts) := by
  rw [typeAll, List.filter_cons_of_pos (by simp [h]), List.foldlM_cons]
  rfl

theorem loadFrom_vacant (h : isVacant text = true) (texts : List String) :
    l.loadFrom previous (text :: texts) = l.loadFrom previous texts := by
  rw [loadFrom, if_pos h]

theorem loadFrom_of_ok {l' : Listing} (h : isVacant text = false) (hload : l.loadLine previous text = .ok (n, l'))
    (texts : List String) : l.loadFrom previous (text :: texts) = l'.loadFrom n texts := by
  rw [loadFrom, h, hload]
  rfl

theorem loadFrom_of_error {e : Error} (h : isVacant text = false) (hload : l.loadLine previous text = .error e)
    (texts : List String) : l.loadFrom previous (text :: texts) = (.error e, l) := by
  rw [loadFrom, h, hload]
  rfl

/-- Loading and typing get through the lines, to the same listing. -/
def Through (l : Listing) (previous : Int64) (texts : List String) (n : Int64) (l' : Listing) : Prop :=
  l.typeAll previous texts = .ok (n, l') ∧ l.loadFrom previous texts = (.ok l'.size, l')

/-- Loading and typing get through the lines before some line, and fail at it,
whatever follows. -/
structure StopAt (l : Listing) (previous : Int64) (before : List String) (text : String) (l' : Listing) (e e' : Error) :
    Prop where
  occupied : isVacant text = false
  /-- The lines before are stored, the last of them under the number `n`. -/
  through : ∃ n, l.Through previous before n l' ∧ l'.typeLine n text = .error e' ∧ Matching n text e e'
  load : ∀ later, l.loadFrom previous (before ++ text :: later) = (.error e, l')
  type : ∀ later, l.typeAll previous (before ++ text :: later) = .error e'

/-- Loading and typing stop nowhere, or at the same line. -/
def Alike (l : Listing) (previous : Int64) (texts : List String) : Prop :=
  (∃ n l', l.Through previous texts n l') ∨
    ∃ before text after l' e e', texts = before ++ text :: after ∧ l.StopAt previous before text l' e e'

/-- A line before the others that takes both of them to the same listing and the
same number. -/
theorem Alike.cons {l₁ : Listing} {n₁ : Int64} {texts : List String} (h : l₁.Alike n₁ texts)
    (htype : ∀ rest, l.typeAll previous (text :: rest) = l₁.typeAll n₁ rest)
    (hload : ∀ rest, l.loadFrom previous (text :: rest) = l₁.loadFrom n₁ rest) : l.Alike previous (text :: texts) := by
  rcases h with ⟨n, l', htyped, hloaded⟩ | ⟨before, t, after, l', e, e', rfl, hstop⟩
  · exact .inl ⟨n, l', (htype _).trans htyped, (hload _).trans hloaded⟩
  · obtain ⟨n, ⟨htyped, hloaded⟩, hfails⟩ := hstop.through
    have hthrough : l.Through previous (text :: before) n l' := ⟨(htype _).trans htyped, (hload _).trans hloaded⟩
    refine .inr ⟨text :: before, t, after, l', e, e', rfl, hstop.occupied, ⟨n, hthrough, hfails⟩, ?_, ?_⟩
    · exact fun later => (hload _).trans (hstop.load later)
    · exact fun later => (htype _).trans (hstop.type later)

/-- **Loading lines is typing them**, from any listing and any number on. -/
theorem loadFrom_typeAll (l : Listing) (hprev : 0 ≤ previous.toInt) (texts : List String) :
    l.Alike previous texts := by
  induction texts generalizing l previous with
  | nil => exact .inl ⟨previous, l, rfl, rfl⟩
  | cons text rest ih =>
    cases hv : isVacant text with
    | true => exact (ih l hprev).cons (typeAll_vacant hv) (loadFrom_vacant hv)
    | false =>
      rcases loadLine_typeLine l hprev text with ⟨n, l', hn, hload, htype⟩ | ⟨e, e', hload, htype, hmatching⟩
      · refine (ih l' hn.le).cons (fun later => ?_) (loadFrom_of_ok hv hload)
        rw [typeAll_cons hv, htype]
        rfl
      · refine .inr ⟨[], text, rest, l, e, e', rfl, hv, ⟨previous, ⟨rfl, rfl⟩, htype, hmatching⟩, ?_, ?_⟩
        · exact loadFrom_of_error hv hload
        · intro later
          rw [List.nil_append, typeAll_cons hv, htype]
          rfl

/-- **Loading a file is typing its lines** into a cleared listing. Either both
get through, and the listing is the same and its size is reported. Or both stop
at the same line with errors of the same kind, and the listing holds what was
stored before. The listing that the machine held makes no difference. -/
theorem load_like_typing (m : Machine) (texts : List String) :
    (∃ n l, load texts = (.ok l.size, l) ∧
      ∀ held : Listing, (held.change .clear).typeAll 0 texts = .ok (n, l) ∧
        Act.loadLines texts { m with listing := held } = .ok () { m with listing := l }) ∨
    ∃ before text after n l e e', texts = before ++ text :: after ∧ isVacant text = false ∧
      load before = (.ok l.size, l) ∧ (∀ later, load (before ++ text :: later) = (.error e, l)) ∧
      e.kind = e'.kind ∧
      (e.kind = .overflow ↔
        (∃ line, Line.parse text = .ok line ∧ line.number = none) ∧ 9223372036854775797 < n.toInt) ∧
      ∀ held : Listing, (held.change .clear).typeAll 0 before = .ok (n, l) ∧ l.typeLine n text = .error e' ∧
        (∀ later, (held.change .clear).typeAll 0 (before ++ text :: later) = .error e') ∧
        Act.loadLines texts { m with listing := held } = .error (.failed e) { m with listing := l } := by
  have hstart : 0 ≤ (0 : Int64).toInt := by decide
  rcases loadFrom_typeAll empty hstart texts with
    ⟨n, l, htype, hload⟩ | ⟨before, text, after, l, e, e', rfl, hstop⟩
  · refine .inl ⟨n, l, hload, fun held => ⟨htype, ?_⟩⟩
    rw [Act.loadLines, load, hload]
  · obtain ⟨n, ⟨htype, hload⟩, hfails, hmatching⟩ := hstop.through
    refine .inr ⟨before, text, after, n, l, e, e', rfl, hstop.occupied, hload, hstop.load, hmatching.kind,
      hmatching.overflow_iff, fun held => ⟨htype, hfails, hstop.type, ?_⟩⟩
    rw [Act.loadLines, load, hstop.load after]

end Listing

end LineBasic
