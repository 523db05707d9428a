import LineBasic.Proofs.Error
import LineBasic.Proofs.Line.Legible
import LineBasic.Proofs.Text.Position

/-!
# Scanners stand in their text

A scanner never leaves its text, and between two lexemes it stands behind all
blanks. So all it tells of positions can be counted in the text: where lexemes
begin and end, where the text ends, and where it cannot be scanned. And a
scanner that is put to the place where a lexeme begins takes that lexeme and all
behind it.

* `Scanner.Ready`: the scanner stands in the text, behind all blanks.
* `Scanner.tape_induction`: how to prove something of the tape of a scanner.
* `Scanner.scannable_tape`: the positions on the tape of a text lie in the text.
* `Scanner.tape_atOffset`: a text is scanned in the same way from every lexeme
  on.
-/

namespace LineBasic

/-! ### Errors in a text -/

/-- The error says where in the text it was noticed, and counting the text up to
there gives the same line and column. -/
def Error.PlacedIn (text : String) (e : Error) : Prop :=
  ∃ p ∈ e.position, (Cursor.atOffset text.toList p.offset).position = p

theorem Error.At.placedIn {text : String} {e : Error} (h : e.At (Position.LiesIn text.toList)) : e.PlacedIn text := by
  obtain ⟨-, p, hp, hlies⟩ := h
  exact ⟨p, hp, Cursor.position_atOffset hlies⟩

theorem Error.PlacedIn.inLine {text : String} {e : Error} (h : e.PlacedIn text) (n : Int64) :
    (e.inLine n).PlacedIn text := by
  rw [PlacedIn, position_inLine]
  exact h

/-! ### Scanning a token -/

section Scanning

variable {cs : List Char} {c : Cursor} (h : c.StandsIn cs)

include h

/-- What lies right behind a cursor in the text lies in the text. -/
theorem Cursor.StandsIn.liesIn_foldl {w : List Char} (hw : w <+: c.rest) :
    (w.foldl Position.next c.position).LiesIn cs := by
  obtain ⟨before, rfl, hp⟩ := h
  obtain ⟨rest, hrest⟩ := hw
  refine ⟨before ++ w, rest, ?_, ?_⟩
  · rw [List.append_assoc, hrest]
  · rw [hp, Position.foldl_next]

theorem Cursor.StandsIn.misread_expected (name : String) : (c.expected name).Misread (Position.LiesIn cs) :=
  ⟨rfl, rfl, c.position, rfl, h.liesIn⟩

theorem Cursor.StandsIn.misread_readDigits (negative : Bool) :
    Raises (Error.Misread (Position.LiesIn cs)) (c.readDigits negative).1 := by
  unfold Cursor.readDigits
  split
  · dsimp only
    split
    · exact raises_ok _
    · exact raises_error ⟨rfl, rfl, c.position, rfl, h.liesIn⟩
  · exact raises_error (h.misread_expected _)

theorem Cursor.StandsIn.misread_scanQuoted : Raises (Error.Misread (Position.LiesIn cs)) (LineBasic.scanQuoted c).1 := by
  unfold LineBasic.scanQuoted
  dsimp only
  split
  · exact raises_ok _
  · exact raises_error ((h.skipWhile _).misread_expected _)

theorem Cursor.StandsIn.misread_scanToken : Raises (Error.Misread (Position.LiesIn cs)) (LineBasic.scanToken c).1 := by
  unfold LineBasic.scanToken
  split
  · exact raises_error (h.misread_expected _)
  · split
    · exact raises_ok _
    · split
      · exact raises_ok _
      · split
        · exact raises_ok _
        · split
          · exact (h.misread_readDigits false).map _
          · split
            · exact h.next.misread_scanQuoted
            · split
              · exact raises_ok _
              · exact raises_error (h.misread_expected _)

theorem Cursor.StandsIn.misread_scanLineNumber :
    Raises (Error.Misread (Position.LiesIn cs)) (LineBasic.scanLineNumber c).1 := by
  unfold LineBasic.scanLineNumber
  dsimp only
  split
  · split
    · exact raises_error ⟨rfl, rfl, c.position, rfl, h.liesIn⟩
    · exact raises_ok _
  case h_2 e he => exact raises_error (h.misread_readDigits false e he)

end Scanning

/-! ### Scanners in a text -/

namespace Scanner

/-- The scanner stands in the text, behind all blanks. -/
structure Ready (cs : List Char) (s : Scanner) : Prop where
  standsIn : s.cursor.StandsIn cs
  head : ∀ c ∈ s.cursor.rest.head?, isBlank c = false

variable {cs : List Char} {s after : Scanner} {x : Lexeme}

theorem ready_skipBlanks {c : Cursor} (h : c.StandsIn cs) (mode : Mode) : Ready cs ⟨c.skipBlanks, mode⟩ :=
  ⟨h.skipBlanks, head?_dropWhile⟩

theorem ready_ofText (cs : List Char) : (ofText cs).Ready cs := ready_skipBlanks (Cursor.standsIn_ofText cs) .start

theorem ready_atOffset (cs : List Char) (offset : Nat) : (atOffset cs offset).Ready cs :=
  ready_skipBlanks (Cursor.standsIn_atOffset cs offset) .statement

theorem Ready.scan (h : s.Ready cs) : s.scan.2.StandsIn cs := by
  unfold Scanner.scan
  split
  · exact h.standsIn.skipWhile Char.isDigit
  · exact h.standsIn.scanToken

theorem Ready.misread_scan (h : s.Ready cs) : Raises (Error.Misread (Position.LiesIn cs)) s.scan.1 := by
  unfold Scanner.scan
  split
  · exact h.standsIn.misread_scanLineNumber
  · exact h.standsIn.misread_scanToken

/-- Blanks that come next have been passed over. -/
theorem Ready.skipBlanks (h : s.Ready cs) : s.cursor.skipBlanks = s.cursor := by
  obtain ⟨⟨p, rest⟩, mode⟩ := s
  cases rest with
  | nil => rfl
  | cons c rest =>
    have hc : isBlank c = false := h.head c rfl
    simp [Cursor.skipBlanks, Cursor.skipWhile, hc]

theorem rest_nextComment (s : Scanner) : s.nextComment.2.cursor.rest = [] := by
  have : (s.cursor.skipWhile fun _ => true).rest = [] := by simp
  exact this

/-- Whatever comes next, a scanner is left in its text. -/
theorem Ready.next (h : s.Ready cs) : s.next.2.Ready cs := by
  have hscan := h.scan
  unfold Scanner.next
  split
  · refine ⟨h.standsIn.skipWhile _, ?_⟩
    rw [rest_nextComment]
    intro c hc
    cases hc
  · split
    · exact h
    · split
      case h_1 t stop hs =>
        rw [hs] at hscan
        exact ready_skipBlanks hscan _
      case h_2 e stop hs =>
        rw [hs] at hscan
        exact ready_skipBlanks hscan _

/-- **What a scanner can take**: a comment, which is all the rest, or a
token. -/
theorem next_eq_some (h : s.next = (.ok (some x), after)) :
    (s.mode = .comment ∧ x = s.nextComment.1 ∧ after = s.nextComment.2) ∨
      (s.mode ≠ .comment ∧ ∃ t stop, s.scan = (.ok t, stop) ∧ x = ⟨t, s.cursor.position, stop.position⟩ ∧
        after = ⟨stop.skipBlanks, if t = .verb .remark then .comment else .statement⟩) := by
  unfold Scanner.next at h
  split at h
  case isTrue hm =>
    obtain ⟨hx, hafter⟩ := Prod.mk.inj h
    exact .inl ⟨hm, (Option.some.inj (Except.ok.inj hx)).symm, hafter.symm⟩
  case isFalse hm =>
    split at h
    · cases h
    · split at h
      case h_1 t stop hs =>
        obtain ⟨hx, hafter⟩ := Prod.mk.inj h
        exact .inr ⟨hm, t, stop, hs, (Option.some.inj (Except.ok.inj hx)).symm, hafter.symm⟩
      case h_2 => cases h

/-- Nothing is taken at the end of the text only. -/
theorem rest_of_next_none (h : s.next = (.ok none, after)) : s.cursor.rest = [] := by
  unfold Scanner.next at h
  split at h
  · cases h
  · split at h
    case isTrue hr => exact List.isEmpty_iff.1 hr
    case isFalse =>
      split at h
      · cases h
      · cases h

/-- A token is the number of the line, or one that may stand anywhere. -/
theorem scan_cases {t : Token} {stop : Cursor} (h : s.scan = (.ok t, stop)) :
    (∃ n, t = .lineNumber n) ∨ scanToken s.cursor = (.ok t, stop) := by
  unfold Scanner.scan at h
  split at h
  · have hread : (scanLineNumber s.cursor).1 = .ok t := congrArg Prod.fst h
    unfold scanLineNumber at hread
    dsimp only at hread
    split at hread
    · split at hread
      · cases hread
      case isFalse n _ _ => exact .inl ⟨n, (Except.ok.inj hread).symm⟩
    · cases hread
  · exact .inr h

theorem start_of_next (h : s.next = (.ok (some x), after)) : x.start = s.cursor.position := by
  rcases next_eq_some h with ⟨-, rfl, -⟩ | ⟨-, t, stop, -, rfl, -⟩
  · rfl
  · rfl

theorem Ready.of_next (h : s.Ready cs) (hnext : s.next = (.ok (some x), after)) : after.Ready cs := by
  have := h.next
  rwa [hnext] at this

/-- To prove something of the tape of a scanner it is enough to look at what the
scanner takes next. -/
theorem tape_induction {P : Scanner → Tape → Prop}
    (stop : ∀ s after, s.next = (.ok none, after) → P s (.stop s.cursor.position))
    (broken : ∀ s e after, s.next = (.error e, after) → P s (.broken e))
    (cons : ∀ s x after, s.next = (.ok (some x), after) → P after after.tape → P s (.cons x after.tape))
    (s : Scanner) : P s s.tape := by
  -- every lexeme uses the text up, so the induction is on the size of the
  -- scanner
  induction hn : s.size using Nat.strong_induction_on generalizing s with
  | _ n ih =>
    rw [tape_eq]
    cases hnext : s.next with
    | mk r after =>
      cases r with
      | error e => exact broken s e after hnext
      | ok o =>
        cases o with
        | none => exact stop s after hnext
        | some x => exact cons s x after hnext (ih _ (hn ▸ size_lt_of_next hnext) after rfl)

end Scanner

/-! ### Positions on a tape -/

/-- The lexeme begins and ends at one of the places. So does a comment wherever
it may be cut off. -/
structure Lexeme.Within (here : Position → Prop) (x : Lexeme) : Prop where
  start : here x.start
  stop : here x.stop
  comment : ∀ s, x.token = .comment s → ∀ cs, cs <+: s.toList → here (cs.foldl Position.next x.start)

/-- Scanning a text may give this tape, with all its positions among the
places. -/
def Tape.Scannable (here : Position → Prop) : Tape → Prop
  | stop p => here p
  | broken e => e.Sited here
  | cons x rest => x.Within here ∧ rest.Scannable here

theorem Tape.Scannable.mono {here here' : Position → Prop} {t : Tape} (h : t.Scannable here)
    (hp : ∀ p, here p → here' p) : t.Scannable here' := by
  induction t with
  | stop p => exact hp p h
  | broken e => exact Error.Sited.mono h hp
  | cons x rest ih =>
    refine ⟨⟨hp _ h.1.start, hp _ h.1.stop, ?_⟩, ih h.2⟩
    intro s hs cs hcs
    exact hp _ (h.1.comment s hs cs hcs)

theorem Tape.Scannable.lexemes {here : Position → Prop} {t : Tape} (h : t.Scannable here) :
    Raises (Error.Sited here) t.lexemes := by
  induction t with
  | stop p => exact raises_ok _
  | broken e => exact raises_error h
  | cons x rest ih => exact (ih h.2).map _

namespace Scanner

variable {cs : List Char} {s after : Scanner} {x : Lexeme}

/-- A text that cannot be scanned is at fault itself. -/
theorem Ready.misread_next (h : s.Ready cs) {e : Error} (hnext : s.next = (.error e, after)) :
    e.Misread (Position.LiesIn cs) := by
  have hscan := h.misread_scan
  unfold Scanner.next at hnext
  split at hnext
  · cases hnext
  · split at hnext
    · cases hnext
    · split at hnext
      · cases hnext
      case h_2 e' stop hs =>
        obtain rfl := Except.error.inj (Prod.mk.inj hnext).1
        rw [hs] at hscan
        exact hscan e' rfl

theorem Ready.lexeme_within (h : s.Ready cs) (hnext : s.next = (.ok (some x), after)) :
    x.Within (Position.LiesIn cs) := by
  have hscan := h.scan
  rcases next_eq_some hnext with ⟨-, rfl, -⟩ | ⟨-, t, stop, hs, rfl, -⟩
  · have hkept : trimEndList s.cursor.rest <+: s.cursor.rest := List.rdropWhile_prefix isSpace _
    refine ⟨h.standsIn.liesIn, h.standsIn.liesIn_foldl hkept, ?_⟩
    intro text htext w hw
    obtain rfl := Token.comment.inj htext
    rw [String.toList_ofList] at hw
    exact h.standsIn.liesIn_foldl (hw.trans hkept)
  · rw [hs] at hscan
    refine ⟨h.standsIn.liesIn, hscan.liesIn, ?_⟩
    intro text htext
    obtain rfl : t = .comment text := htext
    -- no comment is scanned as a token
    rcases scan_cases hs with ⟨n, hn⟩ | htoken
    · cases hn
    · exact (reads_scanToken (congrArg Prod.fst htoken)).legible.elim

/-- **The positions on the tape of a text lie in the text.** -/
theorem scannable_tape (h : s.Ready cs) : s.tape.Scannable (Position.LiesIn cs) := by
  refine tape_induction (P := fun s t => s.Ready cs → t.Scannable (Position.LiesIn cs)) ?_ ?_ ?_ s h
  · intro s after _ hs
    exact hs.standsIn.liesIn
  · intro s e after hnext hs
    exact (hs.misread_next hnext).sited
  · intro s x after hnext ih hs
    exact ⟨hs.lexeme_within hnext, ih (hs.of_next hnext)⟩

theorem misread_tape (h : s.Ready cs) : Raises (Error.Misread (Position.LiesIn cs)) s.tape.lexemes := by
  refine tape_induction (P := fun s t => s.Ready cs → Raises (Error.Misread (Position.LiesIn cs)) t.lexemes) ?_ ?_ ?_ s h
  · intro s after _ _
    exact raises_ok _
  · intro s e after hnext hs
    exact raises_error (hs.misread_next hnext)
  · intro s x after hnext ih hs
    exact (ih (hs.of_next hnext)).map _

/-! ### Scanning from a lexeme on -/

/-- Where a lexeme was taken, it is taken also as the first one of some
statements. -/
theorem next_statement (h : s.next = (.ok (some x), after)) (hnumber : ∀ n, x.token ≠ .lineNumber n)
    (hcomment : ∀ text, x.token ≠ .comment text) :
    (Scanner.mk s.cursor .statement).next = (.ok (some x), after) := by
  rcases next_eq_some h with ⟨-, rfl, -⟩ | ⟨-, t, stop, hs, rfl, rfl⟩
  · exact absurd rfl (hcomment _)
  · rcases scan_cases hs with ⟨n, rfl⟩ | htoken
    · exact absurd rfl (hnumber n)
    · have hrest : s.cursor.rest.isEmpty = false := by
        cases hr : s.cursor.rest with
        | nil =>
          rw [scanToken, hr] at htoken
          cases htoken
        | cons c rest => rfl
      have hscan : (Scanner.mk s.cursor .statement).scan = (.ok t, stop) := htoken
      unfold Scanner.next
      rw [if_neg Mode.noConfusion, if_neg (by rw [hrest]; exact Bool.false_ne_true), hscan]

end Scanner

/-- What is left of a tape from some lexeme on. -/
inductive Tape.From : Tape → Tape → Prop
  | here (x : Lexeme) (rest : Tape) : From (.cons x rest) (.cons x rest)
  | later {t rest : Tape} (x : Lexeme) : From t rest → From (.cons x t) rest

/-- Every lexeme of a list is on its tape. -/
theorem Tape.from_ofList (p : Position) (xs : List Lexeme) (y : Lexeme) (ys : List Lexeme) :
    (ofList p (xs ++ y :: ys)).From (.cons y (ofList p ys)) := by
  induction xs with
  | nil => exact .here y _
  | cons x xs ih => exact .later x ih

/-- **A text is scanned in the same way from every lexeme on**, its number and a
comment apart. -/
theorem Scanner.tape_atOffset {cs : List Char} {s : Scanner} (h : s.Ready cs) {x : Lexeme} {rest : Tape}
    (hx : s.tape.From (.cons x rest)) (hnumber : ∀ n, x.token ≠ .lineNumber n)
    (hcomment : ∀ text, x.token ≠ .comment text) : (atOffset cs x.start.offset).tape = .cons x rest := by
  refine tape_induction (P := fun s t => s.Ready cs → t.From (.cons x rest) →
    (atOffset cs x.start.offset).tape = .cons x rest) ?_ ?_ ?_ s h hx
  · intro s after _ _ hfrom
    cases hfrom
  · intro s e after _ _ hfrom
    cases hfrom
  · intro s y after hnext ih hs hfrom
    cases hfrom with
    | later _ hfrom => exact ih (hs.of_next hnext) hfrom
    | here =>
      have hcursor : (Cursor.atOffset cs x.start.offset).skipBlanks = s.cursor := by
        rw [start_of_next hnext, ← hs.standsIn.eq_atOffset, hs.skipBlanks]
      rw [atOffset, hcursor]
      exact tape_of_next (next_statement hnext hnumber hcomment)

end LineBasic
