import LineBasic.Proofs.Alike.Basic
import LineBasic.Proofs.Grammar.Reading
import LineBasic.Proofs.Line.Joined

/-!
# Texts that begin with some tokens

What stands at the beginning of a line can be told without the rest of it, which
need not be scannable. Behind the first tokens the rest is scanned in the same
way wherever it stands in a text: the lexemes are the same but for their
positions, and so is the error if there is one.

* `Begins`: the tokens at the beginning of a text, and the text behind them.
* `Begins.leads`: they are at the beginning of its tape, with the tape of the
  rest behind them.
* `Scans.begins`: the tokens of a text are those at the beginning of a longer
  one.
* `Scanner.tape_alike`: the tape of a text is the same at any position.
-/

namespace LineBasic

open Tape (Leads)

/-! ### The beginning of a text -/

/-- The tokens stand at the beginning of the first text, and the second one
follows them. -/
inductive Begins : List Char → List Token → List Char → Prop
  | nil (rest : List Char) : Begins rest [] rest
  | cons {t : Token} {cs mid rest : List Char} {ts : List Token} : Reads t cs mid → t ≠ .verb .remark →
      Begins (mid.dropWhile isBlank) ts rest → Begins cs (t :: ts) rest

namespace Begins

variable {cs mid rest : List Char} {ts us : List Token}

theorem append (h : Begins cs ts mid) (h' : Begins mid us rest) : Begins cs (ts ++ us) rest := by
  induction h with
  | nil => exact h'
  | cons hr ht _ ih => exact .cons hr ht (ih h')

/-- **The tokens at the beginning of a text are at the beginning of its
tape.** -/
theorem leads (h : Begins cs ts rest) {c : Cursor} (hc : c.rest = cs) :
    ∃ c' : Cursor, c'.rest = rest ∧ Leads ts (Scanner.mk c .statement).tape (Scanner.mk c' .statement).tape := by
  induction h generalizing c with
  | nil rest => exact ⟨c, hc, .nil _⟩
  | cons hr ht _ ih =>
    obtain ⟨stop, ⟨after, mode⟩, hnext, hrest, hmode⟩ := Scanner.next_of_reads (hc ▸ hr)
    rw [if_neg ht] at hmode
    obtain rfl : mode = .statement := hmode
    obtain ⟨c', hc', hleads⟩ := ih hrest
    refine ⟨c', hc', ?_⟩
    rw [Scanner.tape_of_next hnext]
    exact .cons _ _ _ hleads

/-- A text that begins with a verb does not begin with a digit. -/
theorem not_isDigit_head {v : Verb} (h : Begins cs (.verb v :: ts) rest) : ∀ x ∈ cs.head?, x.isDigit = false := by
  cases h with
  | cons hr _ _ =>
    obtain ⟨ch, r, rfl, -, hdigit⟩ := hr.head
    rintro x ⟨⟩
    by_contra hd
    obtain ⟨n, hn⟩ := hdigit.1 (by simpa using hd)
    cases hn

end Begins

/-- **The tokens of a text are those at the beginning of a longer one**, if no
token goes on into what was added. Blanks before the texts do not count. -/
theorem Scans.begins {cs ds : List Char} {ts : List Token} (h : Scans (cs.dropWhile isBlank) ts)
    (hremark : .verb .remark ∉ ts) (hds : Parts ds) :
    Begins ((cs ++ ds).dropWhile isBlank) ts (ds.dropWhile isBlank) := by
  generalize hw : cs.dropWhile isBlank = w at h
  induction h generalizing cs with
  | nil =>
    rw [List.dropWhile_append, hw]
    exact .nil _
  | remark _ => exact absurd List.mem_cons_self hremark
  | @cons t w rest ts hr ht _ ih =>
    obtain ⟨ch, r, rfl, -⟩ := hr.head
    rw [dropWhile_append_of_cons hw]
    exact .cons (hr.before hds) ht (ih (fun hm => hremark (List.mem_cons_of_mem _ hm)) rfl)

/-! ### Positions -/

theorem Cursor.expected_alike {c c' : Cursor} (h : c.rest = c'.rest) (name : String) :
    (c.expected name).Alike (c'.expected name) := by
  unfold Cursor.expected Cursor.peek?
  rw [h]
  exact Error.alike_expected _ _ _ _

theorem Cursor.readDigits_error_alike {c c' : Cursor} (h : c.rest = c'.rest) {e : Error}
    (he : (c.readDigits false).1 = .error e) : ∃ e', (c'.readDigits false).1 = .error e' ∧ e.Alike e' := by
  unfold Cursor.readDigits Cursor.readWhile Cursor.atChar at he ⊢
  rw [← h]
  split at he
  case isTrue hd =>
    rw [if_pos hd]
    dsimp only at he ⊢
    split at he
    case h_1 => cases he
    case h_2 =>
      obtain rfl := Except.error.inj he
      exact ⟨.numberTooLarge c'.position, rfl, rfl, rfl, rfl, fun hk => absurd rfl hk⟩
  case isFalse hd =>
    rw [if_neg hd]
    obtain rfl := Except.error.inj he
    exact ⟨_, rfl, Cursor.expected_alike h _⟩

theorem scanQuoted_error_alike {c c' : Cursor} (h : c.rest = c'.rest) {e : Error} (he : (scanQuoted c).1 = .error e) :
    ∃ e', (scanQuoted c').1 = .error e' ∧ e.Alike e' := by
  have hclosing : (c.skipWhile (· ≠ '"')).rest = (c'.skipWhile (· ≠ '"')).rest := by
    rw [Cursor.rest_skipWhile, Cursor.rest_skipWhile, h]
  have hnone : (c.skipWhile (· ≠ '"')).take? '"' false = none := by
    cases htake : (c.skipWhile (· ≠ '"')).take? '"' false with
    | none => rfl
    | some behind => rw [scanQuoted, htake] at he; cases he
  have hnone' : (c'.skipWhile (· ≠ '"')).take? '"' false = none := by
    unfold Cursor.take? Cursor.peek? at hnone ⊢
    rw [← hclosing]
    split at hnone
    · cases hnone
    case isFalse hne => rw [if_neg hne]
  rw [scanQuoted, hnone] at he
  obtain rfl := Except.error.inj he
  exact ⟨_, by rw [scanQuoted, hnone'], Cursor.expected_alike hclosing _⟩

/-- Where no token can be read, the error is the same at any position. -/
theorem scanToken_error_alike {c c' : Cursor} (h : c.rest = c'.rest) {e : Error} (he : (scanToken c).1 = .error e) :
    ∃ e', (scanToken c').1 = .error e' ∧ e.Alike e' := by
  unfold scanToken at he ⊢
  rw [h] at he
  cases hc : c'.rest with
  | nil =>
    rw [hc] at he
    obtain rfl := Except.error.inj he
    exact ⟨_, rfl, Cursor.expected_alike h _⟩
  | cons ch r =>
    have hnext : c.next.rest = c'.next.rest := by rw [Cursor.rest_next (h.trans hc), Cursor.rest_next hc]
    rw [hc] at he
    dsimp only at he ⊢
    cases hsign : Token.ofSign? ch with
    | some t => rw [hsign] at he; cases he
    | none =>
      rw [hsign] at he
      dsimp only at he ⊢
      by_cases hless : ch = '<'
      · rw [if_pos hless] at he; cases he
      by_cases hgreater : ch = '>'
      · rw [if_neg hless, if_pos hgreater] at he; cases he
      rw [if_neg hless, if_neg hgreater] at he ⊢
      by_cases hdigit : ch.isDigit = true
      · rw [if_pos hdigit] at he ⊢
        cases hread : (c.readDigits false).1 with
        | ok n => rw [hread] at he; cases he
        | error e₁ =>
          rw [hread] at he
          obtain rfl := Except.error.inj he
          obtain ⟨e', he', halike⟩ := Cursor.readDigits_error_alike h hread
          exact ⟨e', by rw [he']; rfl, halike⟩
      rw [if_neg hdigit] at he ⊢
      by_cases hquote : ch = '"'
      · rw [if_pos hquote] at he ⊢
        exact scanQuoted_error_alike hnext he
      rw [if_neg hquote] at he ⊢
      by_cases hletter : isLetter ch = true
      · rw [if_pos hletter] at he; cases he
      rw [if_neg hletter] at he ⊢
      obtain rfl := Except.error.inj he
      exact ⟨_, rfl, Cursor.expected_alike h _⟩

namespace Scanner

theorem tape_comment_alike {s s' : Scanner} (hs : s.mode = .comment) (hs' : s'.mode = .comment)
    (h : s.cursor.rest = s'.cursor.rest) : s.tape.Alike s'.tape := by
  obtain ⟨xs, p, hxs, hx⟩ := Tape.exists_ofList (tokens?_tape_comment hs)
  obtain ⟨ys, q, hys, hy⟩ := Tape.exists_ofList (tokens?_tape_comment hs')
  rw [hxs, hys]
  exact Tape.alike_ofList (by rw [hx, hy, h]) p q

/-- **The tape of a text is the same at any position.** -/
theorem tape_alike {c c' : Cursor} (h : c.rest = c'.rest) :
    (Scanner.mk c .statement).tape.Alike (Scanner.mk c' .statement).tape := by
  -- every token uses up text, so the induction is on the length of the text
  induction hn : c.rest.length using Nat.strong_induction_on generalizing c c' with
  | _ n ih =>
    by_cases hc : c.rest = []
    · have hstop {d : Cursor} (hd : d.rest = []) : (Scanner.mk d .statement).tape = .stop d.position := by
        rw [tape_eq, next, if_neg (by simp), if_pos (by simp [hd])]
      rw [hstop hc, hstop (h ▸ hc)]
      exact .stop _ _
    cases hread : (scanToken c).1 with
    | error e =>
      obtain ⟨e', he', halike⟩ := scanToken_error_alike h hread
      obtain ⟨after, hnext⟩ := next_of_scanToken_error hc hread
      obtain ⟨after', hnext'⟩ := next_of_scanToken_error (h ▸ hc) he'
      rw [tape_of_error hnext, tape_of_error hnext']
      exact .broken halike
    | ok t =>
      have hreads := reads_scanToken hread
      have hlt : (scanToken c).2.rest.length < n := hn ▸ length_scanToken_lt hread
      obtain ⟨stop, ⟨d, mode⟩, hnext, hrest, hmode⟩ := next_of_reads hreads
      obtain ⟨stop', ⟨d', mode'⟩, hnext', hrest', hmode'⟩ := next_of_reads (h ▸ hreads)
      rw [tape_of_next hnext, tape_of_next hnext']
      refine .cons t _ _ _ _ ?_
      by_cases ht : t = .verb .remark
      · rw [if_pos ht] at hmode hmode'
        exact tape_comment_alike hmode hmode' (hrest.trans hrest'.symm)
      · rw [if_neg ht] at hmode hmode'
        obtain rfl : mode = .statement := hmode
        obtain rfl : mode' = .statement := hmode'
        refine ih d.rest.length ?_ (hrest.trans hrest'.symm) rfl
        have hle := (List.dropWhile_suffix isBlank (l := (scanToken c).2.rest)).length_le
        rw [← hrest] at hle
        exact Nat.lt_of_le_of_lt hle hlt

end Scanner

end LineBasic
