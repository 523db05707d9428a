import LineBasic.Proofs.Lexeme.Standing
import LineBasic.Proofs.Line.RoundTrip

/-!
# Lexemes cover their text

A scanner neither loses nor invents text. A token may be spelled in several
ways: in small letters, with zeros before a number, with blanks inside a
relation or before a `$`. The lexemes of a text stand one behind the other, each
spelled in one of the ways of its token, and between them there are blanks only.
Each one but the last takes up text, so there are not many more of them than
characters, and the scanner comes to an end.

* `Token.SpelledAs`: the ways to spell a token.
* `Tape.Covers`: the lexemes of a tape, spelled one behind the other, make up a
  text.
* `Scanner.covers_tape`: what a scanner takes off a text covers it.
* `Scanner.Lexes`: the results of asking a scanner again and again.
* `lexemes_cover_text`: the lexemes of a text cover it, and asking for them
  ends.
-/

namespace LineBasic

/-! ### Digits -/

namespace Integer

theorem digitChar_of_isDigit {c : Char} (h : c.isDigit = true) : Nat.digitChar (c.toNat - 48) = c := by
  obtain ⟨h1, h2⟩ := isDigit_iff.1 h
  have hc : c = Char.ofNat c.toNat := (Char.ofNat_toNat c).symm
  generalize c.toNat = n at hc h1 h2
  subst hc
  interval_cases n <;> rfl

/-- Digits are those of their number, with zeros before them. -/
theorem exists_zeros_digits {ds : List Char} (hne : ds ≠ []) (hd : ∀ c ∈ ds, c.isDigit = true) :
    ∃ k, ds = List.replicate k '0' ++ digits (Nat.ofDigitChars 10 ds 0) := by
  induction ds using List.reverseRecOn with
  | nil => exact absurd rfl hne
  | append_singleton l c ih =>
    have hc : c.isDigit = true := hd c (by simp)
    have hlt : c.toNat - 48 < 10 := by
      have := isDigit_iff.1 hc
      omega
    have hlast : digits (c.toNat - 48) = [c] := by
      rw [digits, Nat.toDigits_of_lt_base hlt, digitChar_of_isDigit hc]
    have hvalue : Nat.ofDigitChars 10 (l ++ [c]) 0 = 10 * Nat.ofDigitChars 10 l 0 + (c.toNat - 48) := by
      rw [Nat.ofDigitChars_append]
      rfl
    rw [hvalue]
    by_cases hl : l = []
    · subst hl
      refine ⟨0, ?_⟩
      rw [show Nat.ofDigitChars 10 [] 0 = 0 from rfl, Nat.mul_zero, Nat.zero_add, hlast]
      rfl
    obtain ⟨k, hk⟩ := ih hl fun x hx => hd x (by simp [hx])
    by_cases hv : Nat.ofDigitChars 10 l 0 = 0
    · -- nothing but zeros so far
      rw [hv, show digits 0 = ['0'] from rfl] at hk
      refine ⟨k + 1, ?_⟩
      rw [hv, Nat.mul_zero, Nat.zero_add, hlast, List.replicate_succ', ← hk]
    · refine ⟨k, ?_⟩
      have happend : digits (Nat.ofDigitChars 10 l 0) ++ digits (c.toNat - 48) =
          digits (10 * Nat.ofDigitChars 10 l 0 + (c.toNat - 48)) :=
        Nat.toDigits_append_toDigits (by omega) (by omega) hlt
      rw [← happend, hlast, ← List.append_assoc, ← hk]

theorem exists_zeros_chars {ds : List Char} {n : Int64} (h : ofDigits? false ds = some n) :
    ∃ k, ds = List.replicate k '0' ++ chars n := by
  obtain ⟨hne, hd, hn⟩ := ofDigits?_false_eq_some_iff.1 h
  obtain ⟨k, hk⟩ := exists_zeros_digits hne hd
  refine ⟨k, ?_⟩
  rw [chars_of_nonneg (nonneg_of_ofDigits? h), hn, Int.natAbs_natCast]
  exact hk

end Integer

/-! ### The ways to spell a token -/

/-- The tokens that are spelled with letters: the words of the language, and
names. -/
def Token.Wordy (t : Token) : Prop := t ∈ Token.words ∨ ∃ s, t = .name s

/-- The text is a way to spell the token. That is its canonical spelling, but
words may be in small letters and have blanks before a `$`, numbers may have
zeros before them, relations of two characters may have blanks between these,
and spaces may follow a comment. -/
inductive Token.SpelledAs : Token → List Char → Prop
  | canonical (t : Token) : SpelledAs t t.spelling.toList
  | number (n : Int64) (zeros : Nat) :
      SpelledAs (.number n) (List.replicate zeros '0' ++ (Integer.text n).toList)
  | lineNumber (n : Int64) (zeros : Nat) :
      SpelledAs (.lineNumber n) (List.replicate zeros '0' ++ (Integer.text n).toList)
  | word {t : Token} {w : List Char} : t.Wordy → w.map Char.toUpper = t.spelling.toList → SpelledAs t w
  | dollar {t : Token} {w gap : List Char} : t.Wordy → (w ++ ['$']).map Char.toUpper = t.spelling.toList →
      (∀ c ∈ gap, isBlank c = true) → SpelledAs t (w ++ gap ++ ['$'])
  | relation {r : Relation} {a b : Char} {gap : List Char} : r.spelling.toList = [a, b] →
      (∀ c ∈ gap, isBlank c = true) → SpelledAs (.relation r) (a :: gap ++ [b])
  | comment (s : String) {gap : List Char} : (∀ c ∈ gap, isSpace c = true) →
      SpelledAs (.comment s) (s.toList ++ gap)

theorem wordy_wordToken (w : List Char) : (wordToken w).Wordy := by
  rcases wordToken_cases w with h | ⟨s, h, -⟩
  · exact .inl h
  · exact .inr ⟨s, h⟩

/-- What can be skipped up to a character is blank. -/
theorem exists_gap {r rest : List Char} {ch : Char} (h : r.dropWhile isBlank = ch :: rest) :
    ∃ gap, r = gap ++ [ch] ++ rest ∧ ∀ c ∈ gap, isBlank c = true := by
  refine ⟨r.takeWhile isBlank, ?_, fun c hc => List.all_eq_true.1 List.all_takeWhile c hc⟩
  rw [List.append_assoc, List.singleton_append, ← h, List.takeWhile_append_dropWhile]

/-- **A token that is read is spelled in one of its ways.** -/
theorem Reads.exists_spelled {t : Token} {cs rest : List Char} (h : Reads t cs rest) :
    ∃ w, cs = w ++ rest ∧ w ≠ [] ∧ t.SpelledAs w := by
  cases h with
  | @sign ch t r hs =>
    refine ⟨[ch], rfl, List.cons_ne_nil _ _, ?_⟩
    have hsp : t.spelling.toList = [ch] := (Token.ofSign?_eq_some hs).1
    exact hsp ▸ .canonical t
  | less _ => exact ⟨['<'], rfl, List.cons_ne_nil _ _, .canonical (.relation .less)⟩
  | greater _ => exact ⟨['>'], rfl, List.cons_ne_nil _ _, .canonical (.relation .greater)⟩
  | lessEqual hr =>
    obtain ⟨gap, rfl, hgap⟩ := exists_gap hr
    exact ⟨'<' :: gap ++ ['='], rfl, List.cons_ne_nil _ _, .relation rfl hgap⟩
  | notEqual hr =>
    obtain ⟨gap, rfl, hgap⟩ := exists_gap hr
    exact ⟨'<' :: gap ++ ['>'], rfl, List.cons_ne_nil _ _, .relation rfl hgap⟩
  | greaterEqual hr =>
    obtain ⟨gap, rfl, hgap⟩ := exists_gap hr
    exact ⟨'>' :: gap ++ ['='], rfl, List.cons_ne_nil _ _, .relation rfl hgap⟩
  | @number ds r n _ _ hn =>
    refine ⟨ds, rfl, (Integer.ofDigits?_false_eq_some_iff.1 hn).1, ?_⟩
    obtain ⟨k, hk⟩ := Integer.exists_zeros_chars hn
    have := Token.SpelledAs.number n k
    rwa [Integer.text, String.toList_ofList, ← hk] at this
  | @quoted s r _ =>
    refine ⟨'"' :: s ++ ['"'], by simp, List.cons_ne_nil _ _, ?_⟩
    have := Token.SpelledAs.canonical (.quoted (String.ofList s))
    simpa [Token.spelling] using this
  | @word w r hh _ _ _ =>
    have hne : w ≠ [] := by
      rintro rfl
      simp at hh
    refine ⟨w, rfl, hne, .word (wordy_wordToken w) ?_⟩
    rw [spelling_wordToken, String.toList_ofList]
  | @dollar w r rest _ _ _ hr =>
    obtain ⟨gap, rfl, hgap⟩ := exists_gap hr
    refine ⟨w ++ gap ++ ['$'], by simp, by simp, .dollar (wordy_wordToken _) ?_ hgap⟩
    rw [spelling_wordToken, String.toList_ofList]

/-! ### What a scanner takes -/

namespace Scanner

variable {s after : Scanner} {x : Lexeme}

/-- What a scanner takes for a token is spelled like it. -/
theorem exists_spelled_of_scan {t : Token} {stop : Cursor} (h : s.scan = (.ok t, stop)) :
    ∃ w, s.cursor.rest = w ++ stop.rest ∧ w ≠ [] ∧ t.SpelledAs w := by
  unfold Scanner.scan at h
  split at h
  · have hread : (scanLineNumber s.cursor).1 = .ok t := congrArg Prod.fst h
    have hstop : s.cursor.skipWhile Char.isDigit = stop := congrArg Prod.snd h
    obtain ⟨n, hn, -, rfl⟩ := scanLineNumber_ok_iff.1 hread
    refine ⟨s.cursor.rest.takeWhile Char.isDigit, ?_, (Integer.ofDigits?_false_eq_some_iff.1 hn).1, ?_⟩
    · rw [← hstop, Cursor.rest_skipWhile, List.takeWhile_append_dropWhile]
    · obtain ⟨k, hk⟩ := Integer.exists_zeros_chars hn
      have := Token.SpelledAs.lineNumber n k
      rwa [Integer.text, String.toList_ofList, ← hk] at this
  · have hread : (scanToken s.cursor).1 = .ok t := congrArg Prod.fst h
    have hstop : (scanToken s.cursor).2 = stop := congrArg Prod.snd h
    rw [← hstop]
    exact (reads_scanToken hread).exists_spelled

/-- What a scanner takes is spelled like its token, with blanks behind it. Only
a comment takes up nothing, and then nothing follows. -/
theorem exists_spelled_of_next (h : s.next = (.ok (some x), after)) :
    ∃ w gap, s.cursor.rest = w ++ gap ++ after.cursor.rest ∧ x.token.SpelledAs w ∧
      (∀ c ∈ gap, isBlank c = true) ∧ (w = [] → after.cursor.rest = [] ∧ after.mode = .statement) := by
  rcases next_eq_some h with ⟨-, rfl, rfl⟩ | ⟨-, t, stop, hscan, rfl, rfl⟩
  · -- the comment is what is left when the spaces at the end are taken off
    obtain ⟨gap, hgap⟩ : trimEndList s.cursor.rest <+: s.cursor.rest := List.rdropWhile_prefix isSpace _
    refine ⟨s.cursor.rest, [], ?_, ?_, fun _ hc => absurd hc List.not_mem_nil, fun _ => ⟨rest_nextComment s, rfl⟩⟩
    · rw [rest_nextComment, List.append_nil, List.append_nil]
    · have hspaces : ∀ c ∈ gap, isSpace c = true := by
        have hsplit : s.cursor.rest.rdropWhile isSpace ++ s.cursor.rest.rtakeWhile isSpace = s.cursor.rest :=
          List.rdropWhile_append_rtakeWhile
        have : gap = s.cursor.rest.rtakeWhile isSpace := List.append_cancel_left (hgap.trans hsplit.symm)
        rw [this]
        exact fun c hc => List.mem_rtakeWhile_imp hc
      have := Token.SpelledAs.comment (String.ofList (trimEndList s.cursor.rest)) hspaces
      rwa [String.toList_ofList, hgap] at this
  · obtain ⟨w, hw, hne, hspelled⟩ := exists_spelled_of_scan hscan
    refine ⟨w, stop.rest.takeWhile isBlank, ?_, hspelled,
      fun c hc => List.all_eq_true.1 List.all_takeWhile c hc, fun h0 => absurd h0 hne⟩
    rw [hw, List.append_assoc, Cursor.rest_skipBlanks, List.takeWhile_append_dropWhile]

end Scanner

/-! ### Covering a text -/

/-- The tape covers the text that begins at the offset: its lexemes are spelled
one behind the other, each at its offset, with nothing but blanks between them,
and the text ends where the tape stops. Behind a place where the tape breaks off
nothing is said. Only the last lexeme may be spelled with no character. -/
inductive Tape.Covers : Tape → Nat → List Char → Prop
  | stop (p : Position) : Covers (.stop p) p.offset []
  | broken (e : Error) (offset : Nat) (cs : List Char) : Covers (.broken e) offset cs
  | cons {x : Lexeme} {rest : Tape} {w gap cs : List Char} : x.token.SpelledAs w →
      (w = [] → ∃ p, rest = .stop p) → (∀ c ∈ gap, isBlank c = true) →
      Covers rest (x.start.offset + Position.byteCount (w ++ gap)) cs →
      Covers (.cons x rest) x.start.offset (w ++ gap ++ cs)

/-- **What a scanner takes off a text covers it.** -/
theorem Scanner.covers_tape {cs : List Char} {s : Scanner} (h : s.Ready cs) :
    s.tape.Covers s.cursor.position.offset s.cursor.rest := by
  refine tape_induction (P := fun s t => s.Ready cs → t.Covers s.cursor.position.offset s.cursor.rest)
    ?_ ?_ ?_ s h
  · intro s after hnext _
    rw [rest_of_next_none hnext]
    exact .stop _
  · intro s e after _ _
    exact .broken e _ _
  · intro s x after hnext ih hs
    have hafter : after.Ready cs := hs.of_next hnext
    obtain ⟨w, gap, hrest, hspelled, hgap, hempty⟩ := exists_spelled_of_next hnext
    have hoffset : after.cursor.position.offset = x.start.offset + Position.byteCount (w ++ gap) := by
      have h1 := hs.standsIn.offset_add
      have h2 := hafter.standsIn.offset_add
      rw [hrest, Position.byteCount_append] at h1
      rw [start_of_next hnext]
      omega
    rw [← start_of_next hnext, hrest]
    refine .cons hspelled ?_ hgap (hoffset ▸ ih hafter)
    intro hw
    obtain ⟨hend, hmode⟩ := hempty hw
    have hnone : after.next = (.ok none, after) := by
      unfold Scanner.next
      rw [if_neg (by rw [hmode]; decide), if_pos (by rw [hend]; rfl)]
    exact ⟨_, by rw [tape_eq, hnone]⟩

namespace Tape

variable {t : Tape} {k : Nat} {cs : List Char}

/-- There is at most one lexeme more than there are characters. -/
theorem Covers.length_le (h : t.Covers k cs) : t.length ≤ cs.length + 1 := by
  induction h with
  | stop p => exact Nat.zero_le _
  | broken e offset cs => exact Nat.zero_le _
  | @cons x rest w gap cs _ hempty _ _ ih =>
    by_cases hw : w = []
    · obtain ⟨p, rfl⟩ := hempty hw
      exact Nat.le_add_left 1 _
    · have hpos : 0 < w.length := List.length_pos_of_ne_nil hw
      rw [length, List.length_append, List.length_append]
      omega

/-- The offsets increase. -/
theorem Covers.pairwise {p : Position} {xs : List Lexeme} (h : (ofList p xs).Covers k cs) :
    (∀ x ∈ xs, k ≤ x.start.offset) ∧ (xs.map (·.start.offset)).Pairwise (· < ·) := by
  induction xs generalizing k cs with
  | nil => exact ⟨fun x hx => absurd hx List.not_mem_nil, .nil⟩
  | cons x xs ih =>
    cases h with
    | @cons _ _ w gap cs _ hempty _ hrest =>
      obtain ⟨hle, hpair⟩ := ih hrest
      refine ⟨?_, List.pairwise_cons.2 ⟨?_, hpair⟩⟩
      · intro y hy
        rcases List.mem_cons.1 hy with rfl | hy
        · exact Nat.le_refl _
        · have := hle y hy
          omega
      · intro offset hm
        obtain ⟨y, hy, rfl⟩ := List.mem_map.1 hm
        have hw : w ≠ [] := by
          intro hw
          obtain ⟨q, hq⟩ := hempty hw
          cases xs with
          | nil => cases hy
          | cons z zs => cases hq
        have hpos := Position.byteCount_pos hw
        have hy := hle y hy
        rw [Position.byteCount_append] at hy
        show x.start.offset < y.start.offset
        omega

end Tape

/-! ### Asking again and again -/

/-- When the scanner is asked for lexemes until none is left or there is an
error, so many questions are asked, and the result is as told. -/
inductive Scanner.Lexes : Scanner → Nat → Except Error (List Lexeme) → Prop
  | none {s after : Scanner} : s.next = (.ok none, after) → Lexes s 1 (.ok [])
  | error {s after : Scanner} {e : Error} : s.next = (.error e, after) → Lexes s 1 (.error e)
  | some {s after : Scanner} {x : Lexeme} {n : Nat} {r : Except Error (List Lexeme)} :
      s.next = (.ok (some x), after) → Lexes after n r → Lexes s (n + 1) (r.map (x :: ·))

theorem Scanner.lexes_tape (s : Scanner) : s.Lexes (s.tape.length + 1) s.tape.lexemes := by
  refine tape_induction (P := fun s t => s.Lexes (t.length + 1) t.lexemes) ?_ ?_ ?_ s
  · intro s after hnext
    exact .none hnext
  · intro s e after hnext
    exact .error hnext
  · intro s x after hnext ih
    exact .some hnext ih

theorem Tape.exists_ofList_of_lexemes {t : Tape} {xs : List Lexeme} (h : t.lexemes = .ok xs) :
    ∃ p, t = ofList p xs := by
  induction t generalizing xs with
  | stop p =>
    obtain rfl := Except.ok.inj h
    exact ⟨p, rfl⟩
  | broken e => cases h
  | cons x rest ih =>
    rw [lexemes] at h
    cases hr : rest.lexemes with
    | error e =>
      rw [hr] at h
      cases h
    | ok ys =>
      rw [hr] at h
      obtain rfl := Except.ok.inj h
      obtain ⟨p, rfl⟩ := ih hr
      exact ⟨p, rfl⟩

/-- **Nothing is lost and nothing invented.** If a text can be scanned, it is
some blanks and then its lexemes, each spelled at its offset in one of the ways
of its token and followed by blanks only. The offsets increase, and there is at
most one lexeme more than there are characters. Scanned or not, asking for
lexemes ends after at most two questions more than there are characters. -/
theorem lexemes_cover_text (s : String) :
    (∀ xs, (Tape.ofLine s).lexemes = .ok xs →
      (∃ lead cs p, s.toList = lead ++ cs ∧ (∀ c ∈ lead, isBlank c = true) ∧
        (Tape.ofList p xs).Covers (Position.byteCount lead) cs) ∧
      (xs.map (·.start.offset)).Pairwise (· < ·) ∧ xs.length ≤ s.length + 1) ∧
    ∃ n, n ≤ s.length + 2 ∧ (Scanner.ofText s.toList).Lexes n (Tape.ofLine s).lexemes := by
  have hready := Scanner.ready_ofText s.toList
  have hcovers : (Tape.ofLine s).Covers _ _ := Scanner.covers_tape hready
  have hrest : (Scanner.ofText s.toList).cursor.rest = s.toList.dropWhile isBlank := rfl
  have hsplit : s.toList.takeWhile isBlank ++ s.toList.dropWhile isBlank = s.toList :=
    List.takeWhile_append_dropWhile
  have hoffset : (Scanner.ofText s.toList).cursor.position.offset =
      Position.byteCount (s.toList.takeWhile isBlank) := by
    have h1 := hready.standsIn.offset_add
    rw [hrest] at h1
    have h2 := congrArg Position.byteCount hsplit
    rw [Position.byteCount_append] at h2
    omega
  have hlength : (Tape.ofLine s).length ≤ s.length + 1 := by
    have h1 := hcovers.length_le
    have h2 := (List.dropWhile_suffix (l := s.toList) isBlank).length_le
    rw [hrest] at h1
    rw [String.length_toList] at h2
    omega
  refine ⟨?_, _, Nat.succ_le_succ hlength, Scanner.lexes_tape _⟩
  intro xs hxs
  obtain ⟨p, hp⟩ := Tape.exists_ofList_of_lexemes hxs
  rw [hp] at hcovers hlength
  refine ⟨⟨_, _, p, hsplit.symm, fun c hc => List.all_eq_true.1 List.all_takeWhile c hc, ?_⟩, hcovers.pairwise.2, ?_⟩
  · rw [← hoffset, ← hrest]
    exact hcovers
  · rwa [Tape.length_ofList] at hlength

/-- In a numbered line with blanks before it, small letters, zeros and blanks
inside tokens. -/
theorem lexemes_cover_numbered :
    ∃ xs, (Tape.ofLine "\t010 let a $ < \t= 007:rem é  ").lexemes = .ok xs ∧
      (xs.map fun x => (x.start.offset, x.token)) =
        [(1, .lineNumber 10), (5, .verb .assign), (9, .name "A$"), (13, .relation .lessEqual), (18, .number 7),
          (21, .colon), (22, .verb .remark), (26, .comment "é")] ∧
      ∃ lead cs p, "\t010 let a $ < \t= 007:rem é  ".toList = lead ++ cs ∧ (∀ c ∈ lead, isBlank c = true) ∧
        (Tape.ofList p xs).Covers (Position.byteCount lead) cs := by
  have hscan : (Tape.ofLine "\t010 let a $ < \t= 007:rem é  ").lexemes.toOption.map
      (·.map fun x => (x.start.offset, x.token)) =
        some [(1, .lineNumber 10), (5, .verb .assign), (9, .name "A$"), (13, .relation .lessEqual), (18, .number 7),
          (21, .colon), (22, .verb .remark), (26, .comment "é")] := by
    decide +kernel
  cases hxs : (Tape.ofLine "\t010 let a $ < \t= 007:rem é  ").lexemes with
  | error e =>
    rw [hxs] at hscan
    cases hscan
  | ok xs =>
    rw [hxs] at hscan
    exact ⟨xs, rfl, Option.some.inj hscan, ((lexemes_cover_text _).1 xs hxs).1⟩

end LineBasic
