import LineBasic.Proofs.Line.Legible

/-!
# Lines and their text

A line that was scanned has legible tokens, and its number is positive. Its
canonical text is scanned back to the same tokens.

* `Line.scans_of_parse`: what is known of a line that was scanned.
* `Line.parse_spell`, `Line.parse_listed`: the lines of canonical texts, without
  and with a number.
* `Line.text_scans_back`: scanning undoes writing.
-/

namespace LineBasic

/-! ### The beginning of a line -/

namespace Scanner

/-- Where no digit comes first there is no line number. -/
theorem tape_start_of_not_digit {c : Cursor} (h : ∀ x ∈ c.rest.head?, x.isDigit = false) :
    (Scanner.mk c .start).tape = (Scanner.mk c .statement).tape := by
  have hd : c.atChar Char.isDigit = false := by
    unfold Cursor.atChar
    cases hc : c.rest.head? with
    | none => rfl
    | some x => simpa using h x hc
  have hscan : (Scanner.mk c .start).scan = (Scanner.mk c .statement).scan := by
    simp [scan, settledMode, hd]
  by_cases hr : c.rest = []
  · rw [tape_eq, tape_eq]
    simp [next, hr]
  · have hnext : (Scanner.mk c .start).next = (Scanner.mk c .statement).next := by
      simp [next, hr, hscan, settledMode, hd]
    rw [tape_eq, tape_eq, hnext]

/-- A digit that comes first begins a line number, which must be positive. -/
theorem next_start_of_digit {c : Cursor} {x : Char} (hx : x ∈ c.rest.head?) (hd : x.isDigit = true) :
    (Scanner.mk c .start).next = match (scanLineNumber c).1 with
      | .ok t => (.ok (some ⟨t, c.position, (c.skipWhile Char.isDigit).position⟩),
          ⟨(c.skipWhile Char.isDigit).skipBlanks, if t = .verb .remark then .comment else .statement⟩)
      | .error e => (.error e, ⟨(c.skipWhile Char.isDigit).skipBlanks, .start⟩) := by
  have hr : c.rest ≠ [] := by rintro hr; rw [hr] at hx; cases hx
  have hat : c.atChar Char.isDigit = true := by
    unfold Cursor.atChar
    rw [Option.mem_def.1 hx]
    exact hd
  have hset : (Scanner.mk c .start).settledMode = .start := by simp [settledMode, hat]
  have hscan : (Scanner.mk c .start).scan = ((scanLineNumber c).1, c.skipWhile Char.isDigit) := by
    unfold scan
    rw [if_pos hset]
    rfl
  unfold next
  rw [if_neg (by simp), if_neg (by simpa using hr), hscan, hset]
  cases (scanLineNumber c).1 <;> rfl

/-- The token of a line number. -/
theorem scanLineNumber_ok_iff {c : Cursor} {t : Token} :
    (scanLineNumber c).1 = .ok t ↔
      ∃ n, Integer.ofDigits? false (c.rest.takeWhile Char.isDigit) = some n ∧ n ≠ 0 ∧
        t = .lineNumber n := by
  unfold scanLineNumber
  cases h : (c.readDigits false).1 with
  | error e =>
    constructor
    · intro h'; simp at h'
    · rintro ⟨n, hn, -, -⟩
      rw [← readDigits_ok_iff, h] at hn
      cases hn
  | ok k =>
    have hk := readDigits_ok_iff.1 h
    simp only [hk, Option.some.injEq]
    by_cases h0 : k = 0
    · simp only [h0, if_true]
      constructor
      · intro h'; cases h'
      · rintro ⟨n, rfl, hn, -⟩; exact absurd rfl hn
    · simp only [h0, if_false]
      constructor
      · intro h'
        obtain rfl := Except.ok.inj h'
        exact ⟨k, rfl, h0, rfl⟩
      · rintro ⟨n, rfl, -, rfl⟩; rfl

end Scanner

/-- A line that begins with a digit has a positive number. -/
theorem tokens_of_start_digit {c : Cursor} {ts : List Token} {x : Char} (hx : x ∈ c.rest.head?)
    (hd : x.isDigit = true) (h : (Scanner.mk c .start).tape.tokens? = some ts) :
    ∃ n us, ts = .lineNumber n :: us ∧ 0 < n.toInt ∧ ∃ cs, cs <:+ c.rest ∧ Scans cs us := by
  rw [Scanner.tape_eq, Scanner.next_start_of_digit hx hd] at h
  cases hs : (scanLineNumber c).1 with
  | error e => rw [hs] at h; cases h
  | ok t =>
    obtain ⟨n, hn, h0, rfl⟩ := Scanner.scanLineNumber_ok_iff.1 hs
    rw [hs] at h
    obtain ⟨us, hus, rfl⟩ := Option.map_eq_some_iff.1 h
    refine ⟨n, us, rfl, ?_, _, ?_, scans_of_tape rfl hus⟩
    · have hne : n.toInt ≠ 0 := fun he => h0 (Int64.toInt_inj.1 he)
      have := Integer.nonneg_of_ofDigits? hn
      omega
    · rw [Cursor.rest_skipBlanks, Cursor.rest_skipWhile]
      exact (List.dropWhile_suffix _).trans (List.dropWhile_suffix _)

/-- **What a scanner takes off a line**: tokens of which a number is not the
first, or a positive line number and the tokens behind it. -/
theorem tokens_of_start {c : Cursor} {ts : List Token} (h : (Scanner.mk c .start).tape.tokens? = some ts) :
    (Scans c.rest ts ∧ ∀ n us, ts ≠ .number n :: us) ∨
      ∃ n us, ts = .lineNumber n :: us ∧ 0 < n.toInt ∧ ∃ cs, cs <:+ c.rest ∧ Scans cs us := by
  by_cases hd : ∃ x ∈ c.rest.head?, x.isDigit = true
  · obtain ⟨x, hx, hd⟩ := hd
    exact Or.inr (tokens_of_start_digit hx hd h)
  · left
    have hd' : ∀ x ∈ c.rest.head?, x.isDigit = false := by
      intro x hx
      by_contra hn
      exact hd ⟨x, hx, by simpa using hn⟩
    rw [Scanner.tape_start_of_not_digit hd'] at h
    refine ⟨scans_of_tape rfl h, ?_⟩
    rintro n us rfl
    by_cases hc : c.rest = []
    · rw [Scanner.tokens?_tape_of_nil (by simp) hc] at h; cases h
    obtain ⟨t, rest, hr⟩ := Scanner.reads_of_tape hc h
    obtain ⟨after, -, -, -, htape⟩ := Scanner.tape_of_reads hr
    rw [htape] at h
    obtain ⟨vs, -, hvs⟩ := Option.map_eq_some_iff.1 h
    obtain ⟨ch, r, hch, -, hiff⟩ := hr.head
    have := hd' ch (by rw [hch]; rfl)
    rw [hiff.2 ⟨n, (List.cons.inj hvs).1⟩] at this
    cases this

/-- The spelling of a legible line begins with a digit only if a number comes
first. -/
theorem Legible.isDigit_head {ts : List Token} (h : Legible ts) {x : Char}
    (hx : x ∈ (Line.spell ts).toList.head?) : x.isDigit = true ↔ ∃ n us, ts = .number n :: us := by
  have key : ∀ (t : Token) (us : List Token), t.Legible → x ∈ (Line.spell (t :: us)).toList.head? →
      (x.isDigit = true ↔ ∃ n vs, t :: us = .number n :: vs) := by
    intro t us ht hx
    obtain ⟨y, r, hy, -, -, hiff⟩ := ht.head_spelling
    rw [Line.head?_spell_cons us ht.spelling_ne, hy] at hx
    obtain rfl := Option.some.inj hx
    rw [hiff]
    exact ⟨fun ⟨n, hn⟩ => ⟨n, us, by rw [hn]⟩, fun ⟨n, vs, hv⟩ => ⟨n, (List.cons.inj hv).1⟩⟩
  cases h with
  | nil => rw [Line.spell_nil] at hx; cases hx
  | remark hs hh => exact key _ _ trivial hx
  | cons ht _ _ _ => exact key _ _ ht hx

/-- A text that can be scanned has lexemes, and then it ends. -/
theorem Tape.exists_ofList {t : Tape} {ts : List Token} (h : t.tokens? = some ts) :
    ∃ xs p, t = ofList p xs ∧ xs.map (·.token) = ts := by
  induction t generalizing ts with
  | stop p =>
    obtain rfl := Option.some.inj h
    exact ⟨[], p, rfl, rfl⟩
  | broken e => cases h
  | cons x rest ih =>
    obtain ⟨us, hus, rfl⟩ := Option.map_eq_some_iff.1 h
    obtain ⟨xs, p, rfl, rfl⟩ := ih hus
    exact ⟨x :: xs, p, rfl, rfl⟩

namespace Line

/-- The tokens of a line with its number before them. -/
def allTokens (l : Line) : List Token :=
  match l.number with
  | some n => .lineNumber n :: l.tokens
  | none => l.tokens

theorem allTokens_ofLexemes (xs : List Lexeme) : (ofLexemes xs).allTokens = xs.map (·.token) := by
  unfold ofLexemes
  split <;> rfl

theorem tokens?_ofLine {s : String} {l : Line} (h : parse s = .ok l) :
    (Tape.ofLine s).tokens? = some l.allTokens := by
  unfold parse at h
  cases hx : (Tape.ofLine s).lexemes with
  | error e => rw [hx] at h; cases h
  | ok xs =>
    rw [hx] at h
    obtain rfl := Except.ok.inj h
    exact Tape.tokens?_eq_some_iff.2 ⟨xs, hx, (allTokens_ofLexemes xs).symm⟩

theorem isEmpty_eq (l : Line) : l.isEmpty = l.tokens.isEmpty := by
  rw [isEmpty, tokens, List.isEmpty_map]

theorem exists_parse_of_map {α : Type} {s : String} {f : Line → α} {a : α}
    (h : ((parse s).map f).toOption = some a) : ∃ l, parse s = .ok l ∧ f l = a := by
  generalize parse s = r at h
  cases r with
  | error e => cases h
  | ok l => exact ⟨l, rfl, Option.some.inj h⟩

theorem exists_parse_of_number {s : String} {n : Option Int64}
    (h : ((parse s).map (·.number)).toOption = some n) : ∃ l, parse s = .ok l ∧ l.number = n :=
  exists_parse_of_map h

/-- A text that can be scanned is a line. -/
theorem parse_of_tokens? {s : String} {ts : List Token} (h : (Tape.ofLine s).tokens? = some ts) :
    ∃ l, parse s = .ok l ∧ l.allTokens = ts ∧ (l.number = none → ∀ n us, ts ≠ .lineNumber n :: us) := by
  obtain ⟨xs, hx, rfl⟩ := Tape.tokens?_eq_some_iff.1 h
  refine ⟨ofLexemes xs, by unfold parse; rw [hx]; rfl, allTokens_ofLexemes xs, ?_⟩
  intro hn n us he
  cases xs with
  | nil => cases he
  | cons x xs =>
    obtain ⟨t, p, q⟩ := x
    obtain rfl : t = .lineNumber n := (List.cons.inj he).1
    cases hn

/-- The line of a text with the tokens `ts`, of which a line number is not the
first. -/
theorem parse_unnumbered {s : String} {ts : List Token} (h : (Tape.ofLine s).tokens? = some ts)
    (hts : ∀ n us, ts ≠ .lineNumber n :: us) : ∃ l, parse s = .ok l ∧ l.number = none ∧ l.tokens = ts := by
  obtain ⟨l, hl, ha, -⟩ := parse_of_tokens? h
  refine ⟨l, hl, ?_⟩
  cases hn : l.number with
  | some n => simp only [allTokens, hn] at ha; exact absurd ha.symm (hts n _)
  | none => simp only [allTokens, hn] at ha; exact ⟨rfl, ha⟩

/-- The line of a text with a line number. -/
theorem parse_numbered {s : String} {n : Int64} {ts : List Token}
    (h : (Tape.ofLine s).tokens? = some (.lineNumber n :: ts)) :
    ∃ l, parse s = .ok l ∧ l.number = some n ∧ l.tokens = ts := by
  obtain ⟨l, hl, ha, hno⟩ := parse_of_tokens? h
  refine ⟨l, hl, ?_⟩
  cases hn : l.number with
  | some k =>
    simp only [allTokens, hn] at ha
    obtain ⟨hk, hts⟩ := List.cons.inj ha
    exact ⟨by rw [Token.lineNumber.inj hk], hts⟩
  | none => exact absurd rfl (hno hn n ts)

/-- **What is known of a line that was scanned.** Its tokens stand in the text,
perhaps behind a positive number; if there is none, the first of them is no
number. -/
theorem scans_of_parse {s : String} {l : Line} (h : parse s = .ok l) :
    (∃ cs, cs <:+ s.toList ∧ Scans cs l.tokens) ∧ (l.number = none → ∀ n us, l.tokens ≠ .number n :: us) ∧
      ∀ n, l.number = some n → 0 < n.toInt := by
  have ht := tokens?_ofLine h
  unfold Tape.ofLine Scanner.ofText at ht
  have hstart := tokens_of_start ht
  have hsuffix : (Cursor.ofText s.toList).skipBlanks.rest <:+ s.toList := by
    rw [Cursor.rest_skipBlanks]
    exact List.dropWhile_suffix _
  unfold allTokens at hstart
  cases hn : l.number with
  | none =>
    simp only [hn] at hstart
    rcases hstart with ⟨h1, h2⟩ | ⟨n, us, hts, -⟩
    · exact ⟨⟨_, hsuffix, h1⟩, fun _ => h2, by simp⟩
    · exfalso
      obtain ⟨l', hl', hnum, -⟩ := parse_numbered (s := s) (n := n) (by
        rw [tokens?_ofLine h, allTokens, hn]; exact congrArg some hts)
      rw [h] at hl'
      obtain rfl := Except.ok.inj hl'
      rw [hn] at hnum
      cases hnum
  | some k =>
    simp only [hn] at hstart
    rcases hstart with ⟨h1, -⟩ | ⟨n, us, hts, h2, cs, hcs, h3⟩
    · cases h1.legible with
      | cons ht _ _ _ => exact ht.elim
    · obtain ⟨hk, rfl⟩ := List.cons.inj hts
      obtain rfl := Token.lineNumber.inj hk
      refine ⟨⟨cs, hcs.trans hsuffix, h3⟩, by simp, ?_⟩
      rintro m hm
      obtain rfl := Option.some.inj hm
      exact h2

theorem legible_of_parse {s : String} {l : Line} (h : parse s = .ok l) : Legible l.tokens := by
  obtain ⟨⟨cs, -, hcs⟩, -⟩ := scans_of_parse h
  exact hcs.legible

/-- A text that begins with a digit is a line with a number, if it is a line at
all. -/
theorem number_ne_none_of_digit {s : String} {l : Line} {x : Char}
    (hx : x ∈ (Cursor.ofText s.toList).skipBlanks.rest.head?) (hd : x.isDigit = true) (h : parse s = .ok l) :
    l.number ≠ none := by
  intro hnone
  obtain ⟨k, vs, hk, -⟩ := tokens_of_start_digit hx hd (tokens?_ofLine h)
  rw [allTokens, hnone] at hk
  have hleg := legible_of_parse h
  rw [show l.tokens = .lineNumber k :: vs from hk] at hleg
  cases hleg with
  | cons ht _ _ _ => exact ht.elim

/-! ### Canonical texts -/

/-- The scanner of a text that begins with no blank stands at its beginning. -/
theorem rest_ofText {s : String} (h : ∀ c ∈ s.toList.head?, isBlank c = false) :
    (Cursor.ofText s.toList).skipBlanks.rest = s.toList := by
  have : s.toList.dropWhile isBlank = s.toList := by
    have := dropWhile_append_stop (p := isBlank) (w := []) (by simp) h
    simpa using this
  rw [Cursor.rest_skipBlanks]
  exact this

/-- A canonical text is scanned as statements to the tokens it was made of. -/
theorem tokens?_ofStatements {ts : List Token} (h : Legible ts) :
    (Tape.ofStatements (spell ts)).tokens? = some ts := by
  refine tokens?_tape_spell h _ ?_
  have hat : Cursor.atOffset (spell ts).toList 0 = Cursor.ofText (spell ts).toList := by
    simp [Cursor.atOffset, Cursor.splitBytes, Cursor.ofText, Position.after, Position.start,
      Position.byteCount]
  rw [hat]
  exact rest_ofText fun c hc => (h.head_spell c hc).1

/-- A canonical text that does not begin with a number is a line without one. -/
theorem parse_spell {ts : List Token} (h : Legible ts) (hn : ∀ n us, ts ≠ .number n :: us) :
    ∃ l, parse (spell ts) = .ok l ∧ l.number = none ∧ l.tokens = ts := by
  have hr := rest_ofText fun c hc => (h.head_spell c hc).1
  have htape : (Tape.ofLine (spell ts)).tokens? = some ts := by
    unfold Tape.ofLine Scanner.ofText
    rw [Scanner.tape_start_of_not_digit, tokens?_tape_spell h _ hr]
    intro x hx
    rw [hr] at hx
    by_contra hd
    obtain ⟨n, us, hts⟩ := (h.isDigit_head hx).1 (by simpa using hd)
    exact hn n us hts
  refine parse_unnumbered htape ?_
  rintro n us rfl
  cases h with
  | cons ht _ _ _ => exact ht.elim

/-- A canonical text that begins with a number is a line with a number, if it is
a line at all. -/
theorem number_of_parse_spell {n : Int64} {us : List Token} (h : Legible (.number n :: us)) {l : Line}
    (hl : parse (spell (.number n :: us)) = .ok l) : l.number ≠ none := by
  have hr := rest_ofText fun c hc => (h.head_spell c hc).1
  obtain ⟨x, hx⟩ : ∃ x, x ∈ (spell (.number n :: us)).toList.head? := by
    cases h with
    | cons ht _ _ _ =>
      obtain ⟨x, r, hx, -⟩ := ht.head_spelling
      exact ⟨x, by rw [head?_spell_cons us ht.spelling_ne, hx]; rfl⟩
  have hd := (h.isDigit_head hx).2 ⟨n, us, rfl⟩
  rw [← hr] at hx
  exact number_ne_none_of_digit hx hd hl

/-- A positive number before a text is its line number, and behind it the text
is scanned as statements. -/
theorem tokens?_listed {n : Int64} (hn : 0 < n.toInt) (text : String) :
    ∃ c : Cursor, c.rest = text.toList.dropWhile isBlank ∧
      (Tape.ofLine (listed n text)).tokens? = (Scanner.mk c .statement).tape.tokens?.map (.lineNumber n :: ·) := by
  have htext : (listed n text).toList = Integer.chars n ++ ' ' :: text.toList := by
    simp [listed, Integer.text]
  have hchars := Integer.chars_of_nonneg hn.le
  have hdig : ∀ c ∈ Integer.chars n, c.isDigit = true := by
    rw [hchars]; exact fun c hc => Integer.isDigit_of_mem_digits hc
  obtain ⟨x, r, hxr⟩ : ∃ x r, Integer.chars n = x :: r := by
    rw [hchars]; exact List.exists_cons_of_ne_nil (Integer.digits_ne_nil _)
  have hx : x.isDigit = true := hdig x (by rw [hxr]; simp)
  have hrest : (Cursor.ofText (listed n text).toList).skipBlanks.rest = Integer.chars n ++ ' ' :: text.toList := by
    rw [rest_ofText, htext]
    rw [htext, hxr]
    simp only [List.cons_append, List.head?_cons, Option.mem_def, Option.some.injEq]
    rintro c rfl
    exact (ne_of_isNameChar (isNameChar_of_isDigit hx)).1
  have hstop : ∀ c ∈ (' ' :: text.toList).head?, c.isDigit = false := by
    simp only [List.head?_cons, Option.mem_def, Option.some.injEq]
    rintro c rfl; rfl
  have hnum : (scanLineNumber (Cursor.ofText (listed n text).toList).skipBlanks).1 = .ok (.lineNumber n) := by
    rw [Scanner.scanLineNumber_ok_iff, hrest, takeWhile_append_stop hdig hstop]
    refine ⟨n, Integer.ofDigits?_chars hn.le, ?_, rfl⟩
    rintro rfl
    exact absurd hn (by decide)
  refine ⟨((Cursor.ofText (listed n text).toList).skipBlanks.skipWhile Char.isDigit).skipBlanks, ?_, ?_⟩
  · rw [Cursor.rest_skipBlanks, Cursor.rest_skipWhile, hrest, dropWhile_append_stop hdig hstop,
      List.dropWhile_cons_of_pos rfl]
  · unfold Tape.ofLine Scanner.ofText
    rw [Scanner.tape_eq, Scanner.next_start_of_digit (x := x) (by rw [hrest, hxr]; rfl) hx, hnum]
    simp only [Tape.tokens?, reduceCtorEq, if_false]

/-- A canonical text behind a positive number is a line with that number. -/
theorem parse_listed {n : Int64} (hn : 0 < n.toInt) {ts : List Token} (h : Legible ts) :
    ∃ l, parse (listed n (spell ts)) = .ok l ∧ l.number = some n ∧ l.tokens = ts := by
  obtain ⟨c, hc, htokens⟩ := tokens?_listed hn (spell ts)
  have hrest : c.rest = (spell ts).toList := hc.trans (rest_ofText fun c hc => (h.head_spell c hc).1)
  refine parse_numbered ?_
  rw [htokens, tokens?_tape_spell h c hrest]
  rfl

/-- **Scanning undoes writing.** The canonical text of a line with its number is
scanned to the same number and tokens. As statements, the text behind the number
is scanned to the same tokens and the end of the line. As a line, it is scanned
to the same tokens just if the first of them is no number, for a number would be
taken for that of the line. -/
theorem text_scans_back {s : String} {l : Line} (h : parse s = .ok l) :
    (∃ l', parse l.display = .ok l' ∧ l'.number = l.number ∧ l'.tokens = l.tokens ∧ l'.text = l.text) ∧
      (∃ xs p, Tape.ofStatements l.text = .ofList p xs ∧ xs.map (·.token) = l.tokens) ∧
      ((∃ l', parse l.text = .ok l' ∧ l'.number = none ∧ l'.tokens = l.tokens) ↔
        ∀ n us, l.tokens ≠ .number n :: us) := by
  have hleg := legible_of_parse h
  obtain ⟨-, hfirst, hpos⟩ := scans_of_parse h
  refine ⟨?_, ?_, ?_, ?_⟩
  · cases hn : l.number with
    | none =>
      obtain ⟨l', h1, h2, h3⟩ := parse_spell hleg (hfirst hn)
      refine ⟨l', ?_, h2, h3, by rw [text, h3, text]⟩
      rw [display, hn]
      exact h1
    | some n =>
      obtain ⟨l', h1, h2, h3⟩ := parse_listed (hpos n hn) hleg
      refine ⟨l', ?_, h2, h3, by rw [text, h3, text]⟩
      rw [display, hn]
      exact h1
  · exact Tape.exists_ofList (tokens?_ofStatements hleg)
  · rintro ⟨l', h1, h2, -⟩ n us hts
    unfold text at h1
    rw [hts] at h1 hleg
    exact number_of_parse_spell hleg h1 h2
  · exact parse_spell hleg

theorem text_scans_back_spaced :
    ∃ l, parse "  10 7< a $ : rem  x " = .ok l ∧
      ∃ l', parse l.display = .ok l' ∧ l'.number = l.number ∧ l'.tokens = l.tokens ∧ l'.text = l.text := by
  obtain ⟨l, hl, -⟩ := exists_parse_of_number (s := "  10 7< a $ : rem  x ") (n := some 10) (by decide +kernel)
  exact ⟨l, hl, (text_scans_back hl).1⟩

end Line

end LineBasic
