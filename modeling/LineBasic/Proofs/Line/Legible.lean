import LineBasic.Proofs.Token.Spelling

/-!
# Legible lines

Which sequences of tokens can stand in a line, and why a scanner gets them back
from their spelling. Between two tokens of a spelling there is a space, so they
can run into each other only where the scanner looks past blanks: behind `<` and
`>`, and for a `$` behind a word.

* `Legible`: the sequences of tokens that a line can hold.
* `Scans`, `Scans.legible`: what a scanner takes off a text, and that it is
  legible.
* `tokens?_tape_spell`: a scanner takes a legible sequence off its spelling.
-/

namespace LineBasic

/-- The tokens of a line behind its number. A remark takes up the rest of its
line. No token may draw the first character of what is spelled behind it. -/
inductive Legible : List Token → Prop
  | nil : Legible []
  | remark {s : String} : trimEndList s.toList = s.toList →
      (∀ c ∈ s.toList.head?, isBlank c = false ∧ c ≠ '$') → Legible [.verb .remark, .comment s]
  | cons {t : Token} {ts : List Token} : t.Legible → t ≠ .verb .remark →
      (∀ c ∈ (Line.spell ts).toList.head?, t.draws c = false) → Legible ts → Legible (t :: ts)

/-! ### Spelling a sequence -/

namespace Line

/-- A text behind a space, unless it is empty. -/
def spaced : List Char → List Char
  | [] => []
  | c :: cs => ' ' :: c :: cs

theorem head?_spaced (cs : List Char) : ∀ c ∈ (spaced cs).head?, isBlank c = true := by
  cases cs with
  | nil => simp [spaced]
  | cons x r =>
    simp only [spaced, List.head?_cons, Option.mem_def, Option.some.injEq]
    rintro c rfl; rfl

theorem dropWhile_spaced {cs : List Char} (h : ∀ c ∈ cs.head?, isBlank c = false) :
    (spaced cs).dropWhile isBlank = cs := by
  cases cs with
  | nil => rfl
  | cons x r =>
    rw [spaced, List.dropWhile_cons_of_pos rfl, List.dropWhile_cons_of_neg]
    simp [h x rfl]

theorem spell_nil : spell [] = "" := rfl

theorem spell_comment (s : String) : spell [.comment s] = s := by
  by_cases h : s.isEmpty = true
  · rw [String.isEmpty_iff] at h
    subst h; rfl
  · simp [spell, Token.spelling, h]

/-- A text of spellings is empty only if there are none. -/
theorem intercalate_ne_empty {u : String} (us : List String) (h : u ≠ "") :
    " ".intercalate (u :: us) ≠ "" := by
  cases us with
  | nil => rwa [String.intercalate_singleton]
  | cons v vs =>
    rw [String.intercalate_cons_cons, Ne, String.append_eq_empty_iff, String.append_eq_empty_iff]
    exact fun he => h he.1.1

/-- A token, and behind a space what follows it. -/
theorem toList_spell_cons {t : Token} (ts : List Token) (h : t.spelling ≠ "") :
    (spell (t :: ts)).toList = t.spelling.toList ++ spaced (spell ts).toList := by
  have ht : (!t.spelling.isEmpty) = true := by simpa [String.isEmpty_iff] using h
  unfold spell
  rw [List.map_cons, List.filter_cons, if_pos ht]
  cases hf : (ts.map Token.spelling).filter (!·.isEmpty) with
  | nil => simp [spaced]
  | cons u us =>
    have hu : u ≠ "" := by
      have : u ∈ (ts.map Token.spelling).filter (!·.isEmpty) := by rw [hf]; simp
      simpa [String.isEmpty_iff] using (List.mem_filter.1 this).2
    have hne : (" ".intercalate (u :: us)).toList ≠ [] := by
      rw [Ne, String.toList_eq_nil_iff]; exact intercalate_ne_empty us hu
    obtain ⟨x, r, hx⟩ := List.exists_cons_of_ne_nil hne
    rw [String.intercalate_cons_cons, String.toList_append, String.toList_append, hx]
    simp [spaced]

/-- A spelling begins with the first token that has one. -/
theorem head?_spell_cons {t : Token} (ts : List Token) (h : t.spelling ≠ "") :
    (spell (t :: ts)).toList.head? = t.spelling.toList.head? := by
  obtain ⟨x, r, hx⟩ : ∃ x r, t.spelling.toList = x :: r :=
    List.exists_cons_of_ne_nil (by rwa [Ne, String.toList_eq_nil_iff])
  rw [toList_spell_cons ts h, hx]
  rfl

end Line

theorem Token.Legible.spelling_ne {t : Token} (h : t.Legible) : t.spelling ≠ "" := by
  obtain ⟨x, r, hx, -⟩ := h.head_spelling
  rw [Ne, ← String.toList_eq_nil_iff, hx]
  simp

/-- A legible line begins with no blank and with no `$`. -/
theorem Legible.head_spell {ts : List Token} (h : Legible ts) :
    ∀ c ∈ (Line.spell ts).toList.head?, isBlank c = false ∧ c ≠ '$' := by
  have key : ∀ (t : Token) (us : List Token), t.Legible →
      ∀ c ∈ (Line.spell (t :: us)).toList.head?, isBlank c = false ∧ c ≠ '$' := by
    intro t us ht c hc
    obtain ⟨x, r, hx, h1, h2, -⟩ := ht.head_spelling
    rw [Line.head?_spell_cons us ht.spelling_ne, hx] at hc
    obtain rfl := Option.some.inj hc
    exact ⟨h1, h2⟩
  cases h with
  | nil => rw [Line.spell_nil]; simp
  | remark hs hh => exact key _ _ trivial
  | cons ht _ _ _ => exact key _ _ ht

/-! ### Tapes -/

/-- The tokens of a text that can be scanned to its end. -/
def Tape.tokens? : Tape → Option (List Token)
  | stop _ => some []
  | broken _ => none
  | cons x rest => rest.tokens?.map (x.token :: ·)

theorem Tape.tokens?_eq_some_iff {t : Tape} {ts : List Token} :
    t.tokens? = some ts ↔ ∃ xs, t.lexemes = .ok xs ∧ xs.map (·.token) = ts := by
  induction t generalizing ts with
  | stop p => simp [tokens?, lexemes, eq_comm]
  | broken e => simp [tokens?, lexemes]
  | cons x rest ih =>
    simp only [tokens?, lexemes, Option.map_eq_some_iff, ih]
    constructor
    · rintro ⟨us, ⟨xs, hx, rfl⟩, rfl⟩
      exact ⟨x :: xs, by rw [hx]; rfl, rfl⟩
    · rintro ⟨xs, hx, rfl⟩
      cases hr : rest.lexemes with
      | error e => rw [hr] at hx; cases hx
      | ok ys =>
        rw [hr] at hx
        obtain rfl := Except.ok.inj hx
        exact ⟨_, ⟨ys, rfl, rfl⟩, rfl⟩

namespace Scanner

/-- The tape by its first lexeme. -/
theorem tape_eq (s : Scanner) :
    s.tape = match s.next with
      | (.error e, _) => .broken e
      | (.ok none, _) => .stop s.cursor.position
      | (.ok (some x), after) => .cons x after.tape := by
  rw [tape]
  split <;> simp only [*]

theorem tape_of_next {s after : Scanner} {x : Lexeme} (h : s.next = (.ok (some x), after)) :
    s.tape = .cons x after.tape := by
  rw [tape_eq, h]

theorem next_of_tape {s : Scanner} {x : Lexeme} {t : Tape} (h : s.tape = .cons x t) :
    ∃ after, s.next = (.ok (some x), after) ∧ after.tape = t := by
  rw [tape_eq] at h
  split at h
  case h_1 => cases h
  case h_2 => cases h
  case h_3 y after hnext =>
    obtain ⟨rfl, htape⟩ := Tape.cons.inj h
    exact ⟨after, hnext, htape⟩

theorem tape_of_error {s after : Scanner} {e : Error} (h : s.next = (.error e, after)) :
    s.tape = .broken e := by
  rw [tape_eq, h]

/-- At the end of the text there are no more tokens. -/
theorem tokens?_tape_of_nil {s : Scanner} (hm : s.mode ≠ .comment) (hr : s.cursor.rest = []) :
    s.tape.tokens? = some [] := by
  have h : s.next = (.ok none, s) := by unfold next; rw [if_neg hm, if_pos (by simp [hr])]
  rw [tape_eq, h]
  rfl

/-- A comment takes up all the rest. -/
theorem tokens?_tape_comment {s : Scanner} (hm : s.mode = .comment) :
    s.tape.tokens? = some [.comment (String.ofList (trimEndList s.cursor.rest))] := by
  have h : s.next = (.ok (some s.nextComment.1), s.nextComment.2) := by unfold next; rw [if_pos hm]
  have hend : s.nextComment.2.tape.tokens? = some [] := by
    refine tokens?_tape_of_nil (by simp [nextComment]) ?_
    simp only [nextComment, Cursor.rest_skipWhile]
    exact List.dropWhile_eq_nil_iff.2 fun _ _ => rfl
  rw [tape_of_next h, Tape.tokens?, hend]
  rfl

/-- Inside a statement the next token is the one that can be read. -/
theorem next_of_reads {c : Cursor} {t : Token} {rest : List Char} (h : Reads t c.rest rest) :
    ∃ (stop : Position) (after : Scanner), (Scanner.mk c .statement).next = (.ok (some ⟨t, c.position, stop⟩), after) ∧
      after.cursor.rest = rest.dropWhile isBlank ∧
      after.mode = if t = .verb .remark then .comment else .statement := by
  obtain ⟨h1, h2⟩ := scanToken_of_reads h rfl
  obtain ⟨ch, r, hc, -⟩ := h.head
  have hscan : (Scanner.mk c .statement).scan = (.ok t, (scanToken c).2) := by
    unfold scan settledMode
    simp only [reduceCtorEq, false_and, if_false]
    rw [← h1]
  have hnext : (Scanner.mk c .statement).next =
      (.ok (some ⟨t, c.position, (scanToken c).2.position⟩),
        ⟨(scanToken c).2.skipBlanks, if t = .verb .remark then .comment else .statement⟩) := by
    unfold next
    rw [if_neg (by simp), if_neg (by simp [hc]), hscan]
  exact ⟨_, _, hnext, by rw [Cursor.rest_skipBlanks, h2], rfl⟩

theorem tape_of_reads {c : Cursor} {t : Token} {rest : List Char} (h : Reads t c.rest rest) :
    ∃ after : Scanner, after.cursor.rest = rest.dropWhile isBlank ∧
      after.mode = (if t = .verb .remark then .comment else .statement) ∧
      after.size < (Scanner.mk c .statement).size ∧
      (Scanner.mk c .statement).tape.tokens? = after.tape.tokens?.map (t :: ·) := by
  obtain ⟨stop, after, hnext, hrest, hmode⟩ := next_of_reads h
  refine ⟨after, hrest, hmode, size_lt_of_next hnext, ?_⟩
  rw [tape_of_next hnext]; rfl

/-- Inside a statement the error is that of the token that cannot be read. -/
theorem next_of_scanToken_error {c : Cursor} (hc : c.rest ≠ []) {e : Error} (he : (scanToken c).1 = .error e) :
    ∃ after, (Scanner.mk c .statement).next = (.error e, after) := by
  have hscan : (Scanner.mk c .statement).scan = (.error e, (scanToken c).2) := by
    unfold scan settledMode
    simp only [reduceCtorEq, false_and, if_false]
    rw [← he]
  unfold next
  rw [if_neg (by simp), if_neg (by simpa using hc), hscan]
  exact ⟨_, rfl⟩

/-- Inside a statement, a text that goes on can be scanned only if a token can
be read. -/
theorem reads_of_tape {c : Cursor} {ts : List Token} (hc : c.rest ≠ [])
    (h : (Scanner.mk c .statement).tape.tokens? = some ts) :
    ∃ t rest, Reads t c.rest rest := by
  cases h1 : (scanToken c).1 with
  | ok t => exact ⟨t, _, reads_scanToken h1⟩
  | error e =>
    exfalso
    obtain ⟨after, hnext⟩ := next_of_scanToken_error hc h1
    rw [tape_of_error hnext] at h
    cases h

end Scanner

/-! ### From the spelling to the tokens and back -/

/-- **A scanner takes a legible line off its spelling.** -/
theorem tokens?_tape_spell {ts : List Token} (h : Legible ts) :
    ∀ c : Cursor, c.rest = (Line.spell ts).toList → (Scanner.mk c .statement).tape.tokens? = some ts := by
  induction h with
  | nil =>
    intro c hc
    exact Scanner.tokens?_tape_of_nil (by simp) hc
  | @remark s hs hh =>
    intro c hc
    rw [Line.toList_spell_cons _ (by decide), Line.spell_comment] at hc
    have hd : (Line.spaced s.toList).dropWhile isBlank = s.toList :=
      Line.dropWhile_spaced fun x hx => (hh x hx).1
    have hr : Reads (.verb .remark) c.rest (Line.spaced s.toList) := by
      rw [hc]
      refine reads_spelling (t := .verb .remark) trivial (Line.head?_spaced _) ?_
      rw [hd]
      intro d hm
      exact ⟨(hh d hm).2, by simpa [Token.draws] using (hh d hm).2⟩
    obtain ⟨after, ha, hm, -, ht⟩ := Scanner.tape_of_reads hr
    rw [ht, Scanner.tokens?_tape_comment hm, ha, hd, hs, String.ofList_toList]
    rfl
  | @cons t ts ht hne hdraw hts ih =>
    intro c hc
    rw [Line.toList_spell_cons _ ht.spelling_ne] at hc
    have hd : (Line.spaced (Line.spell ts).toList).dropWhile isBlank = (Line.spell ts).toList :=
      Line.dropWhile_spaced fun x hx => (hts.head_spell x hx).1
    have hr : Reads t c.rest (Line.spaced (Line.spell ts).toList) := by
      rw [hc]
      refine reads_spelling ht (Line.head?_spaced _) ?_
      rw [hd]
      exact fun d hm => ⟨(hts.head_spell d hm).2, hdraw d hm⟩
    obtain ⟨⟨c', m⟩, ha, hm, -, htape⟩ := Scanner.tape_of_reads hr
    rw [if_neg hne] at hm
    obtain rfl : m = .statement := hm
    rw [htape, ih c' (by rw [← hd]; exact ha)]
    rfl

theorem trimEndList_idem (cs : List Char) : trimEndList (trimEndList cs) = trimEndList cs :=
  List.rdropWhile_idempotent isSpace cs

/-- Trimming the end keeps the beginning. -/
theorem head?_trimEndList (cs : List Char) : ∀ c ∈ (trimEndList cs).head?, c ∈ cs.head? :=
  mem_head?_longer (List.rdropWhile_prefix isSpace cs)

/-- A text that was trimmed ends in no space. -/
theorem getLast?_trimEndList (cs : List Char) : ∀ c ∈ (trimEndList cs).getLast?, isSpace c = false := by
  intro c hc
  rw [trimEndList, List.getLast?_reverse] at hc
  exact head?_dropWhile c hc

/-- No token draws a character of a name. -/
theorem Token.draws_of_isNameChar {t : Token} {c : Char} (h : isNameChar c = true) : t.draws c = false := by
  obtain ⟨-, h1, h2, h3, -⟩ := ne_of_isNameChar h
  unfold draws
  split <;> simp [h1, h2, h3]

/-- The text, which begins with no blank, is scanned to these tokens inside a
line. -/
inductive Scans : List Char → List Token → Prop
  | nil : Scans [] []
  | remark {cs rest : List Char} : Reads (.verb .remark) cs rest →
      Scans cs [.verb .remark, .comment (String.ofList (trimEndList (rest.dropWhile isBlank)))]
  | cons {t : Token} {cs rest : List Char} {ts : List Token} : Reads t cs rest → t ≠ .verb .remark →
      Scans (rest.dropWhile isBlank) ts → Scans cs (t :: ts)

/-- What a scanner takes off a text. -/
theorem scans_of_tape {s : Scanner} (hm : s.mode = .statement) {ts : List Token}
    (h : s.tape.tokens? = some ts) : Scans s.cursor.rest ts := by
  -- every token uses up text, so the induction is on the size of the scanner
  induction hn : s.size using Nat.strong_induction_on generalizing s ts with
  | _ n ih =>
    obtain ⟨c, m⟩ := s
    obtain rfl : m = .statement := hm
    by_cases hc : c.rest = []
    · rw [Scanner.tokens?_tape_of_nil (by simp) hc] at h
      obtain rfl := Option.some.inj h
      show Scans c.rest []
      rw [hc]
      exact .nil
    obtain ⟨t, rest, hr⟩ := Scanner.reads_of_tape hc h
    obtain ⟨after, ha, hmode, hsize, htape⟩ := Scanner.tape_of_reads hr
    rw [htape] at h
    obtain ⟨us, hus, rfl⟩ := Option.map_eq_some_iff.1 h
    by_cases ht : t = .verb .remark
    · subst ht
      rw [if_pos rfl] at hmode
      rw [Scanner.tokens?_tape_comment hmode, ha] at hus
      obtain rfl := Option.some.inj hus
      exact .remark hr
    · rw [if_neg ht] at hmode
      refine .cons hr ht ?_
      rw [← ha]
      exact ih _ (by rw [← hn]; exact hsize) hmode hus rfl

/-- The spelling begins like the text, or with a letter or a digit. -/
theorem Scans.head_spell {cs : List Char} {ts : List Token} (h : Scans cs ts) :
    ∀ x ∈ (Line.spell ts).toList.head?, x ∈ cs.head? ∨ isNameChar x = true := by
  have key : ∀ (t : Token) (us : List Token) {rest : List Char}, Reads t cs rest →
      ∀ x ∈ (Line.spell (t :: us)).toList.head?, x ∈ cs.head? ∨ isNameChar x = true := by
    intro t us rest hr x hxm
    obtain ⟨ch, r, hcr, hx, -⟩ := hr.head
    rw [Line.head?_spell_cons us hr.legible.spelling_ne] at hxm
    rw [hcr]
    rcases hx x hxm with rfl | hx
    · exact Or.inl rfl
    · exact Or.inr hx
  cases h with
  | nil => rw [Line.spell_nil]; simp
  | remark hr => exact key _ _ hr
  | cons hr _ _ => exact key _ _ hr

/-- **What a scanner takes off a text is legible.** -/
theorem Scans.legible {cs : List Char} {ts : List Token} (h : Scans cs ts) : Legible ts := by
  induction h with
  | nil => exact .nil
  | remark hr =>
    refine .remark (by rw [String.toList_ofList, trimEndList_idem]) ?_
    intro x hx
    rw [String.toList_ofList] at hx
    have hx' := head?_trimEndList _ x hx
    exact ⟨head?_dropWhile x hx', by simpa [Token.draws] using hr.draws x hx'⟩
  | cons hr ht hts ih =>
    refine .cons hr.legible ht (fun x hx => ?_) ih
    rcases hts.head_spell x hx with hx' | hx'
    · exact hr.draws x hx'
    · exact Token.draws_of_isNameChar hx'

/-! ### Where a line ends, and what it holds -/

/-- A legible line ends in no space. -/
theorem Legible.getLast_spell {ts : List Token} (h : Legible ts) :
    ∀ c ∈ (Line.spell ts).toList.getLast?, isBlank c = false := by
  -- behind a token either nothing is spelled or the line ends there
  have key : ∀ (t : Token) (us : List Token), t.Legible →
      (∀ c ∈ (Line.spell us).toList.getLast?, isBlank c = false) →
      ∀ c ∈ (Line.spell (t :: us)).toList.getLast?, isBlank c = false := by
    intro t us ht hus c hc
    rw [Line.toList_spell_cons us ht.spelling_ne] at hc
    cases hsp : (Line.spell us).toList with
    | nil =>
      rw [hsp, Line.spaced, List.append_nil] at hc
      by_cases hq : ∃ s, t = .quoted s
      · obtain ⟨s, rfl⟩ := hq
        simp only [Token.spelling, String.toList_append] at hc
        rw [List.getLast?_append] at hc
        obtain rfl := Option.some.inj hc
        rfl
      · exact ht.isBlank_spelling (fun s hs => hq ⟨s, hs⟩) c (List.mem_of_getLast? hc)
    | cons x r =>
      rw [hsp, Line.spaced, List.getLast?_append_cons, List.getLast?_cons_cons] at hc
      rw [hsp] at hus
      exact hus c hc
  induction h with
  | nil => rw [Line.spell_nil]; simp
  | @remark s hs hh =>
    refine key _ _ trivial ?_
    rw [Line.spell_comment]
    intro c hc
    rw [← hs] at hc
    by_contra hb
    have hsp := isSpace_of_isBlank (by simpa using hb)
    rw [getLast?_trimEndList _ c hc] at hsp
    cases hsp
  | cons ht _ _ _ ih => exact key _ _ ht ih

/-- A text without a line feed is scanned to tokens that are spelled without
one. -/
theorem Scans.not_mem_spell {cs : List Char} {ts : List Token} (h : Scans cs ts) (hn : '\n' ∉ cs) :
    '\n' ∉ (Line.spell ts).toList := by
  have key : ∀ (t : Token) (us : List Token) {cs rest : List Char}, Reads t cs rest → '\n' ∉ cs →
      '\n' ∉ (Line.spell us).toList → '\n' ∉ (Line.spell (t :: us)).toList := by
    intro t us cs rest hr hcs hus
    have hspaced : '\n' ∉ Line.spaced (Line.spell us).toList := by
      cases hsp : (Line.spell us).toList with
      | nil => simp [Line.spaced]
      | cons x r =>
        rw [hsp] at hus
        simpa [Line.spaced] using hus
    rw [Line.toList_spell_cons us hr.legible.spelling_ne, List.mem_append]
    rintro (hm | hm)
    · by_cases hq : ∃ s, t = .quoted s
      · obtain ⟨s, rfl⟩ := hq
        have hs : '\n' ∈ s.toList := by simpa [Token.spelling] using hm
        exact hcs (hr.mem_of_quoted _ hs)
      · exact absurd (hr.legible.isBlank_spelling (fun s hs => hq ⟨s, hs⟩) _ hm) (by decide)
    · exact hspaced hm
  induction h with
  | nil => rw [Line.spell_nil]; simp
  | @remark cs rest hr =>
    refine key _ _ hr hn ?_
    rw [Line.spell_comment, String.toList_ofList]
    intro hm
    have hm' : '\n' ∈ rest.dropWhile isBlank := (List.rdropWhile_prefix isSpace _).subset hm
    exact hn (hr.suffix.subset ((List.dropWhile_suffix isBlank).subset hm'))
  | cons hr _ _ ih =>
    refine key _ _ hr hn (ih ?_)
    intro hm
    exact hn (hr.suffix.subset ((List.dropWhile_suffix isBlank).subset hm))

end LineBasic
