import LineBasic.Proofs.Line.RoundTrip

/-!
# Texts joined by a colon

A colon ends the token before it, and behind it a text is scanned as it would be
on its own. So the tokens of two texts with a colon between them are those of
the first text, a colon, and those of the second text. A remark in the first
text is the exception, for it takes up all that follows.

* `Reads.before`: a token is read in the same way before a colon, or any text
  into which no token goes on.
* `Scans.join`: the tokens of texts that are joined.
* `Line.tokens?_join`: the same of lines without numbers.
-/

namespace LineBasic

/-- Passing over blanks stops at a colon. -/
theorem dropWhile_append_colon (cs ds : List Char) :
    (cs ++ ':' :: ds).dropWhile isBlank = cs.dropWhile isBlank ++ ':' :: ds := by
  induction cs with
  | nil => rfl
  | cons c cs ih =>
    rw [List.cons_append, List.dropWhile_cons, List.dropWhile_cons, ih]
    split <;> rfl

/-- What comes first before a colon is what came first, or the colon. -/
theorem head?_append_colon {cs ds : List Char} {c : Char} (h : c ∈ (cs ++ ':' :: ds).head?) :
    c ∈ cs.head? ∨ c = ':' := by
  cases cs with
  | nil => exact Or.inr (Option.some.inj h).symm
  | cons x r => exact Or.inl h

/-- No token goes on into the text, also not behind blanks. -/
structure Parts (ds : List Char) : Prop where
  head : ∀ c ∈ ds.head?, isNameChar c = false
  behind : ∀ c ∈ (ds.dropWhile isBlank).head?, c ≠ '=' ∧ c ≠ '>' ∧ c ≠ '$'

theorem parts_colon (ds : List Char) : Parts (':' :: ds) where
  head := by
    rintro c ⟨⟩
    rfl
  behind := by
    rintro c ⟨⟩
    decide

theorem mem_head?_append {cs ds : List Char} {c : Char} (h : c ∈ (cs ++ ds).head?) : c ∈ cs.head? ∨ c ∈ ds.head? := by
  cases cs with
  | nil => exact Or.inr h
  | cons x r => exact Or.inl h

/-- What comes first behind blanks comes from one of the two texts. -/
theorem mem_head?_dropWhile_append {cs ds : List Char} {c : Char} (h : c ∈ ((cs ++ ds).dropWhile isBlank).head?) :
    c ∈ (cs.dropWhile isBlank).head? ∨ c ∈ (ds.dropWhile isBlank).head? := by
  rw [List.dropWhile_append] at h
  split at h
  case isTrue => exact Or.inr h
  case isFalse hne => exact Or.inl (by rwa [List.head?_append_of_ne_nil _ (by simpa using hne)] at h)

theorem dropWhile_append_of_cons {cs rest : List Char} {c : Char} (h : cs.dropWhile isBlank = c :: rest)
    (ds : List Char) : (cs ++ ds).dropWhile isBlank = c :: (rest ++ ds) := by
  rw [List.dropWhile_append, h]
  rfl

/-- **A token is read in the same way before a text into which no token goes
on.** -/
theorem Reads.before {t : Token} {cs rest ds : List Char} (h : Reads t cs rest) (hds : Parts ds) :
    Reads t (cs ++ ds) (rest ++ ds) := by
  have stops {r : List Char} (hr : ∀ c ∈ r.head?, isNameChar c = false) :
      ∀ c ∈ (r ++ ds).head?, isNameChar c = false :=
    fun c hc => (mem_head?_append hc).elim (hr c) (hds.head c)
  cases h with
  | sign hs => exact .sign hs
  | less hr =>
    refine .less fun d hd => ?_
    obtain hd | hd := mem_head?_dropWhile_append hd
    · exact hr d hd
    · exact ⟨(hds.behind d hd).1, (hds.behind d hd).2.1⟩
  | lessEqual hr => exact .lessEqual (dropWhile_append_of_cons hr ds)
  | notEqual hr => exact .notEqual (dropWhile_append_of_cons hr ds)
  | greater hr =>
    refine .greater fun d hd => ?_
    obtain hd | hd := mem_head?_dropWhile_append hd
    · exact hr d hd
    · exact (hds.behind d hd).1
  | greaterEqual hr => exact .greaterEqual (dropWhile_append_of_cons hr ds)
  | number hdigits hr hn =>
    rw [List.append_assoc]
    refine .number hdigits (fun c hc => ?_) hn
    obtain hc | hc := mem_head?_append hc
    · exact hr c hc
    · by_contra hdigit
      have hname := hds.head c hc
      rw [isNameChar_of_isDigit (by simpa using hdigit)] at hname
      cases hname
  | @quoted s _ hs =>
    rw [List.cons_append, List.append_assoc]
    exact .quoted hs
  | word hh hw hr hd =>
    rw [List.append_assoc]
    refine .word hh hw (stops hr) fun d hd' => ?_
    obtain hd' | hd' := mem_head?_dropWhile_append hd'
    · exact hd d hd'
    · exact (hds.behind d hd').2.2
  | dollar hh hw hr hd =>
    rw [List.append_assoc]
    exact .dollar hh hw (stops hr) (dropWhile_append_of_cons hd ds)

namespace Scans

variable {cs : List Char} {ts : List Token}

/-- **The tokens of texts that are joined.** -/
theorem join (h : Scans cs ts) (hremark : .verb .remark ∉ ts) {ds : List Char} {us : List Token}
    (hds : Scans (ds.dropWhile isBlank) us) : Scans (cs ++ ':' :: ds) (ts ++ .colon :: us) := by
  induction h with
  | nil => exact .cons (.sign rfl) (by simp) hds
  | remark _ => exact absurd List.mem_cons_self hremark
  | cons hr ht _ ih =>
    refine .cons (hr.before (parts_colon ds)) ht ?_
    rw [dropWhile_append_colon]
    exact ih fun hm => hremark (List.mem_cons_of_mem _ hm)

/-- Inside a statement a text gives the tokens to which it is scanned. -/
theorem tokens?_tape (h : Scans cs ts) {c : Cursor} (hc : c.rest = cs) :
    (Scanner.mk c .statement).tape.tokens? = some ts := by
  induction h generalizing c with
  | nil => exact Scanner.tokens?_tape_of_nil (by simp) hc
  | remark hr =>
    obtain ⟨after, hrest, hmode, -, htape⟩ := Scanner.tape_of_reads (hc ▸ hr)
    rw [htape, Scanner.tokens?_tape_comment hmode, hrest]
    rfl
  | cons hr ht _ ih =>
    obtain ⟨⟨c', mode⟩, hrest, hmode, -, htape⟩ := Scanner.tape_of_reads (hc ▸ hr)
    rw [if_neg ht] at hmode
    obtain rfl : mode = .statement := hmode
    rw [htape, ih hrest]
    rfl

/-- Inside a statement the tokens do not depend on what stands before. -/
theorem tokens?_tape_congr {c c' : Cursor} (h : c.rest = c'.rest) :
    (Scanner.mk c .statement).tape.tokens? = (Scanner.mk c' .statement).tape.tokens? := by
  refine Option.ext fun ts => ⟨?_, ?_⟩
  · intro hc
    exact (scans_of_tape rfl hc).tokens?_tape h.symm
  · intro hc'
    exact (scans_of_tape rfl hc').tokens?_tape h

/-- A text that begins with a digit is scanned to a number first. -/
theorem not_isDigit_head (h : Scans cs ts) (hts : ∀ n us, ts ≠ .number n :: us) :
    ∀ x ∈ cs.head?, x.isDigit = false := by
  have first {t : Token} {rest : List Char} (hr : Reads t cs rest) (ht : ∀ n, t ≠ .number n) :
      ∀ x ∈ cs.head?, x.isDigit = false := by
    obtain ⟨ch, r, rfl, -, hiff⟩ := hr.head
    intro x hx
    obtain rfl := Option.some.inj hx
    by_contra hd
    obtain ⟨n, hn⟩ := hiff.1 (by simpa using hd)
    exact ht n hn
  cases h with
  | nil => simp
  | remark hr => exact first hr (by simp)
  | cons hr _ _ => exact first hr fun n hn => hts n _ (by rw [hn])

/-- A line number is never inside a line. -/
theorem ne_lineNumber (h : Scans cs ts) (n : Int64) (us : List Token) : ts ≠ .lineNumber n :: us := by
  rintro rfl
  cases h.legible with
  | cons ht _ _ _ => exact ht.elim

end Scans

namespace Line

variable {s : String} {l : Line}

theorem tokens?_of_unnumbered (h : parse s = .ok l) (hn : l.number = none) :
    (Tape.ofLine s).tokens? = some l.tokens := by
  rw [tokens?_ofLine h, allTokens, hn]

/-- A line without a number is scanned as a statement from its beginning. -/
theorem scans_of_unnumbered (h : parse s = .ok l) (hn : l.number = none) :
    Scans (s.toList.dropWhile isBlank) l.tokens ∧ ∀ n us, l.tokens ≠ .number n :: us := by
  obtain ⟨-, hfirst, -⟩ := scans_of_parse h
  refine ⟨?_, hfirst hn⟩
  obtain ⟨hs, -⟩ | ⟨n, us, hts, -⟩ := tokens_of_start (tokens?_of_unnumbered h hn)
  · exact hs
  · have hleg := legible_of_parse h
    rw [hts] at hleg
    cases hleg with
    | cons ht _ _ _ => exact ht.elim

/-- **The tokens of two lines without numbers that are joined by a colon.** -/
theorem tokens?_join {s₁ s₂ : String} {l₁ l₂ : Line} (h₁ : parse s₁ = .ok l₁) (hn₁ : l₁.number = none)
    (h₂ : parse s₂ = .ok l₂) (hn₂ : l₂.number = none) (hremark : .verb .remark ∉ l₁.tokens) :
    (Tape.ofLine (s₁ ++ ":" ++ s₂)).tokens? = some (l₁.tokens ++ .colon :: l₂.tokens) := by
  obtain ⟨hs₁, hfirst⟩ := scans_of_unnumbered h₁ hn₁
  have htext : (s₁ ++ ":" ++ s₂).toList = s₁.toList ++ ':' :: s₂.toList := by simp
  have hrest : (Cursor.ofText (s₁ ++ ":" ++ s₂).toList).skipBlanks.rest =
      s₁.toList.dropWhile isBlank ++ ':' :: s₂.toList := by
    rw [Cursor.rest_skipBlanks, htext]
    exact dropWhile_append_colon _ _
  have hjoin := hs₁.join hremark (scans_of_unnumbered h₂ hn₂).1
  unfold Tape.ofLine Scanner.ofText
  rw [Scanner.tape_start_of_not_digit]
  · exact hjoin.tokens?_tape hrest
  · rw [hrest]
    intro x hx
    obtain hx | rfl := head?_append_colon hx
    · exact hs₁.not_isDigit_head hfirst x hx
    · rfl

end Line

end LineBasic
