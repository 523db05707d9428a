import LineBasic.Line
import LineBasic.Proofs.Token.Reading

/-!
# Tokens and their spelling

A token is legible if it can stand inside a statement.

* `Reads.legible`: a token that was read is legible.
* `Reads.draws`: the text behind it does not begin with a character that the
  token draws to itself.
* `reads_spelling`: the spelling of a legible token is read as that token, and
  no more than the spelling.
-/

namespace LineBasic

/-- A word as it is spelled: capital letters, digits and underscores, of which
the first is no digit, and perhaps a `$` behind them. -/
def isWord (cs : List Char) : Bool :=
  cs.head?.any isLetter && (cs.takeWhile isNameChar).all (fun c => c.toUpper == c) &&
    [[], ['$']].contains (cs.dropWhile isNameChar)

namespace Token

/-- The tokens that can stand inside a statement, comments apart. -/
def Legible : Token → Prop
  | lineNumber _ | comment _ => False
  | name s => isWord s.toList = true ∧ ofWord? s = none
  | number n => 0 ≤ n.toInt
  | quoted s => '"' ∉ s.toList
  | _ => True

/-- Whether a character behind the token, also with blanks between them, is read
as part of another token that begins like it. -/
def draws : Token → Char → Bool
  | relation .less, c => c == '=' || c == '>'
  | relation .greater, c => c == '='
  | verb .remark, c => c == '$'
  | _, _ => false

end Token

/-! ### Words -/

/-- A word is spelled with characters of a name, capitals only, and perhaps a
`$` behind them. -/
theorem isWord_iff {cs : List Char} :
    isWord cs = true ↔ ∃ w d, cs = w ++ d ∧ w.head?.any isLetter = true ∧
      (∀ c ∈ w, isNameChar c = true ∧ c.toUpper = c) ∧ (d = [] ∨ d = ['$']) := by
  constructor
  · intro h
    simp only [isWord, Bool.and_eq_true, List.all_eq_true, beq_iff_eq, List.contains_iff_mem,
      List.mem_cons, List.not_mem_nil, or_false] at h
    obtain ⟨⟨hh, hu⟩, hd⟩ := h
    refine ⟨cs.takeWhile isNameChar, cs.dropWhile isNameChar, List.takeWhile_append_dropWhile.symm, ?_,
      fun c hc => ⟨List.all_eq_true.1 List.all_takeWhile c hc, hu c hc⟩, hd⟩
    cases cs with
    | nil => simp at hh
    | cons x r => rw [List.takeWhile_cons_of_pos (isNameChar_of_isLetter (by simpa using hh))]; exact hh
  · rintro ⟨w, d, rfl, hh, hw, hd⟩
    have hd' : ∀ c ∈ d.head?, isNameChar c = false := by
      rcases hd with rfl | rfl
      · simp
      · simp only [List.head?_cons, Option.mem_def, Option.some.injEq]
        rintro c rfl; decide
    simp only [isWord, Bool.and_eq_true, List.all_eq_true, beq_iff_eq, List.contains_iff_mem,
      List.mem_cons, List.not_mem_nil, or_false,
      takeWhile_append_stop (fun c hc => (hw c hc).1) hd',
      dropWhile_append_stop (fun c hc => (hw c hc).1) hd']
    exact ⟨⟨head?_append_any hh, fun c hc => (hw c hc).2⟩, hd⟩

/-- A word in any case is a word when it is put in capitals. -/
theorem isWord_toUpper {w d : List Char} (hh : w.head?.any isLetter = true)
    (hw : ∀ c ∈ w, isNameChar c = true) (hd : d = [] ∨ d = ['$']) :
    isWord ((w ++ d).map Char.toUpper) = true := by
  rw [isWord_iff]
  refine ⟨w.map Char.toUpper, d, ?_, ?_, ?_, hd⟩
  · rw [List.map_append]
    rcases hd with rfl | rfl <;> rfl
  · cases w with
    | nil => simp at hh
    | cons x r => simpa using isLetter_toUpper (by simpa using hh)
  · intro c hc
    obtain ⟨x, hx, rfl⟩ := List.mem_map.1 hc
    exact ⟨isNameChar_toUpper (hw x hx), Char.toUpper_toUpper_eq_toUpper x⟩

namespace Token

theorem mem_words_cases {t : Token} (h : t ∈ words) :
    (∃ v, t = verb v) ∨ (∃ c, t = connective c) ∨ (∃ k, t = keyword k) ∨ (∃ f, t = builtin f) ∨
      t = scaling .quotient ∨ t = scaling .remainder := by
  simp only [words, List.mem_append, List.mem_map, List.mem_cons, List.not_mem_nil, or_false] at h
  rcases h with (((⟨v, -, rfl⟩ | ⟨c, -, rfl⟩) | ⟨k, -, rfl⟩) | ⟨f, -, rfl⟩) | h
  · exact Or.inl ⟨v, rfl⟩
  · exact Or.inr (Or.inl ⟨c, rfl⟩)
  · exact Or.inr (Or.inr (Or.inl ⟨k, rfl⟩))
  · exact Or.inr (Or.inr (Or.inr (Or.inl ⟨f, rfl⟩)))
  · exact Or.inr (Or.inr (Or.inr (Or.inr h)))

theorem isWord_of_mem_words : ∀ t ∈ words, isWord t.spelling.toList = true := by decide

theorem ofWord?_of_mem_words : ∀ t ∈ words, ofWord? t.spelling = some t := by decide

theorem ofWord?_eq_some {w : String} {t : Token} (h : ofWord? w = some t) : t ∈ words ∧ t.spelling = w :=
  ⟨List.mem_of_find?_eq_some h, by simpa using List.find?_some h⟩

/-- A sign of one character is spelled with it, and draws nothing. -/
theorem ofSign?_eq_some {ch : Char} {t : Token} (h : ofSign? ch = some t) :
    t.spelling.toList = [ch] ∧ t.Legible ∧ ∀ d, t.draws d = false := by
  unfold ofSign? at h
  split at h <;> cases h <;> exact ⟨by decide, trivial, fun _ => rfl⟩

theorem Legible.of_mem_words {t : Token} (h : t ∈ words) : t.Legible := by
  rcases mem_words_cases h with ⟨v, rfl⟩ | ⟨c, rfl⟩ | ⟨k, rfl⟩ | ⟨f, rfl⟩ | rfl | rfl <;> trivial

end Token

/-- What a word is read as. -/
theorem wordToken_cases (cs : List Char) :
    wordToken cs ∈ Token.words ∨ ∃ s, wordToken cs = .name s ∧ Token.ofWord? s = none := by
  unfold wordToken
  cases h : Token.ofWord? (String.ofList (cs.map Char.toUpper)) with
  | none => exact Or.inr ⟨_, by simp only [h, Option.getD_none], h⟩
  | some t => left; simpa only [h, Option.getD_some] using (Token.ofWord?_eq_some h).1

theorem spelling_wordToken (cs : List Char) :
    (wordToken cs).spelling = String.ofList (cs.map Char.toUpper) := by
  unfold wordToken
  cases h : Token.ofWord? (String.ofList (cs.map Char.toUpper)) with
  | none => simp only [h, Option.getD_none, Token.spelling]
  | some t => simpa only [h, Option.getD_some] using (Token.ofWord?_eq_some h).2

theorem legible_wordToken {w d : List Char} (hh : w.head?.any isLetter = true)
    (hw : ∀ c ∈ w, isNameChar c = true) (hd : d = [] ∨ d = ['$']) : (wordToken (w ++ d)).Legible := by
  rcases wordToken_cases (w ++ d) with h | ⟨s, h, hs⟩
  · exact .of_mem_words h
  · have hsp := spelling_wordToken (w ++ d)
    rw [h] at hsp ⊢
    refine ⟨?_, hs⟩
    rw [show s = String.ofList _ from hsp, String.toList_ofList]
    exact isWord_toUpper hh hw hd

/-! ### What was read -/

/-- A token that was read is legible. -/
theorem Reads.legible {t : Token} {cs rest : List Char} (h : Reads t cs rest) : t.Legible := by
  cases h with
  | sign hs => exact (Token.ofSign?_eq_some hs).2.1
  | number _ _ hn => exact Integer.nonneg_of_ofDigits? hn
  | quoted hs => simpa [Token.Legible] using hs
  | word hh hw _ _ => simpa using legible_wordToken hh hw (Or.inl rfl)
  | dollar hh hw _ _ => exact legible_wordToken hh hw (Or.inr rfl)
  | _ => trivial

/-- The text behind a token that was read does not begin with a character that
the token draws. -/
theorem Reads.draws {t : Token} {cs rest : List Char} (h : Reads t cs rest) :
    ∀ d ∈ (rest.dropWhile isBlank).head?, t.draws d = false := by
  intro d hd
  cases h with
  | sign hs => exact (Token.ofSign?_eq_some hs).2.2 d
  | less hr => simpa [Token.draws] using hr d hd
  | greater hr => simpa [Token.draws] using hr d hd
  | @word w _ _ _ _ hr =>
    have hne := hr d hd
    rcases wordToken_cases w with hm | ⟨s, hs, -⟩
    · rcases Token.mem_words_cases hm with ⟨v, h⟩ | ⟨c, h⟩ | ⟨k, h⟩ | ⟨f, h⟩ | h | h <;> rw [h]
      · cases v <;> first | rfl | simpa [Token.draws] using hne
      all_goals rfl
    · rw [hs]; rfl
  | @dollar w _ _ _ _ _ _ =>
    have hlast : (wordToken (w ++ ['$'])).spelling.toList.getLast? = some '$' := by
      rw [spelling_wordToken, String.toList_ofList, List.map_append, List.map_singleton,
        List.getLast?_concat]
      rfl
    rcases wordToken_cases (w ++ ['$']) with hm | ⟨s, hs, -⟩
    · rcases Token.mem_words_cases hm with ⟨v, h⟩ | ⟨c, h⟩ | ⟨k, h⟩ | ⟨f, h⟩ | h | h <;> rw [h] at hlast ⊢
      · cases v <;> first | rfl | exact absurd hlast (by decide)
      all_goals rfl
    · rw [hs]; rfl
  | _ => rfl

/-! ### Spellings -/

theorem map_toUpper_of_isWord {cs : List Char} (h : isWord cs = true) : cs.map Char.toUpper = cs := by
  obtain ⟨w, d, rfl, -, hw, hd⟩ := isWord_iff.1 h
  have h1 : w.map Char.toUpper = w := by
    conv_rhs => rw [← List.map_id w]
    exact List.map_congr_left fun c hc => (hw c hc).2
  rw [List.map_append, h1]
  rcases hd with rfl | rfl <;> rfl

/-- The spelling of a word is read as that word. -/
theorem wordToken_spelling {t : Token} (hw : isWord t.spelling.toList = true)
    (ht : (Token.ofWord? t.spelling).getD (.name t.spelling) = t) : wordToken t.spelling.toList = t := by
  unfold wordToken
  rw [map_toUpper_of_isWord hw, String.ofList_toList]
  exact ht

theorem Token.verb_mem_words (v : Verb) : verb v ∈ words := by cases v <;> decide

theorem Token.keyword_mem_words (k : Keyword) : keyword k ∈ words := by cases k <;> decide

theorem Token.builtin_mem_words (f : Builtin) : builtin f ∈ words := by cases f <;> decide

theorem Token.connective_mem_words (c : Connective) : connective c ∈ words := by cases c <;> decide

/-- How a legible token is spelled: as a word, as a sign of one character, or as
one of the others. -/
theorem Token.Legible.cases {t : Token} (h : t.Legible) :
    (isWord t.spelling.toList = true ∧ wordToken t.spelling.toList = t) ∨
      (∃ ch, ofSign? ch = some t) ∨ (∃ r, t = relation r) ∨ (∃ n, t = number n) ∨
      ∃ s, t = quoted s := by
  have hword : t ∈ words → isWord t.spelling.toList = true ∧ wordToken t.spelling.toList = t := by
    intro ht
    have hw := isWord_of_mem_words t ht
    exact ⟨hw, wordToken_spelling hw (by rw [ofWord?_of_mem_words t ht, Option.getD_some])⟩
  cases t with
  | lineNumber n => exact h.elim
  | comment s => exact h.elim
  | verb v => exact Or.inl (hword (verb_mem_words v))
  | keyword k => exact Or.inl (hword (keyword_mem_words k))
  | builtin f => exact Or.inl (hword (builtin_mem_words f))
  | connective c => exact Or.inl (hword (connective_mem_words c))
  | name s => exact Or.inl ⟨h.1, wordToken_spelling h.1 (by simp [Token.spelling, h.2])⟩
  | scaling op =>
    cases op with
    | times => exact Or.inr (Or.inl ⟨'*', rfl⟩)
    | divide => exact Or.inr (Or.inl ⟨'/', rfl⟩)
    | quotient => exact Or.inl (hword (by decide))
    | remainder => exact Or.inl (hword (by decide))
  | sign op =>
    cases op with
    | plus => exact Or.inr (Or.inl ⟨'+', rfl⟩)
    | minus => exact Or.inr (Or.inl ⟨'-', rfl⟩)
  | relation r => exact Or.inr (Or.inr (Or.inl ⟨r, rfl⟩))
  | number n => exact Or.inr (Or.inr (Or.inr (Or.inl ⟨n, rfl⟩)))
  | quoted s => exact Or.inr (Or.inr (Or.inr (Or.inr ⟨s, rfl⟩)))
  | equal => exact Or.inr (Or.inl ⟨'=', rfl⟩)
  | comma => exact Or.inr (Or.inl ⟨',', rfl⟩)
  | colon => exact Or.inr (Or.inl ⟨':', rfl⟩)
  | semicolon => exact Or.inr (Or.inl ⟨';', rfl⟩)
  | openParen => exact Or.inr (Or.inl ⟨'(', rfl⟩)
  | closeParen => exact Or.inr (Or.inl ⟨')', rfl⟩)
  | openBracket => exact Or.inr (Or.inl ⟨'[', rfl⟩)
  | closeBracket => exact Or.inr (Or.inl ⟨']', rfl⟩)

theorem reads_word {cs tail : List Char} (h : isWord cs = true) (ht : ∀ c ∈ tail.head?, isBlank c = true)
    (hd : ∀ d ∈ (tail.dropWhile isBlank).head?, d ≠ '$') : Reads (wordToken cs) (cs ++ tail) tail := by
  obtain ⟨w, d, rfl, hh, hw, hd'⟩ := isWord_iff.1 h
  have hw' : ∀ c ∈ w, isNameChar c = true := fun c hc => (hw c hc).1
  rcases hd' with rfl | rfl
  · rw [List.append_nil]
    exact .word hh hw' (fun c hc => not_isNameChar_of_isBlank (ht c hc)) hd
  · rw [List.append_assoc]
    refine .dollar hh hw' ?_ ?_
    · simp only [List.cons_append, List.head?_cons, Option.mem_def, Option.some.injEq]
      rintro c rfl; decide
    · rfl

/-- **The spelling of a legible token is read as that token**, if a blank or
nothing stands behind it and the character behind the blanks is not drawn to
it. -/
theorem reads_spelling {t : Token} (h : t.Legible) {tail : List Char}
    (ht : ∀ c ∈ tail.head?, isBlank c = true)
    (hd : ∀ d ∈ (tail.dropWhile isBlank).head?, d ≠ '$' ∧ t.draws d = false) :
    Reads t (t.spelling.toList ++ tail) tail := by
  rcases h.cases with ⟨hw, hwt⟩ | ⟨ch, hs⟩ | ⟨r, rfl⟩ | ⟨n, rfl⟩ | ⟨s, rfl⟩
  · have := reads_word hw ht (fun d hm => (hd d hm).1)
    rwa [hwt] at this
  · rw [(Token.ofSign?_eq_some hs).1]
    exact .sign hs
  · cases r with
    | less => exact .less fun d hm => by simpa [Token.draws] using (hd d hm).2
    | greater => exact .greater fun d hm => by simpa [Token.draws] using (hd d hm).2
    | lessEqual => exact .lessEqual rfl
    | notEqual => exact .notEqual rfl
    | greaterEqual => exact .greaterEqual rfl
  · have hn : (Token.number n).spelling.toList = Integer.chars n := String.toList_ofList
    rw [hn]
    refine .number ?_ ?_ (Integer.ofDigits?_chars h)
    · rw [Integer.chars_of_nonneg h]
      exact fun c hc => Integer.isDigit_of_mem_digits hc
    · exact fun c hc => not_isDigit_of_not_isNameChar (not_isNameChar_of_isBlank (ht c hc))
  · have hq : (Token.quoted s).spelling.toList ++ tail = '"' :: (s.toList ++ '"' :: tail) := by
      simp [Token.spelling]
    rw [hq]
    have := Reads.quoted (r := tail) h
    rwa [String.ofList_toList] at this

theorem Token.head_relation (r : Relation) :
    ∃ x tl, (relation r).spelling.toList = x :: tl ∧ (x = '<' ∨ x = '>') := by
  cases r with
  | notEqual => exact ⟨'<', ['>'], rfl, Or.inl rfl⟩
  | less => exact ⟨'<', [], rfl, Or.inl rfl⟩
  | lessEqual => exact ⟨'<', ['='], rfl, Or.inl rfl⟩
  | greater => exact ⟨'>', [], rfl, Or.inr rfl⟩
  | greaterEqual => exact ⟨'>', ['='], rfl, Or.inr rfl⟩

/-- A word is no number and no quoted text. -/
theorem wordToken_ne (cs : List Char) :
    (∀ n, wordToken cs ≠ .number n) ∧ ∀ s, wordToken cs ≠ .quoted s := by
  rcases wordToken_cases cs with hm | ⟨s, hs, -⟩
  · rcases Token.mem_words_cases hm with ⟨_, h⟩ | ⟨_, h⟩ | ⟨_, h⟩ | ⟨_, h⟩ | h | h <;> simp [h]
  · simp [hs]

/-- The first character of the spelling of a legible token. -/
theorem Token.Legible.head_spelling {t : Token} (h : t.Legible) :
    ∃ x r, t.spelling.toList = x :: r ∧ isBlank x = false ∧ x ≠ '$' ∧
      (x.isDigit = true ↔ ∃ n, t = number n) := by
  rcases h.cases with ⟨hw, hwt⟩ | ⟨ch, hs⟩ | ⟨r, rfl⟩ | ⟨n, rfl⟩ | ⟨s, rfl⟩
  · obtain ⟨w, d, hcs, hh, -, -⟩ := isWord_iff.1 hw
    obtain ⟨x, w', rfl⟩ : ∃ x w', w = x :: w' := by
      cases w with
      | nil => simp at hh
      | cons x w' => exact ⟨x, w', rfl⟩
    have hx : isLetter x = true := by simpa using hh
    obtain ⟨h1, h2, -⟩ := ne_of_isNameChar (isNameChar_of_isLetter hx)
    refine ⟨x, w' ++ d, hcs, h1, h2, ?_⟩
    rw [not_isDigit_of_isLetter hx]
    refine ⟨fun hd => (by cases hd), ?_⟩
    rintro ⟨n, rfl⟩
    exact absurd hwt ((wordToken_ne _).1 n)
  · refine ⟨ch, [], (ofSign?_eq_some hs).1, ?_⟩
    unfold ofSign? at hs
    split at hs <;> cases hs <;> exact ⟨by decide, by decide, by simp⟩
  · obtain ⟨x, tl, hx, hlg⟩ := head_relation r
    refine ⟨x, tl, hx, ?_⟩
    rcases hlg with rfl | rfl <;> exact ⟨by decide, by decide, by simp⟩
  · have hn : (Token.number n).spelling.toList = Integer.chars n := String.toList_ofList
    obtain ⟨x, r, hxr⟩ := List.exists_cons_of_ne_nil (Integer.digits_ne_nil n.toInt.natAbs)
    have hx : x.isDigit = true := Integer.isDigit_of_mem_digits (by rw [hxr]; simp)
    obtain ⟨h1, h2, -⟩ := ne_of_isNameChar (isNameChar_of_isDigit hx)
    exact ⟨x, r, by rw [hn, Integer.chars_of_nonneg h, hxr], h1, h2, ⟨fun _ => ⟨n, rfl⟩, fun _ => hx⟩⟩
  · exact ⟨'"', s.toList ++ ['"'], by simp [Token.spelling], by decide, by decide, by simp⟩

/-- A word begins like its spelling but for the case of the letter. -/
theorem head_wordToken {w d : List Char} (hh : w.head?.any isLetter = true) (tail : List Char) :
    ∃ ch r, w ++ tail = ch :: r ∧
      (∀ x ∈ (wordToken (w ++ d)).spelling.toList.head?, x = ch ∨ isNameChar x = true) ∧
      (ch.isDigit = true ↔ ∃ n, wordToken (w ++ d) = .number n) := by
  cases w with
  | nil => simp at hh
  | cons ch w' =>
    have hl : isLetter ch = true := by simpa using hh
    refine ⟨ch, w' ++ tail, rfl, ?_, ?_⟩
    · rw [spelling_wordToken, String.toList_ofList]
      simp only [List.cons_append, List.map_cons, List.head?_cons, Option.mem_def, Option.some.injEq]
      rintro x rfl
      exact Or.inr (isNameChar_of_isLetter (isLetter_toUpper hl))
    · rw [not_isDigit_of_isLetter hl]
      exact ⟨fun h => (by cases h), fun ⟨n, hn⟩ => absurd hn ((wordToken_ne _).1 n)⟩

/-- The text of a token begins like its spelling, unless that begins with a
letter or a digit. A text that begins with a digit is a number. -/
theorem Reads.head {t : Token} {cs rest : List Char} (h : Reads t cs rest) :
    ∃ ch r, cs = ch :: r ∧ (∀ x ∈ t.spelling.toList.head?, x = ch ∨ isNameChar x = true) ∧
      (ch.isDigit = true ↔ ∃ n, t = .number n) := by
  obtain ⟨x, xs, hx, -, -, hiff⟩ := h.legible.head_spelling
  rw [hx]
  simp only [List.head?_cons, Option.mem_def, Option.some.injEq, forall_eq']
  cases h with
  | @sign ch _ _ hs =>
    rw [(Token.ofSign?_eq_some hs).1] at hx
    obtain ⟨rfl, -⟩ := List.cons.inj hx
    exact ⟨ch, rest, rfl, Or.inl rfl, hiff⟩
  | @number ds _ n hds hr hn =>
    have hxd : x.isDigit = true := hiff.2 ⟨n, rfl⟩
    obtain ⟨ch, ds', rfl⟩ : ∃ ch ds', ds = ch :: ds' :=
      List.exists_cons_of_ne_nil (Integer.ofDigits?_false_eq_some_iff.1 hn).1
    exact ⟨ch, ds' ++ rest, rfl, Or.inr (isNameChar_of_isDigit hxd),
      ⟨fun _ => ⟨n, rfl⟩, fun _ => hds ch (by simp)⟩⟩
  | @quoted s _ hs =>
    have : x = '"' := by
      have hq : (Token.quoted (String.ofList s)).spelling.toList = '"' :: (s ++ ['"']) := by
        simp [Token.spelling]
      rw [hq] at hx
      exact (List.cons.inj hx).1.symm
    exact ⟨'"', s ++ '"' :: rest, rfl, Or.inl this, by rw [← this]; exact hiff⟩
  | @word w _ hh hw hr hd =>
    have := head_wordToken (d := []) hh rest
    rw [List.append_nil, hx] at this
    simpa using this
  | @dollar w r _ hh hw hr hd =>
    have := head_wordToken (d := ['$']) hh r
    rw [hx] at this
    simpa using this
  | less hr => exact ⟨'<', rest, rfl, Or.inl (List.cons.inj hx).1.symm, by simp⟩
  | @lessEqual r _ hr => exact ⟨'<', r, rfl, Or.inl (List.cons.inj hx).1.symm, by simp⟩
  | @notEqual r _ hr => exact ⟨'<', r, rfl, Or.inl (List.cons.inj hx).1.symm, by simp⟩
  | greater hr => exact ⟨'>', rest, rfl, Or.inl (List.cons.inj hx).1.symm, by simp⟩
  | @greaterEqual r _ hr => exact ⟨'>', r, rfl, Or.inl (List.cons.inj hx).1.symm, by simp⟩

/-- Only a quoted text can have blanks in its spelling. -/
theorem Token.Legible.isBlank_spelling {t : Token} (h : t.Legible) (hq : ∀ s, t ≠ quoted s) :
    ∀ c ∈ t.spelling.toList, isBlank c = false := by
  intro c hc
  rcases h.cases with ⟨hw, -⟩ | ⟨ch, hs⟩ | ⟨r, rfl⟩ | ⟨n, rfl⟩ | ⟨s, rfl⟩
  · obtain ⟨w, d, hwd, -, hchars, hd⟩ := isWord_iff.1 hw
    rw [hwd] at hc
    rcases List.mem_append.1 hc with hc | hc
    · exact (ne_of_isNameChar (hchars c hc).1).1
    · rcases hd with rfl | rfl
      · cases hc
      · obtain rfl := List.mem_singleton.1 hc
        rfl
  · rw [(ofSign?_eq_some hs).1] at hc
    obtain rfl := List.mem_singleton.1 hc
    unfold ofSign? at hs
    split at hs <;> first | rfl | cases hs
  · cases r <;> simp only [spelling, Relation.spelling] at hc <;> fin_cases hc <;> rfl
  · have hdigit : c.isDigit = true := by
      simp only [spelling, Integer.text, String.toList_ofList, Integer.chars_of_nonneg h] at hc
      exact Integer.isDigit_of_mem_digits hc
    exact (ne_of_isNameChar (isNameChar_of_isDigit hdigit)).1
  · exact absurd rfl (hq s)

/-- What is left behind a token is the end of the text. -/
theorem Reads.suffix {t : Token} {cs rest : List Char} (h : Reads t cs rest) : rest <:+ cs := by
  have behind {ch : Char} {r tail : List Char} (hr : r.dropWhile isBlank = ch :: tail) : tail <:+ r :=
    (List.suffix_cons ch tail).trans (hr ▸ List.dropWhile_suffix isBlank)
  cases h with
  | sign _ => exact List.suffix_cons _ _
  | less _ => exact List.suffix_cons _ _
  | greater _ => exact List.suffix_cons _ _
  | lessEqual hr => exact (behind hr).trans (List.suffix_cons _ _)
  | notEqual hr => exact (behind hr).trans (List.suffix_cons _ _)
  | greaterEqual hr => exact (behind hr).trans (List.suffix_cons _ _)
  | number _ _ _ => exact List.suffix_append _ _
  | @quoted s r _ => exact ⟨'"' :: (s ++ ['"']), by simp⟩
  | word _ _ _ _ => exact List.suffix_append _ _
  | dollar _ _ _ hr => exact (behind hr).trans (List.suffix_append _ _)

/-- The characters of a quoted text come from the text that was read. -/
theorem Reads.mem_of_quoted {s : String} {cs rest : List Char} (h : Reads (.quoted s) cs rest) :
    ∀ c ∈ s.toList, c ∈ cs := by
  intro c hc
  generalize ht : Token.quoted s = t at h
  cases h with
  | @quoted s' r _ =>
    obtain rfl := Token.quoted.inj ht
    rw [String.toList_ofList] at hc
    simp [hc]
  | sign hs =>
    subst ht
    unfold Token.ofSign? at hs
    split at hs <;> cases hs
  | @word w =>
    exact absurd ht.symm ((wordToken_ne w).2 s)
  | @dollar w =>
    exact absurd ht.symm ((wordToken_ne _).2 s)
  | _ => cases ht

end LineBasic
