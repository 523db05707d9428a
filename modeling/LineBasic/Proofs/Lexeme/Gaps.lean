import LineBasic.Proofs.Line.FinalColon

/-!
# Blanks inside lexemes

Blanks separate lexemes, and the text of a lexeme has none, quoted texts and
comments apart. There are two exceptions. A relation of two characters may have
blanks between them, and a word may have blanks before the `$` at its end. The
blanks then do not matter: without them the token is the same.

* `textBetween`: the text between two offsets.
* `Token.Split`: the tokens whose last character may stand apart.
* `Token.WrittenAs`: which blanks the text of a token can hold.
* `blanks_inside_lexemes`: the text of every lexeme is of this kind.
-/

namespace LineBasic

/-! ### The text between two offsets -/

/-- The characters between two offsets of a text. -/
def textBetween (cs : List Char) (start stop : Nat) : List Char :=
  (Cursor.splitBytes (stop - start) (Cursor.atOffset cs start).rest).1

theorem textBetween_append (before w rest : List Char) :
    textBetween (before ++ w ++ rest) (Position.byteCount before) (Position.byteCount (before ++ w)) = w := by
  have hrest : (Cursor.atOffset (before ++ w ++ rest) (Position.byteCount before)).rest = w ++ rest := by
    rw [List.append_assoc]
    exact congrArg Prod.snd (Cursor.splitBytes_byteCount before (w ++ rest))
  rw [textBetween, hrest, Position.byteCount_append, Nat.add_sub_cancel_left, Cursor.splitBytes_byteCount]

/-- Where the first of some lexemes of a text begins, or the text ends if there
is none. -/
def offsetOf (cs : List Char) (xs : List Lexeme) : Nat := (xs.head?.map (·.start.offset)).getD (Position.byteCount cs)

/-! ### The text of a token -/

namespace Token

/-- The tokens whose last character may stand apart: relations of two
characters, and words that end in `$`. -/
def Split (t : Token) : Prop :=
  (∃ r a b, t = .relation r ∧ r.spelling.toList = [a, b]) ∨ t.Wordy ∧ t.spelling.toList.getLast? = some '$'

/-- The text is one of the token: it holds no space, but for blanks before its
last character if that may stand apart. Without these blanks it is a text of the
same token. -/
structure WrittenAs (t : Token) (w : List Char) : Prop where
  solid : ¬t.Split → ∀ c ∈ w, isSpace c = false
  split : t.Split → ∃ front gap last, w = front ++ gap ++ [last] ∧ (∀ c ∈ gap, isBlank c = true) ∧
    (∀ c ∈ front ++ [last], isSpace c = false) ∧ t.SpelledAs (front ++ [last])
  last : ∃ c ∈ w.getLast?, isSpace c = false

/-- A text without spaces is one of its token. -/
theorem WrittenAs.of_solid {t : Token} {w : List Char} (hne : w ≠ []) (hw : ∀ c ∈ w, isSpace c = false)
    (hspelled : t.SpelledAs w) : t.WrittenAs w := by
  obtain ⟨front, last, rfl⟩ := (List.eq_nil_or_concat' w).resolve_left hne
  refine ⟨fun _ => hw, fun _ => ⟨front, [], last, by simp, by simp, hw, hspelled⟩, last, ?_, hw last (by simp)⟩
  rw [List.getLast?_concat]
  rfl

/-- A text with blanks before its last character is one of a token that may be
split. -/
theorem WrittenAs.of_gap {t : Token} {front gap : List Char} {last : Char} (ht : t.Split)
    (hgap : ∀ c ∈ gap, isBlank c = true) (hw : ∀ c ∈ front ++ [last], isSpace c = false)
    (hspelled : t.SpelledAs (front ++ [last])) : t.WrittenAs (front ++ gap ++ [last]) := by
  refine ⟨fun h => absurd ht h, fun _ => ⟨front, gap, last, rfl, hgap, hw, hspelled⟩, last, ?_, hw last (by simp)⟩
  rw [List.getLast?_concat]
  rfl

end Token

/-- A relation with blanks between its characters. -/
theorem writtenAs_relation {r : Relation} {a b : Char} (hr : r.spelling.toList = [a, b]) (ha : isSpace a = false)
    (hb : isSpace b = false) {gap : List Char} (hgap : ∀ c ∈ gap, isBlank c = true) :
    (Token.relation r).WrittenAs ([a] ++ gap ++ [b]) := by
  refine .of_gap (.inl ⟨r, a, b, rfl, hr⟩) hgap (by simp [ha, hb]) ?_
  have h := Token.SpelledAs.canonical (.relation r)
  rwa [Token.spelling, hr] at h

/-- **The text of a token that was read** and is not quoted. -/
theorem Reads.exists_written {t : Token} {cs rest : List Char} (h : Reads t cs rest) (hquoted : ∀ s, t ≠ .quoted s) :
    ∃ w, cs = w ++ rest ∧ t.WrittenAs w := by
  cases h with
  | @sign ch t r hs =>
    have hspace : isSpace ch = false := by
      unfold Token.ofSign? at hs
      split at hs <;> cases hs <;> rfl
    refine ⟨[ch], rfl, .of_solid (List.cons_ne_nil _ _) (by simpa using hspace) ?_⟩
    have hspelling : t.spelling.toList = [ch] := (Token.ofSign?_eq_some hs).1
    exact hspelling ▸ .canonical t
  | less _ =>
    exact ⟨['<'], rfl, .of_solid (List.cons_ne_nil _ _) (List.forall_mem_singleton.2 rfl) (.canonical (.relation .less))⟩
  | greater _ =>
    exact ⟨['>'], rfl, .of_solid (List.cons_ne_nil _ _) (List.forall_mem_singleton.2 rfl) (.canonical (.relation .greater))⟩
  | lessEqual hr =>
    obtain ⟨gap, rfl, hgap⟩ := exists_gap hr
    exact ⟨_, by simp, writtenAs_relation (r := .lessEqual) (a := '<') (b := '=') rfl rfl rfl hgap⟩
  | notEqual hr =>
    obtain ⟨gap, rfl, hgap⟩ := exists_gap hr
    exact ⟨_, by simp, writtenAs_relation (r := .notEqual) (a := '<') (b := '>') rfl rfl rfl hgap⟩
  | greaterEqual hr =>
    obtain ⟨gap, rfl, hgap⟩ := exists_gap hr
    exact ⟨_, by simp, writtenAs_relation (r := .greaterEqual) (a := '>') (b := '=') rfl rfl rfl hgap⟩
  | @number ds r n hds hr hn =>
    obtain ⟨k, hk⟩ := Integer.exists_zeros_chars hn
    refine ⟨ds, rfl, .of_solid (Integer.ofDigits?_false_eq_some_iff.1 hn).1 (fun c hc => isSpace_of_isDigit (hds c hc)) ?_⟩
    have hspelled := Token.SpelledAs.number n k
    rwa [Integer.text, String.toList_ofList, ← hk] at hspelled
  | @quoted s r _ => exact absurd rfl (hquoted _)
  | @word w r hh hw _ _ =>
    have hne : w ≠ [] := by
      rintro rfl
      cases hh
    refine ⟨w, rfl, .of_solid hne (fun c hc => isSpace_of_isNameChar (hw c hc)) (.word (wordy_wordToken w) ?_)⟩
    rw [spelling_wordToken, String.toList_ofList]
  | @dollar w r rest _ hw _ hd =>
    obtain ⟨gap, rfl, hgap⟩ := exists_gap hd
    have hspelling : (wordToken (w ++ ['$'])).spelling.toList = (w ++ ['$']).map Char.toUpper := by
      rw [spelling_wordToken, String.toList_ofList]
    refine ⟨w ++ gap ++ ['$'], by simp, .of_gap (.inr ⟨wordy_wordToken _, ?_⟩) hgap ?_ (.word (wordy_wordToken _) ?_)⟩
    · rw [hspelling, List.map_append, List.map_singleton, List.getLast?_concat]
      rfl
    · intro c hc
      rcases List.mem_append.1 hc with hc | hc
      · exact isSpace_of_isNameChar (hw c hc)
      · obtain rfl := List.mem_singleton.1 hc
        rfl
    · exact hspelling.symm

/-! ### The text of a lexeme -/

namespace Scanner

variable {cs : List Char} {s after : Scanner} {x : Lexeme}

/-- A scanner comes to every lexeme of its tape. -/
theorem exists_next_of_from (h : s.Ready cs) {rest : Tape} (hx : s.tape.From (.cons x rest)) :
    ∃ s' after : Scanner, s'.Ready cs ∧ s'.next = (.ok (some x), after) ∧ after.tape = rest := by
  refine tape_induction (P := fun s t => s.Ready cs → t.From (.cons x rest) →
    ∃ s' after : Scanner, s'.Ready cs ∧ s'.next = (.ok (some x), after) ∧ after.tape = rest) ?_ ?_ ?_ s h hx
  · intro s after _ _ hfrom
    cases hfrom
  · intro s e after _ _ hfrom
    cases hfrom
  · intro s y after hnext ih hs hfrom
    cases hfrom with
    | later _ hfrom => exact ih (hs.of_next hnext) hfrom
    | here => exact ⟨s, after, hs, hnext, rfl⟩

/-- A scanner stands where its tape begins. -/
theorem offset_of_tape (h : s.Ready cs) {p : Position} {xs : List Lexeme} (ht : s.tape = .ofList p xs) :
    s.cursor.position.offset = offsetOf cs xs := by
  cases xs with
  | nil =>
    have hend : s.cursor.rest = [] := by
      rw [tape_eq] at ht
      split at ht
      case h_1 => cases ht
      case h_2 hnext => exact rest_of_next_none hnext
      case h_3 => cases ht
    have hoffset := h.standsIn.offset_add
    rw [hend] at hoffset
    exact hoffset
  | cons y ys =>
    obtain ⟨after, hnext, -⟩ := next_of_tape ht
    rw [← start_of_next hnext]
    rfl

/-- What a scanner takes, quoted texts and comments apart, is the text of a
token with blanks behind it. -/
theorem exists_written_of_next (h : s.next = (.ok (some x), after)) (hquoted : ∀ t, x.token ≠ .quoted t)
    (hcomment : ∀ t, x.token ≠ .comment t) :
    ∃ w gap, s.cursor.rest = w ++ gap ++ after.cursor.rest ∧ x.token.WrittenAs w ∧ ∀ c ∈ gap, isBlank c = true := by
  rcases next_eq_some h with ⟨-, rfl, -⟩ | ⟨-, t, stop, hscan, rfl, rfl⟩
  · exact absurd rfl (hcomment _)
  have blanks {w : List Char} (hrest : s.cursor.rest = w ++ stop.rest) (hw : t.WrittenAs w) :
      ∃ w gap, s.cursor.rest = w ++ gap ++ stop.skipBlanks.rest ∧ t.WrittenAs w ∧ ∀ c ∈ gap, isBlank c = true := by
    refine ⟨w, stop.rest.takeWhile isBlank, ?_, hw, List.all_eq_true.1 List.all_takeWhile⟩
    rw [hrest, List.append_assoc, Cursor.rest_skipBlanks, List.takeWhile_append_dropWhile]
  unfold Scanner.scan at hscan
  split at hscan
  · have hread : (scanLineNumber s.cursor).1 = .ok t := congrArg Prod.fst hscan
    have hstop : s.cursor.skipWhile Char.isDigit = stop := congrArg Prod.snd hscan
    obtain ⟨n, hn, -, rfl⟩ := scanLineNumber_ok_iff.1 hread
    obtain ⟨k, hk⟩ := Integer.exists_zeros_chars hn
    obtain ⟨hne, hdigits, -⟩ := Integer.ofDigits?_false_eq_some_iff.1 hn
    refine blanks (w := s.cursor.rest.takeWhile Char.isDigit) ?_ ?_
    · rw [← hstop, Cursor.rest_skipWhile, List.takeWhile_append_dropWhile]
    · refine .of_solid hne (fun c hc => isSpace_of_isDigit (hdigits c hc)) ?_
      have hspelled := Token.SpelledAs.lineNumber n k
      rwa [Integer.text, String.toList_ofList, ← hk] at hspelled
  · have hread : (scanToken s.cursor).1 = .ok t := congrArg Prod.fst hscan
    have hstop : (scanToken s.cursor).2 = stop := congrArg Prod.snd hscan
    obtain ⟨w, hw, hwritten⟩ := (reads_scanToken hread).exists_written hquoted
    rw [hstop] at hw
    exact blanks hw hwritten

end Scanner

/-- **Inside a lexeme there are no spaces, but for blanks before the last
character of a token that may be split.** The text of a lexeme reaches from its
offset to the last character before the next lexeme that is no space. -/
theorem blanks_inside_lexemes {s : String} {before after : List Lexeme} {x : Lexeme}
    (h : (Tape.ofLine s).lexemes = .ok (before ++ x :: after)) (hquoted : ∀ t, x.token ≠ .quoted t)
    (hcomment : ∀ t, x.token ≠ .comment t) :
    x.token.WrittenAs (trimEndList (textBetween s.toList x.start.offset (offsetOf s.toList after))) := by
  obtain ⟨p, hp⟩ := Tape.exists_ofList_of_lexemes h
  have hfrom : (Scanner.ofText s.toList).tape.From (.cons x (.ofList p after)) := by
    rw [← Tape.ofLine, hp]
    exact Tape.from_ofList p before x after
  obtain ⟨s', s'', hs', hnext, htape⟩ := Scanner.exists_next_of_from (Scanner.ready_ofText s.toList) hfrom
  have hs'' := hs'.of_next hnext
  obtain ⟨w, gap, hrest, hwritten, hgap⟩ := Scanner.exists_written_of_next hnext hquoted hcomment
  obtain ⟨upTo, hupTo, hposition⟩ := hs'.standsIn
  obtain ⟨upTo', hupTo', hposition'⟩ := hs''.standsIn
  have htext : s.toList = upTo ++ (w ++ gap) ++ s''.cursor.rest := by
    rw [← hupTo, hrest]
    exact (List.append_assoc _ _ _).symm
  obtain rfl : upTo' = upTo ++ (w ++ gap) := List.append_cancel_right (hupTo'.trans htext)
  have hstart : x.start.offset = Position.byteCount upTo := by
    rw [Scanner.start_of_next hnext, hposition]
    rfl
  have hstop : offsetOf s.toList after = Position.byteCount (upTo ++ (w ++ gap)) := by
    rw [← Scanner.offset_of_tape hs'' htape, hposition']
    rfl
  obtain ⟨last, hlast, hspace⟩ := hwritten.last
  obtain ⟨front, rfl⟩ := List.getLast?_eq_some_iff.1 hlast
  have htrim : trimEndList (front ++ [last] ++ gap) = front ++ [last] := by
    rw [List.append_assoc, List.singleton_append]
    exact trimEndList_spaces hspace front (trimEndList_blanks hgap)
  rwa [hstart, hstop, htext, textBetween_append, htrim]

-- A word, a relation and a number, with blanks before the last characters of
-- the first two and behind the third.
theorem blanks_inside_lexemes_dollar :
    let text := "A\t $ <  = 12 "
    ∃ word relation number, (Tape.ofLine text).lexemes = .ok [word, relation, number] ∧
      word.token = .name "A$" ∧ relation.token = .relation .lessEqual ∧
      Token.WrittenAs (.name "A$") ['A', '\t', ' ', '$'] ∧
      Token.WrittenAs (.relation .lessEqual) ['<', ' ', ' ', '='] ∧ Token.WrittenAs (.number 12) ['1', '2'] := by
  intro text
  let word : Lexeme := ⟨.name "A$", ⟨1, 1, 0⟩, ⟨1, 5, 4⟩⟩
  let relation : Lexeme := ⟨.relation .lessEqual, ⟨1, 6, 5⟩, ⟨1, 10, 9⟩⟩
  let number : Lexeme := ⟨.number 12, ⟨1, 11, 10⟩, ⟨1, 13, 12⟩⟩
  have h : (Tape.ofLine text).lexemes = .ok [word, relation, number] := by decide +kernel
  have hword := @blanks_inside_lexemes text [] _ word h (by simp [word]) (by simp [word])
  have hrelation := @blanks_inside_lexemes text [word] _ relation h (by simp [relation]) (by simp [relation])
  have hnumber := @blanks_inside_lexemes text [word, relation] _ number h (by simp [number]) (by simp [number])
  have hdollar : trimEndList (textBetween text.toList 0 5) = ['A', '\t', ' ', '$'] := by decide +kernel
  have hless : trimEndList (textBetween text.toList 5 10) = ['<', ' ', ' ', '='] := by decide +kernel
  have htwelve : trimEndList (textBetween text.toList 10 (offsetOf text.toList [])) = ['1', '2'] := by decide +kernel
  exact ⟨word, relation, number, h, rfl, rfl, hdollar ▸ hword, hless ▸ hrelation, htwelve ▸ hnumber⟩

/-- The text of a relation can have a blank in it. -/
theorem blank_inside_relation :
    ¬∀ (s : String) (before after : List Lexeme) (x : Lexeme), (Tape.ofLine s).lexemes = .ok (before ++ x :: after) →
      (∀ t, x.token ≠ .quoted t) → (∀ t, x.token ≠ .comment t) →
      ∀ c ∈ trimEndList (textBetween s.toList x.start.offset (offsetOf s.toList after)), isSpace c = false := by
  intro hsolid
  let name : Lexeme := ⟨.name "A", ⟨1, 1, 0⟩, ⟨1, 2, 1⟩⟩
  let relation : Lexeme := ⟨.relation .lessEqual, ⟨1, 3, 2⟩, ⟨1, 6, 5⟩⟩
  let number : Lexeme := ⟨.number 2, ⟨1, 7, 6⟩, ⟨1, 8, 7⟩⟩
  have h : (Tape.ofLine "A < = 2").lexemes = .ok ([name] ++ relation :: [number]) := by decide +kernel
  have htext : trimEndList (textBetween "A < = 2".toList relation.start.offset (offsetOf "A < = 2".toList [number])) =
      ['<', ' ', '='] := by decide +kernel
  have hblank := hsolid _ _ _ relation h (by simp [relation]) (by simp [relation]) ' ' (htext ▸ by decide)
  exact absurd hblank (by decide)

end LineBasic
