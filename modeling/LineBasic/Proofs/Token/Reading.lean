import LineBasic.Proofs.Integer
import LineBasic.Proofs.Text.Cursor

/-!
# Reading a token

What is read as one token, and what is left of the text. `Reads` says it once
for every kind of token; `scanToken_ok_iff` says that the scanner does just
that.
-/

namespace LineBasic

/-- The token is read off a text, and the rest of the text is left. -/
inductive Reads : Token → List Char → List Char → Prop
  | sign {ch : Char} {t : Token} {r : List Char} : Token.ofSign? ch = some t → Reads t (ch :: r) r
  | less {r : List Char} : (∀ d ∈ (r.dropWhile isBlank).head?, d ≠ '=' ∧ d ≠ '>') →
      Reads (.relation .less) ('<' :: r) r
  | lessEqual {r rest : List Char} : r.dropWhile isBlank = '=' :: rest →
      Reads (.relation .lessEqual) ('<' :: r) rest
  | notEqual {r rest : List Char} : r.dropWhile isBlank = '>' :: rest →
      Reads (.relation .notEqual) ('<' :: r) rest
  | greater {r : List Char} : (∀ d ∈ (r.dropWhile isBlank).head?, d ≠ '=') →
      Reads (.relation .greater) ('>' :: r) r
  | greaterEqual {r rest : List Char} : r.dropWhile isBlank = '=' :: rest →
      Reads (.relation .greaterEqual) ('>' :: r) rest
  | number {ds r : List Char} {n : Int64} : (∀ c ∈ ds, c.isDigit = true) →
      (∀ c ∈ r.head?, c.isDigit = false) → Integer.ofDigits? false ds = some n →
      Reads (.number n) (ds ++ r) r
  | quoted {s r : List Char} : '"' ∉ s → Reads (.quoted (String.ofList s)) ('"' :: (s ++ '"' :: r)) r
  | word {w r : List Char} : w.head?.any isLetter = true → (∀ c ∈ w, isNameChar c = true) →
      (∀ c ∈ r.head?, isNameChar c = false) → (∀ d ∈ (r.dropWhile isBlank).head?, d ≠ '$') →
      Reads (wordToken w) (w ++ r) r
  | dollar {w r rest : List Char} : w.head?.any isLetter = true → (∀ c ∈ w, isNameChar c = true) →
      (∀ c ∈ r.head?, isNameChar c = false) → r.dropWhile isBlank = '$' :: rest →
      Reads (wordToken (w ++ ['$'])) (w ++ r) rest

/-- What reading a relation behind `<` does. -/
theorem scanRelation_less (c : Cursor) :
    Reads (scanRelation .less [('=', .lessEqual), ('>', .notEqual)] c).1 ('<' :: c.rest)
      (scanRelation .less [('=', .lessEqual), ('>', .notEqual)] c).2.rest := by
  unfold scanRelation
  rcases c.skipBlanks.take?_cases '=' with ⟨r, hr, he⟩ | ⟨he', he⟩
  · simp only [List.findSome?_cons, he, Option.map_some, Cursor.rest_next hr]
    exact .lessEqual hr
  rcases c.skipBlanks.take?_cases '>' with ⟨r, hr, hg⟩ | ⟨hg', hg⟩
  · simp only [List.findSome?_cons, he, hg, Option.map_some, Option.map_none, Cursor.rest_next hr]
    exact .notEqual hr
  · simp only [List.findSome?_cons, he, hg, Option.map_none, List.findSome?_nil]
    exact .less fun d hd => ⟨he' d hd, hg' d hd⟩

/-- What reading a relation behind `>` does. -/
theorem scanRelation_greater (c : Cursor) :
    Reads (scanRelation .greater [('=', .greaterEqual)] c).1 ('>' :: c.rest)
      (scanRelation .greater [('=', .greaterEqual)] c).2.rest := by
  unfold scanRelation
  rcases c.skipBlanks.take?_cases '=' with ⟨r, hr, he⟩ | ⟨he', he⟩
  · simp only [List.findSome?_cons, he, Option.map_some, Cursor.rest_next hr]
    exact .greaterEqual hr
  · simp only [List.findSome?_cons, he, Option.map_none, List.findSome?_nil]
    exact .greater he'

/-- What reading a word does. -/
theorem reads_scanWord {c : Cursor} (h : c.rest.head?.any isLetter = true) :
    Reads (scanWord c).1 c.rest (scanWord c).2.rest := by
  have hw : ∀ x ∈ c.rest.takeWhile isNameChar, isNameChar x = true :=
    fun x hx => List.all_eq_true.1 List.all_takeWhile x hx
  have hh : (c.rest.takeWhile isNameChar).head?.any isLetter = true := by
    cases hc : c.rest with
    | nil => simp [hc] at h
    | cons x r =>
      rw [hc] at h
      rw [List.takeWhile_cons_of_pos (isNameChar_of_isLetter (by simpa using h))]
      exact h
  have hr : ∀ x ∈ (c.rest.dropWhile isNameChar).head?, isNameChar x = false := head?_dropWhile
  have key := List.takeWhile_append_dropWhile (p := isNameChar) (l := c.rest)
  unfold scanWord
  rcases (c.skipWhile isNameChar).skipBlanks.take?_cases '$' with ⟨r, hr', he⟩ | ⟨hr', he⟩
  · simp only [he, Cursor.rest_next hr']
    have := Reads.dollar hh hw hr hr'
    rwa [key] at this
  · simp only [he]
    have := Reads.word hh hw hr hr'
    rwa [key] at this

theorem reads_scanQuoted {c : Cursor} {t : Token} (h : (scanQuoted c).1 = .ok t) :
    Reads t ('"' :: c.rest) (scanQuoted c).2.rest := by
  have hs : '"' ∉ c.rest.takeWhile (· ≠ '"') := by
    intro hm
    have := List.all_eq_true.1 List.all_takeWhile _ hm
    simp at this
  have key := List.takeWhile_append_dropWhile (p := (· ≠ '"')) (l := c.rest)
  unfold scanQuoted at h ⊢
  simp only at h ⊢
  rcases (c.skipWhile (· ≠ '"')).take?_cases '"' with ⟨r, hr, he⟩ | ⟨-, he⟩
  · simp only [he, Cursor.rest_next hr] at h ⊢
    obtain rfl := Except.ok.inj h
    have := Reads.quoted (r := r) hs
    rw [Cursor.rest_skipWhile] at hr
    rwa [← hr, key] at this
  · simp only [he] at h
    cases h

theorem readDigits_ok_iff {c : Cursor} {n : Int64} :
    (c.readDigits false).1 = .ok n ↔ Integer.ofDigits? false (c.rest.takeWhile Char.isDigit) = some n := by
  unfold Cursor.readDigits Cursor.readWhile
  cases hc : c.rest with
  | nil => simp [Cursor.atChar, hc, Integer.ofDigits?]
  | cons x r =>
    by_cases hx : x.isDigit = true
    · rw [if_pos (by simpa [Cursor.atChar, hc] using hx)]
      simp only
      cases Integer.ofDigits? false ((x :: r).takeWhile Char.isDigit) <;> simp
    · rw [if_neg (by simpa [Cursor.atChar, hc] using hx), List.takeWhile_cons_of_neg hx]
      simp [Integer.ofDigits?]

/-- **Everything that reading a token can do.** -/
theorem reads_scanToken {c : Cursor} {t : Token} (h : (scanToken c).1 = .ok t) :
    Reads t c.rest (scanToken c).2.rest := by
  unfold scanToken at h ⊢
  cases hc : c.rest with
  | nil => simp [hc] at h
  | cons ch r =>
    rw [hc] at h
    have hn := Cursor.rest_next hc
    simp only at h ⊢
    cases hs : Token.ofSign? ch with
    | some u =>
      simp only [hs] at h ⊢
      obtain rfl := Except.ok.inj h
      rw [hn]
      exact .sign hs
    | none =>
      simp only [hs] at h ⊢
      split at h
      · rename_i hl
        subst hl
        obtain rfl := Except.ok.inj h
        have := scanRelation_less c.next
        rwa [hn] at this
      rename_i hl
      rw [if_neg hl]
      split at h
      · rename_i hg
        subst hg
        obtain rfl := Except.ok.inj h
        have := scanRelation_greater c.next
        rwa [hn] at this
      rename_i hg
      rw [if_neg hg]
      split at h
      · rename_i hd
        rw [if_pos hd]
        obtain ⟨n, hn', rfl⟩ : ∃ n, (c.readDigits false).1 = .ok n ∧ Token.number n = t := by
          cases hr : (c.readDigits false).1 with
          | error e => simp [hr, Except.map] at h
          | ok n => exact ⟨n, rfl, by simpa [hr, Except.map] using h⟩
        have hr : ∀ x ∈ (c.rest.dropWhile Char.isDigit).head?, x.isDigit = false := head?_dropWhile
        have := Reads.number (fun x hx => List.all_eq_true.1 List.all_takeWhile x hx) hr
          (readDigits_ok_iff.1 hn')
        rw [List.takeWhile_append_dropWhile, hc] at this
        show Reads _ _ (c.skipWhile Char.isDigit).rest
        rwa [Cursor.rest_skipWhile, hc]
      rename_i hd
      rw [if_neg hd]
      split at h
      · rename_i hq
        subst hq
        have := reads_scanQuoted h
        rwa [hn] at this
      rename_i hq
      rw [if_neg hq]
      split at h
      · rename_i hl'
        rw [if_pos hl']
        obtain rfl := Except.ok.inj h
        have := reads_scanWord (c := c) (by simpa [hc] using hl')
        rwa [hc] at this
      · cases h

/-! ### Reading what can be read -/

theorem scanWord_of_word {c : Cursor} {w r : List Char} (hc : c.rest = w ++ r)
    (hw : ∀ x ∈ w, isNameChar x = true) (hr : ∀ x ∈ r.head?, isNameChar x = false)
    (hd : ∀ d ∈ (r.dropWhile isBlank).head?, d ≠ '$') :
    (scanWord c).1 = wordToken w ∧ (scanWord c).2.rest = r := by
  have h1 : c.rest.takeWhile isNameChar = w := by rw [hc]; exact takeWhile_append_stop hw hr
  have h2 : (c.skipWhile isNameChar).rest = r := by
    rw [Cursor.rest_skipWhile, hc]; exact dropWhile_append_stop hw hr
  have h3 : (c.skipWhile isNameChar).skipBlanks.take? '$' false = none :=
    Cursor.take?_eq_none (by rwa [Cursor.rest_skipBlanks, h2])
  unfold scanWord
  simp only [h1, h3]
  exact ⟨trivial, h2⟩

theorem scanWord_of_dollar {c : Cursor} {w r rest : List Char} (hc : c.rest = w ++ r)
    (hw : ∀ x ∈ w, isNameChar x = true) (hr : ∀ x ∈ r.head?, isNameChar x = false)
    (hd : r.dropWhile isBlank = '$' :: rest) :
    (scanWord c).1 = wordToken (w ++ ['$']) ∧ (scanWord c).2.rest = rest := by
  have h1 : c.rest.takeWhile isNameChar = w := by rw [hc]; exact takeWhile_append_stop hw hr
  have h2 : (c.skipWhile isNameChar).skipBlanks.rest = '$' :: rest := by
    rw [Cursor.rest_skipBlanks, Cursor.rest_skipWhile, hc, dropWhile_append_stop hw hr, hd]
  unfold scanWord
  simp only [h1, Cursor.take?_eq_some h2]
  exact ⟨trivial, Cursor.rest_next h2⟩

/-- A text that begins with a letter is read as a word. -/
theorem scanToken_of_letter {c : Cursor} (h : c.rest.head?.any isLetter = true) :
    scanToken c = (.ok (scanWord c).1, (scanWord c).2) := by
  cases hc : c.rest with
  | nil => simp [hc] at h
  | cons ch r =>
    have hl : isLetter ch = true := by simpa [hc] using h
    obtain ⟨-, -, -, hg, hs, hq, hn⟩ := ne_of_isNameChar (isNameChar_of_isLetter hl)
    unfold scanToken
    simp only [hc, hn, if_neg hs, if_neg hg, not_isDigit_of_isLetter hl, if_neg hq, hl, if_true,
      Bool.false_eq_true, if_false]

/-- A text from which a token can be read is read as that token. -/
theorem scanToken_of_reads {t : Token} {cs rest : List Char} (h : Reads t cs rest) {c : Cursor}
    (hc : c.rest = cs) : (scanToken c).1 = .ok t ∧ (scanToken c).2.rest = rest := by
  cases h with
  | sign hs =>
    unfold scanToken
    simp only [hc, hs, Cursor.rest_next hc, and_self]
  | less hr =>
    have hn := Cursor.rest_next hc
    have h1 : c.next.skipBlanks.take? '=' false = none :=
      Cursor.take?_eq_none fun d hd => (hr d (by rwa [Cursor.rest_skipBlanks, hn] at hd)).1
    have h2 : c.next.skipBlanks.take? '>' false = none :=
      Cursor.take?_eq_none fun d hd => (hr d (by rwa [Cursor.rest_skipBlanks, hn] at hd)).2
    unfold scanToken scanRelation
    simp [hc, Token.ofSign?, h1, h2, hn]
  | lessEqual hr =>
    have h1 : c.next.skipBlanks.rest = '=' :: rest := by
      rw [Cursor.rest_skipBlanks, Cursor.rest_next hc, hr]
    unfold scanToken scanRelation
    simp [hc, Token.ofSign?, Cursor.take?_eq_some h1, Cursor.rest_next h1]
  | notEqual hr =>
    have h1 : c.next.skipBlanks.rest = '>' :: rest := by
      rw [Cursor.rest_skipBlanks, Cursor.rest_next hc, hr]
    have h2 : c.next.skipBlanks.take? '=' false = none :=
      Cursor.take?_eq_none (by rw [h1]; simp)
    unfold scanToken scanRelation
    simp [hc, Token.ofSign?, h2, Cursor.take?_eq_some h1, Cursor.rest_next h1]
  | greater hr =>
    have hn := Cursor.rest_next hc
    have h1 : c.next.skipBlanks.take? '=' false = none :=
      Cursor.take?_eq_none fun d hd => hr d (by rwa [Cursor.rest_skipBlanks, hn] at hd)
    unfold scanToken scanRelation
    simp [hc, Token.ofSign?, h1, hn]
  | greaterEqual hr =>
    have h1 : c.next.skipBlanks.rest = '=' :: rest := by
      rw [Cursor.rest_skipBlanks, Cursor.rest_next hc, hr]
    unfold scanToken scanRelation
    simp [hc, Token.ofSign?, Cursor.take?_eq_some h1, Cursor.rest_next h1]
  | @number ds _ n hds hr hn =>
    have h1 : c.rest.takeWhile Char.isDigit = ds := by rw [hc]; exact takeWhile_append_stop hds hr
    have h2 : (c.skipWhile Char.isDigit).rest = rest := by
      rw [Cursor.rest_skipWhile, hc]; exact dropWhile_append_stop hds hr
    have h3 : (c.readDigits false).1 = .ok n := by rw [readDigits_ok_iff, h1, hn]
    obtain ⟨x, ds', rfl⟩ : ∃ x ds', ds = x :: ds' :=
      List.exists_cons_of_ne_nil (Integer.ofDigits?_false_eq_some_iff.1 hn).1
    have hx : x.isDigit = true := hds x (by simp)
    obtain ⟨-, -, -, hg, hs, -, hsign⟩ := ne_of_isNameChar (isNameChar_of_isDigit hx)
    unfold scanToken
    simp only [hc, List.cons_append, hsign, if_neg hs, if_neg hg, if_pos hx, h3, h2, Except.map,
      and_self]
  | @quoted s _ hs =>
    have hn := Cursor.rest_next hc
    have hs' : ∀ x ∈ s, decide (x ≠ '"') = true := by
      intro x hx; rw [decide_eq_true_iff]; rintro rfl; exact hs hx
    have h1 : c.next.rest.takeWhile (· ≠ '"') = s := by
      rw [hn]; exact takeWhile_append_stop hs' (by simp)
    have h2 : (c.next.skipWhile (· ≠ '"')).rest = '"' :: rest := by
      rw [Cursor.rest_skipWhile, hn]; exact dropWhile_append_stop hs' (by simp)
    have h3 : scanQuoted c.next =
        (.ok (.quoted (String.ofList s)), (c.next.skipWhile (· ≠ '"')).next) := by
      unfold scanQuoted
      simp only [Cursor.take?_eq_some h2, h1]
    have h4 : scanToken c = scanQuoted c.next := by
      unfold scanToken
      simp [hc, Token.ofSign?]
    rw [h4, h3]
    exact ⟨rfl, Cursor.rest_next h2⟩
  | word hh hw hr hd =>
    rw [scanToken_of_letter (by rw [hc]; exact head?_append_any hh)]
    obtain ⟨h1, h2⟩ := scanWord_of_word hc hw hr hd
    exact ⟨by rw [h1], h2⟩
  | dollar hh hw hr hd =>
    rw [scanToken_of_letter (by rw [hc]; exact head?_append_any hh)]
    obtain ⟨h1, h2⟩ := scanWord_of_dollar hc hw hr hd
    exact ⟨by rw [h1], h2⟩

/-- **Reading a token is described by `Reads`.** -/
theorem scanToken_ok_iff {c : Cursor} {t : Token} {rest : List Char} :
    ((scanToken c).1 = .ok t ∧ (scanToken c).2.rest = rest) ↔ Reads t c.rest rest :=
  ⟨fun h => h.2 ▸ reads_scanToken h.1, fun h => scanToken_of_reads h rfl⟩

end LineBasic
