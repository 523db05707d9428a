import LineBasic.Proofs.Lexeme.Cover
import LineBasic.Proofs.Line.Joined

/-!
# Texts without their final colon

A text may be cut off behind any of its tokens, and the tokens before the cut
stay as they were. So to take the spaces and one colon off the end of a text is
to take a final colon off its tokens. Only a remark does not know what a colon
is. To it the colon is a character like the others, and the comment loses it,
and the spaces before it.

* `Reads.extent`: the text of a token, behind which everything may be cut off.
* `withoutFinalColon`, `Token.withoutFinalColon`: the end of a text, and that of
  its tokens.
* `Scans.shortened`: a text without its final colon is scanned to its tokens
  without theirs.
-/

namespace LineBasic

/-! ### The text of a token -/

/-- A word is no colon. -/
theorem wordToken_ne_colon (cs : List Char) : wordToken cs ≠ .colon := by
  rcases wordToken_cases cs with hm | ⟨s, hs, -⟩
  · rcases Token.mem_words_cases hm with ⟨_, h⟩ | ⟨_, h⟩ | ⟨_, h⟩ | ⟨_, h⟩ | h | h <;> simp [h]
  · simp [hs]

/-- What comes first behind blanks does so in a longer text. -/
theorem mem_head?_dropWhile_longer {cs ds : List Char} (h : cs <+: ds) :
    ∀ c ∈ (cs.dropWhile isBlank).head?, c ∈ (ds.dropWhile isBlank).head? := by
  obtain ⟨r, rfl⟩ := h
  intro c hc
  cases hd : cs.dropWhile isBlank with
  | nil =>
    rw [hd] at hc
    cases hc
  | cons x xs =>
    rw [hd] at hc
    rw [dropWhile_append_of_cons hd]
    exact hc

/-- The text of a token, up to its last character, and the text behind it. It
ends in no space, and in a colon only if it is one. What stands behind it may be
cut off. -/
structure Extent (t : Token) (w : List Char) (last : Char) (rest : List Char) : Prop where
  space : isSpace last = false
  colon : last = ':' ↔ t = .colon
  alone : t = .colon → w = []
  cut : ∀ m, m <+: rest → Reads t (w ++ last :: m) m

namespace Extent

variable {t : Token} {w rest : List Char} {last : Char}

/-- The text of a token that is no colon. -/
theorem of_ne (ht : t ≠ .colon) (hspace : isSpace last = false) (hlast : last ≠ ':')
    (hcut : ∀ m, m <+: rest → Reads t (w ++ last :: m) m) : Extent t w last rest where
  space := hspace
  colon := ⟨fun h => absurd h hlast, fun h => absurd h ht⟩
  alone h := absurd h ht
  cut := hcut

/-- The text of a token that ends like a name. -/
theorem of_isNameChar (ht : t ≠ .colon) (hlast : isNameChar last = true)
    (hcut : ∀ m, m <+: rest → Reads t (w ++ [last] ++ m) m) : Extent t w last rest := by
  refine of_ne ht (isSpace_of_isNameChar hlast) ?_ fun m hm => ?_
  · rintro rfl
    cases hlast
  · rw [List.append_cons]
    exact hcut m hm

end Extent

/-- The blanks inside a token are passed over. -/
theorem dropWhile_gap {gap : List Char} {ch : Char} (hgap : ∀ c ∈ gap, isBlank c = true) (hch : isBlank ch = false)
    (m : List Char) : (gap ++ ch :: m).dropWhile isBlank = ch :: m :=
  dropWhile_append_stop hgap (by rintro c ⟨⟩; exact hch)

/-- **The text of a token that was read.** -/
theorem Reads.extent {t : Token} {cs rest : List Char} (h : Reads t cs rest) :
    ∃ w last, cs = w ++ last :: rest ∧ Extent t w last rest := by
  cases h with
  | @sign ch t r hs =>
    refine ⟨[], ch, rfl, ?_, ⟨?_, ?_⟩, fun _ => rfl, fun m _ => .sign hs⟩
    · unfold Token.ofSign? at hs
      split at hs <;> cases hs <;> rfl
    · rintro rfl
      exact (Option.some.inj hs).symm
    · rintro rfl
      exact (List.singleton_inj.1 (Token.ofSign?_eq_some hs).1).symm
  | less hr =>
    refine ⟨[], '<', rfl, .of_ne (by simp) rfl (by decide) fun m hm => .less fun d hd => ?_⟩
    exact hr d (mem_head?_dropWhile_longer hm d hd)
  | greater hr =>
    refine ⟨[], '>', rfl, .of_ne (by simp) rfl (by decide) fun m hm => .greater fun d hd => ?_⟩
    exact hr d (mem_head?_dropWhile_longer hm d hd)
  | lessEqual hr =>
    obtain ⟨gap, rfl, hgap⟩ := exists_gap hr
    refine ⟨'<' :: gap, '=', by simp, .of_ne (by simp) rfl (by decide) fun m _ => ?_⟩
    exact .lessEqual (dropWhile_gap hgap rfl m)
  | notEqual hr =>
    obtain ⟨gap, rfl, hgap⟩ := exists_gap hr
    refine ⟨'<' :: gap, '>', by simp, .of_ne (by simp) rfl (by decide) fun m _ => ?_⟩
    exact .notEqual (dropWhile_gap hgap rfl m)
  | greaterEqual hr =>
    obtain ⟨gap, rfl, hgap⟩ := exists_gap hr
    refine ⟨'>' :: gap, '=', by simp, .of_ne (by simp) rfl (by decide) fun m _ => ?_⟩
    exact .greaterEqual (dropWhile_gap hgap rfl m)
  | @number ds r n hds hr hn =>
    obtain ⟨w, last, rfl⟩ := (List.eq_nil_or_concat' ds).resolve_left (Integer.ofDigits?_false_eq_some_iff.1 hn).1
    refine ⟨w, last, by simp, .of_isNameChar (by simp) (isNameChar_of_isDigit (hds last (by simp))) fun m hm => ?_⟩
    exact .number hds (fun c hc => hr c (mem_head?_longer hm c hc)) hn
  | @quoted s r hs => exact ⟨'"' :: s, '"', rfl, .of_ne (by simp) rfl (by decide) fun m _ => .quoted hs⟩
  | @word w r hh hw hr hd =>
    have hne : w ≠ [] := by
      rintro rfl
      cases hh
    obtain ⟨w, last, rfl⟩ := (List.eq_nil_or_concat' w).resolve_left hne
    refine ⟨w, last, by simp, .of_isNameChar (wordToken_ne_colon _) (hw last (by simp)) fun m hm => ?_⟩
    exact .word hh hw (fun c hc => hr c (mem_head?_longer hm c hc)) fun d hd' =>
      hd d (mem_head?_dropWhile_longer hm d hd')
  | @dollar w r rest hh hw hr hd =>
    obtain ⟨gap, rfl, hgap⟩ := exists_gap hd
    refine ⟨w ++ gap, '$', by simp, .of_ne (wordToken_ne_colon _) rfl (by decide) fun m _ => ?_⟩
    rw [List.append_assoc]
    refine .dollar hh hw (fun c hc => ?_) (dropWhile_gap hgap rfl m)
    obtain hc | hc := mem_head?_append hc
    · exact not_isNameChar_of_isBlank (hgap c (List.mem_of_mem_head? hc))
    · obtain rfl := Option.some.inj hc
      rfl

/-! ### The end of a text -/

/-- The characters without the spaces at their end, and then without a colon at
the end. -/
def withoutFinalColon (cs : List Char) : List Char :=
  if (trimEndList cs).getLast? = some ':' then (trimEndList cs).dropLast else trimEndList cs

theorem trimEndList_eq_nil_iff {cs : List Char} : trimEndList cs = [] ↔ ∀ c ∈ cs, isSpace c = true :=
  List.rdropWhile_eq_nil_iff

theorem trimEndList_blanks {cs : List Char} (h : ∀ c ∈ cs, isBlank c = true) : trimEndList cs = [] :=
  trimEndList_eq_nil_iff.2 fun c hc => isSpace_of_isBlank (h c hc)

/-- What stands before something other than spaces is not touched by
trimming. -/
theorem trimEndList_append {cs ds : List Char} (h : trimEndList ds ≠ []) :
    trimEndList (cs ++ ds) = cs ++ trimEndList ds := by
  have hne : (ds.reverse.dropWhile isSpace).isEmpty = false := by
    simpa [trimEndList] using h
  rw [trimEndList, List.reverse_append, List.dropWhile_append, hne]
  simp [trimEndList]

/-- Spaces at the end are trimmed up to what is none. -/
theorem trimEndList_spaces {last : Char} (hlast : isSpace last = false) (w : List Char) {ds : List Char}
    (h : trimEndList ds = []) : trimEndList (w ++ last :: ds) = w ++ [last] := by
  have hds : ∀ c ∈ ds.reverse, isSpace c = true := fun c hc => trimEndList_eq_nil_iff.1 h c (List.mem_reverse.1 hc)
  rw [trimEndList, List.reverse_append, List.reverse_cons, List.append_assoc, List.dropWhile_append_of_pos hds,
    List.singleton_append, List.dropWhile_cons_of_neg (by simp [hlast])]
  simp

theorem withoutFinalColon_isPrefix (cs : List Char) : withoutFinalColon cs <+: cs := by
  have htrim : trimEndList cs <+: cs := List.rdropWhile_prefix isSpace cs
  unfold withoutFinalColon
  split
  · exact (List.dropLast_prefix _).trans htrim
  · exact htrim

theorem withoutFinalColon_append {cs ds : List Char} (h : trimEndList ds ≠ []) :
    withoutFinalColon (cs ++ ds) = cs ++ withoutFinalColon ds := by
  unfold withoutFinalColon
  rw [trimEndList_append h, List.getLast?_append_of_ne_nil _ h, List.dropLast_append_of_ne_nil h]
  split <;> rfl

/-- A text is made of spaces if it is so behind its blanks. -/
theorem trimEndList_dropWhile_eq_nil_iff {cs : List Char} :
    trimEndList (cs.dropWhile isBlank) = [] ↔ trimEndList cs = [] := by
  rw [trimEndList_eq_nil_iff, trimEndList_eq_nil_iff]
  constructor
  · intro h c hc
    rw [← List.takeWhile_append_dropWhile (p := isBlank) (l := cs)] at hc
    rcases List.mem_append.1 hc with hc | hc
    · exact isSpace_of_isBlank (List.all_eq_true.1 List.all_takeWhile c hc)
    · exact h c hc
  · intro h c hc
    exact h c ((List.dropWhile_sublist _).subset hc)

/-- What ends in no colon and no space is kept as it is. -/
theorem withoutFinalColon_append_cons {w ds : List Char} {last : Char} (hspace : isSpace last = false)
    (h : last ≠ ':' ∨ trimEndList ds ≠ []) : withoutFinalColon (w ++ last :: ds) = w ++ last :: withoutFinalColon ds := by
  by_cases hds : trimEndList ds = []
  · have hlast : last ≠ ':' := h.resolve_right (not_not.2 hds)
    unfold withoutFinalColon
    rw [trimEndList_spaces hspace w hds, hds, List.getLast?_concat, if_neg (by simpa using hlast)]
    rfl
  · rw [List.append_cons, withoutFinalColon_append hds, List.append_assoc]
    rfl

/-- A colon with spaces behind it is taken off with them. -/
theorem withoutFinalColon_colon {w ds : List Char} (hds : trimEndList ds = []) :
    withoutFinalColon (w ++ ':' :: ds) = w := by
  unfold withoutFinalColon
  rw [trimEndList_spaces rfl w hds, List.getLast?_concat, if_pos rfl, List.dropLast_concat]

/-- The end of a text does not depend on the blanks before it. -/
theorem dropWhile_withoutFinalColon (cs : List Char) :
    (withoutFinalColon cs).dropWhile isBlank = withoutFinalColon (cs.dropWhile isBlank) := by
  by_cases h : trimEndList (cs.dropWhile isBlank) = []
  · unfold withoutFinalColon
    rw [trimEndList_dropWhile_eq_nil_iff.1 h, h]
    rfl
  · have hblanks : ∀ c ∈ cs.takeWhile isBlank, isBlank c = true := List.all_eq_true.1 List.all_takeWhile
    conv_lhs => rw [← List.takeWhile_append_dropWhile (p := isBlank) (l := cs), withoutFinalColon_append h]
    exact dropWhile_append_stop hblanks fun c hc =>
      head?_dropWhile c (mem_head?_longer (withoutFinalColon_isPrefix _) c hc)

/-! ### The end of the tokens -/

/-- A comment without a colon at its end, and without the spaces before that. -/
def commentWithoutColon (s : String) : String :=
  if s.toList.getLast? = some ':' then String.ofList (trimEndList s.toList.dropLast) else s

theorem commentWithoutColon_trimEndList (cs : List Char) :
    commentWithoutColon (String.ofList (trimEndList cs)) = String.ofList (trimEndList (withoutFinalColon cs)) := by
  unfold commentWithoutColon withoutFinalColon
  rw [String.toList_ofList]
  split
  · rfl
  · rw [trimEndList_idem]

namespace Token

/-- What is left of the last token of a text without its final colon. -/
def withoutColon : Token → List Token
  | colon => []
  | comment s => [comment (commentWithoutColon s)]
  | t => [t]

/-- The tokens without a colon at their end, also if it is the end of a
comment. -/
def withoutFinalColon (ts : List Token) : List Token := ts.dropLast ++ ts.getLast?.elim [] withoutColon

theorem withoutFinalColon_concat (ts : List Token) (t : Token) : withoutFinalColon (ts ++ [t]) = ts ++ t.withoutColon := by
  rw [withoutFinalColon, List.dropLast_concat, List.getLast?_concat]
  rfl

theorem withoutFinalColon_cons (t : Token) {ts : List Token} (h : ts ≠ []) :
    withoutFinalColon (t :: ts) = t :: withoutFinalColon ts := by
  obtain ⟨us, u, rfl⟩ := (List.eq_nil_or_concat' ts).resolve_left h
  rw [← List.cons_append, withoutFinalColon_concat, withoutFinalColon_concat, List.cons_append]

theorem withoutFinalColon_singleton {t : Token} (hcolon : t ≠ .colon) (ht : t.Legible) : withoutFinalColon [t] = [t] := by
  refine (withoutFinalColon_concat [] t).trans ?_
  cases t with
  | colon => exact absurd rfl hcolon
  | comment s => exact ht.elim
  | _ => rfl

end Token

namespace Scans

variable {cs : List Char} {ts : List Token}

/-- A text has no tokens if and only if it is made of spaces. -/
theorem eq_nil_iff (h : Scans (cs.dropWhile isBlank) ts) : ts = [] ↔ trimEndList cs = [] := by
  rw [← trimEndList_dropWhile_eq_nil_iff]
  generalize cs.dropWhile isBlank = q at h
  have first {t : Token} {rest : List Char} (hr : Reads t q rest) : trimEndList q ≠ [] := by
    obtain ⟨w, last, rfl, hx⟩ := hr.extent
    intro hnil
    have hspace := trimEndList_eq_nil_iff.1 hnil last (by simp)
    rw [hx.space] at hspace
    cases hspace
  cases h with
  | nil => exact ⟨fun _ => rfl, fun _ => rfl⟩
  | remark hr => exact ⟨fun h => absurd h (List.cons_ne_nil _ _), fun h => absurd h (first hr)⟩
  | cons hr _ _ => exact ⟨fun h => absurd h (List.cons_ne_nil _ _), fun h => absurd h (first hr)⟩

/-- **A text without its final colon is scanned to its tokens without
theirs.** -/
theorem shortened (h : Scans cs ts) : Scans (withoutFinalColon cs) (Token.withoutFinalColon ts) := by
  induction h with
  | nil => exact .nil
  | @remark cs rest hr =>
    obtain ⟨w, last, rfl, hx⟩ := hr.extent
    have hlast : last ≠ ':' := by
      intro h
      cases hx.colon.1 h
    rw [withoutFinalColon_append_cons hx.space (.inl hlast)]
    have hremark := Scans.remark (hx.cut _ (withoutFinalColon_isPrefix rest))
    rw [dropWhile_withoutFinalColon, ← commentWithoutColon_trimEndList] at hremark
    exact hremark
  | @cons t cs rest ts hr ht hs ih =>
    obtain ⟨w, last, rfl, hx⟩ := hr.extent
    have hkept (h : last ≠ ':' ∨ trimEndList rest ≠ []) :
        Scans (withoutFinalColon (w ++ last :: rest)) (t :: Token.withoutFinalColon ts) := by
      rw [withoutFinalColon_append_cons hx.space h]
      refine .cons (hx.cut _ (withoutFinalColon_isPrefix rest)) ht ?_
      rw [dropWhile_withoutFinalColon]
      exact ih
    -- the token is kept if there are others behind it, and also if it is the
    -- last one but no colon
    by_cases hts : ts = []
    · have hrest := hs.eq_nil_iff.1 hts
      subst hts
      by_cases hcolon : t = .colon
      · obtain rfl := hx.alone hcolon
        obtain rfl := hx.colon.2 hcolon
        rw [hcolon, withoutFinalColon_colon hrest]
        exact .nil
      · rw [Token.withoutFinalColon_singleton hcolon hr.legible]
        exact hkept (.inl fun h => hcolon (hx.colon.1 h))
    · rw [Token.withoutFinalColon_cons t hts]
      exact hkept (.inr fun hrest => hts (hs.eq_nil_iff.2 hrest))

end Scans

end LineBasic
