import LineBasic.Proofs.Lexeme.Cut
import LineBasic.Proofs.Lexeme.Gaps
import LineBasic.Proofs.Machine.RestOfLine

/-!
# The text of a loop in one line

The body of a loop in one line lies between the colon behind its head and the
`NEXT` that closes it. Both are lexemes, so the line can be cut at their
offsets. What is scanned of the body once more is the body as it was found,
without a colon at its end. What is scanned from behind `NEXT` and its variable
is the rest of the line, each lexeme in its place.

* `Scanner.closing?`: where a loop is closed, and where the line goes on.
* `Scanner.Takes.body`: the body of a loop is what is scanned of its text.
* `closed_loop_text`: where a loop with a balanced body is closed, and what is
  scanned of its parts.
-/

namespace LineBasic

/-! ### The body on the tape -/

namespace Tape

/-- The tape without its first lexemes. -/
def drop : Nat → Tape → Tape
  | n + 1, cons _ rest => drop n rest
  | _, t => t

/-- The offset of the first lexeme, or of the end. A tape that cannot be scanned
has none. -/
def offset? : Tape → Option Nat
  | stop p => some p.offset
  | broken _ => none
  | cons x _ => some x.start.offset

theorem lexemes_ofList (p : Position) (xs : List Lexeme) : (ofList p xs).lexemes = .ok xs := by
  induction xs with
  | nil => rfl
  | cons x xs ih =>
    rw [ofList, lexemes, ih]
    rfl

theorem drop_foldr (xs : List Lexeme) (t : Tape) : (xs.foldr cons t).drop xs.length = t := by
  induction xs with
  | nil => cases t <;> rfl
  | cons x xs ih => exact ih

/-- The body of a loop before a colon. -/
theorem ofBody_colon (xs : List Lexeme) {y : Lexeme} (hy : y.token = .colon) :
    ofBody (xs ++ [y]) = if xs = [] then none else some (ofList y.start xs) := by
  by_cases hxs : xs = []
  · obtain ⟨t, p, q⟩ := y
    obtain rfl : t = .colon := hy
    subst hxs
    rfl
  · rw [ofBody_concat hxs hy, if_neg hxs]

/-- The body of a loop that ends in neither a colon nor a comment. -/
theorem ofBody_other (xs : List Lexeme) {y : Lexeme} (hcolon : y.token ≠ .colon) (hcomment : ∀ s, y.token ≠ .comment s) :
    ofBody (xs ++ [y]) = some (ofList y.stop (xs ++ [y])) := by
  obtain ⟨t, p, q⟩ := y
  cases t with
  | colon => exact absurd rfl hcolon
  | comment s => exact absurd rfl (hcomment s)
  | _ => simp only [ofBody, List.getLast?_concat]

end Tape

/-! ### The body in the text -/

/-- The lexemes without a colon at their end. -/
def Lexeme.withoutFinalColon (xs : List Lexeme) : List Lexeme :=
  if xs.getLast?.map (·.token) = some .colon then xs.dropLast else xs

namespace Scanner

variable {before : List Char} {s after : Scanner} {x : Lexeme} {xs : List Lexeme}

/-- A text cut behind blanks is scanned to some lexemes: so is the body of a
loop. -/
theorem body_of_tape {blanks rest : List Char} (hblanks : ∀ c ∈ blanks, isBlank c = true)
    (hrest : ∀ c ∈ rest.head?, isBlank c = false) {p : Position}
    (htape : (between (before ++ blanks) rest).tape = .ofList p xs) :
    body? (before ++ blanks ++ rest) (Position.byteCount before) = some (if xs = [] then none else some (.ofList p xs)) ∧
      ∃ s, at? (before ++ blanks ++ rest) (Position.byteCount before) = some s ∧ s.tape.lexemes = .ok xs :=
  ⟨body?_append hblanks hrest htape, _, at?_append hblanks hrest, by rw [htape, Tape.lexemes_ofList]⟩

/-- Without a lexeme the colon before the body is cut off, and there is no
body. -/
theorem body_of_blanks {blanks : List Char} (hblanks : ∀ c ∈ blanks, isBlank c = true) (before : List Char) :
    body? (withoutFinalColon (before ++ [':'] ++ blanks)) (Position.byteCount (before ++ [':'])) = some none ∧
      ∃ s, at? (withoutFinalColon (before ++ [':'] ++ blanks)) (Position.byteCount (before ++ [':'])) = some s ∧
        s.tape.lexemes = .ok [] := by
  have hlt : Position.byteCount before < Position.byteCount (before ++ [':']) := by
    rw [Position.byteCount_append]
    exact Nat.lt_add_of_pos_right (Position.byteCount_pos (List.cons_ne_nil _ _))
  have htext : withoutFinalColon (before ++ [':'] ++ blanks) = before := by
    rw [List.append_assoc]
    exact withoutFinalColon_colon (trimEndList_blanks hblanks)
  rw [htext]
  refine ⟨?_, between before [], at?_of_lt hlt, by rw [tape_between_nil]; rfl⟩
  rw [body?, Cursor.holds, Cursor.split?_of_lt hlt]
  rfl

/-- **The body of a loop is what is scanned of its text**, where it ends before
a lexeme. The text is what lies between the colon before the body and that
lexeme, without a colon and spaces at its end. -/
theorem Takes.body {tail : List Char}
    (h : (between (before ++ [':'] ++ tail.takeWhile isBlank) (tail.dropWhile isBlank)).Takes xs after)
    (hmode : after.mode = .statement) (hafter : after.cursor.rest ≠ []) :
    ∃ u, tail = u ++ after.cursor.rest ∧ after = between (before ++ [':'] ++ u) after.cursor.rest ∧
      body? (withoutFinalColon (before ++ [':'] ++ u)) (Position.byteCount (before ++ [':'])) = some (Tape.ofBody xs) ∧
      ∃ s, at? (withoutFinalColon (before ++ [':'] ++ u)) (Position.byteCount (before ++ [':'])) = some s ∧
        s.tape.lexemes = .ok (Lexeme.withoutFinalColon xs) := by
  have hblanks : ∀ c ∈ tail.takeWhile isBlank, isBlank c = true := List.all_eq_true.1 List.all_takeWhile
  have htail : tail = tail.takeWhile isBlank ++ tail.dropWhile isBlank := List.takeWhile_append_dropWhile.symm
  have hhead {v : List Char} (hv : v <+: tail.dropWhile isBlank) : ∀ c ∈ v.head?, isBlank c = false :=
    fun c hc => head?_dropWhile c (mem_head?_longer hv c hc)
  generalize tail.takeWhile isBlank = blanks at h hblanks htail
  generalize tail.dropWhile isBlank = r at h htail hhead
  subst htail
  rcases List.eq_nil_or_concat' xs with rfl | ⟨ys, y, rfl⟩
  · cases h
    exact ⟨blanks, rfl, rfl, body_of_blanks hblanks before⟩
  obtain ⟨u, w, last, g, hr, hend, hg, hextent, hcomment, hfirst, hwhole⟩ := h.exists_last hmode hafter
  refine ⟨blanks ++ (u ++ (w ++ last :: g)), ?_, ?_, ?_⟩
  · rw [hr]
    simp
  · rw [← List.append_assoc]
    exact hend
  by_cases hcolon : y.token = .colon
  · -- the colon at the end is cut off, and with it the blanks behind it
    obtain rfl := hextent.alone hcolon
    obtain rfl := hextent.colon.2 hcolon
    have htext : withoutFinalColon (before ++ [':'] ++ blanks ++ u ++ ':' :: g) = before ++ [':'] ++ blanks ++ u :=
      withoutFinalColon_colon (trimEndList_blanks hg)
    have hbody := body_of_tape hblanks (hhead ⟨_, by rw [hr, List.append_assoc]⟩) hfirst
    rw [← htext] at hbody
    rw [Tape.ofBody_colon ys hcolon, Lexeme.withoutFinalColon, List.getLast?_concat, Option.map_some, hcolon, if_pos rfl,
      List.dropLast_concat]
    simpa using hbody
  · -- the blanks behind the last lexeme are cut off
    have hlast : last ≠ ':' := fun h => hcolon (hextent.colon.1 h)
    have hgap : withoutFinalColon g = [] := by
      rw [withoutFinalColon, trimEndList_blanks hg]
      rfl
    have htext : withoutFinalColon (before ++ [':'] ++ (blanks ++ (u ++ (w ++ last :: g)))) =
        before ++ [':'] ++ blanks ++ (u ++ (w ++ [last])) := by
      have hkept : withoutFinalColon (before ++ [':'] ++ blanks ++ u ++ w ++ last :: g) = _ :=
        withoutFinalColon_append_cons hextent.space (.inl hlast)
      rw [hgap] at hkept
      simpa using hkept
    have hbody := body_of_tape hblanks (hhead ⟨g ++ after.cursor.rest, by simp [hr]⟩) hwhole
    rw [if_neg (by simp)] at hbody
    rw [htext, Tape.ofBody_other ys hcolon hcomment, Lexeme.withoutFinalColon, List.getLast?_concat, Option.map_some,
      if_neg (by simpa using hcolon)]
    exact hbody

/-! ### Looking for the end of a loop by offsets -/

/-- Where a loop over `counter` ends whose body begins at the offset: the offset
of its `NEXT`, and the one where the line goes on behind `NEXT` and its
variable. Without such a `NEXT` it ends with the text. -/
def closing? (cs : List Char) (counter : String) (offset : Nat) : Option (Except Error (Option Nat × Option Nat)) :=
  (at? cs offset).map fun s => (s.tape.untilNext counter 0).map fun found =>
    ((s.tape.drop found.1.length).offset?, found.2.bind Tape.offset?)

variable {cs : List Char}

theorem Takes.ready (h : s.Takes xs after) (hs : s.Ready cs) : after.Ready cs := by
  induction h with
  | nil => exact hs
  | cons hnext _ ih => exact ih (hs.of_next hnext)

theorem Takes.mode_eq (h : s.Takes xs after) (hs : s.mode = .statement) (hremark : ∀ x ∈ xs, x.token ≠ .verb .remark) :
    after.mode = .statement := by
  induction h with
  | nil => exact hs
  | cons hnext _ ih =>
    refine ih ?_ fun y hy => hremark y (List.mem_cons_of_mem _ hy)
    rcases next_eq_some hnext with ⟨hmode, -⟩ | ⟨-, t, stop, -, rfl, rfl⟩
    · rw [hs] at hmode
      cases hmode
    · exact if_neg (hremark _ List.mem_cons_self)

/-- A scanner that takes no comment is inside a line. -/
theorem mode_eq_statement (h : s.next = (.ok (some x), after)) (hs : s.mode ≠ .start)
    (hcomment : ∀ t, x.token ≠ .comment t) : s.mode = .statement := by
  refine Mode.eq_statement hs fun hm => ?_
  rcases next_eq_some h with ⟨-, rfl, -⟩ | ⟨hmode, -⟩
  · exact hcomment _ rfl
  · exact hmode hm

/-- A scanner inside a line is found again at its offset. -/
theorem Ready.at?_offset (h : s.Ready cs) (hs : s.mode = .statement) : at? cs s.cursor.position.offset = some s := by
  obtain ⟨⟨p, rest⟩, mode⟩ := s
  obtain rfl : mode = .statement := hs
  obtain ⟨before, rfl, rfl⟩ : ∃ before, before ++ rest = cs ∧ p = .after before := h.standsIn
  have hat : at? (before ++ [] ++ rest) (Position.byteCount before) = _ := at?_append (by simp) h.head
  rw [List.append_nil] at hat
  exact hat

/-- A tape that can be scanned begins where its scanner stands. -/
theorem offset?_tape (h : s.tape.Scanned) : s.tape.offset? = some s.cursor.position.offset := by
  rw [tape_eq] at h ⊢
  split
  case h_1 e after hnext =>
    rw [hnext] at h
    exact absurd rfl (h e)
  case h_2 => rfl
  case h_3 x after hnext => exact congrArg (fun p : Position => some p.offset) (start_of_next hnext)

/-- What lies before and behind a colon on the tape of a text, and the scanner
behind it. -/
theorem exists_behind_colon (hs : s.Ready cs) {rest : Tape} (hfrom : s.tape.From (.cons x rest)) (hx : x.token = .colon) :
    ∃ before tail s', cs = before ++ [':'] ++ tail ∧ x.start.offset + 1 = Position.byteCount (before ++ [':']) ∧
      s' = between (before ++ [':'] ++ tail.takeWhile isBlank) (tail.dropWhile isBlank) ∧ s'.Ready cs ∧ s'.tape = rest ∧
      at? cs (x.start.offset + 1) = some s' := by
  obtain ⟨⟨⟨p, r⟩, mode⟩, after, hs', hnext, rfl⟩ := exists_next_of_from hs hfrom
  obtain ⟨before, rfl, rfl⟩ : ∃ before, before ++ r = cs ∧ p = .after before := hs'.standsIn
  have hstatement : (between before r).next = (.ok (some x), after) :=
    next_statement hnext (by simp [hx]) (by simp [hx])
  obtain ⟨w, last, tail, rfl, hextent, -, hstart, -, hcut⟩ := next_between hstatement
  obtain rfl := hextent.alone hx
  obtain rfl := hextent.colon.2 hx
  obtain ⟨-, hafter⟩ := Prod.mk.inj (hstatement.symm.trans (hcut tail (List.prefix_refl tail)))
  rw [hx, if_neg (by simp), Cursor.skipBlanks_after, List.append_nil] at hafter
  have hoffset : x.start.offset + 1 = Position.byteCount (before ++ [':']) := by
    rw [hstart, Position.byteCount_append]
    rfl
  have htext : before ++ ([] ++ ':' :: tail) =
      before ++ [':'] ++ tail.takeWhile isBlank ++ tail.dropWhile isBlank := by
    rw [List.append_assoc (before ++ [':']), List.takeWhile_append_dropWhile]
    simp
  refine ⟨before, tail, after, by simp, hoffset, hafter, hs'.of_next hnext, rfl, ?_⟩
  rw [hoffset, htext, hafter]
  exact at?_append (List.all_eq_true.1 List.all_takeWhile) head?_dropWhile

/-- Behind a colon, looking for the end of a loop by offsets finds what is found
on the tape. -/
theorem closing?_behind_colon (hs : s.Ready cs) {rest : Tape} (hfrom : s.tape.From (.cons x rest))
    (hx : x.token = .colon) (counter : String) :
    closing? cs counter (x.start.offset + 1) = some ((rest.untilNext counter 0).map fun found =>
      ((rest.drop found.1.length).offset?, found.2.bind Tape.offset?)) := by
  obtain ⟨-, -, s', -, -, -, -, rfl, hat⟩ := exists_behind_colon hs hfrom hx
  rw [closing?, hat]
  rfl

/-- **A loop that is closed, in the text.** The text is cut before `NEXT`, and
scanned again from behind `NEXT` and its variable. -/
theorem closed_behind_colon (hs : s.Ready cs) {rest : Tape} (hfrom : s.tape.From (.cons x rest)) (hx : x.token = .colon)
    {counter : String} {body : List Lexeme} {r : Tape} (hloop : rest.untilNext counter 0 = .ok (body, some r)) :
    ∃ front back, cs = front ++ back ∧ (rest.drop body.length).offset? = some (Position.byteCount front) ∧
      body? (withoutFinalColon front) (x.start.offset + 1) = some (Tape.ofBody body) ∧
      (∃ s, at? (withoutFinalColon front) (x.start.offset + 1) = some s ∧
        s.tape.lexemes = .ok (Lexeme.withoutFinalColon body)) ∧
      ∃ u, u.Ready cs ∧ u.tape = r ∧ r.offset? = some u.cursor.position.offset ∧
        at? cs u.cursor.position.offset = some u := by
  obtain ⟨before, tail, s', hcs, hoffset, hs', hready, htape, -⟩ := exists_behind_colon hs hfrom hx
  cases Tape.closes_untilNext hloop with
  | @closed _ next named _ hnext hnamed hscanned =>
    -- the scanner takes the body, then `NEXT` and its variable
    obtain ⟨u, htakes, rfl⟩ := exists_takes htape
    obtain ⟨m, hbody, hclosing⟩ := htakes.split
    obtain ⟨after, hmnext⟩ : ∃ after, m.next = (.ok (some next), after) := by
      cases hclosing with
      | cons hnext' _ => exact ⟨_, hnext'⟩
    have hstart : s'.mode ≠ .start := by
      rw [hs']
      exact Mode.noConfusion
    have hmode := mode_eq_statement hmnext (hbody.mode_ne_start hstart) (by simp [hnext])
    have hrest : m.cursor.rest ≠ [] := rest_ne_nil_of_next hmnext (by rw [hmode]; exact Mode.noConfusion)
    have hremark : ∀ y ∈ next :: named, y.token ≠ .verb .remark := by
      intro y hy
      rcases List.mem_cons.1 hy with rfl | hy
      · simp [hnext]
      · simp [hnamed y hy]
    have huready := htakes.ready hready
    obtain ⟨v, hv, hm, hbody?, hbodyTape⟩ := (hs' ▸ hbody).body hmode hrest
    rw [← hoffset] at hbody? hbodyTape
    refine ⟨before ++ [':'] ++ v, m.cursor.rest, by rw [hcs, hv]; simp, ?_, hbody?, hbodyTape, u, huready, rfl,
      offset?_tape hscanned, huready.at?_offset (hclosing.mode_eq hmode hremark)⟩
    rw [List.foldr_append, Tape.drop_foldr]
    refine congrArg some ?_
    rw [start_of_next hmnext, hm]
    rfl

end Scanner

/-! ### The loop -/

/-- **Where a loop in one line is closed, and what is scanned of its parts.**
Behind a colon stand a balanced body, then `NEXT`, perhaps with the variable of
the loop, and then the rest of the line. If no `NEXT` ends the body, and no
other name follows the closing one, looking for the end of the loop finds where
this `NEXT` and the rest begin. The line cut off before `NEXT`, without spaces
and a colon at its end, is scanned behind the first colon to the body without a
final colon. From where it begins on, the rest is scanned as it stands in the
line. -/
theorem closed_loop_text {cs : List Char} {s : Scanner} (hs : s.Ready cs) {before body named rest : List Lexeme}
    {colon next : Lexeme} {counter : String}
    (hline : s.tape.lexemes = .ok (before ++ colon :: (body ++ next :: (named ++ rest))))
    (hcolon : colon.token = .colon) (hbody : Balanced 0 (body.map (·.token)))
    (hlast : body.getLast?.map (·.token) ≠ some (.verb .next)) (hnext : next.token = .verb .next)
    (hnamed : named.map (·.token) = [.name counter] ∨ named = [] ∧ ∀ y ∈ rest.head?, ∀ other, y.token ≠ .name other) :
    Scanner.closing? cs counter (colon.start.offset + 1) = some (.ok (some next.start.offset, some (offsetOf cs rest))) ∧
      (∃ front back, Cursor.split? next.start.offset cs = some (front, back) ∧
        Scanner.body? (withoutFinalColon front) (colon.start.offset + 1) = some (Tape.ofBody body) ∧
        ∃ s, Scanner.at? (withoutFinalColon front) (colon.start.offset + 1) = some s ∧
          s.tape.lexemes = .ok (Lexeme.withoutFinalColon body)) ∧
      ∃ s, Scanner.at? cs (offsetOf cs rest) = some s ∧ s.tape.lexemes = .ok rest := by
  obtain ⟨p, hp⟩ := Tape.exists_ofList_of_lexemes hline
  have hfrom := Tape.from_ofList p before colon (body ++ next :: (named ++ rest))
  rw [← hp] at hfrom
  have hclosed : Tape.untilNext counter 0 (.cons next (.ofList p (named ++ rest))) = .ok ([], some (.ofList p rest)) := by
    rcases hnamed with hnamed | ⟨rfl, hname⟩
    · obtain ⟨y, rfl, hy⟩ := List.map_eq_singleton_iff.1 hnamed
      exact Tape.untilNext_named hnext hy (Tape.scanned_ofList p rest)
    · refine Tape.untilNext_alone counter hnext (Tape.scanned_ofList p rest) ?_
      cases rest with
      | nil => simp [Tape.ofList, Tape.peek?]
      | cons y rest => simpa [Tape.ofList, Tape.peek?] using hname y rfl
  have hloop : Tape.untilNext counter 0 (.ofList p (body ++ next :: (named ++ rest))) =
      .ok (body, some (.ofList p rest)) := by
    rw [Tape.ofList_append, Tape.ofList, Tape.untilNext_foldr counter hbody (fun h => absurd h hlast), hclosed]
    simp [Tape.keep, Except.map]
  obtain ⟨front, back, hcs, hstop, hbody?, hbodyTape, u, hu, hrest, hresume, hat⟩ :=
    Scanner.closed_behind_colon hs hfrom hcolon hloop
  have hoffset := Scanner.closing?_behind_colon hs hfrom hcolon counter
  rw [Scanner.offset_of_tape hu hrest] at hresume hat
  rw [hloop, Except.map, Option.bind_some, hresume] at hoffset
  rw [Tape.ofList_append, Tape.drop_foldr] at hstop hoffset
  refine ⟨hoffset, ⟨front, back, ?_, hbody?, hbodyTape⟩, u, hat, by rw [hrest, Tape.lexemes_ofList]⟩
  exact Cursor.split?_eq_some_iff.2 ⟨hcs, (Option.some.inj hstop).symm⟩

-- A loop with another one in its body, and a character of two bytes between the
-- colon and `NEXT`.
theorem closed_loop_text_nested :
    let text := "FOR I=1 TO 2:FOR J=I TO 2:PRINT \"é\": NEXT :NEXT I:END"
    ∃ body rest : List Lexeme, body.map (·.token) = [.verb .loop, .name "J", .equal, .name "I", .keyword .upTo, .number 2,
        .colon, .verb .print, .quoted "é", .colon, .verb .next, .colon] ∧
      rest.map (·.token) = [.colon, .verb .finish] ∧
      Scanner.closing? text.toList "I" 13 = some (.ok (some 44, some 50)) ∧
      (∃ front back, Cursor.split? 44 text.toList = some (front, back) ∧
        ∃ s, Scanner.at? (withoutFinalColon front) 13 = some s ∧ s.tape.lexemes = .ok body.dropLast) ∧
      ∃ s, Scanner.at? text.toList 50 = some s ∧ s.tape.lexemes = .ok rest := by
  intro text
  let xs := (Tape.ofLine text).lexemes.toOption.getD []
  let pick (k : Nat) : Lexeme := xs.getD k ⟨.colon, .start, .start⟩
  let body := (xs.drop 7).take 12
  let rest := xs.drop 21
  have hline : (Tape.ofLine text).lexemes = .ok (xs.take 6 ++ pick 6 :: (body ++ pick 19 :: ([pick 20] ++ rest))) := by
    decide +kernel
  -- evaluated together, so that the text is scanned once for all of them
  obtain ⟨hcolon, hbalanced, hlast, hnext, hnamed⟩ : (pick 6).token = .colon ∧ Balanced 0 (body.map (·.token)) ∧
      body.getLast?.map (·.token) ≠ some (.verb .next) ∧ (pick 19).token = .verb .next ∧
      [pick 20].map (·.token) = [.name "I"] := by decide +kernel
  obtain ⟨hstart, hstop, hresume, hkept⟩ : (pick 6).start.offset = 12 ∧ (pick 19).start.offset = 44 ∧
      offsetOf text.toList rest = 50 ∧ Lexeme.withoutFinalColon body = body.dropLast := by decide +kernel
  obtain ⟨hclosing, ⟨front, back, hsplit, -, s, hat, hbody⟩, hrest⟩ :=
    closed_loop_text (Scanner.ready_ofText text.toList) hline hcolon hbalanced hlast hnext (.inl hnamed)
  rw [hstart, hstop, hresume] at hclosing
  rw [hstop] at hsplit
  rw [hstart] at hat
  rw [hresume] at hrest
  rw [hkept] at hbody
  exact ⟨body, rest, by decide +kernel, by decide +kernel, hclosing, ⟨front, back, hsplit, s, hat, hbody⟩, hrest⟩

/-- A `NEXT` with the name of another variable closes nothing, although the body
before it is balanced. -/
theorem other_name_leaves_open :
    ¬∀ (cs : List Char) (s : Scanner) (before body rest : List Lexeme) (colon next : Lexeme) (counter : String),
      s.Ready cs → s.tape.lexemes = .ok (before ++ colon :: (body ++ next :: rest)) → colon.token = .colon →
      Balanced 0 (body.map (·.token)) → next.token = .verb .next →
      Scanner.closing? cs counter (colon.start.offset + 1) =
        some (.ok (some next.start.offset, some (offsetOf cs rest))) := by
  intro hclosing
  let text := "FOR I=1 TO 2: PRINT I: NEXT A"
  let xs := (Tape.ofLine text).lexemes.toOption.getD []
  let pick (k : Nat) : Lexeme := xs.getD k ⟨.colon, .start, .start⟩
  let body := (xs.drop 7).take 3
  have hline : (Tape.ofLine text).lexemes = .ok (xs.take 6 ++ pick 6 :: (body ++ pick 10 :: xs.drop 11)) := by
    decide +kernel
  obtain ⟨hcolon, hbalanced, hnext⟩ : (pick 6).token = .colon ∧ Balanced 0 (body.map (·.token)) ∧
      (pick 10).token = .verb .next := by decide +kernel
  have hfound := hclosing text.toList (Scanner.ofText text.toList) _ body _ (pick 6) (pick 10) "I"
    (Scanner.ready_ofText text.toList) hline hcolon hbalanced hnext
  have hopen : Scanner.closing? text.toList "I" ((pick 6).start.offset + 1) = some (.ok (some 29, none)) := by
    decide +kernel
  rw [hopen] at hfound
  simp at hfound

-- A `NEXT` that ends the body takes the closing one for its variable.
example : Scanner.closing? "FOR I=1 TO 2: FOR J=1 TO 1: PRINT J: NEXT NEXT".toList "I" 13 =
    some (.ok (some 46, none)) := by decide +kernel

end LineBasic
