import LineBasic.Proofs.Alike.Execute
import LineBasic.Proofs.Machine.LoopText

/-!
# The texts that a line is cut into

A loop in one line is taken out of its text by offsets. The text is scanned from
behind the colon of its head, cut off before `NEXT`, scanned from behind the
same colon once more, and scanned from where the line goes on. The body may hold
loops in turn, which are taken out of the text of the body in the same way, by
offsets that were found there. Every offset falls between two characters of the
text to which it is applied, or on its end. Only behind a body without any
lexemes may it lie beyond the end, and then it is not used.

* `Scanner.loop?`: a loop taken apart by offsets, if they all fall between
  characters.
* `Fragment`: the texts and tapes that a line leads to in this way.
* `Fragment.cuts`: no offset falls elsewhere, and the parts of a loop are those
  found on the tape.
* `offsets_between_characters`: so it is for all that is read of a line.
-/

namespace LineBasic

/-! ### Taking a loop apart -/

namespace Scanner

/-- The tape of a text from an offset on, if there is such an offset. -/
def resume? (cs : List Char) : Option Nat → Option (Option Tape)
  | none => some none
  | some offset => (at? cs offset).map (some ·.tape)

/-- A loop whose body begins at the offset, taken apart by offsets: the text of
the body, its tape if it has one, and the tape where the line goes on. There is
nothing if some offset falls inside a character, or if the text would be cut
beyond its end. -/
def loop? (cs : List Char) (counter : String) (offset : Nat) :
    Option (Except Error (List Char × Option Tape × Option Tape)) :=
  match closing? cs counter offset with
  | none => none
  | some (.error e) => some (.error e)
  | some (.ok (stop, resume)) => do
    let parts ← Cursor.split? (← stop) cs
    let body ← body? (withoutFinalColon parts.1) offset
    let rest ← resume? cs resume
    return .ok (withoutFinalColon parts.1, body, rest)

variable {cs front : List Char} {s : Scanner} {counter : String} {offset : Nat}

theorem ready_of_at? (h : at? cs offset = some s) : s.Ready cs := by
  obtain ⟨-, -, rfl⟩ := Option.map_eq_some_iff.1 h
  exact ready_atOffset cs offset

theorem exists_ready_of_body? {t : Tape} (h : body? cs offset = some (some t)) :
    ∃ s : Scanner, s.Ready cs ∧ s.tape = t := by
  unfold body? at h
  split at h
  · obtain ⟨s, hs, ht⟩ := Option.map_eq_some_iff.1 h
    exact ⟨s, ready_of_at? hs, Option.some.inj ht⟩
  · cases h

theorem exists_ready_of_resume? {t : Tape} {resume : Option Nat} (h : resume? cs resume = some (some t)) :
    ∃ s : Scanner, s.Ready cs ∧ s.tape = t := by
  cases resume with
  | none => cases h
  | some offset =>
    obtain ⟨s, hs, ht⟩ := Option.map_eq_some_iff.1 h
    exact ⟨s, ready_of_at? hs, Option.some.inj ht⟩

/-- The tape of the body is one of its text, and the other tape one of the whole
text. -/
theorem loop?_eq_ok {body rest : Option Tape} (h : loop? cs counter offset = some (.ok (front, body, rest))) :
    body? front offset = some body ∧ ∃ resume, resume? cs resume = some rest := by
  unfold loop? at h
  split at h
  case h_1 => cases h
  case h_2 => cases h
  case h_3 stop resume hclosing =>
    obtain ⟨n, -, h⟩ := Option.bind_eq_some_iff.1 h
    obtain ⟨parts, -, h⟩ := Option.bind_eq_some_iff.1 h
    obtain ⟨b, hbody, h⟩ := Option.bind_eq_some_iff.1 h
    obtain ⟨r, hrest, h⟩ := Option.bind_eq_some_iff.1 h
    obtain ⟨rfl, htapes⟩ := Prod.mk.inj (Except.ok.inj (Option.some.inj h))
    obtain ⟨rfl, rfl⟩ := Prod.mk.inj htapes
    exact ⟨hbody, resume, hrest⟩

/-- Taking a loop apart, step by step. -/
theorem loop?_of_closing? {stop : Nat} {resume : Option Nat} {back : List Char} {body rest : Option Tape}
    (hclosing : closing? cs counter offset = some (.ok (some stop, resume)))
    (hsplit : Cursor.split? stop cs = some (front, back)) (hbody : body? (withoutFinalColon front) offset = some body)
    (hrest : resume? cs resume = some rest) :
    loop? cs counter offset = some (.ok (withoutFinalColon front, body, rest)) := by
  simp only [loop?, hclosing, hsplit, hbody, hrest, Option.bind_eq_bind, Option.bind_some]
  rfl

/-- What is scanned of a text behind a colon has the tokens of the text, and
there is none without a token. -/
theorem body?_of_scans {tail : List Char} {ts : List Token} (h : Scans (tail.dropWhile isBlank) ts) (before : List Char) :
    ∃ b, body? (before ++ tail) (Position.byteCount before) = some b ∧ (b = none ↔ ts = []) ∧
      ∀ t ∈ b, t.tokens? = some ts := by
  have hat : at? (before ++ tail) (Position.byteCount before) =
      some (between (before ++ tail.takeWhile isBlank) (tail.dropWhile isBlank)) := by
    rw [← at?_append (List.all_eq_true.1 List.all_takeWhile) head?_dropWhile, List.append_assoc,
      List.takeWhile_append_dropWhile]
  have htokens : (between (before ++ tail.takeWhile isBlank) (tail.dropWhile isBlank)).tape.tokens? = some ts :=
    h.tokens?_tape rfl
  have hholds : Cursor.holds (Position.byteCount before) (before ++ tail) = true ↔ ts ≠ [] := by
    rw [Cursor.holds, Cursor.split?_append, Option.any_some, Ne, h.eq_nil_iff, trimEndList_eq_nil_iff]
    simp
  generalize between (before ++ tail.takeWhile isBlank) (tail.dropWhile isBlank) = s at hat htokens
  by_cases hts : ts = []
  · refine ⟨none, ?_, by simp [hts], by simp⟩
    rw [body?, if_neg fun hold => hholds.1 hold hts]
  · refine ⟨some s.tape, ?_, by simp [hts], by simpa using htokens⟩
    rw [body?, if_pos (hholds.2 hts), hat]
    rfl

/-- The lexemes of a text end with it. -/
theorem Ready.offset_of_stop (hs : s.Ready cs) {p : Position} {xs : List Lexeme} (htape : s.tape = .ofList p xs) :
    p.offset = Position.byteCount cs := by
  induction xs generalizing s with
  | nil =>
    have hoffset := offset?_tape (s := s) (by rw [htape]; exact Tape.scanned_ofList p [])
    rw [htape, offset_of_tape hs htape] at hoffset
    exact Option.some.inj hoffset
  | cons x xs ih =>
    obtain ⟨after, hnext, hrest⟩ := next_of_tape htape
    exact ih (hs.of_next hnext) hrest

/-- **The body of a loop that is not closed is alike to what is scanned of its
text.** -/
theorem body_of_opened {p : Position} {body : List Lexeme} {before tail : List Char}
    (htape : (between (before ++ [':'] ++ tail.takeWhile isBlank) (tail.dropWhile isBlank)).tape = .ofList p body) :
    ∃ b, body? (withoutFinalColon (before ++ [':'] ++ tail)) (Position.byteCount (before ++ [':'])) = some b ∧
      Option.Rel Tape.Alike (Tape.ofBody body) b := by
  have hscans : Scans (tail.dropWhile isBlank) (body.map (·.token)) :=
    scans_of_tape (s := between _ _) rfl (by rw [htape, Tape.tokens?_ofList])
  by_cases hbody : body = []
  · subst hbody
    have hblanks : ∀ c ∈ tail, isBlank c = true := by
      have hnil : tail.dropWhile isBlank = [] := by
        generalize tail.dropWhile isBlank = r at hscans
        cases hscans
        rfl
      exact List.dropWhile_eq_nil_iff.1 hnil
    exact ⟨none, (body_of_blanks hblanks before).1, .none⟩
  · have htail : trimEndList tail ≠ [] := by
      rw [Ne, ← hscans.eq_nil_iff, List.map_eq_nil_iff]
      exact hbody
    have hshort := hscans.shortened
    rw [← dropWhile_withoutFinalColon] at hshort
    obtain ⟨b, hb, hnone, htokens⟩ := body?_of_scans hshort (before ++ [':'])
    rw [withoutFinalColon_append htail]
    refine ⟨b, hb, ?_⟩
    obtain ⟨hempty, hnil⟩ | ⟨t, ht, htokens', hne⟩ := Tape.ofBody_cases body
    · rw [hempty, hnone.2 hnil]
      exact .none
    · cases b with
      | none => exact absurd (hnone.1 rfl) hne
      | some t' =>
        rw [ht]
        exact .some (Tape.alike_of_tokens? htokens' (htokens t' rfl))

/-- A loop was taken apart as it was found on the tape: with the same error, or
with a body alike and the same rest. -/
inductive Cuts (cs : List Char) :
    Except Error (List Lexeme × Option Tape) → Option (Except Error (List Char × Option Tape × Option Tape)) → Prop
  | error (e : Error) : Cuts cs (.error e) (some (.error e))
  | ok {body : List Lexeme} {front : List Char} {b : Option Tape} (rest : Option Tape) : front <+: cs →
      Option.Rel Tape.Alike (Tape.ofBody body) b → Cuts cs (.ok (body, rest)) (some (.ok (front, b, rest)))

variable {x : Lexeme} {body : List Lexeme}

/-- A loop that is closed is cut off before `NEXT`. -/
theorem cuts_of_closed {rest r : Tape} (hs : s.Ready cs) (hfrom : s.tape.From (.cons x rest)) (hx : x.token = .colon)
    (hloop : rest.untilNext counter 0 = .ok (body, some r)) :
    Cuts cs (.ok (body, some r)) (loop? cs counter (x.start.offset + 1)) := by
  have hclosing := closing?_behind_colon hs hfrom hx counter
  obtain ⟨front, back, hcs, hstop, hbody, -, u, -, rfl, hresume, hat⟩ := closed_behind_colon hs hfrom hx hloop
  rw [hloop, Except.map, hstop, Option.bind_some, hresume] at hclosing
  have hrest : resume? cs (some u.cursor.position.offset) = some (some u.tape) := by
    rw [resume?, hat]
    rfl
  rw [loop?_of_closing? hclosing (Cursor.split?_eq_some_iff.2 ⟨hcs, rfl⟩) hbody hrest]
  refine .ok (some u.tape) ((withoutFinalColon_isPrefix front).trans ⟨back, hcs.symm⟩) ?_
  cases Tape.ofBody body with
  | none => exact .none
  | some t => exact .some (.refl t)

/-- A loop that is not closed is cut off at the end of the text. -/
theorem cuts_of_opened {p : Position} (hs : s.Ready cs) (hfrom : s.tape.From (.cons x (.ofList p body)))
    (hx : x.token = .colon) (hloop : (Tape.ofList p body).untilNext counter 0 = .ok (body, none)) :
    Cuts cs (.ok (body, none)) (loop? cs counter (x.start.offset + 1)) := by
  have hclosing := closing?_behind_colon hs hfrom hx counter
  obtain ⟨before, tail, s', hcs, hoffset, hs', hready, htape, -⟩ := exists_behind_colon hs hfrom hx
  have hstop : ((Tape.ofList p body).drop body.length).offset? = some (Position.byteCount cs) := by
    have hdrop := Tape.drop_foldr body (.ofList p [])
    rw [← Tape.ofList_append, List.append_nil] at hdrop
    rw [hdrop, ← hready.offset_of_stop htape]
    rfl
  rw [hloop, Except.map, hstop] at hclosing
  obtain ⟨b, hbody, halike⟩ := body_of_opened (hs' ▸ htape)
  rw [← hcs, ← hoffset] at hbody
  rw [loop?_of_closing? hclosing (Cursor.split?_byteCount cs) hbody rfl]
  exact .ok none (withoutFinalColon_isPrefix cs) halike

/-- **Behind a colon every loop can be taken apart by offsets.** -/
theorem cuts_behind_colon {rest : Tape} (hs : s.Ready cs) (hfrom : s.tape.From (.cons x rest))
    (hx : x.token = .colon) (counter : String) :
    Cuts cs (rest.untilNext counter 0) (loop? cs counter (x.start.offset + 1)) := by
  cases hloop : rest.untilNext counter 0 with
  | error e =>
    have hclosing := closing?_behind_colon hs hfrom hx counter
    rw [hloop] at hclosing
    have herror : loop? cs counter (x.start.offset + 1) = some (.error e) := by
      rw [loop?, hclosing]
      rfl
    rw [herror]
    exact .error e
  | ok found =>
    obtain ⟨body, r⟩ := found
    cases r with
    | some r => exact cuts_of_closed hs hfrom hx hloop
    | none =>
      cases Tape.closes_untilNext hloop with
      | opened p => exact cuts_of_opened hs hfrom hx hloop

end Scanner

/-! ### The texts of a line -/

/-- The texts that interpreting a line leads to, each with a tape of it: the
line as it was entered or stored, what is left behind a lexeme, and the parts of
every loop that may be taken apart behind a colon. -/
inductive Fragment (text : String) : List Char → Tape → Prop
  | line : Fragment text text.toList (.ofLine text)
  | statements {s : Scanner} : Scanner.at? text.toList 0 = some s → Fragment text text.toList s.tape
  | behind {cs : List Char} {x : Lexeme} {rest : Tape} : Fragment text cs (.cons x rest) → Fragment text cs rest
  | body {cs front : List Char} {x : Lexeme} {rest t : Tape} {counter : String} {r : Option Tape} :
      Fragment text cs (.cons x rest) → x.token = .colon →
      Scanner.loop? cs counter (x.start.offset + 1) = some (.ok (front, some t, r)) → Fragment text front t
  | resume {cs front : List Char} {x : Lexeme} {rest t : Tape} {counter : String} {b : Option Tape} :
      Fragment text cs (.cons x rest) → x.token = .colon →
      Scanner.loop? cs counter (x.start.offset + 1) = some (.ok (front, b, some t)) → Fragment text cs t

namespace Fragment

variable {text : String} {cs : List Char} {t : Tape}

/-- The tape of each text is scanned in it. -/
theorem exists_ready (h : Fragment text cs t) : ∃ s : Scanner, s.Ready cs ∧ s.tape = t := by
  induction h with
  | line => exact ⟨_, Scanner.ready_ofText text.toList, rfl⟩
  | statements hs => exact ⟨_, Scanner.ready_of_at? hs, rfl⟩
  | behind _ ih =>
    obtain ⟨s, hs, htape⟩ := ih
    obtain ⟨after, hnext, hrest⟩ := Scanner.next_of_tape htape
    exact ⟨after, hs.of_next hnext, hrest⟩
  | body _ _ hloop _ => exact Scanner.exists_ready_of_body? (Scanner.loop?_eq_ok hloop).1
  | resume _ _ hloop _ =>
    obtain ⟨-, offset, hrest⟩ := Scanner.loop?_eq_ok hloop
    exact Scanner.exists_ready_of_resume? hrest

theorem drop (h : Fragment text cs t) (n : Nat) : Fragment text cs (t.drop n) := by
  induction n generalizing t with
  | zero => exact h
  | succ n ih =>
    cases t with
    | stop => exact h
    | broken => exact h
    | cons x rest => exact ih h.behind

/-- **In each of the texts every loop can be taken apart by offsets.** -/
theorem cuts {x : Lexeme} {rest : Tape} (h : Fragment text cs (.cons x rest)) (hx : x.token = .colon) (counter : String) :
    Scanner.Cuts cs (rest.untilNext counter 0) (Scanner.loop? cs counter (x.start.offset + 1)) := by
  obtain ⟨s, hs, htape⟩ := h.exists_ready
  refine Scanner.cuts_behind_colon hs ?_ hx counter
  rw [htape]
  exact .here x rest

end Fragment

/-- The tape is alike to one that interpreting a line leads to. -/
def Tape.Among (text : String) (t : Tape) : Prop := ∃ cs u, Fragment text cs u ∧ t.Alike u

/-- Whatever a tape hands on is among the tapes of the line if it is so
itself. -/
theorem Tape.Among.hands {text : String} {t v : Tape} (h : t.Among text) (hv : t.Hands v) : v.Among text := by
  obtain ⟨cs, u, hu, halike⟩ := h
  induction hv generalizing u with
  | behind x rest =>
    cases halike with
    | cons token p q p' q' hrest => exact ⟨cs, _, hu.behind, hrest⟩
  | later x _ ih =>
    cases halike with
    | cons token p q p' q' hrest => exact ih _ hu.behind hrest
  | @body x rest v counter xs r hx hloop hbody =>
    cases halike with
    | @cons token p q p' q' _ rest' hrest =>
      have hcuts := hu.cuts hx counter
      have hfound := untilNext_alike counter 0 hrest
      rw [hloop] at hfound
      cases hloop' : rest'.untilNext counter 0 with
      | error e =>
        rw [hloop'] at hfound
        exact hfound.elim
      | ok found =>
        obtain ⟨xs', r'⟩ := found
        rw [hloop'] at hfound hcuts
        have hbodies := ofBody_alike hfound.1
        rw [hbody] at hbodies
        generalize hcut : Scanner.loop? cs counter _ = cut at hcuts
        cases hcuts with
        | @ok _ front b _ hfront htape =>
          generalize ofBody xs' = o at hbodies htape
          cases hbodies with
          | some hv =>
            cases htape with
            | some hw => exact ⟨front, _, hu.body hx hcut, hv.trans hw⟩

/-- **Interpreting never cuts a text out of bounds or inside a character.** Take
any line and any text that interpreting it leads to: the line itself, or the
body of a loop that was cut out of another of its texts. Behind each colon in
it, for whatever counter, a loop can be taken apart by offsets. This gives the
error, the rest of the line and, but for positions, the body that are found on
the tape. And these texts are all there are: a line is read from a tape of one
of them, and what is read in turn, behind its statement or as the body of its
loop, is such a tape again. -/
theorem offsets_between_characters (text : String) :
    (∀ (cs : List Char) (x : Lexeme) (rest : Tape), Fragment text cs (.cons x rest) → x.token = .colon →
      ∀ counter, Scanner.Cuts cs (rest.untilNext counter 0) (Scanner.loop? cs counter (x.start.offset + 1))) ∧
      (Tape.ofLine text).Among text ∧ (∀ x rest, Tape.ofLine text = .cons x rest → rest.Among text) ∧
      (Tape.ofStatements text).Among text ∧
      ∀ (t : Tape) (again : Tape → Script), t.Among text → (∀ u : Tape, u.Among text → again u = Script.read u) →
        Script.read t = Script.readStatement again t := by
  have hline : (Tape.ofLine text).Among text := ⟨_, _, .line, .refl _⟩
  have hstatements : Scanner.at? text.toList 0 = some (.atOffset text.toList 0) :=
    Scanner.at?_of_split? (Cursor.split?_append [] text.toList)
  refine ⟨fun cs x rest h hx counter => h.cuts hx counter, hline, ?_, ⟨_, _, .statements hstatements, .refl _⟩, ?_⟩
  · intro x rest hcons
    rw [hcons] at hline
    exact hline.hands (.behind x rest)
  · intro t again ht hagain
    rw [Script.read_eq_readStatement]
    refine Script.readStatement_congr ?_
    intro u hu
    exact (hagain u (ht.hands hu)).symm

-- The loop inside the body of another one, cut out of the text of that body,
-- with characters of two bytes in both.
theorem offsets_between_characters_nested :
    let text := "FOR I=1 TO 2:FOR J=I TO 2:PRINT \"é\": NEXT :PRINT \"ü\":NEXT I:END"
    let outer := "FOR I=1 TO 2:FOR J=I TO 2:PRINT \"é\": NEXT :PRINT \"ü\"".toList
    let inner := "FOR I=1 TO 2:FOR J=I TO 2:PRINT \"é\"".toList
    ∃ (x : Lexeme) (rest : Tape) (b r : Option Tape), Fragment text outer (.cons x rest) ∧ x.token = .colon ∧
      x.start.offset = 25 ∧ Scanner.loop? outer "J" 26 = some (.ok (inner, b, r)) ∧
      Scanner.Cuts outer (rest.untilNext "J" 0) (some (.ok (inner, b, r))) := by
  intro text outer inner
  let colon (offset : Nat) : Lexeme := ⟨.colon, ⟨1, offset + 1, offset⟩, ⟨1, offset + 2, offset + 1⟩⟩
  let parts (cs : List Char) (counter : String) (offset : Nat) : List Char × Option Tape × Option Tape :=
    ((Scanner.loop? cs counter offset).bind (·.toOption)).getD ([], none, none)
  let t := (parts text.toList "I" 13).2.1.getD (.stop .start)
  have hline : (Tape.ofLine text).drop 6 = .cons (colon 12) ((Tape.ofLine text).drop 7) := by decide +kernel
  obtain ⟨houter, hbody⟩ : Scanner.loop? text.toList "I" 13 = some (.ok (outer, some t, (parts text.toList "I" 13).2.2)) ∧
      t.drop 6 = .cons (colon 25) (t.drop 7) := by decide +kernel
  have hinner : Scanner.loop? outer "J" 26 = some (.ok (inner, (parts outer "J" 26).2)) := by decide +kernel
  have hfirst : Fragment text text.toList (.cons (colon 12) ((Tape.ofLine text).drop 7)) := by
    rw [← hline]
    exact Fragment.line.drop 6
  have hsecond : Fragment text outer (.cons (colon 25) (t.drop 7)) := by
    rw [← hbody]
    exact (hfirst.body rfl houter).drop 6
  have hcuts := (offsets_between_characters text).1 outer _ _ hsecond rfl "J"
  have hoffset : (colon 25).start.offset + 1 = 26 := rfl
  rw [hoffset, hinner] at hcuts
  exact ⟨_, _, _, _, hsecond, rfl, rfl, hinner, hcuts⟩

end LineBasic
