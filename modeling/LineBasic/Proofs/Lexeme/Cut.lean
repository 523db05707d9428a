import LineBasic.Proofs.Line.FinalColon

/-!
# Texts that are cut between lexemes

A text can be cut in two at an offset if the offset falls between two of its
characters. Where a lexeme begins this is so. If the text is cut there, what
lies before is scanned in the same way as in the whole text, also without the
blanks at its end. So some lexemes of a text can be cut out of it, and scanned
once more.

* `Cursor.split?`: a text cut at an offset, unless the offset falls outside the
  text or inside a character.
* `Scanner.at?`, `Scanner.body?`: what is scanned behind an offset, unless it
  falls inside a character.
* `Scanner.Takes`: the scanner takes these lexemes.
* `Scanner.Takes.cut`: the text of some lexemes is scanned to these lexemes.
-/

namespace LineBasic

/-! ### Cutting at an offset -/

namespace Cursor

/-- The parts of a text before and behind an offset, if it falls between two
characters or on an end of the text. -/
def split? (offset : Nat) (cs : List Char) : Option (List Char × List Char) :=
  if Position.byteCount (splitBytes offset cs).1 = offset then some (splitBytes offset cs) else none

theorem split?_eq_some_iff {offset : Nat} {cs before rest : List Char} :
    split? offset cs = some (before, rest) ↔ cs = before ++ rest ∧ Position.byteCount before = offset := by
  unfold split?
  constructor
  · intro h
    split at h
    case isTrue hcount =>
      have hparts : splitBytes offset cs = (before, rest) := Option.some.inj h
      have happend := splitBytes_append offset cs
      rw [hparts] at hcount happend
      exact ⟨happend.symm, hcount⟩
    case isFalse => cases h
  · rintro ⟨rfl, rfl⟩
    rw [splitBytes_byteCount, if_pos rfl]

theorem split?_append (before rest : List Char) :
    split? (Position.byteCount before) (before ++ rest) = some (before, rest) :=
  split?_eq_some_iff.2 ⟨rfl, rfl⟩

theorem split?_byteCount (cs : List Char) : split? (Position.byteCount cs) cs = some (cs, []) :=
  split?_eq_some_iff.2 ⟨(List.append_nil cs).symm, rfl⟩

/-- No offset beyond its end falls into a text. -/
theorem split?_of_lt {offset : Nat} {cs : List Char} (h : Position.byteCount cs < offset) : split? offset cs = none := by
  refine Option.eq_none_iff_forall_ne_some.2 ?_
  rintro ⟨before, rest⟩ hsplit
  obtain ⟨rfl, rfl⟩ := split?_eq_some_iff.1 hsplit
  rw [Position.byteCount_append] at h
  omega

/-- The text holds more than spaces behind the offset. An offset that does not
fall between its characters is rejected. -/
def holds (offset : Nat) (cs : List Char) : Bool := (split? offset cs).any fun parts => parts.2.any (!isSpace ·)

theorem skipBlanks_after (before rest : List Char) :
    skipBlanks ⟨.after before, rest⟩ = ⟨.after (before ++ rest.takeWhile isBlank), rest.dropWhile isBlank⟩ := by
  rw [skipBlanks, skipWhile, Position.foldl_next]

end Cursor

/-- What is no blank stays where it is if blanks are split off the end. -/
theorem exists_of_append_blanks {w z v g : List Char} {last : Char} (h : w ++ last :: z = v ++ g)
    (hlast : isBlank last = false) (hg : ∀ c ∈ g, isBlank c = true) : ∃ v', v = w ++ last :: v' ∧ z = v' ++ g := by
  have hmem : last ∉ g := fun hm => absurd (hg last hm) (by simp [hlast])
  rcases List.append_eq_append_iff.1 h with ⟨a, rfl, ha⟩ | ⟨a, rfl, rfl⟩
  · cases a with
    | nil =>
      obtain rfl : last :: z = g := ha
      exact absurd List.mem_cons_self hmem
    | cons c a =>
      obtain ⟨rfl, rfl⟩ := List.cons.inj ha
      exact ⟨a, rfl, rfl⟩
  · exact absurd (by simp) hmem

theorem Mode.eq_statement {m : Mode} (hstart : m ≠ .start) (hcomment : m ≠ .comment) : m = .statement := by
  cases m with
  | start => exact absurd rfl hstart
  | statement => rfl
  | comment => exact absurd rfl hcomment

namespace Scanner

/-- The scanner that stands between two parts of a text, inside a line. -/
def between (before rest : List Char) : Scanner := ⟨⟨.after before, rest⟩, .statement⟩

/-- The scanner of the statements of a text behind an offset, or at its end if
the text is shorter. There is none if the offset falls inside a character. -/
def at? (cs : List Char) (offset : Nat) : Option Scanner :=
  (Cursor.split? (min offset (Position.byteCount cs)) cs).map fun _ => atOffset cs offset

/-- The tape of the statements of a text behind an offset, or none if there is
nothing but spaces. -/
def body? (text : List Char) (offset : Nat) : Option (Option Tape) :=
  if Cursor.holds offset text then (at? text offset).map (some ·.tape) else some none

theorem at?_of_split? {cs : List Char} {offset : Nat} {parts : List Char × List Char}
    (h : Cursor.split? offset cs = some parts) : at? cs offset = some (atOffset cs offset) := by
  obtain ⟨rfl, rfl⟩ := Cursor.split?_eq_some_iff.1 h
  have hle : Position.byteCount parts.1 ≤ Position.byteCount (parts.1 ++ parts.2) := by
    rw [Position.byteCount_append]
    omega
  rw [at?, Nat.min_eq_left hle, h]
  rfl

theorem at?_append {before blanks rest : List Char} (hblanks : ∀ c ∈ blanks, isBlank c = true)
    (hrest : ∀ c ∈ rest.head?, isBlank c = false) :
    at? (before ++ blanks ++ rest) (Position.byteCount before) = some (between (before ++ blanks) rest) := by
  rw [List.append_assoc, at?_of_split? (Cursor.split?_append before (blanks ++ rest)), atOffset, Cursor.atOffset,
    Cursor.splitBytes_byteCount]
  dsimp only
  rw [Cursor.skipBlanks_after, takeWhile_append_stop hblanks hrest, dropWhile_append_stop hblanks hrest]
  rfl

/-- An offset beyond the end is taken back to it. -/
theorem at?_of_lt {cs : List Char} {offset : Nat} (h : Position.byteCount cs < offset) :
    at? cs offset = some (between cs []) := by
  have hrest : (Cursor.splitBytes offset cs).2 = [] := Cursor.rest_atOffset_of_le (Nat.le_of_lt h)
  have hbefore := Cursor.splitBytes_append offset cs
  rw [hrest, List.append_nil] at hbefore
  rw [at?, Nat.min_eq_right (Nat.le_of_lt h), Cursor.split?_byteCount, Option.map_some, atOffset, Cursor.atOffset]
  dsimp only
  rw [hrest, hbefore]
  rfl

theorem tape_between_nil (before : List Char) : (between before []).tape = .stop (.after before) := by
  rw [tape_eq]
  rfl

/-! ### One lexeme -/

variable {before rest : List Char} {s after : Scanner} {x : Lexeme} {xs : List Lexeme}

/-- The token of an extent is read off its text, whatever is left of what stands
behind it. -/
theorem scanToken_of_extent {t : Token} {w m r : List Char} {last : Char} (h : Extent t w last r) (hm : m <+: r)
    (before : List Char) :
    scanToken ⟨.after before, w ++ last :: m⟩ = (.ok t, ⟨.after (before ++ w ++ [last]), m⟩) := by
  obtain ⟨htoken, hrest⟩ := scanToken_of_reads (h.cut m hm) (c := ⟨.after before, w ++ last :: m⟩) rfl
  have hstands : Cursor.StandsIn (before ++ (w ++ last :: m)) ⟨.after before, w ++ last :: m⟩ := ⟨before, rfl, rfl⟩
  obtain ⟨upTo, hupTo, hposition⟩ := hstands.scanToken
  rw [hrest] at hupTo
  obtain rfl : upTo = before ++ w ++ [last] := List.append_cancel_right (hupTo.trans (by simp))
  have hstop : (scanToken ⟨.after before, w ++ last :: m⟩).2 = ⟨.after (before ++ w ++ [last]), m⟩ :=
    congr (congrArg Cursor.mk hposition) hrest
  exact Prod.ext htoken hstop

/-- **What is taken inside a line**, and that it is taken as well if what stands
behind it is cut off. -/
theorem next_between (h : (between before rest).next = (.ok (some x), after)) :
    ∃ w last r, rest = w ++ last :: r ∧ Extent x.token w last r ∧ (∀ s, x.token ≠ .comment s) ∧
      x.start = .after before ∧ x.stop = .after (before ++ w ++ [last]) ∧
      ∀ m, m <+: r → (between before (w ++ last :: m)).next =
        (.ok (some x), ⟨Cursor.skipBlanks ⟨.after (before ++ w ++ [last]), m⟩,
          if x.token = .verb .remark then .comment else .statement⟩) := by
  rcases next_eq_some h with ⟨hmode, -, -⟩ | ⟨-, t, stop, hscan, rfl, -⟩
  · cases hmode
  have htoken : scanToken ⟨.after before, rest⟩ = (.ok t, stop) := hscan
  have hreads := reads_scanToken (congrArg Prod.fst htoken)
  obtain ⟨w, last, hrest, hextent⟩ := hreads.extent
  generalize (scanToken ⟨.after before, rest⟩).2.rest = r at hrest hextent
  obtain rfl : rest = w ++ last :: r := hrest
  have hstop := scanToken_of_extent hextent (List.prefix_refl r) before
  obtain rfl : stop = ⟨.after (before ++ w ++ [last]), r⟩ := congrArg Prod.snd (htoken.symm.trans hstop)
  refine ⟨w, last, r, rfl, hextent, ?_, rfl, rfl, ?_⟩
  · rintro s rfl
    exact hreads.legible.elim
  · intro m hm
    have hcut : (between before (w ++ last :: m)).scan = (.ok t, ⟨.after (before ++ w ++ [last]), m⟩) :=
      scanToken_of_extent hextent hm before
    unfold Scanner.next
    rw [if_neg Mode.noConfusion, if_neg (by simp [between]), hcut]
    rfl

/-- Something other than spaces is taken. -/
theorem exists_not_space_of_tape {t : Tape} (h : (between before rest).tape = .cons x t) :
    ∃ c ∈ rest, isSpace c = false := by
  obtain ⟨after, hnext, -⟩ := next_of_tape h
  obtain ⟨w, last, r, rfl, hextent, -⟩ := next_between hnext
  exact ⟨last, by simp, hextent.space⟩

/-! ### Several lexemes -/

/-- The scanner takes these lexemes, and is then the other one. -/
inductive Takes : Scanner → List Lexeme → Scanner → Prop
  | nil (s : Scanner) : Takes s [] s
  | cons {s t u : Scanner} {x : Lexeme} {xs : List Lexeme} : s.next = (.ok (some x), t) → Takes t xs u → Takes s (x :: xs) u

theorem exists_takes {t : Tape} (h : s.tape = xs.foldr .cons t) : ∃ u : Scanner, s.Takes xs u ∧ u.tape = t := by
  induction xs generalizing s with
  | nil => exact ⟨s, .nil s, h⟩
  | cons x xs ih =>
    obtain ⟨after, hnext, htape⟩ := next_of_tape h
    obtain ⟨u, htakes, hu⟩ := ih htape
    exact ⟨u, .cons hnext htakes, hu⟩

theorem Takes.split {ys : List Lexeme} (h : s.Takes (xs ++ ys) after) :
    ∃ u : Scanner, s.Takes xs u ∧ u.Takes ys after := by
  induction xs generalizing s with
  | nil => exact ⟨s, .nil s, h⟩
  | cons x xs ih =>
    rcases h with _ | ⟨hnext, hrest⟩
    obtain ⟨u, htakes, hu⟩ := ih hrest
    exact ⟨u, .cons hnext htakes, hu⟩

/-- A scanner that takes something goes on to more statements, or to a
comment. -/
theorem mode_of_next (h : s.next = (.ok (some x), after)) : after.mode ≠ .start := by
  rcases next_eq_some h with ⟨-, -, rfl⟩ | ⟨-, t, stop, -, -, rfl⟩
  · exact Mode.noConfusion
  · dsimp only
    split
    · exact Mode.noConfusion
    · exact Mode.noConfusion

theorem rest_ne_nil_of_next (h : s.next = (.ok (some x), after)) (hs : s.mode ≠ .comment) : s.cursor.rest ≠ [] := by
  intro hnil
  unfold Scanner.next at h
  rw [if_neg hs, if_pos (by rw [hnil]; rfl)] at h
  cases h

/-- Behind a comment there is nothing. -/
theorem Takes.of_comment (h : s.Takes xs after) (hs : s.mode = .comment) :
    after.mode = .comment ∨ after.cursor.rest = [] := by
  cases h with
  | nil => exact .inl hs
  | cons hnext hrest =>
    rcases next_eq_some hnext with ⟨-, -, rfl⟩ | ⟨hmode, -⟩
    · cases hrest with
      | nil => exact .inr (rest_nextComment s)
      | cons hnext' _ => exact absurd (rest_nextComment s) (rest_ne_nil_of_next hnext' Mode.noConfusion)
    · exact absurd hs hmode

/-- A text that is scanned to some lexemes wherever it is cut among the blanks
at its end, with blanks before it. -/
theorem tape_behind_blanks {blanks u v g : List Char} (hblanks : ∀ c ∈ blanks, isBlank c = true)
    (hhead : ∀ c ∈ u.head?, isBlank c = false)
    (htape : ∀ v g, u = v ++ g → (∀ c ∈ g, isBlank c = true) →
      (between (before ++ blanks) v).tape = .ofList (.after (before ++ blanks ++ v)) xs)
    (h : blanks ++ u = v ++ g) (hg : ∀ c ∈ g, isBlank c = true) :
    (between (before ++ v.takeWhile isBlank) (v.dropWhile isBlank)).tape = .ofList (.after (before ++ v)) xs := by
  cases u with
  | nil =>
    -- the cut is among the blanks before the text, which has no lexemes
    have hnil : Tape.stop _ = Tape.ofList _ xs := (tape_between_nil _).symm.trans (htape [] [] rfl (by simp))
    obtain rfl : xs = [] := by
      cases xs with
      | nil => rfl
      | cons y ys => cases hnil
    have hv : ∀ c ∈ v, isBlank c = true := by
      intro c hc
      rw [List.append_nil] at h
      exact hblanks c (h ▸ List.mem_append_left g hc)
    rw [List.takeWhile_eq_self_iff.2 hv, List.dropWhile_eq_nil_iff.2 hv, tape_between_nil]
    rfl
  | cons d u =>
    obtain ⟨v', rfl, hu⟩ := exists_of_append_blanks h (hhead d rfl) hg
    have hstop : ∀ c ∈ (d :: v').head?, isBlank c = false := hhead
    rw [takeWhile_append_stop hblanks hstop, dropWhile_append_stop hblanks hstop,
      htape (d :: v') g (congrArg (d :: ·) hu) hg, List.append_assoc]

/-- **The text of some lexemes is scanned to these lexemes**, also without
blanks at its end. -/
theorem Takes.cut (h : (between before rest).Takes xs after) (hmode : after.mode = .statement)
    (hafter : after.cursor.rest ≠ []) :
    ∃ u, rest = u ++ after.cursor.rest ∧ after = between (before ++ u) after.cursor.rest ∧
      ∀ v g, u = v ++ g → (∀ c ∈ g, isBlank c = true) → (between before v).tape = .ofList (.after (before ++ v)) xs := by
  induction xs generalizing before rest with
  | nil =>
    cases h
    refine ⟨[], rfl, by rw [List.append_nil]; rfl, ?_⟩
    rintro v g hvg -
    obtain rfl := (List.append_eq_nil_iff.1 hvg.symm).1
    rw [tape_between_nil, List.append_nil]
    rfl
  | cons x xs ih =>
    rcases h with _ | ⟨hnext, htakes⟩
    obtain ⟨w, last, q, rfl, hextent, -, -, -, hcut⟩ := next_between hnext
    -- a remark would take all the rest
    have hremark : x.token ≠ .verb .remark := by
      intro hremark
      have heq := hnext.symm.trans (hcut q (List.prefix_refl q))
      rcases htakes.of_comment ((congrArg (·.2.mode) heq).trans (if_pos hremark)) with hcomment | hnil
      · rw [hmode] at hcomment
        cases hcomment
      · exact hafter hnil
    have hcut (m : List Char) (hm : m <+: q) : (between before (w ++ last :: m)).next = (.ok (some x),
        between (before ++ w ++ [last] ++ m.takeWhile isBlank) (m.dropWhile isBlank)) := by
      rw [hcut m hm, if_neg hremark, Cursor.skipBlanks_after]
      rfl
    obtain ⟨-, rfl⟩ := Prod.mk.inj (hnext.symm.trans (hcut q (List.prefix_refl q)))
    obtain ⟨u, hu, hafter', htape⟩ := ih htakes
    have hq : q = q.takeWhile isBlank ++ (u ++ after.cursor.rest) := by
      rw [← hu, List.takeWhile_append_dropWhile]
    refine ⟨w ++ last :: (q.takeWhile isBlank ++ u), ?_, ?_, ?_⟩
    · conv_lhs => rw [hq]
      simp
    · conv_lhs => rw [hafter']
      simp
    · intro v g hvg hg
      have hlast : isBlank last = false := by
        by_contra hblank
        exact absurd (isSpace_of_isBlank (Bool.eq_true_of_not_eq_false hblank)) (by simp [hextent.space])
      obtain ⟨v', rfl, hv'⟩ := exists_of_append_blanks hvg hlast hg
      have hm : v' <+: q := ⟨g ++ after.cursor.rest, by rw [← List.append_assoc, ← hv', List.append_assoc, ← hq]⟩
      have hhead : ∀ c ∈ u.head?, isBlank c = false := fun c hc =>
        head?_dropWhile c (mem_head?_longer ⟨_, hu.symm⟩ c hc)
      rw [tape_of_next (hcut v' hm), tape_behind_blanks (List.all_eq_true.1 List.all_takeWhile) hhead htape hv' hg]
      simp [Tape.ofList]

theorem Takes.mode_ne_start (h : s.Takes xs after) (hs : s.mode ≠ .start) : after.mode ≠ .start := by
  induction h with
  | nil => exact hs
  | cons hnext _ ih => exact ih (mode_of_next hnext)

/-- **The texts of some lexemes and of the last one of them.** Without the last
one, or without the blanks behind it, the text is scanned to what is left of the
lexemes. -/
theorem Takes.exists_last (h : (between before rest).Takes (xs ++ [x]) after) (hmode : after.mode = .statement)
    (hafter : after.cursor.rest ≠ []) :
    ∃ u w last g, rest = u ++ (w ++ last :: g) ++ after.cursor.rest ∧
      after = between (before ++ (u ++ (w ++ last :: g))) after.cursor.rest ∧ (∀ c ∈ g, isBlank c = true) ∧
      Extent x.token w last (g ++ after.cursor.rest) ∧ (∀ s, x.token ≠ .comment s) ∧
      (between before u).tape = .ofList x.start xs ∧
      (between before (u ++ (w ++ [last]))).tape = .ofList x.stop (xs ++ [x]) := by
  obtain ⟨m, hxs, hx⟩ := h.split
  rcases hx with _ | ⟨hx, _ | _⟩
  have hm : m.mode = .statement := by
    refine Mode.eq_statement (hxs.mode_ne_start Mode.noConfusion) fun hcomment => ?_
    rcases next_eq_some hx with ⟨-, -, rfl⟩ | ⟨hother, -⟩
    · exact hafter (rest_nextComment m)
    · exact hother hcomment
  obtain ⟨u, hu, hmeq, htape⟩ := hxs.cut hm (rest_ne_nil_of_next hx (by rw [hm]; exact Mode.noConfusion))
  rw [hmeq] at hx
  obtain ⟨w, last, q, hq, hextent, hcomment, hstart, hstop, hnext⟩ := next_between hx
  have hafter' : after.cursor.rest = q.dropWhile isBlank := by
    have hcursor := congrArg (fun r => r.2.cursor) (hnext q (List.prefix_refl q))
    rw [← hq, hx] at hcursor
    exact congrArg Cursor.rest hcursor
  have hg : ∀ c ∈ q.takeWhile isBlank, isBlank c = true := List.all_eq_true.1 List.all_takeWhile
  have hqparts : q = q.takeWhile isBlank ++ after.cursor.rest := by
    rw [hafter', List.takeWhile_append_dropWhile]
  generalize q.takeWhile isBlank = g at hg hqparts
  subst hqparts
  obtain ⟨v, hv, hend, hwhole⟩ := h.cut hmode hafter
  have hrest : rest = u ++ (w ++ last :: g) ++ after.cursor.rest := by
    rw [hu, hq]
    simp
  obtain rfl : v = u ++ (w ++ last :: g) := List.append_cancel_right (hv.symm.trans hrest)
  refine ⟨u, w, last, g, hrest, hend, hg, hextent, hcomment, ?_, ?_⟩
  · rw [hstart]
    exact htape u [] (List.append_nil u).symm (by simp)
  · rw [hstop, List.append_assoc, List.append_assoc]
    exact hwhole (u ++ (w ++ [last])) g (by simp) hg

/-- What is scanned behind a part of a text and blanks. -/
theorem body?_append {blanks : List Char} (hblanks : ∀ c ∈ blanks, isBlank c = true)
    (hrest : ∀ c ∈ rest.head?, isBlank c = false) {p : Position}
    (htape : (between (before ++ blanks) rest).tape = .ofList p xs) :
    body? (before ++ blanks ++ rest) (Position.byteCount before) = some (if xs = [] then none else some (.ofList p xs)) := by
  have hspaces : blanks.any (!isSpace ·) = false :=
    List.any_eq_false.2 fun c hc => by simp [isSpace_of_isBlank (hblanks c hc)]
  have hholds : Cursor.holds (Position.byteCount before) (before ++ blanks ++ rest) = rest.any (!isSpace ·) := by
    rw [Cursor.holds, List.append_assoc, Cursor.split?_append, Option.any_some, List.any_append, hspaces, Bool.false_or]
  rw [body?, hholds, at?_append hblanks hrest]
  cases xs with
  | nil =>
    have hnil : rest = [] := by
      rw [tape_eq] at htape
      split at htape
      case h_1 => cases htape
      case h_2 hnext => exact rest_of_next_none hnext
      case h_3 => cases htape
    rw [hnil]
    rfl
  | cons x xs =>
    obtain ⟨c, hc, hspace⟩ := exists_not_space_of_tape htape
    have hany : rest.any (!isSpace ·) = true := List.any_eq_true.2 ⟨c, hc, by simp [hspace]⟩
    rw [if_pos hany, if_neg (List.cons_ne_nil _ _), Option.map_some, htape]

end Scanner

end LineBasic
