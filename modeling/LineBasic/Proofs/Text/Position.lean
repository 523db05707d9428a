import LineBasic.Proofs.Text.Cursor

/-!
# Positions by counting

A cursor counts lines, columns and bytes as it moves. The same numbers come out
when the text before it is counted at once. So a cursor is determined by its
text and its offset, however it came to where it stands.

* `Position.foldl_next`: moving on and counting agree.
* `Cursor.StandsIn`: the cursor stands in a text, at the position behind what
  lies before it.
* `Cursor.Reached`: the cursors that reading a text can lead to.
* `Cursor.StandsIn.eq_atOffset`: a cursor in a text is the one at its offset.
-/

namespace LineBasic

/-! ### Counting -/

namespace Position

theorem byteCount_cons (c : Char) (cs : List Char) : byteCount (c :: cs) = c.utf8Size + byteCount cs := rfl

theorem byteCount_append (cs ds : List Char) : byteCount (cs ++ ds) = byteCount cs + byteCount ds := by
  induction cs with
  | nil => simp [byteCount]
  | cons c cs ih =>
    rw [List.cons_append, byteCount_cons, byteCount_cons, ih]
    omega

theorem byteCount_pos {cs : List Char} (h : cs ≠ []) : 0 < byteCount cs := by
  obtain ⟨c, r, rfl⟩ := List.exists_cons_of_ne_nil h
  have := c.utf8Size_pos
  rw [byteCount_cons]
  omega

/-- One character more. -/
theorem after_concat (before : List Char) (c : Char) : after (before ++ [c]) = (after before).next c := by
  have hoffset : byteCount (before ++ [c]) = byteCount before + c.utf8Size := by
    rw [byteCount_append]
    rfl
  by_cases hc : c = '\n'
  · subst hc
    simp only [after, next, hoffset, if_true, List.reverse_append, List.reverse_singleton, List.singleton_append,
      List.count_append, List.count_singleton_self]
    simp [Nat.add_assoc]
  · simp only [after, next, hoffset, if_neg hc, List.reverse_append, List.reverse_singleton, List.singleton_append,
      List.count_append, List.count_singleton]
    simp [hc, Nat.add_assoc]

/-- **Moving on and counting agree.** -/
theorem foldl_next (before w : List Char) : w.foldl next (after before) = after (before ++ w) := by
  induction w generalizing before with
  | nil => rw [List.foldl_nil, List.append_nil]
  | cons c w ih => rw [List.foldl_cons, ← after_concat, ih, List.append_assoc, List.singleton_append]

/-- The position is one between two characters of the text, or at one of its
ends. -/
def LiesIn (cs : List Char) (p : Position) : Prop := ∃ before rest, before ++ rest = cs ∧ p = after before

end Position

namespace Cursor

theorem splitBytes_append (n : Nat) (cs : List Char) : (splitBytes n cs).1 ++ (splitBytes n cs).2 = cs := by
  induction cs generalizing n with
  | nil =>
    cases n with
    | zero => rw [splitBytes]; rfl
    | succ n => rw [splitBytes]; rfl
  | cons c cs ih =>
    cases n with
    | zero => rw [splitBytes]; rfl
    | succ n =>
      rw [splitBytes]
      exact congrArg (c :: ·) (ih _)

theorem splitBytes_byteCount (before rest : List Char) :
    splitBytes (Position.byteCount before) (before ++ rest) = (before, rest) := by
  induction before with
  | nil =>
    show splitBytes 0 rest = ([], rest)
    rw [splitBytes]
  | cons c before ih =>
    -- every character has a byte, so the first one is split off
    obtain ⟨k, hk⟩ : ∃ k, Position.byteCount (c :: before) = k + 1 :=
      Nat.exists_eq_add_one.2 (Position.byteCount_pos (List.cons_ne_nil c before))
    have hrest : k + 1 - c.utf8Size = Position.byteCount before := by
      rw [← hk, Position.byteCount_cons]
      omega
    rw [hk, List.cons_append, splitBytes, hrest, ih]

/-- A cursor behind the end of a text has nothing before it. -/
theorem rest_atOffset_of_le {cs : List Char} {offset : Nat} (h : Position.byteCount cs ≤ offset) :
    (atOffset cs offset).rest = [] := by
  show (splitBytes offset cs).2 = []
  induction cs generalizing offset with
  | nil => cases offset <;> rw [splitBytes]
  | cons c cs ih =>
    have hpos := Position.byteCount_pos (List.cons_ne_nil c cs)
    obtain ⟨k, rfl⟩ := Nat.exists_eq_add_one.2 (Nat.lt_of_lt_of_le hpos h)
    rw [splitBytes]
    refine ih ?_
    rw [Position.byteCount_cons] at h
    omega

/-- The cursor stands in the text, at the position behind all that lies before
it. -/
def StandsIn (cs : List Char) (c : Cursor) : Prop :=
  ∃ before, before ++ c.rest = cs ∧ c.position = .after before

variable {cs : List Char} {c d : Cursor}

theorem StandsIn.liesIn (h : c.StandsIn cs) : c.position.LiesIn cs := by
  obtain ⟨before, hcs, hp⟩ := h
  exact ⟨before, c.rest, hcs, hp⟩

/-- The offset is that of the text less what is still to come. -/
theorem StandsIn.offset_add (h : c.StandsIn cs) :
    c.position.offset + Position.byteCount c.rest = Position.byteCount cs := by
  obtain ⟨before, rfl, hp⟩ := h
  rw [hp, Position.byteCount_append]
  rfl

/-- **A cursor in a text is the one at its offset.** -/
theorem StandsIn.eq_atOffset (h : c.StandsIn cs) : c = atOffset cs c.position.offset := by
  obtain ⟨before, rfl, hp⟩ := h
  obtain ⟨p, rest⟩ := c
  obtain rfl : p = .after before := hp
  show _ = Cursor.mk (.after (splitBytes (Position.byteCount before) (before ++ rest)).1)
    (splitBytes (Position.byteCount before) (before ++ rest)).2
  rw [splitBytes_byteCount]

/-- Counting finds the position again. -/
theorem position_atOffset {p : Position} (h : p.LiesIn cs) : (atOffset cs p.offset).position = p := by
  obtain ⟨before, rest, hcs, hp⟩ := h
  have hc : StandsIn cs ⟨p, rest⟩ := ⟨before, hcs, hp⟩
  exact (congrArg Cursor.position hc.eq_atOffset).symm

/-! ### Moving -/

theorem standsIn_ofText (cs : List Char) : (ofText cs).StandsIn cs := ⟨[], rfl, rfl⟩

theorem standsIn_atOffset (cs : List Char) (offset : Nat) : (atOffset cs offset).StandsIn cs :=
  ⟨_, splitBytes_append offset cs, rfl⟩

theorem StandsIn.next (h : c.StandsIn cs) : c.next.StandsIn cs := by
  obtain ⟨before, rfl, hp⟩ := h
  obtain ⟨p, rest⟩ := c
  obtain rfl : p = .after before := hp
  cases rest with
  | nil => exact ⟨before, rfl, rfl⟩
  | cons ch rest => exact ⟨before ++ [ch], by simp [Cursor.next], (Position.after_concat before ch).symm⟩

theorem StandsIn.skipWhile (h : c.StandsIn cs) (p : Char → Bool) : (c.skipWhile p).StandsIn cs := by
  obtain ⟨before, rfl, hp⟩ := h
  refine ⟨before ++ c.rest.takeWhile p, ?_, ?_⟩
  · rw [rest_skipWhile, List.append_assoc, List.takeWhile_append_dropWhile]
  · show (c.rest.takeWhile p).foldl Position.next c.position = _
    rw [hp, Position.foldl_next]

theorem StandsIn.skipBlanks (h : c.StandsIn cs) : c.skipBlanks.StandsIn cs := h.skipWhile isBlank

theorem StandsIn.readWhile (h : c.StandsIn cs) (p : Char → Bool) : (c.readWhile p).2.StandsIn cs :=
  (h.skipWhile p).skipBlanks

theorem StandsIn.take? (h : c.StandsIn cs) {ch : Char} {skip : Bool} (hd : c.take? ch skip = some d) :
    d.StandsIn cs := by
  unfold Cursor.take? at hd
  split at hd
  · obtain rfl := Option.some.inj hd
    split
    · exact h.next.skipBlanks
    · exact h.next
  · cases hd

theorem StandsIn.readDigits (h : c.StandsIn cs) (negative : Bool) : (c.readDigits negative).2.StandsIn cs := by
  unfold Cursor.readDigits
  split
  · dsimp only
    split
    · exact h.readWhile Char.isDigit
    · exact h.readWhile Char.isDigit
  · exact h

theorem StandsIn.readNumber (h : c.StandsIn cs) : c.readNumber.2.StandsIn cs := by
  unfold Cursor.readNumber
  split
  · exact h.next.skipBlanks.readDigits true
  · exact h.readDigits false

theorem StandsIn.readName (h : c.StandsIn cs) : c.readName.2.StandsIn cs := by
  unfold Cursor.readName
  split
  · exact h.readWhile isNameChar
  · exact h

theorem StandsIn.expect (h : c.StandsIn cs) (ch : Char) : (c.expect ch).2.StandsIn cs := by
  unfold Cursor.expect
  split
  case h_1 after hafter => exact h.take? hafter
  case h_2 => exact h

/-- The cursors that are reached from the beginning or from any offset of a
text, by whatever is done with cursors. -/
inductive Reached (cs : List Char) : Cursor → Prop
  | ofText : Reached cs (ofText cs)
  | atOffset (offset : Nat) : Reached cs (atOffset cs offset)
  | next {c : Cursor} : Reached cs c → Reached cs c.next
  | skipWhile {c : Cursor} (p : Char → Bool) : Reached cs c → Reached cs (c.skipWhile p)
  | skipBlanks {c : Cursor} : Reached cs c → Reached cs c.skipBlanks
  | readWhile {c : Cursor} (p : Char → Bool) : Reached cs c → Reached cs (c.readWhile p).2
  | readDigits {c : Cursor} (negative : Bool) : Reached cs c → Reached cs (c.readDigits negative).2
  | readNumber {c : Cursor} : Reached cs c → Reached cs c.readNumber.2
  | readName {c : Cursor} : Reached cs c → Reached cs c.readName.2
  | take? {c d : Cursor} {ch : Char} {skip : Bool} : Reached cs c → c.take? ch skip = some d → Reached cs d
  | expect {c : Cursor} (ch : Char) : Reached cs c → Reached cs (c.expect ch).2

/-- **Whatever is done with cursors leaves them in their text.** -/
theorem Reached.standsIn (h : Reached cs c) : c.StandsIn cs := by
  induction h with
  | ofText => exact standsIn_ofText cs
  | atOffset offset => exact standsIn_atOffset cs offset
  | next _ ih => exact ih.next
  | skipWhile p _ ih => exact ih.skipWhile p
  | skipBlanks _ ih => exact ih.skipBlanks
  | readWhile p _ ih => exact ih.readWhile p
  | readDigits negative _ ih => exact ih.readDigits negative
  | readNumber _ ih => exact ih.readNumber
  | readName _ ih => exact ih.readName
  | take? _ hd ih => exact ih.take? hd
  | expect ch _ ih => exact ih.expect ch

end Cursor

/-! ### Scanning a token -/

variable {cs : List Char} {c : Cursor}

theorem Cursor.StandsIn.scanWord (h : c.StandsIn cs) : (scanWord c).2.StandsIn cs := by
  unfold LineBasic.scanWord
  dsimp only
  split
  case h_1 behind hbehind => exact (h.skipWhile isNameChar).skipBlanks.take? hbehind
  case h_2 => exact h.skipWhile isNameChar

theorem Cursor.StandsIn.scanRelation (h : c.StandsIn cs) (single : Relation) (pairs : List (Char × Relation)) :
    (scanRelation single pairs c).2.StandsIn cs := by
  unfold LineBasic.scanRelation
  split
  case h_1 r behind hfound =>
    obtain ⟨⟨ch, r'⟩, -, hpair⟩ := List.exists_of_findSome?_eq_some hfound
    obtain ⟨d, hd, heq⟩ := Option.map_eq_some_iff.1 hpair
    obtain ⟨-, rfl⟩ := Prod.mk.inj heq
    exact h.skipBlanks.take? hd
  case h_2 => exact h

theorem Cursor.StandsIn.scanQuoted (h : c.StandsIn cs) : (scanQuoted c).2.StandsIn cs := by
  unfold LineBasic.scanQuoted
  dsimp only
  split
  case h_1 behind hbehind => exact (h.skipWhile _).take? hbehind
  case h_2 => exact h.skipWhile _

theorem Cursor.StandsIn.scanToken (h : c.StandsIn cs) : (scanToken c).2.StandsIn cs := by
  unfold LineBasic.scanToken
  split
  · exact h
  · split
    · exact h.next
    · split
      · exact h.next.scanRelation _ _
      · split
        · exact h.next.scanRelation _ _
        · split
          · exact h.skipWhile Char.isDigit
          · split
            · exact h.next.scanQuoted
            · split
              · exact h.scanWord
              · exact h

end LineBasic
