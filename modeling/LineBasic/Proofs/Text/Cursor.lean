import Mathlib
import LineBasic.Lexeme

/-!
# Characters and cursors

Which characters can stand where, and what a cursor leaves behind it. Positions
play no part here.

* `ne_of_isNameChar`: no character of a name has a meaning of its own.
* `Cursor.take?_cases`: a character is taken if it comes next, and only then.
-/

namespace LineBasic

/-! ### Characters -/

theorem isNameChar_of_isLetter {c : Char} (h : isLetter c = true) : isNameChar c = true := by
  simp [isNameChar, h]

theorem isNameChar_of_isDigit {c : Char} (h : c.isDigit = true) : isNameChar c = true := by
  simp [isNameChar, h]

/-- No character of a name has a meaning of its own. -/
theorem ne_of_isNameChar {c : Char} (h : isNameChar c = true) :
    isBlank c = false ∧ c ≠ '$' ∧ c ≠ '=' ∧ c ≠ '>' ∧ c ≠ '<' ∧ c ≠ '"' ∧ Token.ofSign? c = none := by
  refine ⟨?_, ?_, ?_, ?_, ?_, ?_, ?_⟩
  · by_contra hb
    simp only [isBlank, Bool.not_eq_false, Bool.or_eq_true, beq_iff_eq] at hb
    rcases hb with ((rfl | rfl) | rfl) | rfl <;> revert h <;> decide
  · rintro rfl; revert h; decide
  · rintro rfl; revert h; decide
  · rintro rfl; revert h; decide
  · rintro rfl; revert h; decide
  · rintro rfl; revert h; decide
  · unfold Token.ofSign?
    split <;> first | rfl | (revert h; decide)

theorem not_isNameChar_of_isBlank {c : Char} (h : isBlank c = true) : isNameChar c = false := by
  by_contra hn
  rw [Bool.not_eq_false] at hn
  rw [(ne_of_isNameChar hn).1] at h
  cases h

theorem not_isDigit_of_not_isNameChar {c : Char} (h : isNameChar c = false) : c.isDigit = false := by
  by_contra hd
  rw [Bool.not_eq_false] at hd
  rw [isNameChar_of_isDigit hd] at h
  cases h

/-- What the classes of characters say in numbers. -/
theorem isDigit_iff {c : Char} : c.isDigit = true ↔ 48 ≤ c.toNat ∧ c.toNat ≤ 57 := by
  simp only [Char.isDigit, Bool.and_eq_true, decide_eq_true_eq, ge_iff_le, UInt32.le_iff_toNat_le]
  rfl

theorem isAlpha_iff {c : Char} :
    c.isAlpha = true ↔ (65 ≤ c.toNat ∧ c.toNat ≤ 90) ∨ (97 ≤ c.toNat ∧ c.toNat ≤ 122) := by
  simp only [Char.isAlpha, Char.isUpper, Char.isLower, Bool.or_eq_true, Bool.and_eq_true,
    decide_eq_true_eq, ge_iff_le, UInt32.le_iff_toNat_le]
  rfl

theorem isSpace_of_isNameChar {c : Char} (h : isNameChar c = true) : isSpace c = false := by
  simp only [isNameChar, isLetter, Bool.or_eq_true, beq_iff_eq, isAlpha_iff, isDigit_iff] at h
  rcases h with (h | rfl) | h
  case inl.inr => rfl
  all_goals
    simp only [isSpace, Bool.or_eq_false_iff, Bool.and_eq_false_iff, decide_eq_false_iff_not, beq_eq_false_iff_ne]
    omega

theorem isSpace_of_isDigit {c : Char} (h : c.isDigit = true) : isSpace c = false :=
  isSpace_of_isNameChar (isNameChar_of_isDigit h)

theorem not_isDigit_of_isLetter {c : Char} (h : isLetter c = true) : c.isDigit = false := by
  by_contra hd
  rw [Bool.not_eq_false, isDigit_iff] at hd
  simp only [isLetter, Bool.or_eq_true, isAlpha_iff, beq_iff_eq] at h
  rcases h with (h | h) | rfl
  · omega
  · omega
  · revert hd; decide

theorem isLetter_toUpper {c : Char} (h : isLetter c = true) : isLetter c.toUpper = true := by
  simp only [isLetter, Bool.or_eq_true, beq_iff_eq] at h ⊢
  rcases h with h | rfl
  · left; rw [Char.isAlpha_toUpper_eq_isAlpha, h]
  · right; rfl

theorem isNameChar_toUpper {c : Char} (h : isNameChar c = true) : isNameChar c.toUpper = true := by
  simp only [isNameChar, Bool.or_eq_true] at h ⊢
  rcases h with h | h
  · exact Or.inl (isLetter_toUpper h)
  · right
    rw [Char.toUpper_eq_of_not_isLower, h]
    intro hl
    have hd := isDigit_iff.1 h
    have ha := isAlpha_iff.1 (show c.isAlpha = true by simp [Char.isAlpha, hl])
    omega

/-! ### Cursors -/

theorem takeWhile_append_stop {p : Char → Bool} {w tail : List Char} (hw : ∀ c ∈ w, p c = true)
    (ht : ∀ c ∈ tail.head?, p c = false) : (w ++ tail).takeWhile p = w := by
  rw [List.takeWhile_append_of_pos hw]
  cases tail with
  | nil => simp
  | cons c r => rw [List.takeWhile_cons_of_neg (by simp [ht c rfl]), List.append_nil]

theorem dropWhile_append_stop {p : Char → Bool} {w tail : List Char} (hw : ∀ c ∈ w, p c = true)
    (ht : ∀ c ∈ tail.head?, p c = false) : (w ++ tail).dropWhile p = tail := by
  rw [List.dropWhile_append_of_pos hw]
  cases tail with
  | nil => rfl
  | cons c r => rw [List.dropWhile_cons_of_neg (by simp [ht c rfl])]

theorem head?_append_any {p : Char → Bool} {w tail : List Char} (h : w.head?.any p = true) :
    (w ++ tail).head?.any p = true := by
  cases w with
  | nil => simp at h
  | cons x r => exact h

/-- What is left behind the characters with a property begins without it. -/
theorem head?_dropWhile {p : Char → Bool} {cs : List Char} : ∀ c ∈ (cs.dropWhile p).head?, p c = false := by
  intro c hc
  have h := List.head?_dropWhile_not p cs
  rw [Option.mem_def.1 hc] at h
  simpa using h

/-- What comes first in a text does so in a longer one. -/
theorem mem_head?_longer {cs ds : List Char} (h : cs <+: ds) : ∀ c ∈ cs.head?, c ∈ ds.head? := by
  obtain ⟨r, rfl⟩ := h
  intro c hc
  cases cs with
  | nil => cases hc
  | cons x xs => exact hc

namespace Cursor

@[simp] theorem rest_skipWhile (p : Char → Bool) (c : Cursor) :
    (c.skipWhile p).rest = c.rest.dropWhile p := rfl

@[simp] theorem rest_skipBlanks (c : Cursor) : c.skipBlanks.rest = c.rest.dropWhile isBlank := rfl

theorem rest_next {c : Cursor} {ch : Char} {r : List Char} (h : c.rest = ch :: r) : c.next.rest = r := by
  rcases c with ⟨pos, rest⟩
  subst h; rfl

theorem take?_eq_none {ch : Char} {skip : Bool} {c : Cursor} (h : ∀ d ∈ c.rest.head?, d ≠ ch) :
    c.take? ch skip = none := by
  unfold take? peek?
  rw [if_neg]
  intro hc
  exact h ch hc rfl

theorem take?_eq_some {ch : Char} {r : List Char} {c : Cursor} (h : c.rest = ch :: r) :
    c.take? ch false = some c.next := by
  unfold take? peek?
  rw [if_pos (by rw [h]; rfl)]
  rfl

/-- A character is taken if it comes next, and only then. -/
theorem take?_cases (ch : Char) (c : Cursor) :
    (∃ r, c.rest = ch :: r ∧ c.take? ch false = some c.next) ∨
      ((∀ d ∈ c.rest.head?, d ≠ ch) ∧ c.take? ch false = none) := by
  by_cases h : c.rest.head? = some ch
  · obtain ⟨r, hr⟩ := List.head?_eq_some_iff.1 h
    exact Or.inl ⟨r, hr, take?_eq_some hr⟩
  · have hd : ∀ d ∈ c.rest.head?, d ≠ ch := by
      rintro d hd rfl; exact h hd
    exact Or.inr ⟨hd, take?_eq_none hd⟩

end Cursor

end LineBasic
