import Mathlib
import LineBasic.Integer

/-!
# Decimal text of integers

* `Integer.ofInt?_eq_some_iff`: an integer of the language is brought back from
  exactly one whole number.
* `Integer.ofDigits?_chars`: the text of an integer that is not negative is read
  as that integer.
-/

namespace LineBasic.Integer

theorem ofInt?_eq_some_iff {k : Int} {n : Int64} : ofInt? k = some n ↔ n.toInt = k := by
  unfold ofInt?
  constructor
  · intro h
    split at h
    · rename_i hk
      rw [← Option.some.inj h]
      exact Int64.toInt_ofInt_of_le hk.1 (by omega)
    · cases h
  · rintro rfl
    have h1 := n.le_toInt
    have h2 := n.toInt_lt
    rw [if_pos (by omega), Int64.ofInt_toInt]

/-- A number that is not negative is written with its digits alone. -/
theorem chars_of_nonneg {n : Int64} (h : 0 ≤ n.toInt) : chars n = digits n.toInt.natAbs := by
  unfold chars
  rw [if_neg (by omega)]

theorem isDigit_of_mem_digits {n : Nat} {c : Char} (h : c ∈ digits n) : c.isDigit = true :=
  Nat.isDigit_of_mem_toDigits (by omega) (by omega) h

theorem digits_ne_nil (n : Nat) : digits n ≠ [] := Nat.toDigits_ne_nil

/-- What digits without a sign stand for. -/
theorem ofDigits?_false_eq_some_iff {ds : List Char} {n : Int64} :
    ofDigits? false ds = some n ↔
      ds ≠ [] ∧ (∀ c ∈ ds, c.isDigit = true) ∧ n.toInt = (Nat.ofDigitChars 10 ds 0 : Int) := by
  unfold ofDigits?
  by_cases h : ds.isEmpty || !ds.all Char.isDigit
  · rw [if_pos h]
    simp only [Bool.or_eq_true, List.isEmpty_iff, Bool.not_eq_true', List.all_eq_false] at h
    constructor
    · intro hn; cases hn
    · rintro ⟨hne, hall, -⟩
      rcases h with h | ⟨c, hc, hd⟩
      · exact absurd h hne
      · exact absurd (hall c hc) hd
  · rw [if_neg h]
    simp only [Bool.or_eq_true, List.isEmpty_iff, Bool.not_eq_true', not_or, Bool.not_eq_false,
      List.all_eq_true] at h
    simp only [Bool.false_eq_true, if_false, ofInt?_eq_some_iff]
    exact ⟨fun hn => ⟨h.1, h.2, hn⟩, fun hn => hn.2.2⟩

theorem nonneg_of_ofDigits? {ds : List Char} {n : Int64} (h : ofDigits? false ds = some n) :
    0 ≤ n.toInt := by
  rw [(ofDigits?_false_eq_some_iff.1 h).2.2]
  exact Int.natCast_nonneg _

/-- **Reading undoes writing** for the integers that are not negative. -/
theorem ofDigits?_chars {n : Int64} (h : 0 ≤ n.toInt) : ofDigits? false (chars n) = some n := by
  rw [chars_of_nonneg h, ofDigits?_false_eq_some_iff]
  refine ⟨digits_ne_nil _, fun c => isDigit_of_mem_digits, ?_⟩
  unfold digits
  rw [Nat.ofDigitChars_ten_toDigits]
  omega

end LineBasic.Integer
