import Mathlib
import LineBasic.Builtin
import LineBasic.Value.Operator

/-!
# Parts of texts

`MID$` counts characters from zero, whatever their bytes. With a length it takes
what there is of the characters asked for, and only refuses to count from or up
to a negative number. Without a length it takes one character, which must be
there. So a text can be cut in two anywhere and put together again, and a part
of a part is a part.

* `Builtin.part_eq`, `Builtin.charOf_eq`: what the two forms give.
* `Builtin.getElem?_cut`, `Builtin.cut_append_cut`, `Builtin.cut_cut`: the
  characters of a part, cutting in two, and cutting twice.
* `Builtin.parts_of_texts`: all of this, of calls.
-/

namespace LineBasic.Builtin

/-! ### Cutting -/

/-- The text without its first `start` characters, and at most `len` characters
long. -/
def cut (s : String) (start len : Nat) : String := String.ofList ((s.toList.drop start).take len)

variable (s : String)

/-- The characters of a part are those of the text, up to the end of both. -/
theorem getElem?_cut (start len i : Nat) :
    (cut s start len).toList[i]? = if start + i < min (start + len) s.length then s.toList[start + i]? else none := by
  rw [cut, String.toList_ofList, List.getElem?_take, List.getElem?_drop]
  by_cases hi : i < len
  · rw [if_pos hi]
    by_cases hs : start + i < s.length
    · rw [if_pos (by omega)]
    · rw [if_neg (by omega), List.getElem?_eq_none (by rw [String.length_toList]; omega)]
  · rw [if_neg hi, if_neg (by omega)]

theorem length_cut (start len : Nat) : (cut s start len).length = min len (s.length - start) := by
  rw [cut, String.length_ofList, List.length_take, List.length_drop, String.length_toList]

/-- **A text is put together again from what stands before a place and behind
it.** -/
theorem cut_append_cut (k : Nat) : cut s 0 k ++ cut s k s.length = s := by
  have hrest : (s.toList.drop k).take s.length = s.toList.drop k :=
    List.take_of_length_le (by rw [List.length_drop, String.length_toList]; omega)
  rw [cut, cut, ← String.ofList_append, List.drop_zero, hrest, List.take_append_drop, String.ofList_toList]

/-- **A part of a part is a part.** -/
theorem cut_cut (i m j n : Nat) : cut (cut s i m) j n = cut s (i + j) (min n (m - j)) := by
  rw [cut, cut, cut, String.toList_ofList, List.drop_take, List.take_take, List.drop_drop]

/-- One character. -/
theorem cut_one {start : Nat} {c : Char} (h : s.toList[start]? = some c) : cut s start 1 = c.toString := by
  obtain ⟨hlt, rfl⟩ := List.getElem?_eq_some_iff.1 h
  rw [cut, List.drop_eq_getElem_cons hlt]
  rfl

/-! ### Calls -/

/-- The call of `MID$` with a text, an index and a length. -/
def part (s : String) (start len : Int64) : Eval Value :=
  call slice [.value (.text s), .value (.integer start), .value (.integer len)]

/-- The call of `MID$` with a text and an index. -/
def charOf (s : String) (start : Int64) : Eval Value := call slice [.value (.text s), .value (.integer start)]

/-- The call of `LEN` with a text. -/
def lengthOf (s : String) : Eval Value := call length [.value (.text s)]

/-- An illegal function call. -/
def Illegal (x : Eval Value) : Prop := ∃ e, x = throw e ∧ e.kind = .illegalFunctionCall

theorem not_illegal_pure (v : Value) : ¬Illegal (pure v) := by
  rintro ⟨e, h, -⟩
  cases congrFun h mkStdGen

theorem naturalAt_of_neg {args : List Argument} {i : Nat} {n : Int64} (hi : args[i]? = some (.value (.integer n)))
    (hn : n.toInt < 0) (negative : Error) : naturalAt args i negative = .error negative := by
  simp only [naturalAt, integerAt, valueAt, hi, bind, Except.bind, Value.toInteger, if_pos hn]
  rfl

theorem naturalAt_of_nonneg {args : List Argument} {i : Nat} {n : Int64} (hi : args[i]? = some (.value (.integer n)))
    (hn : 0 ≤ n.toInt) (negative : Error) : naturalAt args i negative = .ok n.toInt.toNat := by
  simp only [naturalAt, integerAt, valueAt, hi, bind, Except.bind, Value.toInteger, if_neg (Int.not_lt.2 hn)]
  rfl

variable {s} {start len : Int64}

/-- With three arguments, the text, the index and the length are looked at in
this order. -/
theorem sliceOf_part :
    sliceOf [.value (.text s), .value (.integer start), .value (.integer len)] =
      if start.toInt < 0 then .error .negativeIndex
      else if len.toInt < 0 then .error .negativeLength
      else .ok (.text (cut s start.toInt.toNat len.toInt.toNat)) := by
  simp only [sliceOf, textAt, valueAt, bind, Except.bind, Value.toText, List.getElem?_cons_zero]
  by_cases hstart : start.toInt < 0
  · rw [naturalAt_of_neg (n := start) rfl hstart, if_pos hstart]
  rw [naturalAt_of_nonneg (n := start) rfl (Int.not_lt.1 hstart), if_neg hstart]
  by_cases hlen : len.toInt < 0
  · rw [naturalAt_of_neg (n := len) rfl hlen, if_pos hlen]
    rfl
  · rw [naturalAt_of_nonneg (n := len) rfl (Int.not_lt.1 hlen), if_neg hlen]
    rfl

theorem sliceOf_char :
    sliceOf [.value (.text s), .value (.integer start)] =
      if start.toInt < 0 then .error .negativeIndex else charAt s start.toInt.toNat := by
  simp only [sliceOf, textAt, valueAt, bind, Except.bind, Value.toText, List.getElem?_cons_zero]
  by_cases hstart : start.toInt < 0
  · rw [naturalAt_of_neg (n := start) rfl hstart, if_pos hstart]
  · rw [naturalAt_of_nonneg (n := start) rfl (Int.not_lt.1 hstart), if_neg hstart]
    rfl

theorem part_eq_lift :
    part s start len = liftM (sliceOf [.value (.text s), .value (.integer start), .value (.integer len)]) := rfl

theorem charOf_eq_lift : charOf s start = liftM (sliceOf [.value (.text s), .value (.integer start)]) := rfl

theorem part_eq (hstart : 0 ≤ start.toInt) (hlen : 0 ≤ len.toInt) :
    part s start len = pure (.text (cut s start.toInt.toNat len.toInt.toNat)) := by
  rw [part_eq_lift, sliceOf_part, if_neg (Int.not_lt.2 hstart), if_neg (Int.not_lt.2 hlen)]
  rfl

theorem charOf_eq (hstart : 0 ≤ start.toInt) (h : start.toInt < s.length) :
    charOf s start = pure (.text (cut s start.toInt.toNat 1)) := by
  have hlt : start.toInt.toNat < s.toList.length := by
    rw [String.length_toList]
    omega
  have hchar := List.getElem?_eq_getElem hlt
  rw [charOf_eq_lift, sliceOf_char, if_neg (Int.not_lt.2 hstart), charAt, hchar, cut_one s hchar]
  rfl

/-- The length of a text that has one. -/
theorem lengthOf_eq {n : Int64} (h : n.toInt = s.length) : lengthOf s = pure (.integer n) := by
  have hn : Int64.ofNat s.length = n := by
    rw [← Int64.ofInt_eq_ofNat, ← h, Int64.ofInt_toInt]
  rw [← hn]
  rfl

theorem illegal_lift {e : Error} (h : e.kind = .illegalFunctionCall) : Illegal (liftM (.error e : Except Error Value)) :=
  ⟨e, rfl, h⟩

theorem illegal_part_iff : Illegal (part s start len) ↔ start.toInt < 0 ∨ len.toInt < 0 := by
  by_cases hstart : start.toInt < 0
  · rw [part_eq_lift, sliceOf_part, if_pos hstart]
    exact ⟨fun _ => .inl hstart, fun _ => illegal_lift rfl⟩
  by_cases hlen : len.toInt < 0
  · rw [part_eq_lift, sliceOf_part, if_neg hstart, if_pos hlen]
    exact ⟨fun _ => .inr hlen, fun _ => illegal_lift rfl⟩
  · rw [part_eq (Int.not_lt.1 hstart) (Int.not_lt.1 hlen)]
    exact ⟨fun h => absurd h (not_illegal_pure _), fun h => (h.elim hstart hlen).elim⟩

theorem illegal_charOf_iff : Illegal (charOf s start) ↔ ¬(0 ≤ start.toInt ∧ start.toInt < s.length) := by
  by_cases hstart : start.toInt < 0
  · rw [charOf_eq_lift, sliceOf_char, if_pos hstart]
    exact ⟨fun _ h => absurd h.1 (Int.not_le.2 hstart), fun _ => illegal_lift rfl⟩
  by_cases hlt : start.toInt < s.length
  · rw [charOf_eq (Int.not_lt.1 hstart) hlt]
    exact ⟨fun h => absurd h (not_illegal_pure _), fun h => absurd ⟨Int.not_lt.1 hstart, hlt⟩ h⟩
  · have hnone : s.toList[start.toInt.toNat]? = none :=
      List.getElem?_eq_none (by rw [String.length_toList]; omega)
    rw [charOf_eq_lift, sliceOf_char, if_neg hstart, charAt, hnone]
    exact ⟨fun _ h => hlt h.2, fun _ => illegal_lift rfl⟩

/-- A number up to an integer is one. -/
theorem exists_toInt_eq {k : Nat} {n : Int64} (h : (k : Int) ≤ n.toInt) : ∃ m : Int64, m.toInt = k := by
  have hn := n.toInt_lt
  exact ⟨Int64.ofInt k, Int64.toInt_ofInt_of_le (by omega) (by omega)⟩

variable (s) in
/-- **`MID$` goes with `LEN` and `+`.** The call with a length is illegal if and
only if the index or the length is negative; otherwise it gives the characters
at the indices from the first one on, below the sum of index and length and
below the length of the text, however large that sum is. The call without a
length gives one character, and is illegal where there is none. A text whose
length is an integer is what it is cut into at any place, and a part of a part
is the part at the sum of the indices. -/
theorem parts_of_texts :
    (∀ start len : Int64, (Illegal (part s start len) ↔ start.toInt < 0 ∨ len.toInt < 0) ∧
      (0 ≤ start.toInt → 0 ≤ len.toInt → ∃ t n, part s start len = pure (.text t) ∧
        (∀ i : Nat, t.toList[i]? =
          if start.toInt + i < min (start.toInt + len.toInt) s.length then s.toList[start.toInt.toNat + i]? else none) ∧
        lengthOf t = pure (.integer n) ∧ n.toInt = min len.toInt (max 0 (s.length - start.toInt)))) ∧
    (∀ start : Int64, (Illegal (charOf s start) ↔ ¬(0 ≤ start.toInt ∧ start.toInt < s.length)) ∧
      (0 ≤ start.toInt → start.toInt < s.length → charOf s start = part s start 1)) ∧
    (∀ n : Int64, n.toInt = s.length → lengthOf s = pure (.integer n) ∧
      ∀ k : Int64, 0 ≤ k.toInt → ∃ t u, part s 0 k = pure (.text t) ∧ part s k n = pure (.text u) ∧
        Binary.add.apply (.text t) (.text u) = .ok (.text s)) ∧
    ∀ i m j n sum : Int64, 0 ≤ i.toInt → 0 ≤ m.toInt → 0 ≤ j.toInt → 0 ≤ n.toInt → sum.toInt = i.toInt + j.toInt →
      ∃ t len, part s i m = pure (.text t) ∧ len.toInt = min n.toInt (max 0 (m.toInt - j.toInt)) ∧
        part t j n = part s sum len := by
  refine ⟨fun start len => ⟨illegal_part_iff, fun hstart hlen => ?_⟩, fun start => ⟨illegal_charOf_iff, ?_⟩, ?_, ?_⟩
  · have hcut := length_cut s start.toInt.toNat len.toInt.toNat
    obtain ⟨n, hn⟩ : ∃ n : Int64, n.toInt = (cut s start.toInt.toNat len.toInt.toNat).length :=
      exists_toInt_eq (n := len) (by omega)
    refine ⟨_, n, part_eq hstart hlen, fun i => ?_, lengthOf_eq hn, by omega⟩
    rw [getElem?_cut]
    exact if_congr (by omega) rfl rfl
  · intro hstart hlt
    rw [charOf_eq hstart hlt, part_eq hstart (by decide)]
    rfl
  · intro n hn
    refine ⟨lengthOf_eq hn, fun k hk => ⟨_, _, part_eq (by decide) hk, part_eq hk (by omega), ?_⟩⟩
    have hlength : n.toInt.toNat = s.length := by omega
    rw [hlength]
    exact congrArg (Except.ok ∘ Value.text) (cut_append_cut s k.toInt.toNat)
  · intro i m j n sum hi hm hj hn hsum
    obtain ⟨len, hlen⟩ : ∃ len : Int64, len.toInt = (min n.toInt.toNat (m.toInt.toNat - j.toInt.toNat) : Nat) :=
      exists_toInt_eq (n := n) (by omega)
    refine ⟨_, len, part_eq hi hm, by omega, ?_⟩
    have hstart : sum.toInt.toNat = i.toInt.toNat + j.toInt.toNat := by omega
    have hcount : len.toInt.toNat = min n.toInt.toNat (m.toInt.toNat - j.toInt.toNat) := by omega
    rw [part_eq hj hn, part_eq (by omega) (by omega), hstart, hcount, cut_cut]

-- Characters of one to four bytes, a length far past the end, a place past the
-- end, and a part that ends inside another.
theorem parts_of_wide_characters :
    (∃ t, part "aé😀b" 1 9223372036854775807 = pure (.text t) ∧ t.toList[2]? = some 'b' ∧
      t.toList[3]? = none ∧ lengthOf t = pure (.integer 3)) ∧
      charOf "aé😀b" 2 = part "aé😀b" 2 1 ∧ Illegal (charOf "aé😀b" 4) ∧
      (∃ t u, part "aé😀b" 0 7 = pure (.text t) ∧ part "aé😀b" 7 4 = pure (.text u) ∧
        Binary.add.apply (.text t) (.text u) = .ok (.text "aé😀b")) ∧
      ∃ t, part "aé😀b" 1 2 = pure (.text t) ∧ part t 1 9 = part "aé😀b" 2 1 := by
  obtain ⟨hpart, hchar, hcut, htwice⟩ := parts_of_texts "aé😀b"
  refine ⟨?_, (hchar 2).2 (by decide) (by decide), (hchar 4).1.2 (by decide), (hcut 4 (by decide)).2 7 (by decide), ?_⟩
  · obtain ⟨t, n, ht, hget, hlength, hn⟩ := (hpart 1 9223372036854775807).2 (by decide) (by decide)
    obtain rfl : n = 3 := Int64.toInt_inj.1 (by rw [hn]; decide)
    exact ⟨t, ht, (hget 2).trans (by decide), (hget 3).trans (by decide), hlength⟩
  · obtain ⟨t, len, ht, hlen, hparts⟩ := htwice 1 2 1 9 2 (by decide) (by decide) (by decide) (by decide) (by decide)
    obtain rfl : len = 1 := Int64.toInt_inj.1 (by rw [hlen]; decide)
    exact ⟨t, ht, hparts⟩

end LineBasic.Builtin
