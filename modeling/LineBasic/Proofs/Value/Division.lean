import Mathlib
import LineBasic.Proofs.Integer
import LineBasic.Value.Operator

/-!
# Arithmetic on integers

An operator on integers gives the whole number it stands for, or fails. A
quotient is made from the one rounded toward zero and a remainder from the one
that is never negative, each with a correction of its own; `Floored` says what
the two have in common, and both are the only numbers that meet it.

* `Value.floored_of_floorDiv`, `Value.floored_of_floorMod`: the two
  constructions are rounded down.
* `Floored.floor`: what is rounded down is the floor of the fraction.
* `Value.integer_arithmetic`: the operators on all integers, and no step on the
  way leaves 64 bits.
-/

namespace LineBasic

/-- Whether a whole number fits into 64 bits. -/
def Fits (k : Int) : Prop := -2 ^ 63 ≤ k ∧ k < 2 ^ 63

/-- A computation gives the whole number `k` if that fits, and overflows
otherwise. -/
def Exact (x : Except Error Value) (k : Int) : Prop :=
  (Fits k → ∃ n : Int64, n.toInt = k ∧ x = .ok (.integer n)) ∧ (¬Fits k → x = .error .overflow)

theorem Value.exact_exactly (k : Int) : Exact (exactly k) k := by
  constructor
  · intro h
    have hk : (Int64.ofInt k).toInt = k := Int64.toInt_ofInt_of_le h.1 h.2
    refine ⟨Int64.ofInt k, hk, ?_⟩
    rw [exactly, Integer.ofInt?_eq_some_iff.2 hk]
  · intro h
    have hk : Integer.ofInt? k = none := by
      rw [Option.eq_none_iff_forall_ne_some]
      intro n hn
      have hn' : n.toInt = k := Integer.ofInt?_eq_some_iff.1 hn
      have h1 := n.le_toInt
      have h2 := n.toInt_lt
      exact h ⟨by omega, by omega⟩
    rw [exactly, hk]

/-- A quotient and a remainder that are rounded down: the remainder lies between
zero and the divisor. -/
structure Floored (l r q k : Int) : Prop where
  eq : l = r * q + k
  between : (0 ≤ k ∧ k < r) ∨ (r < k ∧ k ≤ 0)

namespace Floored

variable {l r q k : Int}

theorem ne_zero (h : Floored l r q k) : r ≠ 0 := by
  have := h.between
  omega

theorem remainder_eq (h : Floored l r q k) : k = l - r * q := by
  have := h.eq
  omega

theorem abs_lt (h : Floored l r q k) : |k| < |r| := by
  rcases h.between with ⟨h0, h1⟩ | ⟨h0, h1⟩
  · rw [abs_of_nonneg h0, abs_of_pos (by omega)]
    exact h1
  · rw [abs_of_nonpos h1, abs_of_neg (by omega)]
    omega

theorem sign_eq (h : Floored l r q k) : k = 0 ∨ k.sign = r.sign := by
  rcases h.between with ⟨h0, h1⟩ | ⟨h0, h1⟩
  · rcases h0.eq_or_lt with h0 | h0
    · exact .inl h0.symm
    · exact .inr (by rw [Int.sign_eq_one_of_pos h0, Int.sign_eq_one_of_pos (by omega)])
  · rcases h1.eq_or_lt with h1 | h1
    · exact .inl h1
    · exact .inr (by rw [Int.sign_eq_neg_one_of_neg h1, Int.sign_eq_neg_one_of_neg (by omega)])

/-- What is left over is less than one divisor, so the quotient is the floor of
the fraction. -/
theorem floor (h : Floored l r q k) : ⌊(l : ℚ) / r⌋ = q := by
  have hr : (r : ℚ) ≠ 0 := by exact_mod_cast h.ne_zero
  have hl : (l : ℚ) / r = q + k / r := by
    have : (l : ℚ) = r * q + k := by exact_mod_cast h.eq
    rw [this]
    field_simp
  have hk : 0 ≤ (k : ℚ) / r ∧ (k : ℚ) / r < 1 := by
    rcases h.between with ⟨h0, h1⟩ | ⟨h0, h1⟩
    · have hr0 : (0 : ℚ) < r := by exact_mod_cast (by omega : 0 < r)
      exact ⟨div_nonneg (by exact_mod_cast h0) hr0.le, (div_lt_one hr0).2 (by exact_mod_cast h1)⟩
    · have hr0 : (r : ℚ) < 0 := by exact_mod_cast (by omega : r < 0)
      exact ⟨div_nonneg_of_nonpos (by exact_mod_cast h1) hr0.le,
        (div_lt_one_of_neg hr0).2 (by exact_mod_cast h0)⟩
  rw [Int.floor_eq_iff, hl]
  constructor <;> linarith [hk.1, hk.2]

end Floored

namespace Value

variable {l r q k : Int64}

theorem toInt_ne_zero (hr : r ≠ 0) : r.toInt ≠ 0 := fun h => hr (Int64.toInt_inj.1 h)

theorem quotient?_eq_some_iff :
    quotient? l r = some q ↔ r ≠ 0 ∧ ¬(l = Int64.minValue ∧ r = -1) ∧ l / r = q := by
  unfold quotient?
  split
  · rename_i h
    constructor
    · intro hq
      cases hq
    · rintro ⟨h0, h1, -⟩
      exact absurd h (not_or.2 ⟨h0, h1⟩)
  · rename_i h
    rw [Option.some_inj]
    exact ⟨fun hq => ⟨fun h0 => h (.inl h0), fun h1 => h (.inr h1), hq⟩, fun hq => hq.2.2⟩

theorem remainder?_eq_some_iff :
    remainder? l r = some k ↔
      r ≠ 0 ∧ ¬(l = Int64.minValue ∧ r = -1) ∧ Int64.ofInt (l.toInt % r.toInt) = k := by
  unfold remainder?
  split
  · rename_i h
    constructor
    · intro hk
      cases hk
    · rintro ⟨h0, h1, -⟩
      exact absurd h (not_or.2 ⟨h0, h1⟩)
  · rename_i h
    rw [Option.some_inj]
    exact ⟨fun hk => ⟨fun h0 => h (.inl h0), fun h1 => h (.inr h1), hk⟩, fun hk => hk.2.2⟩

/-- Only the least number divided by -1 has a quotient that does not fit. -/
theorem toInt_of_quotient? (h : quotient? l r = some q) : q.toInt = l.toInt.tdiv r.toInt := by
  obtain ⟨-, h1, rfl⟩ := quotient?_eq_some_iff.1 h
  rcases not_and_or.1 h1 with hl | hr
  · exact Int64.toInt_div_of_ne_left l r hl
  · exact Int64.toInt_div_of_ne_right l r hr

theorem toInt_of_remainder? (h : remainder? l r = some k) : k.toInt = l.toInt % r.toInt := by
  obtain ⟨h0, -, rfl⟩ := remainder?_eq_some_iff.1 h
  have h1 : 0 ≤ l.toInt % r.toInt := Int.emod_nonneg _ (toInt_ne_zero h0)
  have h2 : l.toInt % r.toInt < |r.toInt| := Int.emod_lt_abs _ (toInt_ne_zero h0)
  have h3 : |r.toInt| ≤ 2 ^ 63 := abs_le.2 ⟨r.le_toInt, by have := r.toInt_lt; omega⟩
  exact Int64.toInt_ofInt_of_le (by omega) (by omega)

theorem roundedUp_iff :
    roundedUp l r = true ↔ l.toInt.tmod r.toInt ≠ 0 ∧ ¬(l.toInt < 0 ↔ r.toInt < 0) := by
  have hz : (l % r != 0) = true ↔ l.toInt.tmod r.toInt ≠ 0 := by
    rw [bne_iff_ne, ne_eq, ← Int64.toInt_inj, Int64.toInt_mod, Int64.toInt_zero]
  have hs : (decide (l < 0) != decide (r < 0)) = true ↔ ¬(l.toInt < 0 ↔ r.toInt < 0) := by
    rw [bne_iff_ne, ne_eq, decide_eq_decide, Int64.lt_iff_toInt_lt, Int64.lt_iff_toInt_lt, Int64.toInt_zero]
  rw [roundedUp, Bool.and_eq_true, hz, hs]

/-- A divisor that leaves something over is neither 1 nor -1, so the quotient is
far from the least number. -/
theorem toInt_sub_one (h : quotient? l r = some q) (hu : roundedUp l r = true) :
    (q - 1).toInt = q.toInt - 1 := by
  have h0 : r.toInt ≠ 0 := toInt_ne_zero (quotient?_eq_some_iff.1 h).1
  have hm : l.toInt.tmod r.toInt ≠ 0 := (roundedUp_iff.1 hu).1
  have hr : 2 ≤ r.toInt.natAbs := by
    by_contra hlt
    have hr1 : r.toInt.natAbs = 1 := by omega
    rcases Int.natAbs_eq r.toInt with h1 | h1 <;> rw [h1, hr1] at hm <;> simp at hm
  have hq : q.toInt.natAbs ≤ l.toInt.natAbs / 2 := by
    rw [toInt_of_quotient? h, Int.natAbs_tdiv]
    exact Nat.div_le_div_left hr (by omega)
  have hl := l.le_toInt
  have hl' := l.toInt_lt
  rw [Int64.toInt_sub, Int64.toInt_one]
  exact Int.bmod_eq_of_le (by omega) (by omega)

theorem toInt_add_divisor (h : remainder? l r = some k) (hk : k ≠ 0 ∧ r < 0) :
    (k + r).toInt = k.toInt + r.toInt := by
  have h0 : 0 ≤ k.toInt := by
    rw [toInt_of_remainder? h]
    exact Int.emod_nonneg _ (toInt_ne_zero (remainder?_eq_some_iff.1 h).1)
  have h1 : r.toInt < 0 := Int64.lt_iff_toInt_lt.1 hk.2
  have h2 := k.toInt_lt
  have h3 := r.le_toInt
  rw [Int64.toInt_add]
  exact Int.bmod_eq_of_le (by omega) (by omega)

/-- The quotient rounded toward zero is one too large exactly if the remainder,
which has the sign of the number divided, has not that of the divisor. -/
theorem floored_tdiv {a b : Int} (hb : b ≠ 0) :
    if a.tmod b ≠ 0 ∧ ¬(a < 0 ↔ b < 0) then Floored a b (a.tdiv b - 1) (a.tmod b + b)
    else Floored a b (a.tdiv b) (a.tmod b) := by
  have heq : a = b * a.tdiv b + a.tmod b := (Int.mul_tdiv_add_tmod a b).symm
  have hlt : (a.tmod b).natAbs < b.natAbs := by
    rw [Int.natAbs_tmod]
    exact Nat.mod_lt _ (by omega)
  have hpos : 0 ≤ a → 0 ≤ a.tmod b := fun h => Int.tmod_nonneg b h
  have hneg : a ≤ 0 → a.tmod b ≤ 0 := fun h => by
    have h' : 0 ≤ (-a).tmod b := Int.tmod_nonneg b (Int.neg_nonneg_of_nonpos h)
    rw [Int.neg_tmod] at h'
    omega
  split
  · exact ⟨by rw [Int.mul_sub]; omega, by omega⟩
  · exact ⟨heq, by omega⟩

/-- The remainder that is never negative lies a divisor too high exactly if the
divisor is negative. -/
theorem floored_emod {a b : Int} (hb : b ≠ 0) :
    if a % b ≠ 0 ∧ b < 0 then Floored a b (a / b - 1) (a % b + b) else Floored a b (a / b) (a % b) := by
  have heq : a = b * (a / b) + a % b := (Int.mul_ediv_add_emod a b).symm
  have h0 : 0 ≤ a % b := Int.emod_nonneg a hb
  have hlt : a % b < b.natAbs := Int.emod_lt a hb
  split
  · exact ⟨by rw [Int.mul_sub]; omega, by omega⟩
  · exact ⟨heq, by omega⟩

theorem floored_of_floorDiv (hr : r ≠ 0) (hmin : ¬(l = Int64.minValue ∧ r = -1)) :
    ∃ q, floorDiv l r = .ok q ∧ ∃ k, Floored l.toInt r.toInt q.toInt k := by
  have hq : quotient? l r = some (l / r) := quotient?_eq_some_iff.2 ⟨hr, hmin, rfl⟩
  have hfl := floored_tdiv (a := l.toInt) (toInt_ne_zero hr)
  rw [← toInt_of_quotient? hq] at hfl
  refine ⟨_, by rw [floorDiv, if_neg hr, hq], ?_⟩
  by_cases hu : roundedUp l r = true
  · rw [if_pos (roundedUp_iff.1 hu), ← toInt_sub_one hq hu] at hfl
    rw [if_pos hu]
    exact ⟨_, hfl⟩
  · rw [if_neg (mt roundedUp_iff.2 hu)] at hfl
    rw [if_neg hu]
    exact ⟨_, hfl⟩

theorem floored_of_floorMod (hr : r ≠ 0) (hmin : ¬(l = Int64.minValue ∧ r = -1)) :
    ∃ k, floorMod l r = .ok k ∧ ∃ q, Floored l.toInt r.toInt q k.toInt := by
  have hk : remainder? l r = some (Int64.ofInt (l.toInt % r.toInt)) :=
    remainder?_eq_some_iff.2 ⟨hr, hmin, rfl⟩
  generalize Int64.ofInt (l.toInt % r.toInt) = k at hk
  have hfl := floored_emod (a := l.toInt) (toInt_ne_zero hr)
  have hc : (k ≠ 0 ∧ r < 0) ↔ (k.toInt ≠ 0 ∧ r.toInt < 0) := by
    rw [Int64.lt_iff_toInt_lt, Int64.toInt_zero, ne_eq, ← Int64.toInt_inj, Int64.toInt_zero]
  rw [← toInt_of_remainder? hk] at hfl
  refine ⟨_, by rw [floorMod, if_neg hr, hk], ?_⟩
  by_cases hu : k ≠ 0 ∧ r < 0
  · rw [if_pos (hc.1 hu), ← toInt_add_divisor hk hu] at hfl
    rw [if_pos hu]
    exact ⟨_, hfl⟩
  · rw [if_neg (mt hc.2 hu)] at hfl
    rw [if_neg hu]
    exact ⟨_, hfl⟩

/-- Which divisions of integers fail, and how: the same ones whatever is made of
the quotient. -/
theorem division_error_iff {o : Binary} (ho : o ∈ [Binary.divide, .quotient, .remainder]) (l r : Int64) :
    (o.apply (.integer l) (.integer r) = .error .divisionByZero ↔ r = 0) ∧
      (o.apply (.integer l) (.integer r) = .error .overflow ↔ l = Int64.minValue ∧ r = -1) := by
  have hdiv : (floorDiv l r).map integer = o.apply (.integer l) (.integer r) ∨
      (floorMod l r).map integer = o.apply (.integer l) (.integer r) := by
    simp only [List.mem_cons, List.not_mem_nil, or_false] at ho
    rcases ho with rfl | rfl | rfl
    · exact .inl rfl
    · exact .inl rfl
    · exact .inr rfl
  have hdiff : Error.divisionByZero ≠ Error.overflow := by decide
  by_cases h0 : r = 0
  · have hne : ¬(l = Int64.minValue ∧ r = -1) := by
      rintro ⟨-, h⟩
      rw [h0] at h
      cases h
    have he : o.apply (.integer l) (.integer r) = .error .divisionByZero := by
      rcases hdiv with h | h
      · rw [← h, floorDiv, if_pos h0, Except.map]
      · rw [← h, floorMod, if_pos h0, Except.map]
    rw [he]
    exact ⟨by simp [h0], by simpa [hdiff] using hne⟩
  · by_cases h1 : l = Int64.minValue ∧ r = -1
    · have he : o.apply (.integer l) (.integer r) = .error .overflow := by
        rcases hdiv with h | h
        · rw [← h, floorDiv, if_neg h0, quotient?, if_pos (.inr h1), Except.map]
        · rw [← h, floorMod, if_neg h0, remainder?, if_pos (.inr h1), Except.map]
      rw [he]
      exact ⟨by simp [h0, hdiff.symm], by simp [h1]⟩
    · have he : ∃ v, o.apply (.integer l) (.integer r) = .ok v := by
        rcases hdiv with h | h
        · obtain ⟨q, hq, -⟩ := floored_of_floorDiv h0 h1
          exact ⟨_, by rw [← h, hq, Except.map]⟩
        · obtain ⟨k, hk, -⟩ := floored_of_floorMod h0 h1
          exact ⟨_, by rw [← h, hk, Except.map]⟩
      obtain ⟨v, hv⟩ := he
      rw [hv]
      exact ⟨by simp [h0], by simpa using h1⟩

/-- Both constructions meet `Floored` with the same divisor, so they are parts
of one division. -/
theorem divided (h0 : r ≠ 0) (h1 : ¬(l = Int64.minValue ∧ r = -1)) :
    ∃ q k : Int64, floorDiv l r = .ok q ∧ floorMod l r = .ok k ∧
      Floored l.toInt r.toInt q.toInt k.toInt := by
  obtain ⟨q, hq, k', hqf⟩ := floored_of_floorDiv h0 h1
  obtain ⟨k, hk, q', hkf⟩ := floored_of_floorMod h0 h1
  have hqq : q' = q.toInt := hkf.floor.symm.trans hqf.floor
  rw [hqq] at hkf
  exact ⟨q, k, hq, hk, hkf⟩

/-- Integer arithmetic is exact or fails. A sum, a difference, a product and a
negation are the whole number meant if it fits, and overflow otherwise. A
division fails exactly for a divisor of zero and for the one quotient that does
not fit. Otherwise its quotient is the floor of the fraction and its remainder
what is left, zero or of the sign of the divisor and smaller than it. None of
the steps that lead there wraps around. -/
theorem integer_arithmetic (l r : Int64) :
    Exact (Binary.add.apply (.integer l) (.integer r)) (l.toInt + r.toInt) ∧
    Exact (Binary.subtract.apply (.integer l) (.integer r)) (l.toInt - r.toInt) ∧
    Exact (Binary.multiply.apply (.integer l) (.integer r)) (l.toInt * r.toInt) ∧
    Exact (Unary.negate.apply (.integer l)) (-l.toInt) ∧
    (∀ o ∈ [Binary.divide, .quotient, .remainder],
      (o.apply (.integer l) (.integer r) = .error .divisionByZero ↔ r = 0) ∧
      (o.apply (.integer l) (.integer r) = .error .overflow ↔ l = Int64.minValue ∧ r = -1)) ∧
    (r = 0 ∨ (l = Int64.minValue ∧ r = -1) ∨
      ∃ q k : Int64,
        Binary.divide.apply (.integer l) (.integer r) = .ok (.integer q) ∧
        Binary.quotient.apply (.integer l) (.integer r) = .ok (.integer q) ∧
        Binary.remainder.apply (.integer l) (.integer r) = .ok (.integer k) ∧
        q.toInt = ⌊(l.toInt : ℚ) / r.toInt⌋ ∧
        k.toInt = l.toInt - r.toInt * ⌊(l.toInt : ℚ) / r.toInt⌋ ∧
        (k.toInt = 0 ∨ k.toInt.sign = r.toInt.sign) ∧ |k.toInt| < |r.toInt| ∧
        l.toInt = r.toInt * q.toInt + k.toInt) ∧
    (∀ q, quotient? l r = some q →
      q.toInt = l.toInt.tdiv r.toInt ∧ (l % r).toInt = l.toInt.tmod r.toInt ∧
      (roundedUp l r = true → (q - 1).toInt = q.toInt - 1)) ∧
    (∀ k, remainder? l r = some k →
      k.toInt = l.toInt % r.toInt ∧ (k ≠ 0 ∧ r < 0 → (k + r).toInt = k.toInt + r.toInt)) := by
  refine ⟨exact_exactly _, exact_exactly _, exact_exactly _, exact_exactly _,
    fun o ho => division_error_iff ho l r, ?_, ?_, ?_⟩
  · by_cases h0 : r = 0
    · exact .inl h0
    by_cases h1 : l = Int64.minValue ∧ r = -1
    · exact .inr (.inl h1)
    obtain ⟨q, k, hq, hk, hf⟩ := divided h0 h1
    have hquot : (floorDiv l r).map integer = .ok (.integer q) := by rw [hq, Except.map]
    have hrem : (floorMod l r).map integer = .ok (.integer k) := by rw [hk, Except.map]
    refine .inr (.inr ⟨q, k, hquot, hquot, hrem, hf.floor.symm, ?_, hf.sign_eq, hf.abs_lt, hf.eq⟩)
    rw [hf.floor]
    exact hf.remainder_eq
  · intro q hq
    exact ⟨toInt_of_quotient? hq, Int64.toInt_mod l r, toInt_sub_one hq⟩
  · intro k hk
    exact ⟨toInt_of_remainder? hk, toInt_add_divisor hk⟩

/-- The greatest number divided by -2: both corrections are made. -/
theorem greatest_by_minus_two :
    (quotient? Int64.maxValue (-2) = some (-4611686018427387903) ∧ roundedUp Int64.maxValue (-2) = true ∧
      ((-4611686018427387903 : Int64) - 1).toInt = (-4611686018427387903 : Int64).toInt - 1) ∧
    (remainder? Int64.maxValue (-2) = some 1 ∧ ((1 : Int64) ≠ 0 ∧ (-2 : Int64) < 0) ∧
      ((1 : Int64) + -2).toInt = (1 : Int64).toInt + (-2 : Int64).toInt) := by
  obtain ⟨-, -, -, -, -, -, hq, hk⟩ := integer_arithmetic Int64.maxValue (-2)
  have h1 : quotient? Int64.maxValue (-2) = some (-4611686018427387903) := by decide +kernel
  have h2 : roundedUp Int64.maxValue (-2) = true := by decide +kernel
  have h3 : remainder? Int64.maxValue (-2) = some 1 := by decide +kernel
  have h4 : (1 : Int64) ≠ 0 ∧ (-2 : Int64) < 0 := by decide +kernel
  exact ⟨⟨h1, h2, (hq _ h1).2.2 h2⟩, h3, h4, (hk _ h3).2 h4⟩

end Value

end LineBasic
