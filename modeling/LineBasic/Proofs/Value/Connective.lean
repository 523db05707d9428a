import Mathlib
import LineBasic.Value.Operator

/-!
# Connectives

`AND`, `OR` and `XOR` go by the truth of their operands, and a text has none.
`XOR` looks at both operands. `AND` and `OR` look at the right one only if the
left one leaves the outcome open, so a text on the right of a number that
decides is passed over. But for that, the connectives refuse a text on either
side, do not care for the order of their operands, and exchange under `NOT`.

* `Value.holds`: the truth of a number.
* `Value.PassedOver`: a text that a connective does not look at.
* `Value.connect_refused_iff`, `Value.connect_comm_iff`: what follows for `AND`
  and `OR` alike.
* `Value.connectives`: all connectives on all values.
-/

namespace LineBasic.Value

variable {l r v : Value} {decided : Bool}

/-- Whether a number counts as true. A text does not. -/
def holds : Value → Bool
  | integer n => n != 0
  | float x => x != 0
  | text _ => false

theorem truth_of_numeric (h : v.isNumeric = true) : v.truth = .ok v.holds := by
  cases v with
  | text s => cases h
  | _ => rfl

theorem truth_of_text (h : v.isNumeric = false) : v.truth = .error .conditionExpected := by
  cases v with
  | text s => rfl
  | _ => cases h

/-- A type mismatch. -/
def Refused (x : Except Error Value) : Prop := ∃ e, x = .error e ∧ e.kind = .typeMismatch

theorem refused_error : Refused (.error .conditionExpected) := ⟨_, rfl, rfl⟩

theorem not_refused_ok : ¬Refused (.ok v) := by
  rintro ⟨e, h, -⟩
  cases h

/-- The right operand is a text, and nobody looks at it: the left one is a
number that decides. -/
def PassedOver (decided : Bool) (l r : Value) : Prop :=
  l.isNumeric = true ∧ l.holds = decided ∧ r.isNumeric = false

/-! ### A connective that may be decided by its left operand -/

theorem connect_of_text (h : l.isNumeric = false) : connect decided l r = .error .conditionExpected := by
  rw [connect, truth_of_text h]

theorem connect_of_decided (h : l.isNumeric = true) (hl : l.holds = decided) :
    connect decided l r = .ok (ofBool decided) := by
  simp only [connect, truth_of_numeric h, hl, if_true]

theorem connect_of_open (h : l.isNumeric = true) (hl : l.holds ≠ decided) :
    connect decided l r = r.truth.map ofBool := by
  simp only [connect, truth_of_numeric h, hl, if_false]

theorem connect_of_passedOver (h : PassedOver decided l r) : connect decided l r = .ok (ofBool decided) :=
  connect_of_decided h.1 h.2.1

/-- A text is refused wherever it stands, unless it is passed over. -/
theorem connect_of_mismatch (ht : l.isNumeric = false ∨ r.isNumeric = false) (h : ¬PassedOver decided l r) :
    connect decided l r = .error .conditionExpected := by
  cases hl : l.isNumeric with
  | false => exact connect_of_text hl
  | true =>
    have hr : r.isNumeric = false := by simpa [hl] using ht
    have hopen : l.holds ≠ decided := fun hd => h ⟨hl, hd, hr⟩
    rw [connect_of_open hl hopen, truth_of_text hr, Except.map]

/-- Two numbers give the truth of one if the other one leaves it open. -/
theorem connect_of_numeric (hl : l.isNumeric = true) (hr : r.isNumeric = true) :
    connect decided l r = .ok (ofBool (if l.holds = decided then decided else r.holds)) := by
  by_cases hd : l.holds = decided
  · rw [connect_of_decided hl hd, if_pos hd]
  · rw [connect_of_open hl hd, truth_of_numeric hr, if_neg hd, Except.map]

theorem connect_refused_iff :
    Refused (connect decided l r) ↔ (l.isNumeric = false ∨ r.isNumeric = false) ∧ ¬PassedOver decided l r := by
  constructor
  · intro h
    refine ⟨?_, ?_⟩
    · by_contra hnum
      obtain ⟨hl, hr⟩ : l.isNumeric = true ∧ r.isNumeric = true := by simpa using hnum
      rw [connect_of_numeric hl hr] at h
      exact not_refused_ok h
    · intro hp
      rw [connect_of_passedOver hp] at h
      exact not_refused_ok h
  · rintro ⟨ht, hp⟩
    rw [connect_of_mismatch ht hp]
    exact refused_error

/-- If a text is passed over in one order, it is refused in the other one. -/
theorem connect_ne_of_passedOver (h : PassedOver decided l r) : connect decided l r ≠ connect decided r l := by
  rw [connect_of_passedOver h, connect_of_text h.2.2]
  intro he
  cases he

theorem connect_comm_iff :
    connect decided l r = connect decided r l ↔ ¬PassedOver decided l r ∧ ¬PassedOver decided r l := by
  constructor
  · intro h
    exact ⟨fun hp => connect_ne_of_passedOver hp h, fun hp => connect_ne_of_passedOver hp h.symm⟩
  · rintro ⟨hlr, hrl⟩
    by_cases ht : l.isNumeric = false ∨ r.isNumeric = false
    · rw [connect_of_mismatch ht hlr, connect_of_mismatch ht.symm hrl]
    · obtain ⟨hl, hr⟩ : l.isNumeric = true ∧ r.isNumeric = true := by simpa using ht
      rw [connect_of_numeric hl hr, connect_of_numeric hr hl]
      generalize l.holds = a
      generalize r.holds = b
      cases decided <;> cases a <;> cases b <;> rfl

/-! ### The connective that looks at both operands -/

theorem exclusive_of_numeric (hl : l.isNumeric = true) (hr : r.isNumeric = true) :
    exclusive l r = .ok (ofBool (l.holds ^^ r.holds)) := by
  rw [exclusive, truth_of_numeric hl, truth_of_numeric hr]
  rfl

theorem exclusive_of_mismatch (ht : l.isNumeric = false ∨ r.isNumeric = false) :
    exclusive l r = .error .conditionExpected := by
  rw [exclusive]
  cases hl : l.isNumeric with
  | false =>
    rw [truth_of_text hl]
    rfl
  | true =>
    have hr : r.isNumeric = false := by simpa [hl] using ht
    rw [truth_of_numeric hl, truth_of_text hr]
    rfl

theorem exclusive_refused_iff : Refused (exclusive l r) ↔ l.isNumeric = false ∨ r.isNumeric = false := by
  by_cases ht : l.isNumeric = false ∨ r.isNumeric = false
  · rw [exclusive_of_mismatch ht]
    exact iff_of_true refused_error ht
  · obtain ⟨hl, hr⟩ : l.isNumeric = true ∧ r.isNumeric = true := by simpa using ht
    rw [exclusive_of_numeric hl hr]
    exact iff_of_false not_refused_ok ht

theorem exclusive_comm (l r : Value) : exclusive l r = exclusive r l := by
  by_cases ht : l.isNumeric = false ∨ r.isNumeric = false
  · rw [exclusive_of_mismatch ht, exclusive_of_mismatch ht.symm]
  · obtain ⟨hl, hr⟩ : l.isNumeric = true ∧ r.isNumeric = true := by simpa using ht
    rw [exclusive_of_numeric hl hr, exclusive_of_numeric hr hl, Bool.xor_comm]

/-! ### Negation -/

theorem holds_ofBool (b : Bool) : (ofBool b).holds = b := by
  cases b <;> decide

theorem not_of_numeric (h : v.isNumeric = true) : Unary.not.apply v = .ok (ofBool !v.holds) := by
  rw [Unary.apply, truth_of_numeric h, Except.map]

theorem not_of_text (h : v.isNumeric = false) : Unary.not.apply v = .error .conditionExpected := by
  rw [Unary.apply, truth_of_text h, Except.map]

theorem not_ofBool (b : Bool) : Unary.not.apply (ofBool b) = .ok (ofBool !b) := by
  rw [not_of_numeric rfl, holds_ofBool]

/-- The operands are denied one after the other, and then one of them is to
hold. -/
def deniedOne (l r : Value) : Except Error Value := do
  let a ← Unary.not.apply l
  let b ← Unary.not.apply r
  Binary.or.apply a b

theorem deniedOne_of_mismatch (ht : l.isNumeric = false ∨ r.isNumeric = false) :
    deniedOne l r = .error .conditionExpected := by
  rw [deniedOne]
  cases hl : l.isNumeric with
  | false =>
    rw [not_of_text hl]
    rfl
  | true =>
    have hr : r.isNumeric = false := by simpa [hl] using ht
    rw [not_of_numeric hl, not_of_text hr]
    rfl

theorem deniedOne_of_numeric (hl : l.isNumeric = true) (hr : r.isNumeric = true) :
    deniedOne l r = .ok (ofBool !(l.holds && r.holds)) := by
  rw [deniedOne, not_of_numeric hl, not_of_numeric hr]
  show connect true (ofBool !l.holds) (ofBool !r.holds) = _
  rw [connect_of_numeric rfl rfl, holds_ofBool, holds_ofBool]
  generalize l.holds = a
  generalize r.holds = b
  cases a <;> cases b <;> rfl

theorem not_and_iff :
    (Binary.and.apply l r >>= Unary.not.apply) = deniedOne l r ↔ ¬PassedOver false l r := by
  show (connect false l r >>= Unary.not.apply) = _ ↔ _
  by_cases hp : PassedOver false l r
  · refine iff_of_false ?_ (not_not.2 hp)
    rw [connect_of_passedOver hp, deniedOne_of_mismatch (.inr hp.2.2)]
    intro he
    cases (not_ofBool false).symm.trans he
  · refine iff_of_true ?_ hp
    by_cases ht : l.isNumeric = false ∨ r.isNumeric = false
    · rw [connect_of_mismatch ht hp, deniedOne_of_mismatch ht]
      rfl
    · obtain ⟨hl, hr⟩ : l.isNumeric = true ∧ r.isNumeric = true := by simpa using ht
      rw [connect_of_numeric hl hr, deniedOne_of_numeric hl hr]
      refine (not_ofBool _).trans ?_
      generalize l.holds = a
      generalize r.holds = b
      cases a <;> cases b <;> rfl

/-! ### All connectives -/

/-- **Connectives treat their operands alike, but for a text that they pass
over.** Two numbers give 1 or 0 by the truth table. A text on either side is a
type mismatch, unless it is on the right of a number that decides `AND` or `OR`:
then it is passed over, and the number decides. Where that happens, and only
there, the operands cannot be exchanged, and `NOT` of `AND` is not the `OR` of
both denied. -/
theorem connectives (l r : Value) :
    (l.isNumeric = true → r.isNumeric = true →
      Binary.and.apply l r = .ok (ofBool (l.holds && r.holds)) ∧
      Binary.or.apply l r = .ok (ofBool (l.holds || r.holds)) ∧
      Binary.xor.apply l r = .ok (ofBool (l.holds ^^ r.holds))) ∧
    (Refused (Binary.and.apply l r) ↔ (l.isNumeric = false ∨ r.isNumeric = false) ∧ ¬PassedOver false l r) ∧
    (Refused (Binary.or.apply l r) ↔ (l.isNumeric = false ∨ r.isNumeric = false) ∧ ¬PassedOver true l r) ∧
    (Refused (Binary.xor.apply l r) ↔ l.isNumeric = false ∨ r.isNumeric = false) ∧
    (PassedOver false l r → Binary.and.apply l r = .ok (ofBool false)) ∧
    (PassedOver true l r → Binary.or.apply l r = .ok (ofBool true)) ∧
    (Binary.and.apply l r = Binary.and.apply r l ↔ ¬PassedOver false l r ∧ ¬PassedOver false r l) ∧
    (Binary.or.apply l r = Binary.or.apply r l ↔ ¬PassedOver true l r ∧ ¬PassedOver true r l) ∧
    Binary.xor.apply l r = Binary.xor.apply r l ∧
    ((Binary.and.apply l r >>= Unary.not.apply) = deniedOne l r ↔ ¬PassedOver false l r) := by
  refine ⟨fun hl hr => ⟨?_, ?_, exclusive_of_numeric hl hr⟩, connect_refused_iff, connect_refused_iff,
    exclusive_refused_iff, connect_of_passedOver, connect_of_passedOver, connect_comm_iff, connect_comm_iff,
    exclusive_comm l r, not_and_iff⟩
  · refine (connect_of_numeric hl hr).trans ?_
    cases l.holds <;> rfl
  · refine (connect_of_numeric hl hr).trans ?_
    cases l.holds <;> rfl

-- Two numbers, and texts behind a number that decides.
theorem connectives_mixed :
    Binary.and.apply (.integer 2) (.float 0.5) = .ok (.integer 1) ∧
      Binary.and.apply (.integer 0) (.text "X") = .ok (.integer 0) ∧
      Binary.or.apply (.integer 7) (.text "X") = .ok (.integer 1) := by
  have hhalf : (float 0.5).holds = true := by decide +kernel
  obtain ⟨hand, -, -⟩ := (connectives (.integer 2) (.float 0.5)).1 rfl rfl
  rw [hhalf] at hand
  refine ⟨hand, ?_, ?_⟩
  · exact (connectives (.integer 0) (.text "X")).2.2.2.2.1 ⟨rfl, by decide, rfl⟩
  · exact (connectives (.integer 7) (.text "X")).2.2.2.2.2.1 ⟨rfl, by decide, rfl⟩

-- A text is refused on the left of a number that decides, and passed over on
-- its right.
theorem and_passes_over_text :
    ¬Refused (Binary.and.apply (.integer 0) (.text "X")) ∧
      Binary.and.apply (.integer 0) (.text "X") ≠ Binary.and.apply (.text "X") (.integer 0) ∧
      (Binary.and.apply (.integer 0) (.text "X") >>= Unary.not.apply) ≠ deniedOne (.integer 0) (.text "X") := by
  refine ⟨not_refused_ok, ?_, ?_⟩
  · intro h
    cases h
  · intro h
    cases h

end LineBasic.Value
