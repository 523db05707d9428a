import Mathlib
import LineBasic.Error
import LineBasic.Text.Position

/-!
# Who is at fault

An error may tell that the interpreter itself is at fault, or the text, or
neither. If the text is, the error should say where.

* `Error.Everyday`: neither the interpreter nor the text is at fault.
* `Error.Sited`: the interpreter is not at fault, and a fault in the text is at
  one of certain places.
* `Error.Misread`: the text is at fault, at one of certain places.
* `Raises`: what is known of the error if a computation fails.
-/

namespace LineBasic

/-- The interpreter itself is not at fault. -/
def Error.Ordinary (e : Error) : Prop := e.kind ≠ .internalError

/-- Neither the interpreter nor the text is at fault. -/
structure Error.Everyday (e : Error) : Prop where
  ordinary : e.Ordinary
  notSyntax : e.kind ≠ .syntaxError

/-- The error names no line of a program, and one of the places. -/
def Error.At (here : Position → Prop) (e : Error) : Prop := e.line = none ∧ ∃ p ∈ e.position, here p

/-- The interpreter is not at fault, and if the text is, the error says at which
of the places. -/
structure Error.Sited (here : Position → Prop) (e : Error) : Prop where
  ordinary : e.Ordinary
  place : e.kind = .syntaxError → e.At here

/-- The text is at fault, and the error says at which of the places. -/
structure Error.Misread (here : Position → Prop) (e : Error) : Prop where
  kind : e.kind = .syntaxError
  place : e.At here

theorem Error.Misread.sited {here : Position → Prop} {e : Error} (h : e.Misread here) : e.Sited here := by
  refine ⟨?_, fun _ => h.place⟩
  rw [Ordinary, h.kind]
  exact ErrorKind.noConfusion

theorem Error.Sited.mono {here here' : Position → Prop} {e : Error} (h : e.Sited here) (hp : ∀ p, here p → here' p) :
    e.Sited here' := by
  refine ⟨h.ordinary, ?_⟩
  intro hs
  obtain ⟨hline, p, hm, hhere⟩ := h.place hs
  exact ⟨hline, p, hm, hp p hhere⟩

namespace Error

@[simp] theorem kind_inLine (e : Error) (n : Int64) : (e.inLine n).kind = e.kind := by
  unfold inLine
  split <;> rfl

@[simp] theorem position_inLine (e : Error) (n : Int64) : (e.inLine n).position = e.position := by
  unfold inLine
  split <;> rfl

/-- The first number stays. -/
@[simp] theorem inLine_inLine (e : Error) (n k : Int64) : (e.inLine n).inLine k = e.inLine n := by
  cases h : e.line with
  | none => simp only [inLine, h]
  | some j => simp only [inLine, h]

end Error

/-- If the computation fails, the error is as `P` says. -/
def Raises {α : Type} (P : Error → Prop) (x : Except Error α) : Prop := ∀ e, x = .error e → P e

section Except

variable {α β : Type} {P : Error → Prop}

theorem raises_ok (a : α) : Raises P (.ok a) := by
  intro e h
  cases h

theorem raises_error {e : Error} (h : P e) : Raises P (.error e : Except Error α) := by
  intro e' h'
  obtain rfl := Except.error.inj h'
  exact h

theorem Raises.mono {Q : Error → Prop} {x : Except Error α} (h : Raises P x) (hpq : ∀ e, P e → Q e) : Raises Q x :=
  fun e he => hpq e (h e he)

theorem Raises.bind {x : Except Error α} (h : Raises P x) {f : α → Except Error β}
    (hf : ∀ a, Raises P (f a)) : Raises P (x >>= f) := by
  cases x with
  | ok a => exact hf a
  | error e => exact raises_error (h e rfl)

theorem Raises.map {x : Except Error α} (h : Raises P x) (f : α → β) : Raises P (x.map f) :=
  h.bind (f := fun a => .ok (f a)) fun a => raises_ok (f a)

end Except

end LineBasic
