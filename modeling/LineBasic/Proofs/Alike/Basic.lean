import Mathlib
import LineBasic.Console
import LineBasic.Expr.Reader

/-!
# Texts that differ in positions only

The same tokens can stand at different places of two texts. What such texts
tell is the same, and so are their errors but for the positions that they name.

* `Error.Alike`: errors that are equal, or syntax errors that differ in their
  position only.
* `Tape.Alike`: tapes with the same tokens.
-/

namespace LineBasic

/-- The errors have the same kind, line and detail. Syntax errors may name
different positions. -/
structure Error.Alike (e e' : Error) : Prop where
  kind : e.kind = e'.kind
  line : e.line = e'.line
  detail : e.detail = e'.detail
  position : e.kind ≠ .syntaxError → e.position = e'.position

theorem Error.Alike.refl (e : Error) : e.Alike e := ⟨rfl, rfl, rfl, fun _ => rfl⟩

theorem Error.Alike.symm {e e' : Error} (h : e.Alike e') : e'.Alike e :=
  ⟨h.kind.symm, h.line.symm, h.detail.symm, fun hk => (h.position (h.kind ▸ hk)).symm⟩

theorem Error.Alike.trans {e e' e'' : Error} (h : e.Alike e') (h' : e'.Alike e'') : e.Alike e'' where
  kind := h.kind.trans h'.kind
  line := h.line.trans h'.line
  detail := h.detail.trans h'.detail
  position hk := (h.position hk).trans (h'.position (h.kind ▸ hk))

theorem Error.alike_expected (p q : Position) (name : String) (thing : Option String) :
    (Error.expected p name thing).Alike (.expected q name thing) :=
  ⟨rfl, rfl, rfl, fun h => absurd rfl h⟩

/-- The halts are equal but for the position of a syntax error. -/
def Halt.Alike : Halt → Halt → Prop
  | failed e, failed e' => e.Alike e'
  | h, h' => h = h'

theorem Halt.Alike.refl (h : Halt) : h.Alike h := by
  cases h with
  | failed e => exact Error.Alike.refl e
  | _ => rfl

theorem Halt.Alike.eq_exhausted {h : Halt} (hh : Halt.Alike .exhausted h) : h = .exhausted := by
  cases h with
  | exhausted => rfl
  | _ => cases hh

/-! ### Tapes -/

namespace Tape

/-- The tapes have the same tokens, and end in the same way. -/
inductive Alike : Tape → Tape → Prop
  | stop (p q : Position) : Alike (.stop p) (.stop q)
  | broken {e e' : Error} : e.Alike e' → Alike (.broken e) (.broken e')
  | cons (token : Token) (p q p' q' : Position) {r r' : Tape} :
      Alike r r' → Alike (.cons ⟨token, p, q⟩ r) (.cons ⟨token, p', q'⟩ r')

theorem Alike.symm {t t' : Tape} (h : t.Alike t') : t'.Alike t := by
  induction h with
  | stop p q => exact .stop q p
  | broken he => exact .broken he.symm
  | cons token p q p' q' _ ih => exact .cons token p' q' p q ih

theorem Alike.refl (t : Tape) : t.Alike t := by
  induction t with
  | stop p => exact .stop p p
  | broken e => exact .broken (Error.Alike.refl e)
  | cons x _ ih => exact .cons x.token x.start x.stop x.start x.stop ih

theorem Alike.trans {t t' t'' : Tape} (h : t.Alike t') (h' : t'.Alike t'') : t.Alike t'' := by
  induction h generalizing t'' with
  | stop p q =>
    cases h' with
    | stop _ r => exact .stop p r
  | broken he =>
    cases h' with
    | broken he' => exact .broken (he.trans he')
  | cons token p q p' q' _ ih =>
    cases h' with
    | cons _ _ _ p'' q'' hr => exact .cons token p q p'' q'' (ih hr)

theorem alike_ofList {xs ys : List Lexeme} (h : xs.map (·.token) = ys.map (·.token)) (p q : Position) :
    (ofList p xs).Alike (ofList q ys) := by
  induction xs generalizing ys with
  | nil =>
    obtain rfl := List.map_eq_nil_iff.1 h.symm
    exact .stop p q
  | cons x xs ih =>
    cases ys with
    | nil => cases h
    | cons y ys =>
      obtain ⟨token, px, qx⟩ := x
      obtain ⟨_, py, qy⟩ := y
      obtain ⟨rfl, hxs⟩ := List.cons.inj h
      exact .cons token px qx py qy (ih hxs)

variable {t t' : Tape}

theorem Alike.atStatementEnd (h : t.Alike t') : t.atStatementEnd = t'.atStatementEnd := by
  cases h <;> rfl

theorem Alike.length_eq (h : t.Alike t') : t'.length = t.length := by
  induction h with
  | stop p q => rfl
  | broken he => rfl
  | cons x p q p' q' _ ih => exact congrArg (· + 1) ih

theorem Alike.expected (h : t.Alike t') (name : String) : (t.expected name).Alike (t'.expected name) := by
  cases h with
  | stop p q => exact Error.alike_expected p q name none
  | broken he => exact he
  | cons token p _ p' => exact Error.alike_expected p p' name _

end Tape

end LineBasic
