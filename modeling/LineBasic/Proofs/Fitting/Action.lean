import LineBasic.Proofs.Fitting.Expr
import LineBasic.Script.Basic

/-!
# Actions that fit

An action that was read holds only expressions whose calls fit, and a loop
counts in a numeric variable. Of the verbs that an action is written with, only
some may be allowed.

* `Action.Fits`: the verb of the action is allowed, and its parts fit.
-/

namespace LineBasic

/-- The index, if there is one, is an expression that fits. -/
def Place.Fits (p : Place) : Prop := ∀ e ∈ p.index, e.Fits

theorem Place.Fits.operands {p : Place} (h : p.Fits) : ∀ o ∈ p.operands, o.Fits := by
  intro o ho
  obtain ⟨e, he, rfl⟩ := List.mem_map.1 ho
  exact h e (Option.mem_toList.1 he)

/-- The expressions fit, and the loop counts in a numeric variable. -/
structure LoopHead.Fits (h : LoopHead) : Prop where
  place : h.place.Fits
  start : h.start.Fits
  limit : h.limit.Fits
  step : h.step.Fits
  numeric : VariableKind.ofName h.place.name = .numeric

namespace Action

/-- The verb that an action is written with. Labels, assignments and jumps can
do without one. -/
def verb? : Action → Option Verb
  | label _ | assign _ _ | goto _ => none
  | debug => some .debug
  | trace _ => some .trace
  | remark _ => some .remark
  | dim _ _ => some .dim
  | gosub _ => some .gosub
  | returns => some .returns
  | clear => some .clear
  | print _ => some .print
  | input _ _ _ => some .input
  | new => some .new
  | list _ _ => some .list
  | read _ _ => some .read
  | write _ _ => some .write
  | load _ => some .load
  | save _ => some .save
  | finish => some .finish
  | quit => some .quit
  | run => some .run
  | reset => some .reset
  | resume => some .resume
  | startLoop _ => some .loop
  | next _ => some .next

/-- The parts of the action fit. -/
def PartsFit : Action → Prop
  | trace mode => ∀ e ∈ mode, e.Fits
  | assign place value => place.Fits ∧ value.Fits
  | dim _ e | goto e | gosub e | read _ e | write _ e | load e | save e => e.Fits
  | print items => ∀ x ∈ items, x.1.Fits
  | input prompt _ place => prompt.Fits ∧ place.Fits
  | list first last => (∀ e ∈ first, e.Fits) ∧ ∀ e ∈ last, e.Fits
  | startLoop head => head.Fits
  | _ => True

/-- The verb of the action is allowed, and its parts fit. -/
structure Fits (allowed : Verb → Prop) (a : Action) : Prop where
  verb : ∀ v ∈ a.verb?, allowed v
  parts : a.PartsFit

theorem fits_of_verb {allowed : Verb → Prop} {a : Action} {v : Verb} (hv : allowed v)
    (ha : a.verb? = some v) (hp : a.PartsFit) : a.Fits allowed := by
  refine ⟨?_, hp⟩
  intro w hw
  rw [ha] at hw
  obtain rfl := Option.some.inj hw
  exact hv

end Action

end LineBasic
