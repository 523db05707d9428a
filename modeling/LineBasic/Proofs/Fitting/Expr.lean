import LineBasic.Expr.Reader
import LineBasic.Proofs.Lexeme.Standing

/-!
# Calls that fit

A call fits if its arguments are those that the signature of the function has
places for, so that the function finds at every place what it looks for there.
An expression whose calls fit never fails with an error that would put the
interpreter itself at fault.

* `Expr.Fits`: every call in the expression has arguments that fit.
* `Expr.eval_everyday`: the value of such an expression, or an everyday error.
* `Operand.Fits`: the same for an operand that is left where reading breaks off.
-/

namespace LineBasic

/-! ### Values, variables and operators -/

namespace Value

theorem everyday_truth (v : Value) : Raises Error.Everyday v.truth := by
  cases v with
  | integer n => exact raises_ok _
  | float x => exact raises_ok _
  | text s => exact raises_error ⟨nofun, nofun⟩

theorem everyday_toInteger (v : Value) : Raises Error.Everyday v.toInteger := by
  cases v with
  | integer n => exact raises_ok _
  | float x => exact raises_error ⟨nofun, nofun⟩
  | text s => exact raises_error ⟨nofun, nofun⟩

theorem everyday_toText (v : Value) : Raises Error.Everyday v.toText := by
  cases v with
  | integer n => exact raises_error ⟨nofun, nofun⟩
  | float x => exact raises_error ⟨nofun, nofun⟩
  | text s => exact raises_ok _

theorem everyday_numeric (v : Value) : Raises Error.Everyday v.numeric := by
  unfold numeric
  split
  · exact raises_ok _
  · exact raises_error ⟨nofun, nofun⟩

theorem everyday_toStride (v : Value) : Raises Error.Everyday v.toStride := by
  refine (everyday_toInteger v).bind fun n => ?_
  split
  · exact raises_error ⟨nofun, nofun⟩
  · exact raises_ok _

theorem everyday_exactly (n : Int) : Raises Error.Everyday (exactly n) := by
  unfold exactly
  split
  · exact raises_ok _
  · exact raises_error ⟨nofun, nofun⟩

theorem everyday_floats (l r : Value) : Raises Error.Everyday (floats l r) := by
  unfold floats
  split
  case h_5 => exact raises_error ⟨nofun, nofun⟩
  all_goals exact raises_ok _

theorem everyday_arithmetic (onInts : Int → Int → Int) (onFloats : Float → Float → Float) (l r : Value) :
    Raises Error.Everyday (arithmetic onInts onFloats l r) := by
  unfold arithmetic
  split
  · exact everyday_exactly _
  · exact (everyday_floats _ _).map _

theorem everyday_floorDiv (l r : Int64) : Raises Error.Everyday (floorDiv l r) := by
  unfold floorDiv
  split
  · exact raises_error ⟨nofun, nofun⟩
  · split
    · exact raises_ok _
    · exact raises_error ⟨nofun, nofun⟩

theorem everyday_floorMod (l r : Int64) : Raises Error.Everyday (floorMod l r) := by
  unfold floorMod
  split
  · exact raises_error ⟨nofun, nofun⟩
  · split
    · exact raises_ok _
    · exact raises_error ⟨nofun, nofun⟩

theorem everyday_division {onInts : Int64 → Int64 → Except Error Int64} (h : ∀ l r, Raises Error.Everyday (onInts l r))
    (onFloats : Float → Float → Float) (l r : Value) : Raises Error.Everyday (division onInts onFloats l r) := by
  unfold division
  split
  · exact (h _ _).map _
  · split
    · split
      · exact raises_error ⟨nofun, nofun⟩
      · exact raises_ok _
    case h_2 e he => exact raises_error (everyday_floats _ _ e he)

theorem everyday_ordered (wanted : Ordering → Bool) (l r : Value) : Raises Error.Everyday (ordered wanted l r) := by
  unfold ordered
  split
  · exact raises_ok _
  · exact raises_error ⟨nofun, nofun⟩

theorem everyday_connect (decided : Bool) (l r : Value) : Raises Error.Everyday (connect decided l r) := by
  unfold connect
  split
  case h_1 e he => exact raises_error (everyday_truth l e he)
  case h_2 =>
    split
    · exact raises_ok _
    · exact (everyday_truth r).map _

theorem everyday_add (l r : Value) : Raises Error.Everyday (add l r) := by
  unfold add
  split
  · exact raises_ok _
  · exact everyday_arithmetic _ _ _ _

end Value

theorem Unary.everyday_apply (op : Unary) (v : Value) : Raises Error.Everyday (op.apply v) := by
  cases op with
  | negate =>
    cases v with
    | integer n => exact Value.everyday_exactly _
    | float x => exact raises_ok _
    | text s => exact raises_error ⟨nofun, nofun⟩
  | plus =>
    simp only [apply]
    split
    · exact raises_ok _
    · exact raises_error ⟨nofun, nofun⟩
  | not => exact (Value.everyday_truth v).map _

theorem Binary.everyday_apply (op : Binary) (l r : Value) : Raises Error.Everyday (op.apply l r) := by
  cases op with
  | or => exact Value.everyday_connect _ l r
  | and => exact Value.everyday_connect _ l r
  | xor => exact (Value.everyday_truth l).bind fun a => (Value.everyday_truth r).bind fun b => raises_ok _
  | equal => exact raises_ok _
  | notEqual => exact raises_ok _
  | add => exact Value.everyday_add l r
  | subtract => exact Value.everyday_arithmetic _ _ l r
  | multiply => exact Value.everyday_arithmetic _ _ l r
  | divide => exact Value.everyday_division Value.everyday_floorDiv _ l r
  | quotient => exact Value.everyday_division Value.everyday_floorDiv _ l r
  | remainder => exact Value.everyday_division Value.everyday_floorMod _ l r
  | _ => exact Value.everyday_ordered _ l r

theorem Demand.everyday_check (d : Demand) (v : Value) : Raises Error.Everyday (d.check v) := by
  cases d with
  | any => exact raises_ok _
  | integer => exact (Value.everyday_toInteger v).map _
  | text => exact (Value.everyday_toText v).map _
  | numeric => exact (Value.everyday_numeric v).map _
  | truth => exact (Value.everyday_truth v).map _
  | stride => exact (Value.everyday_toStride v).map _

theorem Variable.everyday_slot (v : Variable) (index : Int64) : Raises Error.Everyday (v.slot index) := by
  unfold slot
  split
  · exact raises_ok _
  · exact raises_error ⟨nofun, nofun⟩

theorem Variable.everyday_ofKind (v : Variable) (kind : VariableKind) : Raises Error.Everyday (v.ofKind kind) := by
  unfold ofKind
  split
  · exact raises_ok _
  · exact raises_error ⟨nofun, nofun⟩

theorem Variable.everyday_read (v : Variable) (index : Int64) : Raises Error.Everyday (v.read index) := by
  unfold read
  split
  case h_1 e he => exact raises_error (v.everyday_slot index e he)
  case h_2 =>
    split
    · exact raises_ok _
    · exact raises_error ⟨nofun, nofun⟩

namespace Memory

theorem everyday_find (m : Memory) (name : String) : Raises Error.Everyday (m.find name) := by
  unfold find
  split
  · exact raises_ok _
  · exact raises_error ⟨nofun, nofun⟩

theorem everyday_read (m : Memory) (name : String) (index : Int64) : Raises Error.Everyday (m.read name index) :=
  (m.everyday_find name).bind fun v => v.everyday_read index

theorem everyday_readKind (m : Memory) (kind : VariableKind) (name : String) (index : Int64) :
    Raises Error.Everyday (m.readKind kind name index) :=
  (m.everyday_find name).bind fun v => (v.everyday_ofKind kind).bind fun v => v.everyday_read index

end Memory

/-! ### Evaluation -/

namespace Eval

variable {α β : Type}

/-- Whatever is drawn, the result is as `Q` says, or the error is an everyday
one. -/
def Yields (Q : α → Prop) (x : Eval α) : Prop :=
  ∀ g, match x g with
    | .ok a _ => Q a
    | .error e _ => e.Everyday

theorem yields_pure {Q : α → Prop} {a : α} (h : Q a) : Yields Q (pure a) := fun _ => h

theorem yields_throw {Q : α → Prop} {e : Error} (h : e.Everyday) : Yields Q (throw e) := fun _ => h

theorem Yields.bind {P : α → Prop} {Q : β → Prop} {x : Eval α} (h : Yields P x) {f : α → Eval β}
    (hf : ∀ a, P a → Yields Q (f a)) : Yields Q (x >>= f) := by
  intro g
  have hx := h g
  show match EStateM.bind x f g with | .ok a _ => Q a | .error e _ => e.Everyday
  unfold EStateM.bind
  generalize x g = r at hx
  cases r with
  | ok a g' => exact hf a hx g'
  | error e g' => exact hx

theorem Yields.mono {P Q : α → Prop} {x : Eval α} (h : Yields P x) (hpq : ∀ a, P a → Q a) : Yields Q x := by
  intro g
  have hx := h g
  generalize x g = r at hx
  cases r with
  | ok a g' => exact hpq a hx
  | error e g' => exact hx

/-- A computation that draws nothing. -/
theorem yields_lift {x : Except Error α} (h : Raises Error.Everyday x) : Yields (fun a => x = .ok a) (liftM x : Eval α) := by
  intro g
  cases x with
  | ok a => exact rfl
  | error e => exact h e rfl

/-- Any result will do. -/
theorem yields_any {x : Except Error α} (h : Raises Error.Everyday x) : Yields (fun _ => True) (liftM x : Eval α) :=
  (yields_lift h).mono fun _ _ => trivial

end Eval

open Eval (yields_pure yields_throw yields_lift yields_any)

/-! ### Functions -/

namespace Builtin

/-- At every place there is a value or a variable, whichever the signature
wants. -/
def Agree : List Slot → List Argument → Prop
  | _, [] => True
  | [], _ :: _ => False
  | slot :: slots, .value _ :: rest => slot ≠ .handle ∧ Agree slots rest
  | slot :: slots, .handle _ :: rest => slot = .handle ∧ Agree slots rest

/-- A value is at every place that is filled and not one for a variable. -/
theorem Agree.exists_valueAt {slots : List Slot} {args : List Argument} (h : Agree slots args) {i : Nat}
    (hi : i < args.length) (hs : slots[i]? ≠ some .handle) : ∃ v, valueAt args i = .ok v := by
  induction args generalizing slots i with
  | nil => exact absurd hi (Nat.not_lt_zero i)
  | cons a args ih =>
    cases slots with
    | nil => exact h.elim
    | cons slot slots =>
      cases i with
      | zero =>
        cases a with
        | value v => exact ⟨v, rfl⟩
        | handle w =>
          obtain ⟨rfl, -⟩ := h
          exact absurd rfl hs
      | succ i =>
        have hrest : Agree slots args := by
          cases a with
          | value v => exact h.2
          | handle w => exact h.2
        exact ih hrest (Nat.lt_of_succ_lt_succ hi) hs

variable {args : List Argument} {slots : List Slot} (h : Agree slots args)

include h

theorem Agree.everyday_valueAt {i : Nat} (hi : i < args.length) (hs : slots[i]? ≠ some .handle) :
    Raises Error.Everyday (valueAt args i) := by
  obtain ⟨v, hv⟩ := h.exists_valueAt hi hs
  rw [hv]
  exact raises_ok v

theorem Agree.everyday_integerAt {i : Nat} (hi : i < args.length) (hs : slots[i]? ≠ some .handle) :
    Raises Error.Everyday (integerAt args i) :=
  (h.everyday_valueAt hi hs).bind fun v => v.everyday_toInteger

theorem Agree.everyday_textAt {i : Nat} (hi : i < args.length) (hs : slots[i]? ≠ some .handle) :
    Raises Error.Everyday (textAt args i) :=
  (h.everyday_valueAt hi hs).bind fun v => v.everyday_toText

theorem Agree.everyday_naturalAt {i : Nat} (hi : i < args.length) (hs : slots[i]? ≠ some .handle)
    {negative : Error} (hn : negative.Everyday) : Raises Error.Everyday (naturalAt args i negative) := by
  refine (h.everyday_integerAt hi hs).bind fun n => ?_
  dsimp only
  split
  · exact raises_error hn
  · exact raises_ok _

omit h

theorem everyday_toInteger (v : Value) : Raises Error.Everyday (toInteger v) := by
  cases v with
  | integer n => exact raises_ok _
  | float x =>
    simp only [toInteger, truncate]
    split
    · exact raises_error ⟨nofun, nofun⟩
    · exact raises_ok _
  | text s =>
    simp only [toInteger]
    split
    · exact raises_ok _
    · exact raises_error ⟨nofun, nofun⟩

theorem everyday_toNumber (v : Value) : Raises Error.Everyday (toNumber v) := by
  cases v with
  | integer n => exact raises_ok _
  | float x => exact raises_ok _
  | text s =>
    simp only [toNumber]
    split
    · exact raises_ok _
    · exact raises_error ⟨nofun, nofun⟩

theorem everyday_sliceOf (h : Agree slice.signature.slots args) (hl : 2 ≤ args.length) :
    Raises Error.Everyday (sliceOf args) := by
  refine (h.everyday_textAt (by omega) (by decide)).bind fun s => ?_
  have hindex : Error.negativeIndex.Everyday := ⟨nofun, nofun⟩
  have hlength : Error.negativeLength.Everyday := ⟨nofun, nofun⟩
  refine (h.everyday_naturalAt (by omega) (by decide) hindex).bind fun start => ?_
  split
  · unfold charAt
    split
    · exact raises_ok _
    · exact raises_error ⟨nofun, nofun⟩
  · exact (h.everyday_naturalAt (by omega) (by decide) hlength).bind fun len => raises_ok _

theorem everyday_bounds (h : Agree random.signature.slots args) (hl : 1 ≤ args.length) :
    Raises Error.Everyday (bounds args) := by
  unfold bounds
  split
  · refine (h.everyday_integerAt (by omega) (by decide)).bind fun lo => ?_
    exact (h.everyday_integerAt (by omega) (by decide)).bind fun hi => raises_ok _
  · exact (h.everyday_integerAt (by omega) (by decide)).bind fun hi => raises_ok _

theorem everyday_sizeOf (h : Agree size.signature.slots args) (hl : 1 ≤ args.length) :
    Raises Error.Everyday (sizeOf args) := by
  match args, h, hl with
  | .handle w :: _, _, _ => exact raises_ok _
  | .value v :: _, h, _ => exact absurd rfl h.1

theorem yields_draw (lo hi : Int64) : Eval.Yields (fun _ => True) (draw lo hi) := by
  unfold draw
  split
  · exact yields_throw ⟨nofun, nofun⟩
  · exact fun _ => trivial

/-- **A function is never let down by arguments that fit.** Their number may
still be wrong. -/
theorem yields_call {f : Builtin} (h : Agree f.signature.slots args) :
    Eval.Yields (fun _ => True) (f.call args) := by
  unfold call
  split
  case isTrue => exact yields_throw ⟨nofun, nofun⟩
  case isFalse hleast =>
    have hl : f.signature.least ≤ args.length := Nat.not_lt.1 hleast
    split
    case isTrue => exact yields_throw ⟨nofun, nofun⟩
    case isFalse =>
      cases f with
      | text =>
        exact (yields_lift (h.everyday_valueAt hl (by decide))).bind fun v _ _ => trivial
      | integer =>
        exact (yields_lift (h.everyday_valueAt hl (by decide))).bind fun v _ => yields_any (everyday_toInteger v)
      | number =>
        exact (yields_lift (h.everyday_valueAt hl (by decide))).bind fun v _ => yields_any (everyday_toNumber v)
      | length =>
        exact (yields_lift (h.everyday_textAt hl (by decide))).bind fun s _ _ => trivial
      | size => exact yields_any (everyday_sizeOf h hl)
      | slice => exact yields_any (everyday_sliceOf h hl)
      | random =>
        refine (yields_lift (everyday_bounds h hl)).bind fun b _ => ?_
        exact yields_draw b.1 b.2

end Builtin

/-! ### Expressions -/

mutual

/-- Every call has arguments that fit the places of its function. -/
def Expr.Fits : Expr → Prop
  | .number _ | .text _ | .scalar _ => True
  | .element _ index => index.Fits
  | .unary _ e => e.Fits
  | .binary _ l r => l.Fits ∧ r.Fits
  | .call f args => args.Fits f.signature.slots

/-- The arguments fit the places: a variable where one is wanted, and a value
anywhere else. -/
def Args.Fits : Args → List Slot → Prop
  | .nil, _ => True
  | .value _ e rest, slot :: slots => slot ≠ .handle ∧ e.Fits ∧ rest.Fits slots
  | .handle _ rest, slot :: slots => slot = .handle ∧ rest.Fits slots
  | _, [] => False

end

mutual

/-- **An expression whose calls fit has a value, or an everyday error.** -/
theorem Expr.eval_everyday (m : Memory) {e : Expr} (h : e.Fits) : (e.eval m).Yields fun _ => True := by
  match e with
  | .number n => exact yields_pure trivial
  | .text s => exact yields_pure trivial
  | .scalar name => exact yields_any (m.everyday_read name 0)
  | .element name index =>
    rw [Expr.Fits] at h
    refine (Expr.eval_everyday m h).bind fun v _ => ?_
    refine (yields_any v.everyday_toInteger).bind fun i _ => ?_
    exact yields_any (m.everyday_read name i)
  | .unary op e =>
    rw [Expr.Fits] at h
    exact (Expr.eval_everyday m h).bind fun v _ => yields_any (op.everyday_apply v)
  | .binary op l r =>
    rw [Expr.Fits] at h
    refine (Expr.eval_everyday m h.1).bind fun a _ => ?_
    refine (Expr.eval_everyday m h.2).bind fun b _ => ?_
    exact yields_any (op.everyday_apply a b)
  | .call f args =>
    rw [Expr.Fits] at h
    exact (Args.eval_agree m h).bind fun vs hvs => Builtin.yields_call hvs

/-- Arguments that fit are evaluated to what the signature wants at every
place. -/
theorem Args.eval_agree (m : Memory) {args : Args} {slots : List Slot} (h : args.Fits slots) :
    (args.eval m).Yields (Builtin.Agree slots) := by
  match args, slots with
  | .nil, slots => exact yields_pure (by cases slots <;> trivial)
  | .value d e rest, [] => rw [Args.Fits] at h; exact h.elim; all_goals nofun
  | .handle name rest, [] => rw [Args.Fits] at h; exact h.elim; all_goals nofun
  | .value d e rest, slot :: slots =>
    rw [Args.Fits] at h
    obtain ⟨hslot, he, hrest⟩ := h
    refine (Expr.eval_everyday m he).bind fun v _ => ?_
    refine (yields_any (d.everyday_check v)).bind fun _ _ => ?_
    exact (Args.eval_agree m hrest).bind fun vs hvs => yields_pure ⟨hslot, hvs⟩
  | .handle name rest, slot :: slots =>
    rw [Args.Fits] at h
    obtain ⟨hslot, hrest⟩ := h
    refine (yields_any (m.everyday_find name)).bind fun v _ => ?_
    exact (Args.eval_agree m hrest).bind fun vs hvs => yields_pure ⟨hslot, hvs⟩

end

/-- The operand is an expression whose calls fit, or a variable. -/
def Operand.Fits : Operand → Prop
  | expr _ e => e.Fits
  | lookup _ => True

theorem Operand.check_everyday (m : Memory) {o : Operand} (h : o.Fits) : (o.check m).Yields fun _ => True := by
  cases o with
  | expr d e => exact (Expr.eval_everyday m h).bind fun v _ => yields_any (d.everyday_check v)
  | lookup name => exact (yields_any (m.everyday_find name)).bind fun _ _ => yields_pure trivial

end LineBasic
