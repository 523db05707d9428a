import LineBasic.Proofs.Grammar.Longest

/-!
# Evaluation in one pass

An expression can be evaluated while it is read, without a tree: every operand
is evaluated as soon as it is complete, and the first error ends all, be it of
reading or of evaluation. This comes to the same as reading the tree and
evaluating it, also where reading breaks off.

* `Expr.onePass`: the value of the expression at the beginning of a tape, and
  the tape behind it.
* `settle`: what a reading comes to, if its tree, or else its operands, are
  evaluated.
* `Expr.onePass_eq`: one pass comes to the same as two.
* `Expr.onePass_longest`: the value is that of the longest expression.
-/

namespace LineBasic

open Tape (Leads)

/-- Evaluating off a tape. The value comes with the tape behind its
expression. -/
abbrev Evaluator := Tape → Eval (Value × Tape)

/-- What is read, or its error at once. -/
def raising {α : Type} : Reading α → Eval α
  | .ok a => pure a
  | .error b => throw b.error

namespace OnePass

/-- Goes on behind an operand with the value `a` for as long as operators
come. -/
def chainFrom (op? : Token → Option Binary) (operand : Evaluator) (bound : Tape) (a : Value) : Evaluator :=
  fun t =>
    match bound, t with
    | .cons _ bound, .cons x rest =>
      match op? x.token with
      | some op => do
        let (b, t) ← operand (← raising rest.ready)
        let c ← op.apply a b
        chainFrom op? operand bound c t
      | none => return (a, t)
    | _, _ => return (a, t)

/-- Evaluates operands with operators of one kind between them. -/
def chain (op? : Token → Option Binary) (operand : Evaluator) (t : Tape) : Eval (Value × Tape) := do
  let (a, t) ← operand t
  chainFrom op? operand t a t

/-- Evaluates one operand, or two with an operator between them. -/
def pair (op? : Token → Option Binary) (operand : Evaluator) (t : Tape) : Eval (Value × Tape) := do
  let (a, t) ← operand t
  match t with
  | .cons x rest =>
    match op? x.token with
    | some op => do
      let (b, t) ← operand (← raising rest.ready)
      let c ← op.apply a b
      return (c, t)
    | none => return (a, t)
  | _ => return (a, t)

variable (m : Memory) (nested : Evaluator)

/-- The index in parentheses, or 0 where none comes next. -/
def index (t : Tape) : Eval (Int64 × Tape) := do
  match ← raising (t.accept? .openParen) with
  | none => return (0, t)
  | some t =>
    let (v, t) ← nested t
    let i ← v.toInteger
    return (i, ← raising (t.expect .closeParen))

/-- The arguments up to the closing parenthesis, each checked for its place as
soon as it is there. -/
def args (f : Builtin) (slots : List Slot) (t : Tape) : Eval (List Argument × Tape) :=
  if t.peek? = some .closeParen then return ([], t)
  else match slots with
    | [] => throw (.tooManyArguments f.spelling)
    | .handle :: slots => do
      let (name, t) ← raising t.expectName
      let v ← m.find name
      let (vs, t) ← args f slots (← raising (Expr.readSeparator t))
      return (.handle v.handle :: vs, t)
    | slot :: slots => do
      let (v, t) ← nested t
      slot.demand.check v
      let (vs, t) ← args f slots (← raising (Expr.readSeparator t))
      return (.value v :: vs, t)

/-- A call of a function. -/
def call (f : Builtin) (t : Tape) : Eval (Value × Tape) := do
  let (vs, t) ← args m nested f f.signature.slots (← raising (t.expect .openParen))
  let v ← f.call vs
  return (v, ← raising (t.expect .closeParen))

/-- Evaluates a factor. -/
def factor (t : Tape) : Eval (Value × Tape) :=
  match t with
  | .cons x rest =>
    match x.token with
    | .sign s => do
      let (v, t) ← factor rest
      return (← (Expr.signed s).apply v, t)
    | .openParen => do
      let (v, t) ← nested (← raising rest.ready)
      return (v, ← raising (t.expect .closeParen))
    | .number n => return (.integer n, ← raising rest.ready)
    | .quoted s => return (.text s, ← raising rest.ready)
    | .name s => do
      let (i, t) ← index nested (← raising rest.ready)
      return (← m.read s i, t)
    | .builtin f => do call m nested f (← raising rest.ready)
    | _ => throw (t.expected "EXPRESSION")
  | _ => throw (t.expected "EXPRESSION")

/-- Evaluates a negation, or a comparison. -/
def term (t : Tape) : Eval (Value × Tape) := do
  match ← raising (t.accept? (.connective .not)) with
  | some t =>
    let (v, t) ← nested t
    return (← Unary.not.apply v, t)
  | none => pair Token.comparison? (chain Token.sum? (chain Token.product? (factor m nested))) t

/-- Evaluates an expression, given how to evaluate one that is nested in it. -/
def expression : Evaluator :=
  chain Token.disjunction? (chain Token.conjunction? (chain Token.exclusion? (term m nested)))

/-- Evaluates an expression with no more levels of nesting than there are
lexemes in `bound`. -/
def nestedIn : (bound : Tape) → Evaluator
  | .cons _ bound, t => expression m (nestedIn bound) t
  | _, t => throw (t.expected "EXPRESSION")

end OnePass

/-- The value of the expression at the beginning of a tape, evaluated while it
is read. -/
def Expr.onePass (m : Memory) : Evaluator := fun t => OnePass.nestedIn m t t

/-! ### What readings come to -/

/-- Goes on with what was read. Where reading broke off, the operands that were
complete are evaluated and the error is raised. -/
def settle {α β : Type} (m : Memory) (k : α → Eval β) : Reading α → Eval β
  | .ok a => k a
  | .error b => do
    b.before.forM (Operand.check m)
    throw b.error

section Settle

variable {α β γ : Type} {m : Memory}

theorem throw_bind (e : Error) (f : α → Eval β) : (throw e : Eval α) >>= f = throw e := rfl

theorem settle_pure (k : α → Eval β) (a : α) : settle m k (pure a) = k a := rfl

theorem settle_bind (k : β → Eval γ) (x : Reading α) (f : α → Reading β) :
    settle m k (x >>= f) = settle m (fun a => settle m k (f a)) x := by
  cases x <;> rfl

theorem bind_settle (k : α → Eval β) (f : β → Eval γ) (x : Reading α) :
    settle m k x >>= f = settle m (fun a => k a >>= f) x := by
  cases x with
  | ok a => rfl
  | error b => simp only [settle, bind_assoc, throw_bind]

/-- An operand before a reading is evaluated first, if what goes on behind the
reading begins with that. Its value `c` is then at hand. -/
theorem settle_behind {o : Operand} {c : Eval γ} (hc : o.check m = c >>= fun _ => pure ()) {k : α → Eval β}
    {k' : γ → α → Eval β} (h : ∀ a, k a = c >>= fun v => k' v a) (x : Reading α) :
    settle m k (behind [o] x) = c >>= fun v => settle m (k' v) x := by
  cases x with
  | ok a => exact h a
  | error b =>
    have hcheck : (o :: b.before).forM (Operand.check m) = c >>= fun _ => b.before.forM (Operand.check m) := by
      show (o.check m >>= fun _ => b.before.forM (Operand.check m)) = _
      rw [hc, bind_assoc]
      simp only [pure_bind]
    simp only [behind, Except.mapError, settle, List.cons_append, List.nil_append, hcheck, bind_assoc]

/-- Nothing is complete where the reading breaks off. -/
def Bare (x : Reading α) : Prop := ∀ b, x = .error b → b.before = []

theorem settle_bare {x : Reading α} (h : Bare x) (k : α → Eval β) : settle m k x = raising x >>= k := by
  cases x with
  | ok a => rfl
  | error b =>
    simp only [settle, h b rfl]
    rfl

theorem bare_breakOff (e : Error) : Bare (breakOff e : Reading α) := by
  rintro b hb
  cases hb
  rfl

theorem bare_ok (a : α) : Bare (.ok a : Reading α) := nofun

theorem Bare.bind {x : Reading α} {f : α → Reading β} (hx : Bare x) (hf : ∀ a, Bare (f a)) :
    Bare (x >>= f) := by
  cases x with
  | ok a => exact hf a
  | error b =>
    intro b' hb
    cases hb
    exact hx b rfl

end Settle

namespace Tape

theorem bare_ready (t : Tape) : Bare t.ready := by
  cases t with
  | broken e => exact bare_breakOff e
  | _ => exact bare_ok _

theorem bare_accept? (token : Token) (t : Tape) : Bare (t.accept? token) := by
  cases t with
  | cons x r =>
    rw [accept?]
    split
    · cases r with
      | broken e => exact bare_breakOff e
      | _ => exact bare_ok _
    · exact bare_ok _
  | _ => exact bare_ok _

theorem bare_expect (token : Token) (t : Tape) : Bare (t.expect token) := by
  refine (bare_accept? token t).bind ?_
  rintro (_ | r)
  · exact bare_breakOff _
  · exact bare_ok r

theorem bare_expectName (t : Tape) : Bare t.expectName := by
  unfold expectName
  split
  · exact (bare_ready _).bind fun r => bare_ok _
  · exact bare_breakOff _

end Tape

theorem bare_readSeparator (t : Tape) : Bare (Expr.readSeparator t) := by
  unfold Expr.readSeparator
  split
  · exact bare_ok t
  · exact Tape.bare_expect _ t

/-! ### Readers and evaluators -/

/-- The evaluator gives what the reader comes to. -/
def Agrees (m : Memory) (ev : Evaluator) (r : Expr.Reader) : Prop :=
  ∀ t, ev t = settle m (fun p => do return (← p.1.eval m, p.2)) (r t)

section Agrees

variable {m : Memory} {ev : Evaluator} {r : Expr.Reader} {β : Type}

/-- What goes on behind an expression with its value goes on behind the
evaluator. -/
theorem Agrees.settle (h : Agrees m ev r) (k : Value → Tape → Eval β) (t : Tape) :
    settle m (fun p => do k (← p.1.eval m) p.2) (r t) = (do let (v, t) ← ev t; k v t) := by
  rw [h t, bind_settle]
  simp only [bind_assoc, pure_bind]

theorem Agrees.settle_ready (h : Agrees m ev r) (k : Value → Tape → Eval β) (t : Tape) :
    LineBasic.settle m (fun p => do k (← p.1.eval m) p.2) (do r (← t.ready)) =
      (do let (v, t) ← ev (← raising t.ready); k v t) := by
  rw [settle_bind, settle_bare (Tape.bare_ready t)]
  simp only [h.settle]

theorem check_any (e : Expr) : (Operand.expr .any e).check m = e.eval m >>= fun _ => pure () := rfl

/-- Behind an operand, the operator and the next operand. -/
theorem Agrees.settle_operand (h : Agrees m ev r) (l : Expr) (op : Binary) (k : Value → Tape → Eval β)
    (t : Tape) :
    LineBasic.settle m (fun p => do k (← (Expr.binary op l p.1).eval m) p.2)
        (behind [.expr .any l] (do r (← t.ready))) = (do
      let a ← l.eval m
      let (b, t) ← ev (← raising t.ready)
      let c ← op.apply a b
      k c t) := by
  have hk : ∀ p : Expr × Tape, (do k (← (Expr.binary op l p.1).eval m) p.2) = (do
      let a ← l.eval m
      let b ← p.1.eval m
      let c ← op.apply a b
      k c p.2) := by
    intro p
    simp only [Expr.eval, bind_assoc]
  rw [settle_behind (check_any l) hk]
  congr 1
  funext a
  exact h.settle_ready (fun b t => do let c ← op.apply a b; k c t) t

theorem Agrees.chainFrom (h : Agrees m ev r) (op? : Token → Option Binary) (bound : Tape) :
    ∀ (l : Expr) (t : Tape), (do let a ← l.eval m; OnePass.chainFrom op? ev bound a t) =
      LineBasic.settle m (fun p => do return (← p.1.eval m, p.2)) (Expr.readChainFrom op? r bound l t) := by
  induction bound with
  | stop p => intro l t; rfl
  | broken e => intro l t; rfl
  | cons y bound ih =>
    intro l t
    cases t with
    | stop p => rfl
    | broken e => rfl
    | cons x rest =>
      unfold OnePass.chainFrom Expr.readChainFrom
      cases op? x.token with
      | none => rfl
      | some op =>
        dsimp only
        rw [settle_bind]
        -- the chain goes on with the value of what has been joined
        simp only [← ih]
        exact (h.settle_operand l op (fun c t => OnePass.chainFrom op? ev bound c t) rest).symm

theorem Agrees.chain (h : Agrees m ev r) (op? : Token → Option Binary) :
    Agrees m (OnePass.chain op? ev) (Expr.readChain op? r) := by
  intro t
  unfold OnePass.chain Expr.readChain
  rw [settle_bind]
  simp only [← h.chainFrom op?]
  exact (h.settle (fun a t => OnePass.chainFrom op? ev t a t) t).symm

theorem Agrees.pair (h : Agrees m ev r) (op? : Token → Option Binary) :
    Agrees m (OnePass.pair op? ev) (Expr.readPair op? r) := by
  intro t
  unfold OnePass.pair Expr.readPair
  rw [settle_bind, h t, bind_settle]
  congr 1
  funext x
  obtain ⟨l, t'⟩ := x
  simp only [bind_assoc, pure_bind]
  cases t' with
  | stop p => rfl
  | broken e => rfl
  | cons x rest =>
    dsimp only
    cases op? x.token with
    | none => rfl
    | some op =>
      dsimp only
      rw [settle_bind]
      exact (h.settle_operand l op (fun c t => return (c, t)) rest).symm

end Agrees

/-! ### Indices and arguments -/

/-- The value of an index, 0 if there is none. -/
def indexValue (m : Memory) : Option Expr → Eval Int64
  | none => return 0
  | some e => do (← e.eval m).toInteger

section Places

variable {m : Memory} {ev : Evaluator} {r : Expr.Reader} {β : Type}

theorem check_integer (e : Expr) :
    (Operand.expr .integer e).check m = indexValue m (some e) >>= fun _ => pure () := by
  have hlift : ∀ v : Value, (liftM (Demand.integer.check v) : Eval Unit) =
      liftM v.toInteger >>= fun _ => pure () := by
    intro v
    show (liftM (v.toInteger.map fun _ => ()) : Eval Unit) = _
    cases v.toInteger <;> rfl
  simp only [Operand.check, indexValue, bind_assoc, hlift]

theorem check_slot (d : Demand) (e : Expr) :
    (Operand.expr d e).check m = (do let v ← e.eval m; d.check v; return v) >>= fun _ => pure () := by
  simp only [Operand.check, bind_assoc, pure_bind, bind_pure_unit]

theorem check_lookup (name : String) :
    (Operand.lookup name).check m = (liftM (m.find name) : Eval Variable) >>= fun _ => pure () := rfl

theorem Agrees.index (h : Agrees m ev r) (k : Int64 → Tape → Eval β) (t : Tape) :
    LineBasic.settle m (fun p => do k (← indexValue m p.1) p.2) (Expr.readIndex r t) =
      (do let (i, t) ← OnePass.index ev t; k i t) := by
  unfold Expr.readIndex OnePass.index
  rw [settle_bind, settle_bare (Tape.bare_accept? _ t), bind_assoc]
  congr 1
  funext o
  cases o with
  | none => rfl
  | some t =>
    dsimp only
    rw [settle_bind]
    simp only [bind_assoc, pure_bind]
    rw [← h.settle fun v t => do
      let i ← v.toInteger
      let t ← raising (t.expect .closeParen)
      k i t]
    congr 1
    funext x
    obtain ⟨e, t'⟩ := x
    dsimp only
    have hk : ∀ t : Tape, (do k (← indexValue m (some e)) t) = indexValue m (some e) >>= fun i => k i t :=
      fun t => rfl
    rw [settle_bind]
    refine (settle_behind (check_integer e) hk _).trans ?_
    simp only [indexValue, bind_assoc, settle_bare (Tape.bare_expect _ t')]

namespace OnePass

variable {f : Builtin} {slots : List Slot} {t : Tape}

theorem args_close (h : t.peek? = some .closeParen) : args m ev f slots t = pure ([], t) := by
  unfold args
  rw [if_pos h]

theorem args_handle (h : t.peek? ≠ some .closeParen) :
    args m ev f (.handle :: slots) t = (do
      let (name, t) ← raising t.expectName
      let v ← m.find name
      let (vs, t) ← args m ev f slots (← raising (Expr.readSeparator t))
      return (.handle v.handle :: vs, t)) := by
  rw [args, if_neg h]

theorem args_value {slot : Slot} (hs : slot ≠ .handle) (h : t.peek? ≠ some .closeParen) :
    args m ev f (slot :: slots) t = (do
      let (v, t) ← ev t
      slot.demand.check v
      let (vs, t) ← args m ev f slots (← raising (Expr.readSeparator t))
      return (.value v :: vs, t)) := by
  cases slot <;> first | exact absurd rfl hs | (rw [args, if_neg h]; all_goals nofun)

end OnePass

theorem Agrees.args (h : Agrees m ev r) (f : Builtin) (slots : List Slot) :
    ∀ (k : List Argument → Tape → Eval β) (t : Tape),
      LineBasic.settle m (fun p => do k (← p.1.eval m) p.2) (Expr.readArgs r f slots t) =
        (do let (vs, t) ← OnePass.args m ev f slots t; k vs t) := by
  induction slots with
  | nil =>
    intro k t
    by_cases hclose : t.peek? = some .closeParen
    · rw [Expr.readArgs_close f _ hclose, OnePass.args_close hclose]
      rfl
    · unfold Expr.readArgs OnePass.args
      rw [if_neg hclose, if_neg hclose]
      rfl
  | cons slot slots ih =>
    intro k t
    by_cases hclose : t.peek? = some .closeParen
    · rw [Expr.readArgs_close f _ hclose, OnePass.args_close hclose]
      rfl
    -- behind an argument come the others, with its value at hand
    have hmore : ∀ (k : List Argument → Tape → Eval β) (t : Tape),
        LineBasic.settle m (fun p => do k (← p.1.eval m) p.2)
            (do Expr.readArgs r f slots (← Expr.readSeparator t)) = (do
          let (vs, t) ← OnePass.args m ev f slots (← raising (Expr.readSeparator t))
          k vs t) := by
      intro k t
      rw [settle_bind, settle_bare (bare_readSeparator t)]
      simp only [ih]
    by_cases hs : slot = .handle
    · subst hs
      rw [Expr.readArgs_handle f slots hclose, OnePass.args_handle hclose, settle_bind,
        settle_bare (Tape.bare_expectName t), bind_assoc]
      congr 1
      funext x
      obtain ⟨name, t'⟩ := x
      dsimp only
      have hk : ∀ p : Args × Tape, (do k (← (Args.handle name p.1).eval m) p.2) = (do
          let v ← (liftM (m.find name) : Eval Variable)
          let vs ← p.1.eval m
          k (.handle v.handle :: vs) p.2) := by
        intro p
        simp only [Args.eval, bind_assoc, pure_bind]
      rw [settle_bind]
      refine (settle_behind (check_lookup name) hk _).trans ?_
      simp only [bind_assoc, pure_bind]
      congr 1
      funext v
      exact hmore (fun vs t => k (.handle v.handle :: vs) t) t'
    · rw [Expr.readArgs_value f hs slots hclose, OnePass.args_value hs hclose, settle_bind]
      simp only [bind_assoc, pure_bind]
      rw [← h.settle fun v t => do
        slot.demand.check v
        let (vs, t) ← OnePass.args m ev f slots (← raising (Expr.readSeparator t))
        k (.value v :: vs) t]
      congr 1
      funext x
      obtain ⟨e, t'⟩ := x
      dsimp only
      have hk : ∀ p : Args × Tape, (do k (← (Args.value slot.demand e p.1).eval m) p.2) =
          (do let v ← e.eval m; slot.demand.check v; return v) >>= fun v => (do
            let vs ← p.1.eval m
            k (.value v :: vs) p.2) := by
        intro p
        simp only [Args.eval, bind_assoc, pure_bind]
      rw [settle_bind]
      refine (settle_behind (check_slot slot.demand e) hk _).trans ?_
      simp only [bind_assoc, pure_bind]
      congr 1
      funext v
      congr 1
      funext _
      exact hmore (fun vs t => k (.value v :: vs) t) t'

end Places

/-! ### All levels -/

section Levels

variable {m : Memory} {ev : Evaluator} {r : Expr.Reader}

theorem Agrees.call (h : Agrees m ev r) (f : Builtin) : Agrees m (OnePass.call m ev f) (Expr.readCall r f) := by
  intro t
  unfold OnePass.call Expr.readCall
  rw [settle_bind, settle_bare (Tape.bare_expect _ t)]
  congr 1
  funext t
  rw [settle_bind, ← h.args f _ fun vs t => do
    let v ← f.call vs
    return (v, ← raising (t.expect .closeParen))]
  congr 1
  funext x
  obtain ⟨args, t'⟩ := x
  dsimp only
  rw [settle_bind]
  refine Eq.trans ?_ (settle_behind (check_any (.call f args)) (fun t => rfl) _).symm
  simp only [Expr.eval, bind_assoc]
  congr 1
  funext vs
  congr 1
  funext v
  exact (settle_bare (Tape.bare_expect _ t') fun t => pure (v, t)).symm

theorem Agrees.factor (h : Agrees m ev r) : Agrees m (OnePass.factor m ev) (Expr.readFactor r) := by
  intro t
  induction t with
  | stop p => rfl
  | broken e => rfl
  | cons x rest ih =>
    obtain ⟨token, p, q⟩ := x
    unfold OnePass.factor Expr.readFactor
    cases token with
    | sign s =>
      dsimp only
      rw [settle_bind, ih, bind_settle]
      congr 1
      funext x
      obtain ⟨e, t'⟩ := x
      simp only [settle_pure, Expr.eval, bind_assoc, pure_bind]
    | openParen =>
      dsimp only
      rw [settle_bind, settle_bare (Tape.bare_ready rest)]
      congr 1
      funext t
      rw [settle_bind, ← h.settle fun v t => do return (v, ← raising (t.expect .closeParen))]
      congr 1
      funext x
      obtain ⟨e, t'⟩ := x
      dsimp only
      rw [settle_bind]
      refine Eq.trans ?_ (settle_behind (check_any e) (fun t => rfl) _).symm
      congr 1
      funext v
      exact (settle_bare (Tape.bare_expect _ t') fun t => pure (v, t)).symm
    | number n =>
      dsimp only
      rw [settle_bind, settle_bare (Tape.bare_ready rest)]
      rfl
    | quoted s =>
      dsimp only
      rw [settle_bind, settle_bare (Tape.bare_ready rest)]
      rfl
    | name s =>
      dsimp only
      rw [settle_bind, settle_bare (Tape.bare_ready rest)]
      congr 1
      funext t
      rw [settle_bind, ← h.index fun i t => do return (← m.read s i, t)]
      congr 1
      funext x
      obtain ⟨i, t'⟩ := x
      -- a variable without an index is read at 0
      cases i with
      | none => rfl
      | some e =>
        simp only [indexValue, settle_pure, Expr.eval, bind_assoc]
    | builtin f =>
      dsimp only
      rw [settle_bind, settle_bare (Tape.bare_ready rest)]
      congr 1
      funext t
      exact h.call f t
    | _ => rfl

theorem Agrees.term (h : Agrees m ev r) : Agrees m (OnePass.term m ev) (Expr.readTerm r) := by
  intro t
  unfold OnePass.term Expr.readTerm
  rw [settle_bind, settle_bare (Tape.bare_accept? _ t)]
  congr 1
  funext o
  cases o with
  | none => exact ((h.factor.chain _).chain _).pair _ t
  | some t =>
    dsimp only
    rw [settle_bind, ← h.settle fun v t => do return (← Unary.not.apply v, t)]
    congr 1
    funext x
    obtain ⟨e, t'⟩ := x
    simp only [settle_pure, Expr.eval, bind_assoc]

theorem Agrees.expression (h : Agrees m ev r) : Agrees m (OnePass.expression m ev) (Expr.readWith r) :=
  ((h.term.chain _).chain _).chain _

theorem agrees_nestedIn (bound : Tape) : Agrees m (OnePass.nestedIn m bound) (Expr.readNested bound) := by
  induction bound with
  | stop p => intro t; rfl
  | broken e => intro t; rfl
  | cons x bound ih => exact ih.expression

end Levels

/-- **One pass comes to the same as two**, on every tape: evaluating while
reading gives what reading and then evaluating gives. -/
theorem Expr.onePass_eq (m : Memory) (t : Tape) :
    onePass m t = settle m (fun p => do return (← p.1.eval m, p.2)) (read t) :=
  agrees_nestedIn t t

/-- **Evaluating in one pass gives the value of the longest expression**, or the
first error of its evaluation, and stops right behind it. The tree is the one
that is read, whatever the memory holds. -/
theorem Expr.onePass_longest (m : Memory) {ts : List Token} {t rest : Tape} {e : Expr} (hlead : Leads ts t rest)
    (hscan : rest.Scanned) (h : Longest ts rest.peek? e) :
    read t = .ok (e, rest) ∧ onePass m t = (do return (← e.eval m, rest)) := by
  have hread : read t = .ok (e, rest) := read_eq_ok_iff.2 ⟨ts, hlead, hscan, h⟩
  refine ⟨hread, ?_⟩
  rw [onePass_eq, hread]
  rfl

/-- `NOT 1 < LEN("AB",) - -2 * 3 AND 0` before a comma: the negation reaches to
the end, the comparison is inside of the conjunction, and the call has a comma
behind its last argument. -/
theorem Expr.onePass_longest_negation : ∃ t rest e,
    Leads [.connective .not, .number 1, .relation .less, .builtin .length, .openParen, .quoted "AB", .comma,
      .closeParen, .sign .minus, .sign .minus, .number 2, .scaling .times, .number 3, .connective .and,
      .number 0] t rest ∧ rest.peek? = some .comma ∧
    e = .unary .not (.binary .and (.binary .less (.number 1) (.binary .subtract
      (.call .length (.value .text (.text "AB") .nil))
      (.binary .multiply (.unary .negate (.number 2)) (.number 3)))) (.number 0)) ∧
    read t = .ok (e, rest) ∧ onePass .empty t = (do return (← e.eval .empty, rest)) := by
  -- the operands, from the inside
  have htext : Phrase .disjunction {} [.quoted "AB"] (.text "AB") :=
    .operand nofun (.operand nofun (.operand nofun (.operand nofun (.operand nofun
      (.operand nofun (.text _))))))
  have hargs : ArgPhrase [.text] ([.quoted "AB"] ++ [.comma]) (.value .text (.text "AB") .nil) :=
    .value nofun htext (.none [])
  have hcall := Phrase.call .length hargs
  have hproduct : Phrase .product _ _ _ :=
    .binary rfl (.operand nofun (.sign .minus (.number 2))) rfl (x := .scaling .times) rfl (.number 3)
  have hsum : Phrase .sum _ _ _ :=
    .binary rfl (.operand nofun (.operand nofun hcall)) rfl (x := .sign .minus) rfl hproduct
  have hless := Phrase.comparison (.ofNumber 1 .sum) (x := .relation .less) rfl hsum
  have hand : Phrase .conjunction _ _ _ :=
    .binary rfl (.operand nofun (.operand nofun hless)) rfl (x := .connective .and) rfl (.ofNumber 0 .exclusion)
  have hnot := Phrase.negation (.operand (v := .disjunction) nofun hand)
  have hall : Phrase .disjunction _ _ _ := .operand nofun (.operand nofun (.operand nofun hnot))
  obtain ⟨t, hlead⟩ := Tape.exists_leads _ (.cons ⟨.comma, .start, .start⟩ (.stop .start))
  have hlongest := longest_of_stops hall (Level.stops_cons (.inl rfl) _ _ .start .start (.stop .start))
  exact ⟨t, _, _, hlead, rfl, rfl, onePass_longest .empty hlead (Tape.scanned_cons _ _) hlongest⟩

end LineBasic
