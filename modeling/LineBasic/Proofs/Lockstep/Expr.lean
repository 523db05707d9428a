import LineBasic.Proofs.Fitting.Expr

/-!
# Expressions read in lockstep

A reader takes one lexeme after the other, and nothing else than the tokens
decides how it goes on. So two tapes can be compared while they are read, by any
relation that holds on behind a lexeme if it holds before it. Here every reader
is gone through once, with the relation between the tapes and the one between
the errors as parameters.

The tapes need not end together. Where the first one ends, the second one may go
on with a colon, since a colon ends an expression just as well. The readers that
count down a bound need to know how much longer the second tape is.

* `Tape.Lockstep`: the relations for which tapes can be read in lockstep.
* `Reading.InStep`: readings with related results, or which break off behind the
  same operands with related errors.
* `Tape.Lockstep.read`: the same expression is read off related tapes, the calls
  in it fit, and the tapes behind it are related.
-/

namespace LineBasic

/-! ### Tapes -/

namespace Tape

/-- What comes first on two tapes: the same token, or nothing that could be
read. A colon on the second tape may stand for the end of the first one. -/
inductive Heads (R : Tape → Tape → Prop) : Tape → Tape → Prop
  | stop (p q : Position) : Heads R (.stop p) (.stop q)
  | broken (e e' : Error) : Heads R (.broken e) (.broken e')
  | cons (token : Token) (p q p' q' : Position) {r r' : Tape} :
      R r r' → Heads R (.cons ⟨token, p, q⟩ r) (.cons ⟨token, p', q'⟩ r')
  | ended (p q q' : Position) (r' : Tape) : Heads R (.stop p) (.cons ⟨.colon, q, q'⟩ r')

/-- Tapes related by `R` are read in lockstep, with errors related by `E`. The
second tape is longer than the first one by `extra` lexemes. -/
structure Lockstep (R : Tape → Tape → Prop) (E : Error → Error → Prop) (extra : Nat) : Prop where
  heads {t t' : Tape} : R t t' → Heads R t t'
  expected {t t' : Tape} : R t t' → ∀ name, E (t.expected name) (t'.expected name)
  everyday {e : Error} : e.Everyday → E e e
  length {t t' : Tape} : R t t' → t'.length = t.length + extra

/-- The tapes are related, and the first is shorter than `t`. -/
def Past (R : Tape → Tape → Prop) (t u u' : Tape) : Prop := R u u' ∧ u.length < t.length

/-- Where one of two bounds has a lexeme left, so has the other one. -/
theorem exists_cons_of_bounds {x : Lexeme} {bound bound' : Tape} {extra : Nat}
    (h : bound'.length = (cons x bound).length + extra) :
    ∃ y rest, bound' = cons y rest ∧ rest.length = bound.length + extra := by
  simp only [length] at h
  cases bound' with
  | cons y rest =>
    simp only [length] at h
    exact ⟨y, rest, rfl, by omega⟩
  | _ =>
    simp only [length] at h
    omega

end Tape

/-- The two are the same, and they are as `P` says. -/
def Same {α : Type} (P : α → Prop) (a b : α) : Prop := a = b ∧ P a

/-- A property of tapes that holds on behind a lexeme relates a tape to
itself. -/
theorem Tape.lockstep_same {P : Tape → Prop} {Q : Error → Prop}
    (htail : ∀ x r, P (.cons x r) → P r) (hexpected : ∀ t, P t → ∀ name, Q (t.expected name))
    (heveryday : ∀ e : Error, e.Everyday → Q e) : Lockstep (Same P) (Same Q) 0 where
  heads := by
    rintro t _ ⟨rfl, h⟩
    cases t with
    | stop p => exact .stop p p
    | broken e => exact .broken e e
    | cons x r => exact .cons x.token x.start x.stop x.start x.stop ⟨rfl, htail x r h⟩
  expected := by
    rintro t _ ⟨rfl, h⟩ name
    exact ⟨rfl, hexpected t h name⟩
  everyday he := ⟨rfl, heveryday _ he⟩
  length h := h.1 ▸ rfl

/-! ### Readings -/

namespace Reading

variable {α β : Type} {R : Tape → Tape → Prop} {E : Error → Error → Prop}

/-- The readings have related results, or break off behind the same operands,
which fit, with related errors. -/
inductive InStep (E : Error → Error → Prop) (Q : α → α → Prop) : Reading α → Reading α → Prop
  | ok {a b : α} : Q a b → InStep E Q (.ok a) (.ok b)
  | broken {before : List Operand} {e e' : Error} : (∀ o ∈ before, o.Fits) → E e e' →
      InStep E Q (.error ⟨before, e⟩) (.error ⟨before, e'⟩)

/-- The same was read, and it is as `P` says. The tapes behind it are related,
and the first has at most `k` lexemes. -/
structure Leaves (R : Tape → Tape → Prop) (P : α → Prop) (k : Nat) (a b : α × Tape) : Prop where
  same : a.1 = b.1
  fits : P a.1
  tape : R a.2 b.2
  length : a.2.length ≤ k

theorem Leaves.mono {P : α → Prop} {k j : Nat} {a b : α × Tape} (h : Leaves R P k a b)
    (hkj : k ≤ j) : Leaves R P j a b :=
  { h with length := h.length.trans hkj }

theorem inStep_breakOff {Q : α → α → Prop} {e e' : Error} (h : E e e') :
    InStep E Q (breakOff e) (breakOff e') :=
  .broken (fun _ ho => absurd ho List.not_mem_nil) h

theorem InStep.bind {Q : α → α → Prop} {S : β → β → Prop} {x y : Reading α}
    (h : InStep E Q x y) {f g : α → Reading β} (hfg : ∀ a b, Q a b → InStep E S (f a) (g b)) :
    InStep E S (x >>= f) (y >>= g) := by
  cases h with
  | ok hab => exact hfg _ _ hab
  | broken hops he => exact .broken hops he

/-- The rule for a reading that gives something and the tape behind it. -/
theorem InStep.bindLeaves {P : α → Prop} {k : Nat} {S : β → β → Prop} {x y : Reading (α × Tape)}
    (h : InStep E (Leaves R P k) x y) {f g : α × Tape → Reading β}
    (hfg : ∀ a t t', P a → R t t' → t.length ≤ k → InStep E S (f (a, t)) (g (a, t'))) :
    InStep E S (x >>= f) (y >>= g) := by
  refine h.bind ?_
  rintro ⟨a, t⟩ ⟨b, t'⟩ ⟨rfl, ha, ht, hk⟩
  exact hfg a t t' ha ht hk

theorem InStep.mono {Q S : α → α → Prop} {x y : Reading α} (h : InStep E Q x y)
    (hQS : ∀ a b, Q a b → S a b) : InStep E S x y := by
  cases h with
  | ok hab => exact .ok (hQS _ _ hab)
  | broken hops he => exact .broken hops he

theorem InStep.behind {Q : α → α → Prop} {x y : Reading α} (h : InStep E Q x y)
    {ops : List Operand} (hops : ∀ o ∈ ops, o.Fits) :
    InStep E Q (behind ops x) (behind ops y) := by
  cases h with
  | ok hab => exact .ok hab
  | broken hbefore he => exact .broken (List.forall_mem_append.2 ⟨hops, hbefore⟩) he

/-- The rule for one operand. -/
theorem InStep.behindOne {Q : α → α → Prop} {x y : Reading α} (h : InStep E Q x y) {o : Operand}
    (ho : o.Fits) : InStep E Q (LineBasic.behind [o] x) (LineBasic.behind [o] y) := by
  refine h.behind ?_
  intro o' ho'
  obtain rfl := List.mem_singleton.1 ho'
  exact ho

end Reading

open Reading (InStep Leaves inStep_breakOff)

/-- The readers do the same on related tapes, as long as the first has at most
`k` lexemes. -/
def Expr.Reader.InStep (R : Tape → Tape → Prop) (E : Error → Error → Prop) (k : Nat)
    (r r' : Reader) : Prop :=
  ∀ ⦃t t' : Tape⦄, R t t' → t.length ≤ k → Reading.InStep E (Leaves R Expr.Fits t.length) (r t) (r' t')

namespace Tape.Lockstep

variable {R : Tape → Tape → Prop} {E : Error → Error → Prop} {extra : Nat}
  (L : Lockstep R E extra) {t t' : Tape}

include L

/-! ### Single tokens -/

theorem peek?_eq_some_iff (h : R t t') (token : Token) (hc : token ≠ .colon) :
    t.peek? = some token ↔ t'.peek? = some token := by
  cases L.heads h with
  | ended p q q' r' => simp [peek?, hc.symm]
  | _ => rfl

theorem atStatementEnd (h : R t t') : t.atStatementEnd = t'.atStatementEnd := by
  cases L.heads h <;> rfl

/-- Something else is missing on both tapes. -/
theorem missing {α : Type} {Q : α → α → Prop} (h : R t t') (name : String) :
    InStep E Q (breakOff (t.expected name)) (breakOff (t'.expected name)) :=
  inStep_breakOff (L.expected h name)

/-- Behind a lexeme both tapes can be scanned on, or neither can. -/
theorem bindReady {α : Type} {Q : α → α → Prop} {f g : Tape → Reading α} (h : R t t')
    (hfg : InStep E Q (f t) (g t')) : InStep E Q (t.ready >>= f) (t'.ready >>= g) := by
  cases L.heads h with
  | broken e e' => exact L.missing h ""
  | _ => exact hfg

theorem accept? (h : R t t') {token : Token} (hc : token ≠ .colon) :
    InStep E (Option.Rel (Past R t)) (t.accept? token) (t'.accept? token) := by
  cases L.heads h with
  | stop p q => exact .ok .none
  | broken e e' => exact .ok .none
  | ended p q q' r' =>
    rw [Tape.accept?, Tape.accept?, if_neg hc.symm]
    exact .ok .none
  | cons x p q p' q' hr =>
    simp only [Tape.accept?]
    split
    · exact L.bindReady (f := fun u => .ok (some u)) (g := fun u => .ok (some u)) hr
        (.ok (.some ⟨hr, Nat.lt_succ_self _⟩))
    · exact .ok .none

theorem expect (h : R t t') {token : Token} (hc : token ≠ .colon) :
    InStep E (Past R t) (t.expect token) (t'.expect token) := by
  refine (L.accept? h hc).bind ?_
  rintro _ _ (hab | _)
  · exact .ok hab
  · exact L.missing h _

theorem expectName (h : R t t') :
    InStep E (Leaves R (fun _ => True) t.length) t.expectName t'.expectName := by
  have he := L.missing (Q := Leaves R (fun _ : String => True) t.length) h "IDENTIFIER"
  cases L.heads h with
  | cons x p q p' q' hr =>
    cases x with
    | name s => exact L.bindReady hr (.ok ⟨rfl, trivial, hr, Nat.le_succ _⟩)
    | _ => exact he
  | _ => exact he

/-! ### Chains of operands -/

section Operands

variable {k : Nat} {op? : Token → Option Binary} {operand operand' : Expr.Reader}
  (hop : op? .colon = none) (ho : Expr.Reader.InStep R E k operand operand')

include ho

/-- The operand behind an operator. -/
theorem operandBehind {l : Expr} (hl : l.Fits) (h : R t t') (hk : t.length ≤ k) :
    InStep E (Leaves R Expr.Fits t.length) (behind [.expr .any l] do operand (← t.ready))
      (behind [.expr .any l] do operand' (← t'.ready)) :=
  (L.bindReady h (ho h hk)).behindOne hl

include hop

omit ho in
/-- A chain is complete where the first tape has no lexeme left. -/
theorem readChainFrom_over {l : Expr} (hl : l.Fits) (h : R t t') (hlen : t.length = 0)
    (bound bound' : Tape) :
    InStep E (Leaves R Expr.Fits t.length) (Expr.readChainFrom op? operand bound l t)
      (Expr.readChainFrom op? operand' bound' l t') := by
  have here : InStep E (Leaves R Expr.Fits t.length) (.ok (l, t)) (.ok (l, t')) :=
    .ok ⟨rfl, hl, h, le_rfl⟩
  cases L.heads h with
  | stop p q => cases bound <;> cases bound' <;> exact here
  | broken e e' => cases bound <;> cases bound' <;> exact here
  | cons => cases hlen
  | ended p q q' r' =>
    cases bound <;> cases bound' <;> simp only [Expr.readChainFrom, hop] <;> exact here

-- Both bounds are as long as their tapes, so neither ends the chain before its
-- tape does.
theorem readChainFrom {bound bound' : Tape} (hbounds : bound'.length = bound.length + extra)
    {l : Expr} (hl : l.Fits) (h : R t t') (hk : t.length ≤ k) (hb : t.length ≤ bound.length) :
    InStep E (Leaves R Expr.Fits t.length) (Expr.readChainFrom op? operand bound l t)
      (Expr.readChainFrom op? operand' bound' l t') := by
  induction bound generalizing bound' l t t' with
  | cons _ bound ih =>
    cases L.heads h with
    | cons x p q p' q' hr =>
      obtain ⟨_, bound', rfl, hmore⟩ := exists_cons_of_bounds hbounds
      simp only [Tape.length] at hk hb
      simp only [Expr.readChainFrom]
      cases op? x with
      | none => exact .ok ⟨rfl, hl, h, le_rfl⟩
      | some op =>
        refine (L.operandBehind ho hl hr (by omega)).bindLeaves ?_
        intro e u u' he hu hle
        refine (ih (l := .binary op l e) hmore ⟨hl, he⟩ hu (by omega) (by omega)).mono ?_
        exact fun _ _ hl => hl.mono (hle.trans (Nat.le_succ _))
    | _ => exact L.readChainFrom_over hop hl h rfl _ _
  | _ => exact L.readChainFrom_over hop hl h (Nat.le_zero.1 hb) _ _

theorem readChain :
    Expr.Reader.InStep R E k (Expr.readChain op? operand) (Expr.readChain op? operand') := by
  intro t t' h hk
  refine (ho h hk).bindLeaves ?_
  intro l u u' hl hu hle
  refine (L.readChainFrom hop ho (L.length hu) hl hu (hle.trans hk) le_rfl).mono ?_
  exact fun _ _ hl => hl.mono hle

theorem readPair :
    Expr.Reader.InStep R E k (Expr.readPair op? operand) (Expr.readPair op? operand') := by
  intro t t' h hk
  refine (ho h hk).bindLeaves ?_
  intro l u u' hl hu hle
  have here : InStep E (Leaves R Expr.Fits t.length) (.ok (l, u)) (.ok (l, u')) :=
    .ok ⟨rfl, hl, hu, hle⟩
  cases L.heads hu with
  | stop p q => exact here
  | broken e e' => exact here
  | ended p q q' r' =>
    simp only [hop]
    exact here
  | cons x p q p' q' hr =>
    simp only [Tape.length] at hle
    dsimp only
    cases op? x with
    | none => exact here
    | some op =>
      refine (L.operandBehind ho hl hr (by omega)).bindLeaves ?_
      intro e v v' he hv hle'
      exact .ok ⟨rfl, ⟨hl, he⟩, hv, show v.length ≤ t.length by omega⟩

end Operands

/-! ### Expressions that are nested -/

section Nested

variable {k : Nat} {nested nested' : Expr.Reader} (hn : Expr.Reader.InStep R E k nested nested')

include hn

theorem readIndex (h : R t t') (hk : t.length ≤ k) :
    InStep E (Leaves R (fun index => ∀ e ∈ index, e.Fits) t.length) (Expr.readIndex nested t)
      (Expr.readIndex nested' t') := by
  refine (L.accept? h (by simp)).bind ?_
  rintro _ _ (⟨hab, hlt⟩ | _)
  · refine (hn hab (by omega)).bindLeaves ?_
    intro e u u' he hu hle
    refine ((L.expect hu (by simp)).behindOne (o := .expr .integer e) he).bind ?_
    rintro v v' ⟨hv, hlt'⟩
    exact .ok ⟨rfl, by simpa using he, hv, show v.length ≤ t.length by omega⟩
  · exact .ok ⟨rfl, by simp, h, le_rfl⟩

omit hn in
theorem readSeparator (h : R t t') :
    InStep E (fun u u' => R u u' ∧ u.length ≤ t.length) (Expr.readSeparator t)
      (Expr.readSeparator t') := by
  simp only [Expr.readSeparator, L.peek?_eq_some_iff h .closeParen (by simp)]
  split
  · exact .ok ⟨h, le_rfl⟩
  · exact (L.expect h (by simp)).mono fun _ _ hab => ⟨hab.1, hab.2.le⟩

-- The places that are left are those that the arguments still to be read must
-- fit.
theorem readArgs (f : Builtin) (slots : List Slot) (h : R t t') (hk : t.length ≤ k) :
    InStep E (Leaves R (Args.Fits · slots) t.length) (Expr.readArgs nested f slots t)
      (Expr.readArgs nested' f slots t') := by
  have hpeek {t t' : Tape} (h : R t t') := L.peek?_eq_some_iff h .closeParen (by simp)
  induction slots generalizing t t' with
  | nil =>
    rw [Expr.readArgs, Expr.readArgs]
    simp only [hpeek h]
    split
    · exact .ok ⟨rfl, trivial, h, le_rfl⟩
    · exact inStep_breakOff (L.everyday ⟨nofun, nofun⟩)
  | cons slot slots ih =>
    -- what follows an argument is the same for both kinds of argument
    have more {o : Operand} (ho : o.Fits) {u u' : Tape} (hu : R u u') (hle : u.length ≤ t.length) :
        InStep E (Leaves R (Args.Fits · slots) t.length)
          (behind [o] do Expr.readArgs nested f slots (← Expr.readSeparator u))
          (behind [o] do Expr.readArgs nested' f slots (← Expr.readSeparator u')) := by
      refine InStep.behindOne ((L.readSeparator hu).bind ?_) ho
      rintro v v' ⟨hv, hle'⟩
      exact (ih hv (by omega)).mono fun _ _ hl => hl.mono (hle'.trans hle)
    cases slot
    case handle =>
      rw [Expr.readArgs, Expr.readArgs]
      simp only [hpeek h]
      split
      · exact .ok ⟨rfl, trivial, h, le_rfl⟩
      · refine (L.expectName h).bindLeaves ?_
        intro name u u' _ hu hle
        refine (more (o := .lookup name) trivial hu hle).bindLeaves ?_
        intro args v v' hargs hv hle'
        exact .ok ⟨rfl, ⟨rfl, hargs⟩, hv, hle'⟩
    all_goals
      rw [Expr.readArgs, Expr.readArgs]
      · simp only [hpeek h]
        split
        · exact .ok ⟨rfl, trivial, h, le_rfl⟩
        · refine (hn h hk).bindLeaves ?_
          intro e u u' he hu hle
          refine (more (o := .expr _ e) he hu hle).bindLeaves ?_
          intro args v v' hargs hv hle'
          exact .ok ⟨rfl, ⟨by decide, he, hargs⟩, hv, hle'⟩
      all_goals
        intro hs
        cases hs

theorem readCall (f : Builtin) :
    Expr.Reader.InStep R E k (Expr.readCall nested f) (Expr.readCall nested' f) := by
  intro t t' h hk
  refine (L.expect h (by simp)).bind ?_
  rintro u u' ⟨hu, hlt⟩
  refine (L.readArgs hn f _ hu (by omega)).bindLeaves ?_
  intro args v v' hargs hv hle
  refine ((L.expect hv (by simp)).behindOne (o := .expr .any (.call f args)) hargs).bind ?_
  rintro w w' ⟨hw, hlt'⟩
  exact .ok ⟨rfl, hargs, hw, show w.length ≤ t.length by omega⟩

/-- What is nested in a factor begins behind a lexeme, so the tape may have one
lexeme more. -/
theorem readFactor :
    Expr.Reader.InStep R E (k + 1) (Expr.readFactor nested) (Expr.readFactor nested') := by
  intro t t' h hk
  have he := L.missing (Q := Leaves R Expr.Fits t.length) h "EXPRESSION"
  induction t generalizing t' with
  | cons x rest ih =>
    cases L.heads h with
    | cons x p q p' q' hr =>
      simp only [Tape.length] at hk
      cases x with
      | sign s =>
        refine (ih hr (by omega) (L.missing hr _)).bindLeaves ?_
        intro e u u' hfits hu hle
        exact .ok ⟨rfl, hfits, hu, hle.trans (Nat.le_succ _)⟩
      | openParen =>
        refine L.bindReady hr ((hn hr (by omega)).bindLeaves ?_)
        intro e u u' hfits hu hle
        refine ((L.expect hu (by simp)).behindOne (o := .expr .any e) hfits).bind ?_
        rintro v v' ⟨hv, hlt⟩
        exact .ok ⟨rfl, hfits, hv, show v.length ≤ rest.length + 1 by omega⟩
      | number n => exact L.bindReady hr (.ok ⟨rfl, trivial, hr, Nat.le_succ _⟩)
      | quoted s => exact L.bindReady hr (.ok ⟨rfl, trivial, hr, Nat.le_succ _⟩)
      | name s =>
        refine L.bindReady hr ((L.readIndex hn hr (by omega)).bindLeaves ?_)
        intro index u u' hindex hu hle
        refine .ok ⟨rfl, ?_, hu, hle.trans (Nat.le_succ _)⟩
        cases index with
        | none => exact trivial
        | some e => exact hindex e rfl
      | builtin f =>
        refine L.bindReady hr ((L.readCall hn f hr (by omega)).mono ?_)
        exact fun _ _ hl => hl.mono (Nat.le_succ _)
      | _ => exact he
  | _ => cases L.heads h <;> exact he

theorem readTerm :
    Expr.Reader.InStep R E (k + 1) (Expr.readTerm nested) (Expr.readTerm nested') := by
  intro t t' h hk
  refine (L.accept? h (by simp)).bind ?_
  rintro _ _ (⟨hab, hlt⟩ | _)
  · refine (hn hab (by omega)).bindLeaves ?_
    intro e u u' he hu hle
    exact .ok ⟨rfl, he, hu, show u.length ≤ t.length by omega⟩
  · exact L.readPair rfl (L.readChain rfl (L.readChain rfl (L.readFactor hn))) h hk

theorem readWith : Expr.Reader.InStep R E (k + 1) (Expr.readWith nested) (Expr.readWith nested') :=
  L.readChain rfl (L.readChain rfl (L.readChain rfl (L.readTerm hn)))

end Nested

-- As long as there are lexemes there is a bound; where they end, both readers
-- find no expression.
theorem readNested {bound bound' : Tape} (hbounds : bound'.length = bound.length + extra) :
    Expr.Reader.InStep R E bound.length (Expr.readNested bound) (Expr.readNested bound') := by
  induction bound generalizing bound' with
  | cons _ bound ih =>
    obtain ⟨_, bound', rfl, hmore⟩ := exists_cons_of_bounds hbounds
    exact L.readWith (ih hmore)
  | _ =>
    intro t t' h hk
    have he := L.missing (Q := Leaves R Expr.Fits t.length) h "EXPRESSION"
    cases L.heads h with
    | cons => cases hk
    | _ => cases bound' <;> exact he

/-- **The same expression is read off related tapes**, and the calls in it
fit. -/
theorem read (h : R t t') :
    InStep E (Leaves R Expr.Fits t.length) (Expr.read t) (Expr.read t') :=
  L.readNested (L.length h) h le_rfl

/-- The index behind a name. -/
theorem readIndexOf (h : R t t') :
    InStep E (Leaves R (fun index => ∀ e ∈ index, e.Fits) t.length) (Expr.readIndex Expr.read t)
      (Expr.readIndex Expr.read t') :=
  L.readIndex (fun _ _ hu _ => L.read hu) h le_rfl

end Tape.Lockstep

end LineBasic
