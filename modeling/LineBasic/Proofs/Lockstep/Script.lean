import LineBasic.Proofs.Fitting.Action
import LineBasic.Proofs.Lockstep.Expr
import LineBasic.Script.Reader

/-!
# Scripts read in lockstep

Statements are read in lockstep like the expressions in them. What is read is
the same, the parts of it fit, and the tapes behind it are related. So the
scripts are related by any relation that the ways to build a script preserve.
How the statements are read that follow or are nested is up to the relation:
`again` and `again'` give related scripts behind a lexeme.

Not every relation preserves all ways to build a script. Conditions and loops
take in the rest of their line, which matters if the second tape goes on where
the first one ends. So these ways are asked for only if their verbs are allowed.

* `Script.Lockstep`: the relations for which scripts can be read in lockstep.
* `Script.Lockstep.readStatement`: related tapes have related statements.
-/

namespace LineBasic

open Reading (InStep Leaves inStep_breakOff)

namespace Script

/-- The bodies of two loops have related scripts, and what follows them is
related, be it a tape or nothing. Or the bodies cannot be found, with related
errors. -/
inductive Bodies (R : Tape → Tape → Prop) (E : Error → Error → Prop) (S : Script → Script → Prop)
    (again again' : Tape → Script) :
    Except Error (List Lexeme × Option Tape) → Except Error (List Lexeme × Option Tape) → Prop
  | closed {xs ys : List Lexeme} {t t' : Tape} : S (readBody again xs) (readBody again' ys) →
      R t t' → Bodies R E S again again' (.ok (xs, some t)) (.ok (ys, some t'))
  | opened {xs ys : List Lexeme} : S (readBody again xs) (readBody again' ys) → S .done .done →
      Bodies R E S again again' (.ok (xs, none)) (.ok (ys, none))
  | failed {e e' : Error} : E e e' → Bodies R E S again again' (.error e) (.error e')

/-- What has to be known where the first tape ends and the second one goes
on. -/
structure Ended (allowed : Verb → Prop) (S : Script → Script → Prop) (again again' : Tape → Script)
    (t t' : Tape) : Prop where
  rest : S .done (readRest again' t')
  named (name : String) :
    S (ofReading (readNamed again name t)) (ofReading (readNamed again' name t'))
  noLoop : ¬ allowed .loop

/-- Tapes related by `R` have scripts related by `S`. The verbs on such tapes
are allowed. -/
structure Lockstep (R : Tape → Tape → Prop) (E : Error → Error → Prop) (extra : Nat)
    (allowed : Verb → Prop) (S : Script → Script → Prop) (again again' : Tape → Script) : Prop
    extends Tape.Lockstep R E extra where
  verb {v : Verb} {p q p' q' : Position} {r r' : Tape} :
    R (.cons ⟨.verb v, p, q⟩ r) (.cons ⟨.verb v, p', q'⟩ r') → allowed v
  handed {x x' : Lexeme} {r r' : Tape} :
    R (.cons x r) (.cons x' r') → S (again r) (again' r')
  done {p q : Position} : R (.stop p) (.stop q) → S .done .done
  broken {before : List Operand} {e e' : Error} :
    (∀ o ∈ before, o.Fits) → E e e' → S (.broken before e) (.broken before e')
  step {action : Action} {s s' : Script} :
    action.Fits allowed → S s s' → S (.step action s) (.step action s')
  branch {c : Expr} {t t' : Tape} {y y' : Script} : allowed .when ∨ allowed .on →
    c.Fits → S y y' → R t t' → S (.branch c y (skip t)) (.branch c y' (skip t'))
  loop {head : LoopHead} {b b' s s' : Script} : allowed .loop →
    head.Fits → S b b' → S s s' → S (.loop head b s) (.loop head b' s')
  bodies {p q p' q' : Position} {r r' : Tape} : allowed .loop →
    R (.cons ⟨.colon, p, q⟩ r) (.cons ⟨.colon, p', q'⟩ r') → ∀ counter,
    Bodies R E S again again' (r.untilNext counter 0) (r'.untilNext counter 0)
  ended {p q q' : Position} {r' : Tape} : R (.stop p) (.cons ⟨.colon, q, q'⟩ r') →
    Ended allowed S again again' (.stop p) (.cons ⟨.colon, q, q'⟩ r')
  /-- The first tape does not end behind a colon if the second one goes on. -/
  colon {p q p' q' z : Position} {y : Lexeme} {r' : Tape} :
    ¬ R (.cons ⟨.colon, p, q⟩ (.stop z)) (.cons ⟨.colon, p', q'⟩ (.cons y r'))

namespace Lockstep

variable {R : Tape → Tape → Prop} {E : Error → Error → Prop} {extra : Nat} {allowed : Verb → Prop}
  {S : Script → Script → Prop} {again again' : Tape → Script}
  (L : Lockstep R E extra allowed S again again') {t t' : Tape}

include L

/-! ### Parts of statements -/

theorem missing (h : R t t') (name : String) :
    S (.broken [] (t.expected name)) (.broken [] (t'.expected name)) :=
  L.broken (fun _ ho => absurd ho List.not_mem_nil) (L.expected h name)

theorem ofReading {r r' : Reading Script} (h : InStep E S r r') :
    S (Script.ofReading r) (Script.ofReading r') := by
  cases h with
  | ok hs => exact hs
  | broken hops he => exact L.broken hops he

/-- Behind a lexeme both tapes can be scanned on, or neither can. -/
theorem ofReady {f g : Tape → Reading Script} (h : R t t')
    (hfg : S (Script.ofReading (f t)) (Script.ofReading (g t'))) :
    S (Script.ofReading (t.ready >>= f)) (Script.ofReading (t'.ready >>= g)) := by
  cases L.heads h with
  | broken e e' => exact L.missing h ""
  | _ => exact hfg

theorem readPlace (h : R t t') :
    InStep E (Leaves R Place.Fits t.length) (Script.readPlace t) (Script.readPlace t') := by
  refine (L.expectName h).bindLeaves ?_
  intro name u u' _ hu hle
  refine (L.readIndexOf hu).bindLeaves ?_
  intro index v v' hindex hv hle'
  exact .ok ⟨rfl, hindex, hv, hle'.trans hle⟩

-- Both bounds are as long as their tapes, so neither ends the items before its
-- tape does.
theorem readItems {bound bound' : Tape} (hbounds : bound'.length = bound.length + extra)
    (h : R t t') (hb : t.length ≤ bound.length) :
    InStep E (Leaves R (fun items => ∀ i ∈ items, i.1.Fits) t.length) (Script.readItems bound t)
      (Script.readItems bound' t') := by
  induction bound generalizing bound' t t' with
  | cons _ bound ih =>
    obtain ⟨_, bound', rfl, hmore⟩ := Tape.exists_cons_of_bounds hbounds
    simp only [Tape.length] at hb
    simp only [Script.readItems, L.atStatementEnd h]
    split
    · exact .ok ⟨rfl, by simp, h, le_rfl⟩
    · refine (L.read h).bindLeaves ?_
      intro e u u' he hu hle
      have last : InStep E (Leaves R (fun items => ∀ i ∈ items, i.1.Fits) t.length)
          (.ok ([(e, Separator.none)], u)) (.ok ([(e, Separator.none)], u')) :=
        .ok ⟨rfl, by simpa using he, hu, hle⟩
      cases L.heads hu with
      | cons x p q p' q' hr =>
        simp only [Tape.length] at hle
        have more := (L.bindReady hr (ih hmore hr (by omega))).behindOne (o := .expr .any e) he
        cases x with
        | comma | semicolon =>
          refine more.bindLeaves ?_
          intro items v v' hitems hv hle'
          exact .ok ⟨rfl, List.forall_mem_cons.2 ⟨he, hitems⟩, hv,
            show v.length ≤ t.length by omega⟩
        | _ => exact last
      | _ => exact last
  | _ =>
    have none : InStep E (Leaves R (fun items => ∀ i ∈ items, i.1.Fits) t.length)
        (.ok (([] : List (Expr × Separator)), t)) (.ok ([], t')) :=
      .ok ⟨rfl, by simp, h, le_rfl⟩
    have hlength := L.length h
    cases L.heads h with
    | cons => cases hb
    | broken e e' =>
      -- a tape that cannot be scanned has no lexemes, so the second bound has
      -- none either
      simp only [Tape.length] at hlength hbounds
      cases bound' with
      | cons _ bound' =>
        simp only [Tape.length] at hbounds
        omega
      | _ => exact none
    | _ => cases bound' <;> exact none

/-! ### Statements -/

theorem readRest (h : R t t') : S (Script.readRest again t) (Script.readRest again' t') := by
  have he := L.missing h "END OF LINE"
  cases L.heads h with
  | stop p q => exact L.done h
  | broken e e' => exact he
  | ended p q q' r' => exact (L.ended h).rest
  | cons x p q p' q' hr =>
    cases x with
    | colon =>
      exact L.ofReady (f := fun u => .ok (again u)) (g := fun u => .ok (again' u)) hr (L.handed h)
    | _ => exact he

theorem readOne {action : Expr → Action} (hact : ∀ e : Expr, e.Fits → (action e).Fits allowed)
    (h : R t t') : InStep E S (Script.readOne again action t) (Script.readOne again' action t') := by
  refine (L.read h).bindLeaves ?_
  intro e u u' he hu _
  exact .ok (L.step (hact e he) (L.readRest hu))

theorem readGoto (h : R t t') :
    InStep E S (Script.readOne again .goto t) (Script.readOne again' .goto t') :=
  L.readOne (fun _ he => ⟨nofun, he⟩) h

theorem readAssignment {place : Place} (hp : place.Fits) (h : R t t') :
    InStep E S (Script.readAssignment again place t) (Script.readAssignment again' place t') := by
  refine InStep.behind ((L.expect h (by simp)).bind ?_) hp.operands
  rintro u u' ⟨hu, _⟩
  exact L.readOne (fun e he => ⟨nofun, hp, he⟩) hu

theorem readDims (hv : allowed .dim) {bound bound' : Tape}
    (hbounds : bound'.length = bound.length + extra) (h : R t t') (hb : t.length ≤ bound.length) :
    S (Script.readDims again bound t) (Script.readDims again' bound' t') := by
  induction bound generalizing bound' t t' with
  | cons _ bound ih =>
    obtain ⟨_, bound', rfl, hmore⟩ := Tape.exists_cons_of_bounds hbounds
    simp only [Tape.length] at hb
    refine L.ofReading ((L.expectName h).bindLeaves ?_)
    intro name u u' _ hu hle
    refine (L.expect hu (by simp)).bind ?_
    rintro w w' ⟨hw, hlt⟩
    refine (L.read hw).bindLeaves ?_
    intro size x x' hs hx hle'
    refine ((L.expect hx (by simp)).behindOne (o := .expr .integer size) hs).bind ?_
    rintro z z' ⟨hz, hlt'⟩
    refine .ok (L.step (Action.fits_of_verb hv rfl hs) ?_)
    have rest := L.readRest hz
    cases L.heads hz with
    | cons x p q p' q' hr =>
      simp only [Tape.length] at hlt'
      cases x with
      | comma =>
        exact L.ofReady (f := fun u => .ok (Script.readDims again bound u))
          (g := fun u => .ok (Script.readDims again' bound' u)) hr (ih hmore hr (by omega))
      | _ => exact rest
    | _ => exact rest
  | _ =>
    -- no lexeme is left, so there is no name either
    have he := L.missing h "IDENTIFIER"
    cases L.heads h with
    | cons => cases hb
    | _ => cases bound' <;> exact he

theorem readInput (hv : allowed .input) (h : R t t') :
    InStep E S (Script.readInput again t) (Script.readInput again' t') := by
  -- the place comes last, whatever stands before it
  have place {prompt : Expr} (hp : prompt.Fits) (mark : Bool) {u u' : Tape} (hu : R u u') :=
    (L.readPlace hu).bindLeaves (S := S)
      (f := fun x => .ok (.step (.input prompt mark x.1) (Script.readRest again x.2)))
      (g := fun x => .ok (.step (.input prompt mark x.1) (Script.readRest again' x.2)))
      fun _ _ _ hplace hw _ =>
        .ok (L.step (Action.fits_of_verb hv rfl ⟨hp, hplace⟩) (L.readRest hw))
  refine (L.read h).bindLeaves ?_
  intro prompt u u' hp hu _
  refine InStep.behindOne ?_ (o := .expr .text prompt) hp
  refine (L.accept? hu (by simp)).bind ?_
  rintro _ _ (⟨hab, _⟩ | _)
  · exact place hp true hab
  · exact (L.expect hu (by simp)).bind fun _ _ hab => place hp false hab.1

theorem readList (hv : allowed .list) (h : R t t') :
    InStep E S (Script.readList again t) (Script.readList again' t') := by
  have listed {first last : Option Expr} (hf : ∀ e ∈ first, e.Fits) (hl : ∀ e ∈ last, e.Fits)
      {u u' : Tape} (hu : R u u') :
      InStep E S (.ok (.step (.list first last) (Script.readRest again u)))
        (.ok (.step (.list first last) (Script.readRest again' u'))) :=
    .ok (L.step (Action.fits_of_verb hv rfl ⟨hf, hl⟩) (L.readRest hu))
  simp only [Script.readList, L.atStatementEnd h]
  split
  · exact listed (by simp) (by simp) h
  · refine (L.read h).bindLeaves ?_
    intro first u u' hf hu _
    refine InStep.behindOne ?_ (o := .expr .integer first) hf
    refine (L.accept? hu (by simp)).bind ?_
    rintro _ _ (⟨hab, _⟩ | _)
    · refine (L.read hab).bindLeaves ?_
      intro last v v' hl hv' _
      exact listed (by simpa using hf) (by simpa using hl) hv'
    · exact listed (by simpa using hf) (by simp) hu

theorem readThen (h : R t t') : S (Script.readThen again t) (Script.readThen again' t') := by
  have he := L.missing h (Token.keyword .thenDo).className
  cases L.heads h with
  | cons x p q p' q' hr =>
    cases x with
    | verb v =>
      cases v with
      | goto => exact L.ofReading (L.bindReady hr (L.readGoto hr))
      | _ => exact he
    | number n => exact L.ofReading (L.readGoto h)
    | keyword k =>
      cases k with
      | thenDo =>
        refine L.ofReady hr ?_
        have more := L.handed h
        cases L.heads hr with
        | cons y =>
          cases y with
          | number n => exact L.ofReading (L.readGoto hr)
          | _ => exact more
        | _ => exact more
      | _ => exact he
    | _ => exact he
  | _ => exact he

theorem readWhen (hv : allowed .when) (h : R t t') :
    InStep E S (Script.readWhen again t) (Script.readWhen again' t') := by
  refine (L.read h).bindLeaves ?_
  intro c u u' hc hu _
  exact .ok (L.branch (.inl hv) hc (L.readThen hu) hu)

theorem readOn (hv : allowed .on) (h : R t t') :
    InStep E S (Script.readOn again t) (Script.readOn again' t') := by
  refine (L.read h).bindLeaves ?_
  intro c u u' hc hu _
  refine ((L.expect hu (by simp)).behindOne (o := .expr .truth c) hc).bind ?_
  rintro w w' ⟨hw, _⟩
  exact .ok (L.branch (.inr hv) hc (L.ofReading (L.readGoto hw)) hw)

theorem readLoopRest (hv : allowed .loop) {head : LoopHead} (hh : head.Fits) (h : R t t') :
    InStep E S (Script.readLoopRest again head t) (Script.readLoopRest again' head t') := by
  have he := L.toLockstep.missing (Q := S) h "':' OR END OF LINE"
  cases L.heads h with
  | stop p q => exact .ok (L.step (Action.fits_of_verb hv rfl hh) (L.done h))
  | broken e e' => exact he
  | ended p q q' r' => exact absurd hv (L.ended h).noLoop
  | cons x p q p' q' hr =>
    cases x with
    | colon =>
      have hbodies := L.bodies hv h head.place.name
      simp only [Script.readLoopRest]
      generalize Tape.untilNext _ _ _ = b at hbodies ⊢
      generalize Tape.untilNext _ _ _ = b' at hbodies ⊢
      cases hbodies with
      | closed hbody hu => exact .ok (L.loop hv hh hbody (L.readRest hu))
      | opened hbody hdone => exact .ok (L.loop hv hh hbody hdone)
      | failed hfailed => exact inStep_breakOff hfailed
    | _ => exact he

theorem readLoop (hv : allowed .loop) (h : R t t') :
    InStep E S (Script.readLoop again t) (Script.readLoop again' t') := by
  refine (L.readPlace h).bindLeaves ?_
  intro place u u' hp hu _
  refine InStep.behind ?_ hp.operands
  dsimp only
  split
  case isTrue => exact inStep_breakOff (L.everyday ⟨nofun, nofun⟩)
  case isFalse hn =>
    have hnum : VariableKind.ofName place.name = .numeric := by simpa using hn
    refine (L.expect hu (by simp)).bind ?_
    rintro w w' ⟨hw, _⟩
    refine (L.read hw).bindLeaves ?_
    intro start x x' hs hx _
    refine InStep.behindOne ?_ (o := .expr .integer start) hs
    refine (L.expect hx (by simp)).bind ?_
    rintro y y' ⟨hy, _⟩
    refine (L.read hy).bindLeaves ?_
    intro limit z z' hl hz _
    refine InStep.behindOne ?_ (o := .expr .integer limit) hl
    refine (L.accept? hz (by simp)).bind ?_
    rintro _ _ (⟨hab, _⟩ | _)
    · refine (L.read hab).bindLeaves ?_
      intro stride b b' hstride hb _
      exact (L.readLoopRest hv ⟨hp, hs, hl, hstride, hnum⟩ hb).behindOne
        (o := .expr .stride stride) hstride
    · exact L.readLoopRest hv ⟨hp, hs, hl, trivial, hnum⟩ hz

theorem readNext (hv : allowed .next) (h : R t t') :
    InStep E S (Script.readNext again t) (Script.readNext again' t') := by
  have next (name : Option String) {u u' : Tape} (hu : R u u') :
      InStep E S (.ok (.step (.next name) (Script.readRest again u)))
        (.ok (.step (.next name) (Script.readRest again' u'))) :=
    .ok (L.step (Action.fits_of_verb hv rfl trivial) (L.readRest hu))
  have unnamed := next none h
  cases L.heads h with
  | cons x p q p' q' hr =>
    cases x with
    | name s => exact L.bindReady hr (next (some s) hr)
    | _ => exact unnamed
  | _ => exact unnamed

theorem readVerb {v : Verb} (hv : allowed v) (h : R t t') :
    InStep E S (Script.readVerb again v t) (Script.readVerb again' v t') := by
  have plain {action : Action} (hact : action.verb? = some v) (hp : action.PartsFit) :
      InStep E S (.ok (.step action (Script.readRest again t)))
        (.ok (.step action (Script.readRest again' t'))) :=
    .ok (L.step (Action.fits_of_verb hv hact hp) (L.readRest h))
  have one {u u' : Tape} (hu : R u u') {action : Expr → Action}
      (hact : ∀ e, (action e).verb? = some v) (hp : ∀ e : Expr, e.Fits → (action e).PartsFit) :
      InStep E S (Script.readOne again action u) (Script.readOne again' action u') :=
    L.readOne (fun e he => Action.fits_of_verb hv (hact e) (hp e he)) hu
  cases v with
  | trace =>
    simp only [Script.readVerb, L.atStatementEnd h]
    split
    · exact plain rfl nofun
    · exact one h (fun _ => rfl) fun e he => by simpa [Action.PartsFit] using he
  | remark =>
    have he := L.toLockstep.missing (Q := S) h "COMMENT"
    cases L.heads h with
    | cons x p q p' q' hr =>
      cases x with
      | comment s =>
        exact L.bindReady hr (.ok (L.step (Action.fits_of_verb hv rfl trivial) (L.readRest hr)))
      | _ => exact he
    | _ => exact he
  | assign =>
    refine (L.readPlace h).bindLeaves ?_
    intro place u u' hp hu _
    exact L.readAssignment hp hu
  | dim => exact .ok (L.readDims hv (L.length h) h le_rfl)
  | goto => exact L.readGoto h
  | gosub => exact one h (fun _ => rfl) fun _ he => he
  | print =>
    refine (L.readItems (L.length h) h le_rfl).bindLeaves ?_
    intro items u u' hitems hu _
    exact .ok (L.step (Action.fits_of_verb hv rfl hitems) (L.readRest hu))
  | input => exact L.readInput hv h
  | list => exact L.readList hv h
  | read =>
    refine (L.expectName h).bindLeaves ?_
    intro name u u' _ hu _
    exact (L.expect hu (by simp)).bind fun _ _ hab => one hab.1 (fun _ => rfl) fun _ he => he
  | write =>
    refine (L.expectName h).bindLeaves ?_
    intro name u u' _ hu _
    refine InStep.behindOne ?_ (o := .lookup name) trivial
    exact (L.expect hu (by simp)).bind fun _ _ hab => one hab.1 (fun _ => rfl) fun _ he => he
  | load => exact one h (fun _ => rfl) fun _ he => he
  | save => exact one h (fun _ => rfl) fun _ he => he
  | when => exact L.readWhen hv h
  | on => exact L.readOn hv h
  | loop => exact L.readLoop hv h
  | next => exact L.readNext hv h
  | _ => exact plain rfl trivial

theorem readNamed (h : R t t') (name : String) :
    S (Script.ofReading (Script.readNamed again name t))
      (Script.ofReading (Script.readNamed again' name t')) := by
  have assignment := L.ofReading ((L.readIndexOf h).bindLeaves
    (f := fun x => Script.readAssignment again ⟨name, x.1⟩ x.2)
    (g := fun x => Script.readAssignment again' ⟨name, x.1⟩ x.2)
    fun _ _ _ hindex hu _ => L.readAssignment hindex hu)
  cases L.heads h with
  | ended p q q' r' => exact (L.ended h).named name
  | cons x p q p' q' hr =>
    cases x with
    | colon =>
      refine L.ofReady hr (L.step ⟨nofun, trivial⟩ ?_)
      have more := L.handed h
      cases L.heads hr with
      | stop p q => exact L.done hr
      | broken e e' => exact more
      | cons => exact more
      | ended => exact absurd h L.colon
    | _ => exact assignment
  | _ => exact assignment

/-- **Statements on related tapes have related scripts.** -/
theorem readStatement (h : R t t') :
    S (Script.readStatement again t) (Script.readStatement again' t') := by
  have he := L.missing h "STATEMENT"
  cases L.heads h with
  | cons x p q p' q' hr =>
    cases x with
    | verb v => exact L.ofReading (L.bindReady hr (L.readVerb (L.verb h) hr))
    | name s => exact L.ofReady hr (L.readNamed hr s)
    | _ => exact he
  | _ => exact he

end Lockstep

end Script

end LineBasic
