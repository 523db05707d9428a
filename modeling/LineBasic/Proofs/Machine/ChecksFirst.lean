import LineBasic.Proofs.Machine.LineLoop

/-!
# Control statements check first

A statement that moves about in the program does all that may fail before it
changes anything. So if it fails, the program is where it was: the place, the
frames, the table of lines, the listing, the console and the variables are as
before, and only random numbers may have been drawn. A `FOR` over lines writes
its counter before it looks for its `NEXT`, so for it the variables are
excepted.

* `Script.first`: what the first statement of a line does.
* `Script.exec_of_first_error`, `Script.exec_of_first_ok`: the line does that
  first.
* `Act.Careful`: an act that changes nothing if it fails.
* `Tape.Jumps`: the lines that begin with a jump.
* `Script.control_checks_first`: jumps and loops over lines check first.
-/

namespace LineBasic

/-! ### The first statement -/

namespace Script

variable {run : Act Unit} {line : Option Int64} {m m' : Machine}

/-- What the first statement of a line does. A condition is one statement with
what depends on it. -/
def first (run : Act Unit) (line : Option Int64) : Script → Act Unit
  | done => pure ()
  | broken before error => do
    Act.check before
    Act.fail error
  | step action _ => action.perform run line
  | branch condition yes no => do
    if ← Act.truth condition then yes.first run line else no.first run line
  | loop head body _ => do
    let (i, start, limit, stride) ← Act.range head
    Act.passes limit stride (fun v => do
      Act.writeNumber head.place.name i (.integer v)
      body.exec run line) start

/-- If the first statement fails, so does the line. -/
theorem exec_of_first_error {s : Script} {h : Halt} (hs : s.first run line m = .error h m') :
    s.exec run line m = .error h m' := by
  induction s generalizing m with
  | done => cases hs
  | broken before error => exact hs
  | step action rest _ => exact Act.bind_error hs _
  | branch c yes no ihYes ihNo =>
    rw [first] at hs
    rw [exec]
    cases hc : Act.truth c m with
    | error e m₁ =>
      rw [Act.bind_error hc] at hs ⊢
      exact hs
    | ok b m₁ =>
      rw [Act.bind_ok hc] at hs ⊢
      cases b with
      | true => exact ihYes hs
      | false => exact ihNo hs
  | loop head body rest _ _ =>
    rw [first] at hs
    rw [exec]
    cases hr : Act.range head m with
    | error e m₁ =>
      rw [Act.bind_error hr] at hs ⊢
      exact hs
    | ok r m₁ =>
      obtain ⟨i, start, limit, stride⟩ := r
      rw [Act.bind_ok hr] at hs ⊢
      exact Act.bind_error hs _

theorem first_broken_ne_ok (before : List Operand) (e : Error) : (broken before e).first run line m ≠ .ok () m' := by
  intro h
  rw [first] at h
  cases hb : Act.check before m with
  | error e m₁ =>
    rw [Act.bind_error hb] at h
    cases h
  | ok u m₁ =>
    rw [Act.bind_ok hb] at h
    cases h

/-- If the first statement succeeds, the line goes on behind it. -/
theorem exec_of_first_ok {s : Script} (hs : s.first run line m = .ok () m') :
    ∃ rest : Script, s.exec run line m = rest.exec run line m' := by
  induction s generalizing m with
  | done => exact ⟨done, hs⟩
  | broken before error => exact absurd hs (first_broken_ne_ok before error)
  | step action rest _ => exact ⟨rest, Act.bind_ok hs _⟩
  | branch c yes no ihYes ihNo =>
    rw [first] at hs
    rw [exec]
    cases hc : Act.truth c m with
    | error e m₁ =>
      rw [Act.bind_error hc] at hs
      cases hs
    | ok b m₁ =>
      rw [Act.bind_ok hc] at hs ⊢
      cases b with
      | true => exact ihYes hs
      | false => exact ihNo hs
  | loop head body rest _ _ =>
    rw [first] at hs
    rw [exec]
    cases hr : Act.range head m with
    | error e m₁ =>
      rw [Act.bind_error hr] at hs
      cases hs
    | ok r m₁ =>
      obtain ⟨i, start, limit, stride⟩ := r
      rw [Act.bind_ok hr] at hs ⊢
      exact ⟨rest, Act.bind_ok hs _⟩

end Script

/-! ### Acts that check first -/

namespace Act

variable {α β : Type} {m m' : Machine}

/-- If the act halts, nothing has changed, though random numbers may have been
drawn. -/
def Careful (x : Act α) : Prop := ∀ ⦃m h m'⦄, x m = .error h m' → ∃ chance, m' = { m with chance }

theorem Looks.careful {x : Act α} (hx : x.Looks) : x.Careful := by
  intro m h m' he
  obtain ⟨chance, ⟨a, ha⟩ | ⟨e, hf⟩⟩ := hx m
  · rw [ha] at he
    cases he
  · rw [hf] at he
    obtain ⟨-, rfl⟩ := EStateM.Result.error.inj he
    exact ⟨chance, rfl⟩

/-- What only looks may come before an act that is careful. -/
theorem Looks.bind_careful {x : Act α} (hx : x.Looks) {g : α → Act β} (hg : ∀ a, (g a).Careful) :
    (x >>= g).Careful := by
  intro m h m' he
  obtain ⟨chance, ⟨a, ha⟩ | ⟨e, hf⟩⟩ := hx m
  · rw [bind_ok ha] at he
    obtain ⟨chance', rfl⟩ := hg a he
    exact ⟨chance', rfl⟩
  · rw [bind_error hf] at he
    obtain ⟨-, rfl⟩ := EStateM.Result.error.inj he
    exact ⟨chance, rfl⟩

theorem truth_looks (e : Expr) : (truth e).Looks := (value_looks e).bind fun v => looks_ofExcept v.truth

theorem check_looks (os : List Operand) : (check os).Looks := by
  induction os with
  | nil => exact looks_pure ()
  | cons o os ih =>
    refine Looks.bind (fun m => ?_) fun _ => ih
    cases h : o.check m.memory m.chance with
    | ok u chance => exact ⟨chance, .inl ⟨u, by rw [evaluate, h]⟩⟩
    | error e chance => exact ⟨chance, .inr ⟨e, by rw [evaluate, h]⟩⟩

theorem looks_inspect (f : Machine → Except Error α) : (inspect f).Looks := fun m => looks_ofExcept (f m) m

theorem looks_fail (e : Error) : (fail e : Act α).Looks := fun m => ⟨m.chance, .inr ⟨e, rfl⟩⟩

theorem careful_control (f : Control → Except Error Control) : (control f).Careful := by
  intro m h m' he
  unfold control at he
  cases hc : f m.control with
  | ok c =>
    rw [hc] at he
    cases he
  | error e =>
    rw [hc] at he
    cases he
    exact ⟨m.chance, rfl⟩

theorem careful_follow (address : Nat) : (follow address).Careful := by
  intro m h m' he
  cases he

theorem careful_callLine (n : Int64) : (callLine n).Careful := by
  intro m h m' he
  rcases callLine_cases n m with ⟨e, hf⟩ | ⟨address, stack, -, -, hok⟩
  · rw [hf] at he
    cases he
    exact ⟨m.chance, rfl⟩
  · rw [hok] at he
    cases he

/-- A loop over lines that is neither entered nor passed over may have written
its counter. -/
theorem startLoop_error {line : Option Int64} {head : LoopHead} {h : Halt}
    (he : startLoop line head m = .error h m') : ∃ memory chance, m' = { m with memory, chance } := by
  obtain ⟨chance, ⟨⟨i, start, limit, step⟩, hr⟩ | ⟨e, hr⟩⟩ := range_looks head m
  · rw [startLoop_eq hr, openLoop] at he
    generalize (⟨head.place.name, i, _, limit, step⟩ : Loop) = l at he
    cases hw : m.memory.write .numeric l.counter l.index (.integer start) with
    | mk r memory =>
      cases r with
      | error e =>
        have hwrite : writeNumber l.counter l.index (.integer start) { m with chance } =
            .error (.failed e) { m with memory, chance } := by rw [writeNumber, Act.memory, hw]
        rw [bind_error hwrite] at he
        cases he
        exact ⟨memory, chance, rfl⟩
      | ok u =>
        rw [bind_ok (writeNumber_ok (m := { m with chance }) hw)] at he
        have hcareful : Careful (if l.admits (.integer start) then control (·.push (.loop l))
            else do follow ((← inspect (·.closing line l.counter)) + 1)) := by
          split
          · exact careful_control _
          · exact Looks.bind_careful (looks_inspect _) fun address => careful_follow _
        obtain ⟨chance', rfl⟩ := hcareful he
        exact ⟨memory, chance', rfl⟩
  · rw [startLoop, bind_error hr] at he
    cases he
    exact ⟨m.memory, chance, rfl⟩

end Act

/-! ### Jumps -/

/-- The tape begins with a jump: `GOTO`, `GOSUB`, `RETURN`, `ON`, or an `IF` on
which a jump depends. Where the statement behind `THEN` is not a line number, it
must be a jump in turn. -/
inductive Tape.Jumps : Tape → Prop
  | verb {v : Verb} (p q : Position) (t : Tape) : v ∈ [.goto, .gosub, .returns, .on] → Jumps (.cons ⟨.verb v, p, q⟩ t)
  | when (p q : Position) {t : Tape} :
      (∀ c p' q' u, Expr.read t = .ok (c, .cons ⟨.keyword .thenDo, p', q'⟩ u) →
        (∀ n, u.peek? ≠ some (.number n)) → Jumps u) →
      Jumps (.cons ⟨.verb .when, p, q⟩ t)

namespace Script

variable {run : Act Unit} {line : Option Int64} {t : Tape}

theorem careful_broken (before : List Operand) (e : Error) : ((broken before e).first run line).Careful :=
  (Act.check_looks before).bind_careful fun _ => (Act.looks_fail e).careful

theorem careful_ofReading {r : Reading Script} (h : ∀ s, r = .ok s → (s.first run line).Careful) :
    ((ofReading r).first run line).Careful := by
  cases r with
  | error b => exact careful_broken b.before b.error
  | ok s => exact h s rfl

theorem careful_skip (t : Tape) : ((skip t).first run line).Careful := by
  induction t with
  | stop p => exact (Act.looks_pure ()).careful
  | broken e => exact careful_broken [] e
  | cons x rest ih => exact ih

/-- A statement with one expression is careful if what it does with its value
is. -/
theorem careful_readOne {action : Expr → Action} (h : ∀ e, ((action e).perform run line).Careful) :
    ((ofReading (readOne read action t)).first run line).Careful := by
  refine careful_ofReading fun s hs => ?_
  obtain ⟨⟨e, u⟩, -, hs⟩ := Reading.bind_eq_ok hs
  obtain rfl := Except.ok.inj hs
  exact h e

theorem careful_goto (e : Expr) : ((Action.goto e).perform run line).Careful :=
  (Act.integer_looks e).bind_careful fun _ => Act.careful_control _

theorem careful_gosub (e : Expr) : ((Action.gosub e).perform run line).Careful :=
  (Act.integer_looks e).bind_careful fun n => Act.careful_callLine n

theorem careful_branch {c : Expr} {yes no : Script} (hyes : (yes.first run line).Careful)
    (hno : (no.first run line).Careful) : ((branch c yes no).first run line).Careful := by
  refine (Act.truth_looks c).bind_careful fun b => ?_
  cases b with
  | true => exact hyes
  | false => exact hno

theorem careful_readThen (h : ∀ p q u, t = .cons ⟨.keyword .thenDo, p, q⟩ u → (∀ n, u.peek? ≠ some (.number n)) →
    ((read u).first run line).Careful) : ((readThen read t).first run line).Careful := by
  have hjump {u : Tape} {s : Script} (hs : readOne read .goto u = .ok s) : (s.first run line).Careful := by
    have hone : ((ofReading (readOne read .goto u)).first run line).Careful := careful_readOne careful_goto
    rw [hs] at hone
    exact hone
  unfold readThen
  refine careful_ofReading fun s hs => ?_
  split at hs
  · obtain ⟨u, -, hs⟩ := Reading.bind_eq_ok hs
    exact hjump hs
  · exact hjump hs
  · next p q rest =>
    obtain ⟨u, hu, hthen⟩ := Reading.bind_eq_ok hs
    obtain ⟨rfl, -⟩ := Tape.ready_eq_ok hu
    split at hthen
    · exact hjump hthen
    · next hnumber =>
      obtain rfl := Except.ok.inj hthen
      exact h p q u rfl hnumber
  · cases hs

/-- A statement is careful if it is so behind its verb. -/
theorem careful_verb {v : Verb} {p q : Position} (h : ((ofReading (readVerb read v t)).first run line).Careful) :
    ((read (.cons ⟨.verb v, p, q⟩ t)).first run line).Careful := by
  rw [read_eq_readStatement, readStatement]
  cases t with
  | broken e => exact careful_broken [] e
  | stop p => exact h
  | cons x rest => exact h

theorem careful_returns : (Action.returns.perform run line).Careful := by
  intro m h m' he
  rw [Action.perform] at he
  rcases Act.returnBack_cases m with ⟨e, hf⟩ | ⟨address, -, hok⟩
  · rw [hf] at he
    cases he
    exact ⟨m.chance, rfl⟩
  · rw [hok] at he
    cases he

theorem careful_readOn : ((ofReading (readOn read t)).first run line).Careful := by
  refine careful_ofReading fun s hs => ?_
  obtain ⟨⟨c, u⟩, -, hs⟩ := Reading.bind_eq_ok hs
  obtain ⟨w, -, hs⟩ := Reading.bind_eq_ok hs
  obtain rfl := Except.ok.inj hs
  exact careful_branch (careful_readOne careful_goto) (careful_skip w)

/-- **A jump is careful.** -/
theorem careful_of_jumps (ht : t.Jumps) : ((read t).first run line).Careful := by
  induction ht with
  | verb p q t hv =>
    simp only [List.mem_cons, List.not_mem_nil, or_false] at hv
    rcases hv with rfl | rfl | rfl | rfl
    · exact careful_verb (careful_readOne careful_goto)
    · exact careful_verb (careful_readOne careful_gosub)
    · exact careful_verb careful_returns
    · exact careful_verb careful_readOn
  | @when p q t _ ih =>
    refine careful_verb (careful_ofReading fun s hs => ?_)
    have hs : readWhen read t = .ok s := hs
    obtain ⟨⟨c, u⟩, hc, hs⟩ := Reading.bind_eq_ok hs
    obtain rfl := Except.ok.inj hs
    refine careful_branch (careful_readThen ?_) (careful_skip u)
    rintro p' q' w rfl hnumber
    exact ih c p' q' w hc hnumber

/-! ### Loops over lines -/

theorem readLoopRest_cases {again : Tape → Script} {head : LoopHead} {s : Script}
    (h : readLoopRest again head t = .ok s) :
    s = .step (.startLoop head) .done ∨ ∃ body rest, s = .loop head body rest := by
  unfold readLoopRest at h
  split at h
  · split at h
    · cases h
    · exact .inr ⟨_, _, (Except.ok.inj h).symm⟩
    · exact .inr ⟨_, _, (Except.ok.inj h).symm⟩
  · exact .inl (Except.ok.inj h).symm
  · cases h

/-- What is read behind `FOR` is a loop over lines or a loop in one line. -/
theorem readLoop_cases {again : Tape → Script} {s : Script} (h : readLoop again t = .ok s) :
    ∃ head, s = .step (.startLoop head) .done ∨ ∃ body rest, s = .loop head body rest := by
  obtain ⟨⟨place, t₁⟩, -, h⟩ := Reading.bind_eq_ok h
  have h := Reading.behind_eq_ok h
  split at h
  · cases h
  obtain ⟨t₂, -, h⟩ := Reading.bind_eq_ok h
  obtain ⟨⟨start, t₃⟩, -, h⟩ := Reading.bind_eq_ok h
  obtain ⟨t₄, -, h⟩ := Reading.bind_eq_ok (Reading.behind_eq_ok h)
  obtain ⟨⟨limit, t₅⟩, -, h⟩ := Reading.bind_eq_ok h
  obtain ⟨o, -, h⟩ := Reading.bind_eq_ok (Reading.behind_eq_ok h)
  cases o with
  | none => exact ⟨_, readLoopRest_cases h⟩
  | some t₆ =>
    obtain ⟨⟨stride, t₇⟩, -, h⟩ := Reading.bind_eq_ok h
    exact ⟨_, readLoopRest_cases (Reading.behind_eq_ok h)⟩

/-- **A loop over lines that fails** has changed nothing but variables. -/
theorem first_loop_error {p q : Position} {m m' : Machine} {h : Halt}
    (hloop : ∀ head body rest, read (.cons ⟨.verb .loop, p, q⟩ t) ≠ .loop head body rest)
    (he : (read (.cons ⟨.verb .loop, p, q⟩ t)).first run line m = .error h m') :
    ∃ memory chance, m' = { m with memory, chance } := by
  -- without a loop in one line there is an error of the line, or the loop over
  -- lines
  by_cases hover : ∃ head, read (.cons ⟨.verb .loop, p, q⟩ t) = .step (.startLoop head) .done
  · obtain ⟨head, hread⟩ := hover
    rw [hread] at he
    exact Act.startLoop_error he
  · have hcareful : ((read (.cons ⟨.verb .loop, p, q⟩ t)).first run line).Careful := by
      rw [read_eq_readStatement] at hover hloop ⊢
      refine careful_ofReading fun s hs => ?_
      have hread : readStatement read (.cons ⟨.verb .loop, p, q⟩ t) = s := congrArg ofReading hs
      obtain ⟨u, -, hu⟩ := Reading.bind_eq_ok hs
      obtain ⟨head, rfl | ⟨body, rest, rfl⟩⟩ := readLoop_cases hu
      · exact absurd ⟨head, hread⟩ hover
      · exact absurd hread (hloop head body rest)
    obtain ⟨chance, rfl⟩ := hcareful he
    exact ⟨m.memory, chance, rfl⟩

/-! ### Calls -/

theorem lineAt?_of_resolve {c : Control} {n : Int64} {address : Nat} (h : c.resolve n = .ok address) :
    c.lineAt? address = some n := by
  unfold Control.resolve at h
  split at h
  case h_1 i hi =>
    obtain rfl := Except.ok.inj h
    exact Control.getElem?_of_search hi
  case h_2 => cases h

/-- **A call that succeeds** records what was to follow, and goes to the line
whose number its expression gives. -/
theorem first_gosub_ok {p q : Position} {m m' : Machine}
    (h : (read (.cons ⟨.verb .gosub, p, q⟩ t)).first run line m = .ok () m') :
    ∃ target rest n chance address stack, Expr.read t = .ok (target, rest) ∧
      Act.integer target m = .ok n { m with chance } ∧ m.control.lineAt? address = some n ∧
      stack.frames = .returnTo m.control.following :: m.control.stack.frames ∧
      m' = { m with chance, control := { m.control with stack, following := address } } := by
  rw [read_eq_readStatement] at h
  obtain ⟨target, rest, s, hread, hs⟩ : ∃ target rest s, Expr.read t = .ok (target, rest) ∧
      readStatement read (.cons ⟨.verb .gosub, p, q⟩ t) = .step (.gosub target) s := by
    cases hr : t.ready >>= readOne read .gosub with
    | error b =>
      have hb : readStatement read (.cons ⟨.verb .gosub, p, q⟩ t) = .broken b.before b.error := congrArg ofReading hr
      rw [hb] at h
      exact absurd h (first_broken_ne_ok b.before b.error)
    | ok s =>
      have hs : readStatement read (.cons ⟨.verb .gosub, p, q⟩ t) = s := congrArg ofReading hr
      obtain ⟨u, hu, hone⟩ := Reading.bind_eq_ok hr
      obtain ⟨rfl, -⟩ := Tape.ready_eq_ok hu
      obtain ⟨⟨target, rest⟩, hread, hstep⟩ := Reading.bind_eq_ok hone
      exact ⟨target, rest, _, hread, hs.trans (Except.ok.inj hstep).symm⟩
  rw [hs, first] at h
  obtain ⟨chance, ⟨n, hn⟩ | ⟨e, he⟩⟩ := Act.integer_looks target m
  · have hcall : Act.callLine n { m with chance } = .ok () m' := (Act.bind_ok hn _).symm.trans h
    rcases Act.callLine_cases n { m with chance } with ⟨e, hf⟩ | ⟨address, stack, hresolve, hpush, hok⟩
    · rw [hf] at hcall
      cases hcall
    · rw [hok] at hcall
      obtain ⟨-, rfl⟩ := EStateM.Result.ok.inj hcall
      exact ⟨target, rest, n, chance, address, stack, hread, hn, lineAt?_of_resolve hresolve,
        Stack.frames_of_push hpush, rfl⟩
  · have hfail : (Action.gosub target).perform run line m = .error (.failed e) { m with chance } := Act.bind_error he _
    rw [hfail] at h
    cases h

/-- **Control statements check first.** A jump that fails leaves all as it was
but for random numbers drawn, and a `FOR` that is no loop in one line leaves all
as it was but for these and the variables; the line fails with it. A `GOSUB`
that succeeds changes the frames and what follows: the frame pushed is what was
to follow before, and what follows is a place where the table holds the number
that was asked for. -/
theorem control_checks_first (run : Act Unit) (line : Option Int64) (m m' : Machine) :
    (∀ t h, t.Jumps → (read t).first run line m = .error h m' →
      (read t).exec run line m = .error h m' ∧ ∃ chance, m' = { m with chance }) ∧
    (∀ t h p q, (∀ head body rest, read (.cons ⟨.verb .loop, p, q⟩ t) ≠ .loop head body rest) →
      (read (.cons ⟨.verb .loop, p, q⟩ t)).first run line m = .error h m' →
      (read (.cons ⟨.verb .loop, p, q⟩ t)).exec run line m = .error h m' ∧
        ∃ memory chance, m' = { m with memory, chance }) ∧
    ∀ t p q, (read (.cons ⟨.verb .gosub, p, q⟩ t)).first run line m = .ok () m' →
      (∃ rest : Script, (read (.cons ⟨.verb .gosub, p, q⟩ t)).exec run line m = rest.exec run line m') ∧
        ∃ target rest n chance address stack, Expr.read t = .ok (target, rest) ∧
          Act.integer target m = .ok n { m with chance } ∧ m.control.lineAt? address = some n ∧
          stack.frames = .returnTo m.control.following :: m.control.stack.frames ∧
          m' = { m with chance, control := { m.control with stack, following := address } } := by
  refine ⟨?_, ?_, ?_⟩
  · intro t h ht hfirst
    exact ⟨exec_of_first_error hfirst, careful_of_jumps ht hfirst⟩
  · intro t h p q hloop hfirst
    exact ⟨exec_of_first_error hfirst, first_loop_error hloop hfirst⟩
  · intro t p q hfirst
    exact ⟨exec_of_first_ok hfirst, first_gosub_ok hfirst⟩

-- An `IF` that jumps to a missing line, a loop without `NEXT`, and a call.
theorem control_checks_first_each :
    let z := Position.start
    let m : Machine := { control := { table := #[10, 20, 30] } }
    let jump : Tape := .ofList z [⟨.verb .when, z, z⟩, ⟨.number 1, z, z⟩, ⟨.keyword .thenDo, z, z⟩, ⟨.number 99, z, z⟩]
    let range : Tape := .ofList z
      [⟨.name "I", z, z⟩, ⟨.equal, z, z⟩, ⟨.number 5, z, z⟩, ⟨.keyword .upTo, z, z⟩, ⟨.number 1, z, z⟩]
    (∃ chance, (read jump).exec (pure ()) none m = .error (.failed (.undefinedLine 99)) { m with chance }) ∧
    (∃ memory chance, (read (.cons ⟨.verb .loop, z, z⟩ range)).exec (pure ()) none m =
      .error (.failed (.forWithoutNext "I")) { m with memory, chance }) ∧
    ∃ chance address stack, m.control.lineAt? address = some 30 ∧ stack.frames = [.returnTo 1] ∧
      (read (.cons ⟨.verb .gosub, z, z⟩ (.ofList z [⟨.number 30, z, z⟩]))).first (pure ()) none m =
        .ok () { m with chance, control := { m.control with stack, following := address } } := by
  intro z m jump range
  have hjump : jump.Jumps := by
    refine .when z z ?_
    intro c p q u hu hnumber
    obtain ⟨-, hu⟩ := Prod.mk.inj (Except.ok.inj hu)
    cases hu
    exact absurd rfl (hnumber 99)
  have hloop (head : LoopHead) (body rest : Script) :
      read (.cons ⟨.verb .loop, z, z⟩ range) ≠ .loop head body rest := by
    intro h
    cases h
  refine ⟨?_, ?_, ?_⟩
  · obtain ⟨m', hfirst⟩ := Act.exists_error_of_halt? (x := (read jump).first (pure ()) none) (m := m)
      (h := .failed (.undefinedLine 99)) (by decide +kernel)
    obtain ⟨hexec, chance, rfl⟩ := (control_checks_first (pure ()) none m m').1 jump _ hjump hfirst
    exact ⟨chance, hexec⟩
  · obtain ⟨m', hfirst⟩ := Act.exists_error_of_halt? (m := m) (h := .failed (.forWithoutNext "I"))
      (x := (read (.cons ⟨.verb .loop, z, z⟩ range)).first (pure ()) none) (by decide +kernel)
    obtain ⟨hexec, memory, chance, rfl⟩ := (control_checks_first (pure ()) none m m').2.1 range _ z z hloop hfirst
    exact ⟨memory, chance, hexec⟩
  · obtain ⟨m', hfirst⟩ := Act.exists_ok_of_halt? (m := m)
      (x := (read (.cons ⟨.verb .gosub, z, z⟩ (.ofList z [⟨.number 30, z, z⟩]))).first (pure ()) none)
      (by decide +kernel)
    obtain ⟨-, target, rest, n, chance, address, stack, ht, hn, hline, hframes, rfl⟩ :=
      (control_checks_first (pure ()) none m m').2.2 _ z z hfirst
    obtain ⟨rfl, -⟩ := Prod.mk.inj (Except.ok.inj ht)
    obtain ⟨rfl, -⟩ := EStateM.Result.ok.inj hn
    exact ⟨chance, address, stack, hline, hframes, hfirst⟩

end Script

end LineBasic
