import LineBasic.Proofs.Machine.Effect

/-!
# A machine at work, step by step

What a machine does is told here once more, in single steps and without a limit
to the lines of a run. An agenda lists what is left to do: the rest of a line,
the loops in it that are under way, the end of a program line, the runs. A step
takes up the first task. It may put others in its place, or it halts, and then
tasks are dropped until one of them deals with the halt. The runs under way are
counted.

Both ways to tell it agree: an act of the machine ends where its steps end. If
it halts for lack of lines granted, it leaves the machine as it is somewhere on
the way.

* `Task`, `Config`: what is left to do, and a machine at work.
* `Config.next`: a single step.
* `Config.Ends`: the steps come to the end that an act comes to.
* `Call.ends_act`: what the user asks of a machine ends where its steps end.
-/

namespace LineBasic

/-- What a user can ask of a machine. -/
inductive Call where
  | enter (text : String)
  | execute (text : String)
  | run
  /-- The current line of the program. -/
  | step
  | reset
  | new

/-- What the machine does when asked. -/
def Call.act (run : Act Unit) : Call → Act Unit
  | enter text => Machine.enter run text
  | execute text => Machine.execute run text
  | .run => run
  | step => do
    let _ ← Machine.step run
  | reset => Machine.reset
  | new => modify Machine.renew

/-- The machine as it is when the current line is taken up: the line behind it
follows. -/
def Machine.fetched (m : Machine) : Machine :=
  { m with control := { m.control with following := m.control.address + 1 } }

theorem Machine.fetch_eq_none {m : Machine} (h : m.control.lineAt? m.control.address = none) :
    m.control.fetch = none := by
  rw [Control.fetch, h]
  rfl

theorem Machine.fetch_eq_some {m : Machine} {n : Int64} (h : m.control.lineAt? m.control.address = some n) :
    m.control.fetch = some (n, m.fetched.control) := by
  rw [Control.fetch, h]
  rfl

/-- What is left to do. -/
inductive Task where
  | call (c : Call)
  /-- The rest of a line, in a program or outside of any. -/
  | script (line : Option Int64) (s : Script)
  /-- A loop in a line, from a value of its counter on. -/
  | passes (line : Option Int64) (counter : String) (index limit : Int64) (step : Stride) (body : Script)
      (value : Int64)
  /-- The end of the program line `n`. -/
  | lineEnd (n : Int64)
  | startRun
  /-- Another line in a run. -/
  | running
  /-- Behind a line in a run. -/
  | ran
  | endRun
  /-- Behind a line that the user entered. -/
  | entered

namespace Task

/-- The task is more than the start or the end of a run. -/
def IsWork : Task → Prop
  | startRun | endRun => False
  | _ => True

/-- Takes up the text of the program line `n`. -/
def openLine (n : Int64) : Act (List Task) := do
  match (← get).listing.find? n with
  | none => Act.fail (.lineVanished n)
  | some text => return [script (some n) (Script.read (Tape.ofStatements text)), lineEnd n]

/-- Takes up the current line of the program. -/
def takeLine : Act (List Task) := do
  match (← get).control.fetch with
  | none => return []
  | some (n, control) =>
    modify ({ · with control })
    openLine n

section TakeLine

variable {m : Machine} {n : Int64}

theorem takeLine_of_none (h : m.control.lineAt? m.control.address = none) : takeLine m = .ok [] m := by
  rw [takeLine, Act.get_bind, Machine.fetch_eq_none h]
  rfl

theorem takeLine_of_some (h : m.control.lineAt? m.control.address = some n) :
    takeLine m = openLine n m.fetched := by
  rw [takeLine, Act.get_bind, Machine.fetch_eq_some h]
  rfl

theorem openLine_of_none (h : m.listing.find? n = none) : openLine n m = .error (.failed (.lineVanished n)) m := by
  rw [openLine, Act.get_bind, h]
  rfl

theorem openLine_of_some {text : String} (h : m.listing.find? n = some text) :
    openLine n m = .ok [script (some n) (Script.read (Tape.ofStatements text)), lineEnd n] m := by
  rw [openLine, Act.get_bind, h]
  rfl

/-- A line that cannot be taken up has vanished. -/
theorem exists_lineVanished {m' : Machine} {e : Halt} (h : takeLine m = .error e m') :
    ∃ n, e = .failed (.lineVanished n) := by
  cases hline : m.control.lineAt? m.control.address with
  | none =>
    rw [takeLine_of_none hline] at h
    cases h
  | some n =>
    rw [takeLine_of_some hline] at h
    cases hfind : m.fetched.listing.find? n with
    | none =>
      rw [openLine_of_none hfind] at h
      cases h
      exact ⟨n, rfl⟩
    | some text =>
      rw [openLine_of_some hfind] at h
      cases h

end TakeLine

/-- The script of a text that is executed. -/
def ofText (text : String) : Task :=
  match Tape.ofLine text with
  | .cons ⟨.lineNumber n, _, _⟩ rest => script (some n) (Script.read rest)
  | t => script none (Script.read t)

/-- Takes up the first statement of a script. -/
def stepScript (line : Option Int64) : Script → Act (List Task)
  | .done => return []
  | .broken before e => do
    Act.check before
    Act.fail e
    return []
  | .step .run rest => do
    Machine.reset
    return [startRun, script line rest]
  | .step .resume rest => do
    if (← get).control.inRange then return [startRun, script line rest] else Act.fail .cantContinue
  | .step action rest => do
    action.perform (pure ()) line
    return [script line rest]
  | .branch condition yes no => return [script line (if ← Act.truth condition then yes else no)]
  | .loop head body rest => do
    let (i, start, limit, stride) ← Act.range head
    return [passes line head.place.name i limit stride body start, script line rest]

theorem stepScript_step {action : Action} (line : Option Int64) (rest : Script) (hr : action ≠ .run)
    (hc : action ≠ .resume) :
    stepScript line (.step action rest) = (do
      action.perform (pure ()) line
      return [script line rest]) := by
  cases action with
  | run => exact absurd rfl hr
  | resume => exact absurd rfl hc
  | _ => rfl

/-- Takes up a task. The result is what is to be done in its place. The start
and the end of a run only count, which is not said here. -/
def step : Task → Act (List Task)
  | call (.enter text) =>
    if isVacant text then return []
    else
      match Tape.ofLine text with
      | .broken e => Act.fail e
      | .cons ⟨.lineNumber _, _, _⟩ _ => do
        Machine.edit text
        return []
      | _ => return [call (.execute text), entered]
  | call (.execute text) => return [ofText text]
  | call .run => return [startRun]
  | call .step => takeLine
  | call .reset => do
    Machine.reset
    return []
  | call .new => do
    modify Machine.renew
    return []
  | script line s => stepScript line s
  | passes line counter index limit stride body v =>
    if Loop.within limit stride (.integer v) then do
      Act.writeNumber counter index (.integer v)
      return script line body
        :: (stride.next? v).toList.map (passes line counter index limit stride body ·)
    else return []
  | lineEnd _ => do
    Machine.advance
    return []
  | running => do
    if (← get).control.inRange then
      Machine.checkBreak
      return (← takeLine) ++ [ran]
    else
      Act.printLine "DONE."
      return []
  | ran => do
    if (← get).control.trace then
      Act.printLine "DONE."
      return []
    else return [running]
  | startRun | endRun | entered => return []

/-- Drops a task because of a halt. Some tasks take note of it. -/
def unwind (h : Halt) : Task → Act (List Task)
  | lineEnd n =>
    match h with
    | .finished => do
      Machine.advance
      throw .finished
    | h => throw (h.inLine n)
  | ran =>
    match h with
    | .finished => do
      Act.printLine "DONE."
      return []
    | h => throw h
  | entered =>
    match h with
    | .finished => return []
    | h => throw h
  | _ => throw h

end Task

/-- A machine at work. -/
structure Config where
  machine : Machine
  /-- How many runs are under way. -/
  depth : Nat
  /-- What is left to do, first things first. -/
  agenda : List Task
  /-- Why work stopped, until a task deals with it. -/
  halt : Option Halt

namespace Config

/-- What comes of a step. -/
def settle (depth : Nat) (rest : List Task) : EStateM.Result Halt Machine (List Task) → Config
  | .ok tasks m => ⟨m, depth, tasks ++ rest, none⟩
  | .error h m => ⟨m, depth, rest, some h⟩

/-- **A single step.** There is none if nothing is left to do. -/
def next (c : Config) : Option Config :=
  match c.agenda, c.halt with
  | [], _ => none
  | .startRun :: rest, none =>
    if c.depth < Machine.runDepth then
      some { c with depth := c.depth + 1, agenda := .running :: .endRun :: rest }
    else some { c with agenda := rest, halt := some (.failed .nestedTooDeep) }
  | .endRun :: rest, _ => some { c with depth := c.depth - 1, agenda := rest }
  | task :: rest, none => some (settle c.depth rest (task.step c.machine))
  | task :: rest, some h => some (settle c.depth rest (task.unwind h c.machine))

/-- Some steps lead from one to the other. -/
def Reaches : Config → Config → Prop := Relation.ReflTransGen fun c c' => c.next = some c'

/-- The steps come to the end that the result tells of, with `rest` still to do.
If lines were granted and used up, the machine is one on the way. -/
def Ends {α : Type} (c : Config) (rest : List Task) : EStateM.Result Halt Machine α → Prop
  | .ok _ m => c.Reaches ⟨m, c.depth, rest, none⟩
  | .error h m => c.Reaches ⟨m, c.depth, rest, some h⟩ ∨ h = .exhausted ∧ ∃ c', c.Reaches c' ∧ c'.machine = m

section Ends

variable {α β : Type} {c c' : Config} {rest : List Task} {t : Task} {m : Machine} {d : Nat}

/-- What ends behind some steps ends. -/
theorem Ends.of_reaches {r : EStateM.Result Halt Machine α} (h : c.Reaches c') (hd : c'.depth = c.depth)
    (he : c'.Ends rest r) : c.Ends rest r := by
  cases r with
  | ok a m => exact h.trans (hd ▸ he)
  | error halt m =>
    rcases he with he | ⟨hx, c'', hc, hm⟩
    · exact .inl (h.trans (hd ▸ he))
    · exact .inr ⟨hx, c'', h.trans hc, hm⟩

/-- One task more is taken up, whether the end was a good one or a halt. -/
theorem Ends.behind {r : EStateM.Result Halt Machine α} {r' : EStateM.Result Halt Machine β}
    (h : c.Ends (t :: rest) r) (hok : ∀ a m, r = .ok a m → Ends ⟨m, c.depth, t :: rest, none⟩ rest r')
    (herr : ∀ e m, r = .error e m → e ≠ .exhausted → Ends ⟨m, c.depth, t :: rest, some e⟩ rest r')
    (hex : ∀ m, r = .error .exhausted m → r' = .error .exhausted m) : c.Ends rest r' := by
  cases r with
  | ok a m => exact (hok a m rfl).of_reaches h rfl
  | error e m =>
    by_cases he : e = .exhausted
    · subst he
      rw [hex m rfl]
      rcases h with h | h
      · exact .inr ⟨rfl, _, h, rfl⟩
      · exact .inr h
    · rcases h with h | ⟨h, -⟩
      · exact (herr e m rfl he).of_reaches h rfl
      · exact absurd h he

end Ends

end Config

/-- An act that halts keeps what was to follow from being done. -/
theorem Act.bind_error {α β : Type} {x : Act α} {h : Halt} {m m' : Machine} (hx : x m = .error h m')
    (f : α → Act β) : (x >>= f) m = .error h m' := by
  show EStateM.bind x f m = _
  rw [EStateM.bind, hx]

theorem Act.tryCatch_ok {α : Type} {x : Act α} {a : α} {m m' : Machine} (hx : x m = .ok a m')
    (g : Halt → Act α) : tryCatch x g m = .ok a m' := by
  show EStateM.tryCatch x g m = _
  rw [EStateM.tryCatch, hx]

theorem Act.tryCatch_error {α : Type} {x : Act α} {h : Halt} {m m' : Machine} (hx : x m = .error h m')
    (g : Halt → Act α) : tryCatch x g m = g h m' := by
  show EStateM.tryCatch x g m = _
  rw [EStateM.tryCatch, hx]
  rfl

theorem Act.tryCatch_bind_error {α β : Type} {x : Act α} {h : Halt} {m m' : Machine} (hx : x m = .error h m')
    (g : Halt → Act α) (f : α → Act β) : (tryCatch x g >>= f) m = (g h >>= f) m' := by
  show EStateM.bind (EStateM.tryCatch x g) f m = EStateM.bind (g h) f m'
  unfold EStateM.bind EStateM.tryCatch
  rw [hx]
  rfl

/-! ### Tasks and acts -/

namespace Task

open Config (Ends)

variable {α β γ : Type} {d : Nat}

/-- The tasks do what the act does. -/
def Reflects (d : Nat) (ts : List Task) (y : Act α) : Prop :=
  ∀ m rest, Ends ⟨m, d, ts ++ rest, none⟩ rest (y m)

/-- The tasks of the first result come to the end that the second one tells
of. -/
def Opens (d : Nat) (r : EStateM.Result Halt Machine (List Task)) (r' : EStateM.Result Halt Machine α) : Prop :=
  match r with
  | .ok ts m => ∀ rest, Ends ⟨m, d, ts ++ rest, none⟩ rest r'
  | .error h m => r' = .error h m

/-- To do the first act and then the tasks it results in is to do the second
one. -/
def Unfolds (d : Nat) (x : Act (List Task)) (y : Act α) : Prop := ∀ m, Opens d (x m) (y m)

theorem unfolds_pure {ts : List Task} {y : Act α} (h : Reflects d ts y) : Unfolds d (pure ts) y :=
  fun m rest => h m rest

theorem unfolds_throw (h : Halt) : Unfolds d (throw h) (throw h : Act α) := fun _ => rfl

theorem unfolds_fail (e : Error) : Unfolds d (Act.fail e) (Act.fail e : Act α) := fun _ => rfl

theorem unfolds_bind {x : Act α} {g : α → Act (List Task)} {f : α → Act β} (h : ∀ a, Unfolds d (g a) (f a)) :
    Unfolds d (x >>= g) (x >>= f) := by
  intro m
  cases hx : x m with
  | ok a m' =>
    rw [Act.bind_ok hx, Act.bind_ok hx]
    exact h a m'
  | error e m' =>
    rw [Act.bind_error hx, Act.bind_error hx]
    rfl

/-- An act with nothing to do behind it. -/
theorem unfolds_alone (y : Act Unit) : Unfolds d (y >>= fun _ => pure []) y := by
  have h : Unfolds d (y >>= fun _ => pure []) (y >>= fun _ => pure ()) :=
    unfolds_bind fun _ => unfolds_pure fun m rest => .refl
  rwa [bind_pure_unit] at h

/-- The value of a result makes no difference. -/
theorem Unfolds.discard {x : Act (List Task)} {y : Act α} (h : Unfolds d x y) :
    Unfolds d x (do let _ ← y) := by
  intro m
  have hm := h m
  cases hy : y m with
  | ok a m' =>
    rw [Act.bind_ok hy]
    rw [hy] at hm
    generalize x m = r at hm
    cases r with
    | ok ts m'' => exact hm
    | error e m'' => cases hm
  | error e m' =>
    rw [Act.bind_error hy]
    rw [hy] at hm
    generalize x m = r at hm
    cases r with
    | ok ts m'' => exact hm
    | error e' m'' =>
      cases hm
      rfl

theorem Opens.ends {m : Machine} {t : Task} {r : EStateM.Result Halt Machine α} (h : Opens d (t.step m) r)
    (ht : t.IsWork) (rest : List Task) : Ends ⟨m, d, t :: rest, none⟩ rest r := by
  have hnext : Config.next ⟨m, d, t :: rest, none⟩ = some (Config.settle d rest (t.step m)) := by
    cases t with
    | startRun => exact ht.elim
    | endRun => exact ht.elim
    | _ => rfl
  generalize t.step m = r' at hnext h
  cases r' with
  | ok ts m' => exact (h rest).of_reaches (.single hnext) rfl
  | error e m' =>
    rw [show r = .error e m' from h]
    exact .inl (.single hnext)

theorem Unfolds.reflects {t : Task} {y : Act α} (h : Unfolds d t.step y) (ht : t.IsWork) : Reflects d [t] y :=
  fun m rest => (h m).ends ht rest

/-- A task that is dropped. -/
theorem Opens.ends_unwind {m : Machine} {t : Task} {e : Halt} {r : EStateM.Result Halt Machine α}
    (h : Opens d (t.unwind e m) r) (ht : t.IsWork) (rest : List Task) :
    Ends ⟨m, d, t :: rest, some e⟩ rest r := by
  have hnext : Config.next ⟨m, d, t :: rest, some e⟩ = some (Config.settle d rest (t.unwind e m)) := by
    cases t with
    | endRun => exact ht.elim
    | _ => rfl
  generalize t.unwind e m = r' at hnext h
  cases r' with
  | ok ts m' => exact (h rest).of_reaches (.single hnext) rfl
  | error e' m' =>
    rw [show r = .error e' m' from h]
    exact .inl (.single hnext)

/-- Tasks, and one behind them that takes no note of a halt. -/
theorem Reflects.seq {ts : List Task} {x : Act α} (hx : Reflects d ts x) (t : Task)
    (ht : t.IsWork) (hu : ∀ e, t.unwind e = throw e) {f : α → Act β} (hf : ∀ a, Reflects d [t] (f a)) :
    Reflects d (ts ++ [t]) (x >>= f) := by
  intro m rest
  rw [List.append_assoc]
  refine (hx m ([t] ++ rest)).behind ?_ ?_ ?_
  · intro a m' hm
    rw [Act.bind_ok hm]
    exact hf a m' rest
  · intro e m' hm _
    rw [Act.bind_error hm]
    refine Opens.ends_unwind ?_ ht rest
    rw [hu]
    exact unfolds_throw e m'
  · intro m' hm
    exact Act.bind_error hm f

/-- Tasks, and one behind them that deals with a halt. -/
theorem Reflects.tryCatch {ts : List Task} {x : Act α} (hx : Reflects d ts x) (t : Task) (ht : t.IsWork)
    {f : α → Act β} (hf : ∀ a, Reflects d [t] (f a)) {g : Halt → Act α}
    (hg : ∀ e, Unfolds d (t.unwind e) (g e >>= f)) (hex : g .exhausted = throw .exhausted) :
    Reflects d (ts ++ [t]) (tryCatch x g >>= f) := by
  intro m rest
  rw [List.append_assoc]
  refine (hx m ([t] ++ rest)).behind ?_ ?_ ?_
  · intro a m' hm
    rw [Act.bind_ok (Act.tryCatch_ok hm g)]
    exact hf a m' rest
  · intro e m' hm _
    rw [Act.tryCatch_bind_error hm]
    exact (hg e m').ends_unwind ht rest
  · intro m' hm
    rw [Act.tryCatch_bind_error hm, hex]
    rfl

/-! ### Lines -/

/-- A loop in a line. A pass leaves less room, and the measure is that room. -/
theorem reflects_passes {line : Option Int64} {body : Script} {y : Act Unit} (hbody : Reflects d [script line body] y)
    (counter : String) (i limit : Int64) (step : Stride) (v : Int64) :
    Reflects d [passes line counter i limit step body v]
      (Act.passes limit step (fun v => do
        Act.writeNumber counter i (.integer v)
        y) v) := by
  refine Unfolds.reflects ?_ trivial
  rw [Act.passes, Task.step]
  split
  · rw [bind_assoc]
    refine unfolds_bind fun _ => unfolds_pure ?_
    split
    case h_1 w hw =>
      have := Stride.room_lt_of_next? hw
      have hlist : (step.next? v).toList.map (passes line counter i limit step body ·) =
          [passes line counter i limit step body w] := by rw [hw]; rfl
      rw [hlist]
      exact hbody.seq (passes line counter i limit step body w) trivial (fun _ => rfl)
        fun _ => reflects_passes hbody counter i limit step w
    case h_2 hw =>
      rw [hw, bind_pure_unit]
      exact hbody
  · exact unfolds_pure fun m rest => .refl
termination_by step.room v

section Lines

variable {run : Act Unit} (hrun : Reflects d [startRun] run)

include hrun

/-- **The rest of a line does what its script does.** -/
theorem reflects_exec (line : Option Int64) (s : Script) : Reflects d [script line s] (s.exec run line) := by
  induction s with
  | done => exact Unfolds.reflects (unfolds_pure fun m rest => .refl) trivial
  | broken before e =>
    refine Unfolds.reflects ?_ trivial
    exact unfolds_bind fun _ => unfolds_fail e
  | step action rest ih =>
    refine Unfolds.reflects ?_ trivial
    have behind : Reflects d [startRun, script line rest] (run >>= fun _ => rest.exec run line) :=
      hrun.seq (script line rest) trivial (fun _ => rfl) fun _ => ih
    rw [Script.exec]
    by_cases hr : action = .run
    · subst hr
      rw [Action.perform, bind_assoc]
      exact unfolds_bind fun _ => unfolds_pure behind
    by_cases hc : action = .resume
    · subst hc
      rw [Action.perform, bind_assoc]
      refine unfolds_bind fun m => ?_
      split
      · exact unfolds_pure behind
      · exact unfolds_fail .cantContinue
    · rw [Task.step, stepScript_step line rest hr hc, action.perform_congr run (pure ()) line hr hc]
      exact unfolds_bind fun _ => unfolds_pure ih
  | branch condition yes no hyes hno =>
    refine Unfolds.reflects ?_ trivial
    rw [Script.exec]
    refine unfolds_bind fun b => unfolds_pure ?_
    cases b with
    | true => exact hyes
    | false => exact hno
  | loop head body rest hbody hrest =>
    refine Unfolds.reflects ?_ trivial
    rw [Script.exec]
    refine unfolds_bind fun r => unfolds_pure ?_
    obtain ⟨i, start, limit, stride⟩ := r
    exact (reflects_passes hbody head.place.name i limit stride start).seq (script line rest) trivial (fun _ => rfl)
      fun _ => hrest

/-- The current line of the program. -/
theorem unfolds_takeLine : Unfolds d takeLine (Machine.step run) := by
  refine unfolds_bind fun m => ?_
  cases m.control.fetch with
  | none => exact unfolds_pure fun m rest => .refl
  | some x =>
    obtain ⟨n, control⟩ := x
    refine unfolds_bind fun _ => unfolds_bind fun m => ?_
    cases m.listing.find? n with
    | none => exact unfolds_fail (.lineVanished n)
    | some text =>
      refine unfolds_pure ?_
      unfold Machine.asLine
      refine (reflects_exec hrun (some n) _).tryCatch (lineEnd n) trivial (fun _ => ?_) (fun e => ?_) rfl
      · exact Unfolds.reflects (unfolds_bind fun _ => unfolds_pure fun m rest => .refl) trivial
      · cases e with
        | finished =>
          rw [bind_assoc]
          exact unfolds_bind fun _ => unfolds_throw .finished
        | _ => exact unfolds_throw _

/-- A text that is executed. -/
theorem reflects_execute (text : String) : Reflects d [call (.execute text)] (Machine.execute run text) := by
  refine Unfolds.reflects (unfolds_pure ?_) trivial
  unfold ofText Machine.execute
  cases Tape.ofLine text with
  | stop p => exact reflects_exec hrun none _
  | broken e => exact reflects_exec hrun none _
  | cons x rest =>
    obtain ⟨token, p, q⟩ := x
    cases token with
    | lineNumber n => exact reflects_exec hrun (some n) _
    | _ => exact reflects_exec hrun none _

/-- A line that is entered. -/
theorem reflects_enter (text : String) : Reflects d [call (.enter text)] (Machine.enter run text) := by
  refine Unfolds.reflects ?_ trivial
  unfold Machine.enter
  rw [Task.step]
  have executed : Reflects d [call (.execute text), entered]
      (tryCatch (Machine.execute run text) fun
        | .finished => pure ()
        | h => throw h) := by
    rw [← bind_pure_unit (x := tryCatch (Machine.execute run text) _)]
    refine (reflects_execute hrun text).tryCatch entered trivial (fun _ => ?_) (fun e => ?_) rfl
    · exact Unfolds.reflects (unfolds_pure fun m rest => .refl) trivial
    · cases e with
      | finished => exact unfolds_pure fun m rest => .refl
      | _ => exact unfolds_throw _
  split
  · exact unfolds_pure fun m rest => .refl
  · cases Tape.ofLine text with
    | stop p => exact unfolds_pure executed
    | broken e => exact unfolds_fail e
    | cons x rest =>
      obtain ⟨token, p, q⟩ := x
      cases token with
      | lineNumber n => exact unfolds_alone (Machine.edit text)
      | _ => exact unfolds_pure executed

end Lines

/-! ### Runs -/

section Runs

variable {nested : Act Unit} (hnested : Reflects d [startRun] nested)

include hnested

/-- A line in a run, and what follows it: the next line, or the end behind `END`
or if tracing is on. -/
theorem unfolds_line {y : Act Unit} (hy : Reflects d [running] y) :
    Unfolds d (takeLine >>= fun ts => pure (ts ++ [ran]))
      ((tryCatch (do
          let _ ← Machine.step nested
          pure !(← get).control.trace) fun
        | .finished => pure false
        | h => throw h) >>= fun go => if go then y else Act.printLine "DONE.") := by
  intro m
  have htake := unfolds_takeLine hnested m
  cases hm : takeLine m with
  | error e m' =>
    obtain ⟨n, rfl⟩ := exists_lineVanished hm
    rw [hm] at htake
    rw [Act.bind_error hm, Act.tryCatch_bind_error (Act.bind_error htake _)]
    rfl
  | ok ts m' =>
    rw [hm] at htake
    rw [Act.bind_ok hm]
    intro rest
    rw [List.append_assoc]
    refine (htake (ran :: rest)).behind ?_ ?_ ?_
    · intro a m'' hstep
      refine Opens.ends (t := ran) ?_ trivial rest
      rw [Act.bind_ok (Act.tryCatch_ok (a := !m''.control.trace) ((Act.bind_ok hstep _).trans rfl) _)]
      show Opens d ((if m''.control.trace then _ else _ : Act (List Task)) m'') _
      cases m''.control.trace with
      | true => exact unfolds_alone _ m''
      | false => exact unfolds_pure hy m''
    · intro e m'' hstep _
      refine Opens.ends_unwind (t := ran) ?_ trivial rest
      rw [Act.tryCatch_bind_error (Act.bind_error hstep _)]
      cases e with
      | finished => exact unfolds_alone _ m''
      | _ => exact unfolds_throw _ m''
    · intro m'' hstep
      rw [Act.tryCatch_bind_error (Act.bind_error hstep _)]
      rfl

theorem reflects_runLines (budget : Nat) : Reflects d [running] (Machine.runLines nested budget) := by
  have out (m : Machine) (hm : ¬ m.control.inRange) :
      Opens d (Task.running.step m) (Act.printLine "DONE." m) := by
    have hstep : Task.running.step m = (Act.printLine "DONE." >>= fun _ => pure []) m := by
      show (if m.control.inRange then _ else _ : Act (List Task)) m = _
      rw [if_neg hm]
    rw [hstep]
    exact unfolds_alone _ m
  induction budget with
  | zero =>
    intro m rest
    by_cases hm : m.control.inRange
    · -- no lines are granted any more
      have hout : Machine.runLines nested 0 m = .error .exhausted m := by
        show (if m.control.inRange then throw .exhausted else _ : Act Unit) m = _
        rw [if_pos hm]
        rfl
      rw [hout]
      exact .inr ⟨rfl, _, .refl, rfl⟩
    · have hout : Machine.runLines nested 0 m = Act.printLine "DONE." m := by
        show (if m.control.inRange then _ else Act.printLine "DONE." : Act Unit) m = _
        rw [if_neg hm]
      rw [hout]
      exact (out m hm).ends trivial rest
  | succ budget ih =>
    refine Unfolds.reflects ?_ trivial
    rw [Machine.runLines, Task.step]
    refine unfolds_bind fun m => ?_
    split
    · rw [Machine.advanceRun, bind_assoc]
      exact unfolds_bind fun _ => unfolds_line hnested ih
    · exact unfolds_alone _

end Runs

/-- **A run does what its steps do**, at any depth: as many runs can be nested
in it as the depth leaves. -/
theorem reflects_run (budget : Nat) {k : Nat} (hd : d + k = Machine.runDepth) :
    Reflects d [startRun] (Machine.runNested budget k) := by
  induction k generalizing d with
  | zero =>
    intro m rest
    have hnext : Config.next ⟨m, d, startRun :: rest, none⟩ = some ⟨m, d, rest, some (.failed .nestedTooDeep)⟩ :=
      if_neg (show ¬ d < Machine.runDepth by omega)
    exact .inl (.single hnext)
  | succ k ih =>
    intro m rest
    have hstart : Config.Reaches ⟨m, d, startRun :: rest, none⟩ ⟨m, d + 1, running :: endRun :: rest, none⟩ :=
      .single (if_pos (show d < Machine.runDepth by omega))
    -- behind its last line the run is no longer counted
    have hback (m : Machine) (h : Option Halt) :
        Config.Reaches ⟨m, d + 1, endRun :: rest, h⟩ ⟨m, d, rest, h⟩ := .single (by cases h <;> rfl)
    have hlines := reflects_runLines (ih (d := d + 1) (by omega)) budget m (endRun :: rest)
    rw [Machine.runNested]
    generalize Machine.runLines _ budget m = r at hlines
    cases r with
    | ok a m' => exact (hstart.trans hlines).trans (hback m' none)
    | error h m' =>
      rcases hlines with hlines | ⟨hx, c, hc, hm⟩
      · exact .inl ((hstart.trans hlines).trans (hback m' (some h)))
      · exact .inr ⟨hx, c, hstart.trans hc, hm⟩

end Task

/-- **What the user asks of a machine ends where its steps end.** -/
theorem Call.ends_act (c : Call) (budget : Nat) (m : Machine) :
    Config.Ends ⟨m, 0, [.call c], none⟩ [] (c.act (Machine.run budget) m) := by
  have hrun : Task.Reflects 0 [.startRun] (Machine.run budget) := Task.reflects_run budget rfl
  have ends {y : Act Unit} (h : Task.Reflects 0 [.call c] y) : Config.Ends ⟨m, 0, [.call c], none⟩ [] (y m) := h m []
  cases c with
  | enter text => exact ends (Task.reflects_enter hrun text)
  | execute text => exact ends (Task.reflects_execute hrun text)
  | run => exact ends (Task.Unfolds.reflects (Task.unfolds_pure hrun) trivial)
  | step => exact ends (Task.Unfolds.reflects (Task.unfolds_takeLine hrun).discard trivial)
  | reset => exact ends (Task.Unfolds.reflects (Task.unfolds_alone _) trivial)
  | new => exact ends (Task.Unfolds.reflects (Task.unfolds_alone _) trivial)

end LineBasic
