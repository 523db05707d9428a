import LineBasic.Proofs.Machine.Agenda

/-!
# What a single step does

A step of a machine at work shifts the machine, or it edits its program. The
scripts on the agenda were read from texts, so they fit. The runs under way are
those whose end is still on the agenda, and they are counted right.

* `Task.step_does`: what comes of taking up a task, an edit apart.
* `Config.Fit`: what is known of a machine at work.
* `Config.next_cases`: what a step does.
-/

namespace LineBasic

open Machine (Shift Shifts)

namespace Act

variable {α β : Type} {Q : α → Prop}

/-- Whenever the act succeeds, its result is as `Q` says. -/
def Results (Q : α → Prop) (x : Act α) : Prop := ∀ m a m', x m = .ok a m' → Q a

theorem results_pure {a : α} (h : Q a) : Results Q (pure a) := by
  intro m b m' hb
  cases hb
  exact h

theorem results_throw (h : Halt) : Results Q (throw h) := by
  intro m b m' hb
  cases hb

theorem results_bind {x : Act β} {f : β → Act α} (h : ∀ b, Results Q (f b)) : Results Q (x >>= f) := by
  intro m a m' ha
  cases hx : x m with
  | ok b m'' =>
    rw [bind_ok hx] at ha
    exact h b m'' a m' ha
  | error e m'' =>
    rw [bind_error hx] at ha
    cases ha

end Act

/-! ### Halts -/

/-- Why an act halts, if it does. -/
def Act.halt? {α : Type} (x : Act α) (m : Machine) : Option Halt :=
  match x m with
  | .ok _ _ => none
  | .error h _ => some h

theorem Act.exists_error_of_halt? {x : Act Unit} {m : Machine} {h : Halt} (hx : x.halt? m = some h) :
    ∃ m', x m = .error h m' := by
  unfold Act.halt? at hx
  cases hm : x m with
  | ok u m' =>
    rw [hm] at hx
    cases hx
  | error e m' =>
    rw [hm] at hx
    obtain rfl := Option.some.inj hx
    exact ⟨m', rfl⟩

theorem Act.exists_ok_of_halt? {x : Act Unit} {m : Machine} (hx : x.halt? m = none) : ∃ m', x m = .ok () m' := by
  unfold Act.halt? at hx
  cases hm : x m with
  | ok u m' => exact ⟨m', rfl⟩
  | error e m' =>
    rw [hm] at hx
    cases hx

theorem Error.Ordinary.inLine {e : Error} (h : e.Ordinary) (n : Int64) : (e.inLine n).Ordinary := by
  unfold Error.inLine
  split
  · exact h
  · exact h

theorem Halt.Excused.inLine {m : Machine} {h : Halt} (he : h.Excused m) (n : Int64) : (h.inLine n).Excused m := by
  cases h with
  | failed e =>
    intro e' he'
    obtain rfl := Halt.failed.inj he'
    rcases he e rfl with ho | ⟨k, hk, hfind, rfl⟩
    · exact .inl (ho.inLine n)
    · -- the error names a line already
      exact .inr ⟨k, hk, hfind, rfl⟩
  | _ => exact he

theorem Halt.Due.inLine {allowed : Verb → Prop} {h : Halt} (hd : h.Due allowed) (n : Int64) :
    (h.inLine n).Due allowed := by
  cases h with
  | failed e => exact .failed _
  | _ => exact hd

/-- The session is over, or the process is. -/
def Halt.Final (h : Halt) : Prop := h = .quit ∨ h = .aborted

/-! ### Tasks -/

namespace Task

variable {allowed : Verb → Prop} {t : Task} {m m' : Machine}

/-- The scripts that are left to do fit. -/
def Fits : Task → Prop
  | script _ s => s.Fits (fun _ => True) fun _ => True
  | passes _ _ _ _ _ body _ => body.Fits (fun _ => True) fun _ => True
  | _ => True

/-- The verb of the statement that comes first. -/
def verb? : Task → Option Verb
  | script _ (.step action _) => action.verb?
  | _ => none

/-- Whether a run is over behind the task. -/
def isEndRun : Task → Bool
  | endRun => true
  | _ => false

theorem openLine_does (n : Int64) : ∀ m : Machine, n ∈ m.control.table →
    Act.Leads allowed anyFault m.console.Plain m (openLine n m) := by
  intro m hn
  cases hfind : m.listing.find? n with
  | none =>
    rw [openLine_of_none hfind]
    refine ⟨.refl, .failed _, fun _ e he => .inr ⟨n, hn, hfind, ?_⟩, Halt.blames_any _ _⟩
    exact (Halt.failed.inj he).symm
  | some text =>
    rw [openLine_of_some hfind]
    exact .refl

theorem takeLine_does : takeLine.Does allowed anyFault := by
  intro m
  cases hline : m.control.lineAt? m.control.address with
  | none =>
    rw [takeLine_of_none hline]
    exact .refl
  | some n =>
    rw [takeLine_of_some hline]
    have hshift : Shifts allowed m m.fetched := .single (.control (.follow _))
    have hn : n ∈ m.fetched.control.table := Array.mem_of_getElem? hline
    exact (openLine_does n m.fetched hn).after hshift

/-- Takes up the first statement of a script. -/
theorem stepScript_does (line : Option Int64) {s : Script} (h : s.Fits (fun _ => True) fun _ => True) :
    (stepScript line s).Does (fun v => (script line s).verb? = some v) anyFault := by
  cases s with
  | done => exact Act.does_pure []
  | broken before e =>
    exact (Act.check_does h.1).bind fun _ => (Act.does_fail_sited h.2 fun _ _ => trivial).bind fun _ => Act.does_pure []
  | step action rest =>
    by_cases hr : action = .run
    · subst hr
      exact Machine.reset_does.bind fun _ => Act.does_pure _
    by_cases hc : action = .resume
    · subst hc
      exact Act.does_get fun m => Act.does_if (Act.does_pure _) (Act.does_fail (e := .cantContinue) ⟨nofun, nofun⟩) m
    · rw [stepScript_step line rest hr hc]
      refine (action.perform_does (pure ()) line ⟨fun v hv => hv, h.1.parts⟩ (fun _ _ _ => trivial) hr hc).bind fun _ => ?_
      exact Act.does_pure _
  | branch condition yes no => exact (Act.truth_does h.1).bind fun b => Act.does_pure _
  | loop head body rest => exact (Act.range_does h.1).bind fun r => Act.does_pure _

/-- A text that begins with a line number is a line with that number, if it is a
line at all. -/
theorem number_of_parse {text : String} {n : Int64} {p q : Position} {rest : Tape}
    (ht : Tape.ofLine text = .cons ⟨.lineNumber n, p, q⟩ rest) {line : Line} (h : Line.parse text = .ok line) :
    line.number = some n := by
  unfold Line.parse at h
  rw [ht, Tape.lexemes] at h
  cases hr : rest.lexemes with
  | error e => rw [hr] at h; cases h
  | ok xs =>
    rw [hr] at h
    obtain rfl := Except.ok.inj h
    rfl

theorem edit_of_parse_error {text : String} {e : Error} (h : Line.parse text = .error e) (m : Machine) :
    Machine.edit text m = .error (.failed e) m := by
  rw [Machine.edit, h]
  rfl

theorem edit_of_error {text : String} {line : Line} {m : Machine} {e : Error} (hp : Line.parse text = .ok line)
    (he : m.listing.edit line = .error e) : Machine.edit text m = .error (.failed e) m := by
  have hparse : Act.ofExcept (Line.parse text) m = .ok line m := by rw [hp]; rfl
  exact (Act.bind_ok hparse _).trans (Act.bind_error (Act.inspect_error he) _)

theorem edit_of_ok {text : String} {line : Line} {m : Machine} {l : Listing} (hp : Line.parse text = .ok line)
    (he : m.listing.edit line = .ok l) : Machine.edit text m = .ok () { m with listing := l } := by
  have hparse : Act.ofExcept (Line.parse text) m = .ok line m := by rw [hp]; rfl
  exact (Act.bind_ok hparse _).trans ((Act.bind_ok (Act.inspect_ok he) _).trans rfl)

/-- A line with a number changes the listing, or nothing at all. -/
theorem edit_cases {text : String} {n : Int64} {p q : Position} {rest : Tape}
    (ht : Tape.ofLine text = .cons ⟨.lineNumber n, p, q⟩ rest) (m : Machine) :
    (∃ e, e.Ordinary ∧ Machine.edit text m = .error (.failed e) m) ∨
      ∃ line l, Line.parse text = .ok line ∧ m.listing.edit line = .ok l ∧
        Machine.edit text m = .ok () { m with listing := l } := by
  cases hp : Line.parse text with
  | error e => exact .inl ⟨e, (Line.sited_parse text e hp).ordinary, edit_of_parse_error hp m⟩
  | ok line =>
    cases he : m.listing.edit line with
    | error e =>
      refine .inl ⟨e, ?_, edit_of_error hp he⟩
      rw [Listing.edit, number_of_parse ht hp] at he
      exact (Act.everyday_store _ _ _ e he).ordinary
    | ok l => exact .inr ⟨line, l, rfl, he, edit_of_ok hp he⟩

/-- A line that is entered edits the program, or else the first step changes
nothing. -/
theorem enter_cases (text : String) (m : Machine) :
    Act.Leads allowed anyFault m.console.Plain m ((call (.enter text)).step m) ∨
      ∃ line l, Line.parse text = .ok line ∧ m.listing.edit line = .ok l ∧
        (call (.enter text)).step m = .ok [] { m with listing := l } := by
  have hscan := Tape.scannable_ofLine text
  rw [step]
  by_cases hv : isVacant text
  · rw [if_pos hv]
    exact .inl .refl
  · rw [if_neg hv]
    cases ht : Tape.ofLine text with
    | stop p => exact .inl .refl
    | broken e =>
      rw [ht] at hscan
      exact .inl (Act.does_fail_sited hscan (fun _ _ => trivial) m)
    | cons x rest =>
      obtain ⟨token, p, q⟩ := x
      cases token with
      | lineNumber n =>
        rcases edit_cases ht m with ⟨e, he, hedit⟩ | ⟨line, l, hp, hl, hedit⟩
        · refine .inl ?_
          show Act.Leads allowed anyFault m.console.Plain m ((Machine.edit text >>= fun _ => pure []) m)
          rw [Act.bind_error hedit]
          exact ⟨.refl, .failed e, fun _ => Halt.excused_failed he, Halt.blames_any _ _⟩
        · refine .inr ⟨line, l, hp, hl, ?_⟩
          exact Act.bind_ok hedit _
      | _ => exact .inl .refl

/-- What comes of taking up a task, unless it is a line that is entered. -/
theorem step_does (h : t.Fits) (he : ∀ text, t ≠ .call (.enter text)) : t.step.Does (fun v => t.verb? = some v) anyFault := by
  cases t with
  | call c =>
    cases c with
    | enter text => exact absurd rfl (he text)
    | execute text => exact Act.does_pure _
    | run => exact Act.does_pure _
    | step => exact takeLine_does
    | reset => exact Machine.reset_does.bind fun _ => Act.does_pure _
    | new => exact (Act.does_modify fun _ => .single .renew).bind fun _ => Act.does_pure _
  | script line s => exact stepScript_does line h
  | passes line counter index limit stride body v =>
    rw [step]
    split
    · exact (Act.writeNumber_does counter index _).bind fun _ => Act.does_pure _
    · exact Act.does_pure _
  | lineEnd n => exact Machine.advance_does.bind fun _ => Act.does_pure _
  | running =>
    refine Act.does_get fun m => Act.does_if ?_ ?_ m
    · exact Machine.checkBreak_does.bind fun _ => takeLine_does.bind fun ts => Act.does_pure _
    · exact (Act.printLine_does _).bind fun _ => Act.does_pure _
  | ran =>
    refine Act.does_get fun m => Act.does_if ?_ (Act.does_pure _) m
    exact (Act.printLine_does _).bind fun _ => Act.does_pure _
  | _ => exact Act.does_pure _

/-- The tasks that come in place of another one fit, and no run is over behind
them. -/
def Fresh (ts : List Task) : Prop := ∀ t ∈ ts, t.Fits ∧ t.isEndRun = false

theorem fresh_nil : Fresh [] := fun _ ht => absurd ht List.not_mem_nil

theorem Fresh.cons {ts : List Task} (h : t.Fits) (he : t.isEndRun = false) (hts : Fresh ts) : Fresh (t :: ts) :=
  List.forall_mem_cons.2 ⟨⟨h, he⟩, hts⟩

theorem Fresh.append {ts us : List Task} (ht : Fresh ts) (hu : Fresh us) : Fresh (ts ++ us) :=
  List.forall_mem_append.2 ⟨ht, hu⟩

/-- A text has a script, which fits as its tape does. -/
theorem exists_ofText {here : Position → Prop} {text : String} (h : (Tape.ofLine text).Fits allowed here) :
    ∃ line s, ofText text = script line s ∧ s.Fits allowed here ∧
      ∀ run, Machine.execute run text = s.exec run line := by
  unfold ofText Machine.execute
  generalize Tape.ofLine text = t at h
  have whole : ∃ line s, script none (Script.read t) = script line s ∧ s.Fits allowed here ∧
      ∀ run, (Script.read t).exec run none = s.exec run line :=
    ⟨none, Script.read t, rfl, Script.read_fits h, fun _ => rfl⟩
  cases t with
  | stop p => exact whole
  | broken e => exact whole
  | cons x rest =>
    obtain ⟨token, p, q⟩ := x
    cases token with
    | lineNumber n => exact ⟨some n, Script.read rest, rfl, Script.read_fits h.2, fun _ => rfl⟩
    | _ => exact whole

/-- Every text has a script that fits. -/
theorem fresh_ofText (text : String) : Fresh [ofText text] := by
  obtain ⟨line, s, hs, hfit, -⟩ := exists_ofText (Tape.scannable_ofLine text).fits_any
  rw [hs]
  exact .cons hfit rfl fresh_nil

theorem takeLine_fresh : takeLine.Results Fresh := by
  refine Act.results_bind fun m => ?_
  split
  · exact Act.results_pure fresh_nil
  · refine Act.results_bind fun _ => Act.results_bind fun m => ?_
    split
    · exact Act.results_throw _
    case h_2 text _ =>
      have hfits := Script.read_fits (Tape.scannable_ofStatements text).fits_any
      exact Act.results_pure (.cons hfits rfl (.cons trivial rfl fresh_nil))

theorem stepScript_fresh (line : Option Int64) {s : Script} (h : s.Fits (fun _ => True) fun _ => True) :
    (stepScript line s).Results Fresh := by
  cases s with
  | done => exact Act.results_pure fresh_nil
  | broken before e => exact Act.results_bind fun _ => Act.results_bind fun _ => Act.results_pure fresh_nil
  | step action rest =>
    have hrest : Fresh [script line rest] := .cons h.2 rfl fresh_nil
    by_cases hr : action = .run
    · subst hr
      exact Act.results_bind fun _ => Act.results_pure (.cons trivial rfl hrest)
    by_cases hc : action = .resume
    · subst hc
      refine Act.results_bind fun m => ?_
      split
      · exact Act.results_pure (.cons trivial rfl hrest)
      · exact Act.results_throw _
    · rw [stepScript_step line rest hr hc]
      exact Act.results_bind fun _ => Act.results_pure hrest
  | branch condition yes no =>
    refine Act.results_bind fun b => Act.results_pure (.cons ?_ rfl fresh_nil)
    cases b with
    | true => exact h.2.1
    | false => exact h.2.2
  | loop head body rest =>
    exact Act.results_bind fun r => Act.results_pure (.cons h.2.1 rfl (.cons h.2.2 rfl fresh_nil))

/-- **What comes in place of a task fits.** -/
theorem step_fresh (h : t.Fits) : t.step.Results Fresh := by
  cases t with
  | call c =>
    cases c with
    | enter text =>
      rw [step]
      split
      · exact Act.results_pure fresh_nil
      split
      · exact Act.results_throw _
      · exact Act.results_bind fun _ => Act.results_pure fresh_nil
      · exact Act.results_pure (.cons trivial rfl (.cons trivial rfl fresh_nil))
    | execute text => exact Act.results_pure (fresh_ofText text)
    | run => exact Act.results_pure (.cons trivial rfl fresh_nil)
    | step => exact takeLine_fresh
    | reset => exact Act.results_bind fun _ => Act.results_pure fresh_nil
    | new => exact Act.results_bind fun _ => Act.results_pure fresh_nil
  | script line s => exact stepScript_fresh line h
  | passes line counter index limit stride body v =>
    rw [step]
    split
    · refine Act.results_bind fun _ => Act.results_pure (.cons h rfl ?_)
      intro t ht
      obtain ⟨w, -, rfl⟩ := List.mem_map.1 ht
      exact ⟨h, rfl⟩
    · exact Act.results_pure fresh_nil
  | lineEnd n => exact Act.results_bind fun _ => Act.results_pure fresh_nil
  | running =>
    refine Act.results_bind fun m => ?_
    split
    · refine Act.results_bind fun _ => ?_
      intro m ts m' hts
      cases htake : takeLine m with
      | error e m₁ =>
        rw [Act.bind_error htake] at hts
        cases hts
      | ok us m₁ =>
        rw [Act.bind_ok htake] at hts
        cases hts
        exact (takeLine_fresh m us m' htake).append (.cons trivial rfl fresh_nil)
    · exact Act.results_bind fun _ => Act.results_pure fresh_nil
  | ran =>
    refine Act.results_bind fun m => ?_
    split
    · exact Act.results_bind fun _ => Act.results_pure fresh_nil
    · exact Act.results_pure (.cons trivial rfl fresh_nil)
  | _ => exact Act.results_pure fresh_nil

/-- Behind a task that deals with a halt there is nothing to do. -/
theorem unwind_fresh (h : Halt) (t : Task) : (t.unwind h).Results Fresh := by
  cases t with
  | lineEnd n =>
    cases h with
    | finished => exact Act.results_bind fun _ => Act.results_throw _
    | _ => exact Act.results_throw _
  | ran =>
    cases h with
    | finished => exact Act.results_bind fun _ => Act.results_pure fresh_nil
    | _ => exact Act.results_throw _
  | entered =>
    cases h with
    | finished => exact Act.results_pure fresh_nil
    | _ => exact Act.results_throw _
  | _ => exact Act.results_throw _

/-- No task stands in the way of the end of a session, or of the process. -/
theorem unwind_of_final {e : Halt} (h : e.Final) (t : Task) (m : Machine) : t.unwind e m = .error e m := by
  rcases h with rfl | rfl
  · cases t <;> rfl
  · cases t <;> rfl

/-- A halt goes on, or gives way to one that printing brings. -/
theorem unwind_leads {e : Halt} (hd : e.Due allowed) (t : Task) :
    Act.Leads allowed anyFault (m.console.Plain ∧ e.Excused m) m (t.unwind e m) := by
  have again : Act.Leads allowed anyFault (m.console.Plain ∧ e.Excused m) m ((throw e : Act (List Task)) m) :=
    ⟨.refl, hd, And.right, Halt.blames_any _ _⟩
  cases t with
  | lineEnd n =>
    cases e with
    | finished =>
      refine ⟨.single (.control .advance), hd, ?_, Halt.blames_any _ _⟩
      rintro - e he
      cases he
    | _ => exact ⟨.refl, hd.inLine n, fun h => h.2.inLine n, Halt.blames_any _ _⟩
  | ran =>
    cases e with
    | finished =>
      refine Act.Leads.mono And.left ?_
      exact ((Act.printLine_does "DONE.").bind fun _ => Act.does_pure []) m
    | _ => exact again
  | entered =>
    cases e with
    | finished => exact .refl
    | _ => exact again
  | _ => exact again

end Task

/-! ### Machines at work -/

namespace Config

variable {allowed : Verb → Prop} {c c' : Config}

/-- The scripts fit, and the runs under way are counted. -/
structure Fit (c : Config) : Prop where
  tasks : ∀ t ∈ c.agenda, t.Fits
  halt : c.halt ≠ some .exhausted
  depth_eq : c.depth = c.agenda.countP Task.isEndRun
  depth_le : c.depth ≤ Machine.runDepth

/-- The verb of the statement that is to be executed. -/
def verb? (c : Config) : Option Verb :=
  match c.agenda, c.halt with
  | t :: _, none => t.verb?
  | _, _ => none

/-- If work stopped, there is an excuse. -/
def Excused (c : Config) : Prop := ∀ h ∈ c.halt, h.Excused c.machine

/-- The step from the one to the other edits the program by a line that was
entered. -/
def Edits (c c' : Config) : Prop :=
  ∃ text line l, c.agenda.head? = some (.call (.enter text)) ∧ Line.parse text = .ok line ∧
    c.machine.listing.edit line = .ok l ∧ c'.machine = { c.machine with listing := l } ∧ c'.halt = none

/-- What a step from the one to the other does. It shifts the machine, and if it
stops there is an excuse, or else it edits the program. -/
def Moves (c c' : Config) : Prop :=
  Shifts (fun v => c.verb? = some v) c.machine c'.machine ∧ (c.machine.console.Plain → c.Excused → c'.Excused) ∨
    c.Edits c'

/-- Before anything is done. -/
theorem fit_call (m : Machine) (call : Call) : Fit ⟨m, 0, [.call call], none⟩ :=
  ⟨List.forall_mem_singleton.2 trivial, nofun, rfl, Nat.zero_le _⟩

/-- What comes of a step that shifts the machine. -/
theorem fit_settle {plain : Prop} {m : Machine} {d : Nat} {rest : List Task}
    (hrest : ∀ t ∈ rest, t.Fits) (hd : d = rest.countP Task.isEndRun) (hle : d ≤ Machine.runDepth)
    {r : EStateM.Result Halt Machine (List Task)} (hl : Act.Leads allowed anyFault plain m r)
    (hf : ∀ ts m', r = .ok ts m' → Task.Fresh ts) :
    (settle d rest r).Fit ∧ Shifts allowed m (settle d rest r).machine ∧ (plain → (settle d rest r).Excused) := by
  cases r with
  | ok ts m' =>
    have hfresh := hf ts m' rfl
    have hcount : ts.countP Task.isEndRun = 0 := by
      rw [List.countP_eq_zero]
      intro t ht
      rw [(hfresh t ht).2]
      exact Bool.false_ne_true
    refine ⟨⟨?_, nofun, ?_, hle⟩, hl, fun _ => nofun⟩
    · intro t ht
      rcases List.mem_append.1 ht with ht | ht
      · exact (hfresh t ht).1
      · exact hrest t ht
    · show d = (ts ++ rest).countP Task.isEndRun
      rw [List.countP_append, hcount, Nat.zero_add]
      exact hd
  | error e m' =>
    obtain ⟨hs, hx, he, -⟩ := hl
    refine ⟨⟨hrest, fun h => hx.granted (Option.some.inj h), hd, hle⟩, hs, ?_⟩
    intro hp h hh
    obtain rfl := Option.some.inj hh
    exact he hp

theorem Fit.rest {m : Machine} {d : Nat} {t : Task} {rest : List Task} {halt : Option Halt}
    (h : Fit ⟨m, d, t :: rest, halt⟩) (ht : t.isEndRun = false) :
    (∀ u ∈ rest, u.Fits) ∧ d = rest.countP Task.isEndRun := by
  refine ⟨(List.forall_mem_cons.1 h.tasks).2, ?_⟩
  have hd : d = (t :: rest).countP Task.isEndRun := h.depth_eq
  rw [hd, List.countP_cons_of_neg (by simp [ht])]

/-- A task is taken up. -/
theorem settle_step {m : Machine} {d : Nat} {t : Task} {rest : List Task} (hc : Fit ⟨m, d, t :: rest, none⟩)
    (he : t.isEndRun = false) :
    (settle d rest (t.step m)).Fit ∧ Moves ⟨m, d, t :: rest, none⟩ (settle d rest (t.step m)) := by
  obtain ⟨hrest, hd⟩ := hc.rest he
  have ht : t.Fits := hc.tasks t List.mem_cons_self
  have shifted (hl : Act.Leads (fun v => t.verb? = some v) anyFault m.console.Plain m (t.step m)) :
      (settle d rest (t.step m)).Fit ∧ Moves ⟨m, d, t :: rest, none⟩ (settle d rest (t.step m)) := by
    obtain ⟨hfit, hs, hex⟩ := fit_settle hrest hd hc.depth_le hl (Task.step_fresh ht m)
    exact ⟨hfit, .inl ⟨hs, fun hp _ => hex hp⟩⟩
  by_cases hent : ∃ text, t = .call (.enter text)
  · obtain ⟨text, rfl⟩ := hent
    rcases Task.enter_cases text m with hl | ⟨line, l, hp, hl, hstep⟩
    · exact shifted hl
    · rw [hstep]
      exact ⟨⟨hrest, nofun, hd, hc.depth_le⟩, .inr ⟨text, line, l, rfl, hp, hl, rfl, rfl⟩⟩
  · exact shifted (Task.step_does ht (fun text h => hent ⟨text, h⟩) m)

/-- A task is dropped. -/
theorem settle_unwind {m : Machine} {d : Nat} {t : Task} {rest : List Task} {e : Halt}
    (hc : Fit ⟨m, d, t :: rest, some e⟩) (he : t.isEndRun = false) :
    (settle d rest (t.unwind e m)).Fit ∧ Moves ⟨m, d, t :: rest, some e⟩ (settle d rest (t.unwind e m)) := by
  obtain ⟨hrest, hd⟩ := hc.rest he
  by_cases hfinal : e.Final
  · rw [Task.unwind_of_final hfinal]
    exact ⟨⟨hrest, hc.halt, hd, hc.depth_le⟩, .inl ⟨.refl, fun _ hex => hex⟩⟩
  · have hdue : e.Due fun v => Config.verb? ⟨m, d, t :: rest, some e⟩ = some v :=
      ⟨fun h => hc.halt (congrArg some h), fun h => absurd (.inr h) hfinal⟩
    obtain ⟨hfit, hs, hex⟩ := fit_settle hrest hd hc.depth_le (Task.unwind_leads hdue t)
      (Task.unwind_fresh e t m)
    exact ⟨hfit, .inl ⟨hs, fun hp hc => hex ⟨hp, hc e rfl⟩⟩⟩

/-- A run begins, unless there are too many. -/
theorem next_startRun {m : Machine} {d : Nat} {rest : List Task} (hc : Fit ⟨m, d, .startRun :: rest, none⟩)
    (h : next ⟨m, d, .startRun :: rest, none⟩ = some c') : c'.Fit ∧ Moves ⟨m, d, .startRun :: rest, none⟩ c' := by
  obtain ⟨hrest, hd⟩ := hc.rest rfl
  by_cases hlt : d < Machine.runDepth
  · obtain rfl := Option.some.inj ((if_pos hlt).symm.trans h)
    refine ⟨⟨?_, nofun, ?_, hlt⟩, .inl ⟨.refl, fun _ _ => nofun⟩⟩
    · exact List.forall_mem_cons.2 ⟨trivial, List.forall_mem_cons.2 ⟨trivial, hrest⟩⟩
    · show d + 1 = (Task.running :: .endRun :: rest).countP Task.isEndRun
      rw [List.countP_cons_of_neg (by decide), List.countP_cons_of_pos (by rfl), ← hd]
  · obtain rfl := Option.some.inj ((if_neg hlt).symm.trans h)
    refine ⟨⟨hrest, nofun, hd, hc.depth_le⟩, .inl ⟨.refl, ?_⟩⟩
    rintro - - h hh
    obtain rfl := Option.some.inj hh
    exact Halt.excused_failed nofun

/-- A run is over. -/
theorem next_endRun {m : Machine} {d : Nat} {rest : List Task} {halt : Option Halt}
    (hc : Fit ⟨m, d, .endRun :: rest, halt⟩) (h : next ⟨m, d, .endRun :: rest, halt⟩ = some c') :
    c'.Fit ∧ Moves ⟨m, d, .endRun :: rest, halt⟩ c' := by
  have hnext : next ⟨m, d, .endRun :: rest, halt⟩ = some ⟨m, d - 1, rest, halt⟩ := by cases halt <;> rfl
  obtain rfl := Option.some.inj (hnext.symm.trans h)
  have hd : d = (Task.endRun :: rest).countP Task.isEndRun := hc.depth_eq
  rw [List.countP_cons_of_pos (by rfl)] at hd
  have hle : d ≤ Machine.runDepth := hc.depth_le
  refine ⟨⟨(List.forall_mem_cons.1 hc.tasks).2, hc.halt, ?_, ?_⟩, .inl ⟨.refl, fun _ hx => hx⟩⟩
  · show d - 1 = rest.countP Task.isEndRun
    omega
  · show d - 1 ≤ Machine.runDepth
    omega

/-- **What a step does.** -/
theorem next_cases (hc : c.Fit) (h : c.next = some c') : c'.Fit ∧ c.Moves c' := by
  obtain ⟨m, d, agenda, halt⟩ := c
  cases agenda with
  | nil => cases h
  | cons t rest =>
    cases halt with
    | none =>
      have work (he : t.isEndRun = false)
          (hnext : next ⟨m, d, t :: rest, none⟩ = some (settle d rest (t.step m))) :
          c'.Fit ∧ Moves ⟨m, d, t :: rest, none⟩ c' := by
        obtain rfl := Option.some.inj (hnext.symm.trans h)
        exact settle_step hc he
      cases t with
      | startRun => exact next_startRun hc h
      | endRun => exact next_endRun hc h
      | _ => exact work rfl rfl
    | some e =>
      have work (he : t.isEndRun = false)
          (hnext : next ⟨m, d, t :: rest, some e⟩ = some (settle d rest (t.unwind e m))) :
          c'.Fit ∧ Moves ⟨m, d, t :: rest, some e⟩ c' := by
        obtain rfl := Option.some.inj (hnext.symm.trans h)
        exact settle_unwind hc he
      cases t with
      | endRun => exact next_endRun hc h
      | _ => exact work rfl rfl

theorem Fit.of_reaches (hc : c.Fit) (h : c.Reaches c') : c'.Fit := by
  induction h with
  | refl => exact hc
  | tail _ hnext ih => exact (next_cases ih hnext).1

/-! ### Halts that are final -/

/-- The step comes to the halt. -/
def Halts (c : Config) (e : Halt) : Prop := c.halt ≠ some e ∧ ∃ c', c.next = some c' ∧ c'.halt = some e

theorem halt_settle {d : Nat} {rest : List Task} {r : EStateM.Result Halt Machine (List Task)} {e : Halt}
    (h : (settle d rest r).halt = some e) : ∃ m', r = .error e m' := by
  cases r with
  | ok ts m' => cases h
  | error e' m' =>
    obtain rfl := Option.some.inj h
    exact ⟨m', rfl⟩

/-- A halt was come to by one of the steps. -/
theorem exists_halts_of_reaches {e : Halt} (h : c.Reaches c') (hc : c.halt ≠ some e) (hc' : c'.halt = some e) :
    ∃ c₁, c.Reaches c₁ ∧ c₁.Halts e := by
  induction h with
  | refl => exact absurd hc' hc
  | @tail c₁ c₂ hreach hnext ih =>
    by_cases h₁ : c₁.halt = some e
    · exact ih h₁
    · exact ⟨c₁, hreach, h₁, c₂, hnext, hc'⟩

/-- **A final halt stays to the end.** -/
theorem halt_of_reaches {e : Halt} (he : e.Final) (h : c.Reaches c') (hc : c.halt = some e) : c'.halt = some e := by
  induction h with
  | refl => exact hc
  | @tail c₁ c₂ _ hnext ih =>
    obtain ⟨m, d, agenda, halt⟩ := c₁
    obtain rfl : halt = some e := ih
    cases agenda with
    | nil => cases hnext
    | cons t rest =>
      have work (h : next ⟨m, d, t :: rest, some e⟩ = some (settle d rest (t.unwind e m))) :
          c₂.halt = some e := by
        rw [Task.unwind_of_final he] at h
        obtain rfl := Option.some.inj (h.symm.trans hnext)
        rfl
      cases t with
      | endRun =>
        obtain rfl := Option.some.inj hnext
        rfl
      | _ => exact work rfl

/-- There is one way on only, so a step that comes to a final halt decides how
all ends. -/
theorem Halts.halt_of_reaches {e : Halt} {last : Config} (hhalts : c'.Halts e) (he : e.Final) (hc' : c.Reaches c')
    (hlast : c.Reaches last) (hend : last.next = none) : last.halt = some e := by
  have hdet : Relator.RightUnique fun c c' : Config => c.next = some c' :=
    fun _ _ _ h h' => Option.some.inj (h.symm.trans h')
  obtain ⟨-, c₁, hnext, hhalt⟩ := hhalts
  rcases Relation.ReflTransGen.total_of_right_unique hdet hc' hlast with h | h
  · rcases Relation.ReflTransGen.cases_head h with rfl | ⟨c₂, hstep, hrest⟩
    · cases hend.symm.trans hnext
    · obtain rfl := hdet hnext hstep
      exact Config.halt_of_reaches he hrest hhalt
  · rcases Relation.ReflTransGen.cases_head h with rfl | ⟨c₂, hstep, -⟩
    · cases hend.symm.trans hnext
    · cases hend.symm.trans hstep

end Config

end LineBasic
