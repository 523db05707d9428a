import LineBasic.Proofs.Machine.Finishes

/-!
# A break leaves no trace

The break key stops a run between two lines, with an error that names the line
to come, and `CONT` goes on with that line. Nothing that a program does tells
whether it was broken off: the machine is the same behind the break, and a run
is nothing but the lines that are left.

A run that has used up the lines granted to it is between two lines as well. So
the moments of the breaks are told here by numbers of lines.

* `Machine.Quiet`: no line starts a run or loads a program, and no key press is
  to come.
* `Machine.run_add`: a run can be cut in two.
* `Machine.brokenRun`: a run that is broken off and goes on.
* `Machine.brokenRun_eq_run`: it does what a run does that is never broken off.
-/

namespace LineBasic

open Machine (Shift Shifts)

/-! ### Acts and their halts -/

namespace Act

variable {x y : Act Unit} {m m' : Machine}

/-- Does something, and something else if too few lines were granted for it. -/
def further (x y : Act Unit) : Act Unit := do
  try x
  catch
    | .exhausted => y
    | h => throw h

theorem further_of_exhausted (h : x m = .error .exhausted m') : x.further y m = y m' := by
  show EStateM.tryCatch x _ m = y m'
  rw [EStateM.tryCatch, h]
  rfl

theorem further_of_granted (h : ∀ m', x m ≠ .error .exhausted m') : x.further y m = x m := by
  show EStateM.tryCatch x _ m = x m
  unfold EStateM.tryCatch
  cases hx : x m with
  | ok a m' => rfl
  | error e m' =>
    cases e with
    | exhausted => exact absurd hx (h m')
    | _ => rfl

/-- The further act depends on the first one by its result only. -/
theorem further_congr {x' : Act Unit} (h : x m = x' m') : x.further y m = x'.further y m' := by
  show EStateM.tryCatch x _ m = EStateM.tryCatch x' _ m'
  unfold EStateM.tryCatch
  rw [h]

theorem printLine_ne_finished (text : String) : printLine text m ≠ .error .finished m' := by
  intro h
  unfold printLine print console at h
  split at h
  · cases h
  case h_2 hprint =>
    cases h
    cases Console.print_halt (congrArg Prod.fst hprint)

end Act

/-! ### Quiet programs -/

/-- The verb is not one that starts a run or loads a program. -/
def Verb.Quiet (v : Verb) : Prop := v ∉ [.run, .resume, .load]

theorem Verb.not_quiet_run : ¬ Verb.Quiet .run := fun h => h (by decide)

theorem Verb.not_quiet_resume : ¬ Verb.Quiet .resume := fun h => h (by decide)

namespace Machine

/-- No line of the program starts a run or loads another program. The break key
is not pressed, and no print is to press it. -/
structure Quiet (m : Machine) : Prop where
  lines : ∀ x ∈ m.listing.lines, (Tape.ofStatements x.2).Avoids [.run, .resume, .load]
  breakIn : m.console.breakIn = none
  interrupted : m.console.interrupted = false

variable {m m' : Machine}

theorem Shift.quiet (h : Shift Verb.Quiet m m') (hm : m.Quiet) : m'.Quiet := by
  cases h with
  | draw chance => exact { hm with }
  | use hc => exact { hm with breakIn := hc.breakIn hm.breakIn
                              interrupted := (hc.interrupted hm.breakIn).trans hm.interrupted }
  | acknowledge => exact { hm with interrupted := rfl }
  | memory _ => exact { hm with }
  | control _ => exact { hm with }
  | rewind => exact { hm with }
  | renew => exact { hm with lines := fun x hx => absurd hx List.not_mem_nil }
  | load texts h => exact absurd (by decide) h

theorem Shifts.quiet (h : Shifts Verb.Quiet m m') (hm : m.Quiet) : m'.Quiet :=
  h.keep (fun _ _ hs => hs.quiet) hm

theorem Quiet.lineFits (hm : m.Quiet) : m.LineFits Verb.Quiet := by
  intro n text _ hfind
  obtain ⟨before, behind, hlines, -⟩ := List.lookup_eq_some_iff.1 hfind
  refine (hm.lines (n, text) ?_).not_mem
  rw [hlines]
  exact List.mem_append_right before List.mem_cons_self

/-! ### A line in a run -/

section Line

variable {nested : Act Unit} {h : Halt} (hkey : m.console.interrupted = false)

include hkey

theorem advanceRun_of_ok {b : Bool} (hstep : step nested m = .ok b m') :
    advanceRun nested m = .ok (!m'.control.trace) m' := by
  rw [advanceRun, Act.bind_ok (checkBreak_of_false hkey)]
  refine Act.tryCatch_ok ?_ _
  exact (Act.bind_ok hstep _).trans rfl

theorem advanceRun_of_finished (hstep : step nested m = .error .finished m') :
    advanceRun nested m = .ok false m' := by
  rw [advanceRun, Act.bind_ok (checkBreak_of_false hkey)]
  exact Act.tryCatch_error (Act.bind_error hstep _) _

theorem advanceRun_of_error (hstep : step nested m = .error h m') (hh : h ≠ .finished) :
    advanceRun nested m = .error h m' := by
  rw [advanceRun, Act.bind_ok (checkBreak_of_false hkey)]
  refine (Act.tryCatch_error (Act.bind_error hstep _) _).trans ?_
  cases h with
  | finished => exact absurd rfl hh
  | _ => rfl

end Line

section Quiet

variable (hm : m.Quiet) (nested : Act Unit)

include hm

/-- **A line in a run comes to an end, and only shifts the machine.** -/
theorem advanceRun_leads : Act.Leads Verb.Quiet anyFault m.console.Plain m (advanceRun nested m) := by
  have hleads := step_leads hm.lineFits Verb.not_quiet_run Verb.not_quiet_resume nested
  cases hstep : step nested m with
  | ok b m' =>
    rw [hstep] at hleads
    rw [advanceRun_of_ok hm.interrupted hstep]
    exact hleads
  | error h m' =>
    rw [hstep] at hleads
    by_cases hh : h = .finished
    · subst hh
      rw [advanceRun_of_finished hm.interrupted hstep]
      exact hleads.1
    · rw [advanceRun_of_error hm.interrupted hstep hh]
      exact hleads

/-- What a run inside the run is makes no difference to a line. -/
theorem advanceRun_congr (nested' : Act Unit) : advanceRun nested m = advanceRun nested' m := by
  have hcongr := step_congr hm.lineFits Verb.not_quiet_run Verb.not_quiet_resume nested nested'
  cases hstep : step nested' m with
  | ok b m' =>
    rw [advanceRun_of_ok hm.interrupted hstep, advanceRun_of_ok hm.interrupted (hcongr.trans hstep)]
  | error h m' =>
    by_cases hh : h = .finished
    · subst hh
      rw [advanceRun_of_finished hm.interrupted hstep, advanceRun_of_finished hm.interrupted (hcongr.trans hstep)]
    · rw [advanceRun_of_error hm.interrupted hstep hh, advanceRun_of_error hm.interrupted (hcongr.trans hstep) hh]

end Quiet

theorem advanceRun_ne_finished (nested : Act Unit) : advanceRun nested m ≠ .error .finished m' := by
  intro hrun
  cases hkey : m.console.interrupted with
  | true =>
    rw [advanceRun, Act.bind_error (checkBreak_of_true hkey)] at hrun
    cases hrun
  | false =>
    cases hstep : step nested m with
    | ok b m'' =>
      rw [advanceRun_of_ok hkey hstep] at hrun
      cases hrun
    | error h m'' =>
      by_cases hh : h = .finished
      · subst hh
        rw [advanceRun_of_finished hkey hstep] at hrun
        cases hrun
      · rw [advanceRun_of_error hkey hstep hh] at hrun
        cases hrun
        exact hh rfl

/-! ### Runs -/

section Lines

variable {nested : Act Unit}

/-- Behind the last line a run is over, however many lines are granted. -/
theorem runLines_of_outside (h : ¬ m.control.inRange) (budget : Nat) :
    runLines nested budget m = Act.printLine "DONE." m := by
  cases budget with
  | zero =>
    show (if m.control.inRange then _ else Act.printLine "DONE." : Act Unit) m = _
    rw [if_neg h]
  | succ budget =>
    show (if m.control.inRange then _ else Act.printLine "DONE." : Act Unit) m = _
    rw [if_neg h]

theorem runLines_zero (h : m.control.inRange) : runLines nested 0 m = .error .exhausted m := by
  show (if m.control.inRange then throw .exhausted else _ : Act Unit) m = _
  rw [if_pos h]
  rfl

theorem runLines_succ (h : m.control.inRange) (budget : Nat) :
    runLines nested (budget + 1) m =
      (advanceRun nested >>= fun go => if go then runLines nested budget else Act.printLine "DONE.") m := by
  show (if m.control.inRange then _ else _ : Act Unit) m = _
  rw [if_pos h]

/-- A line of a run, and then the others. -/
theorem runLines_of_step (h : m.control.inRange) (hkey : m.console.interrupted = false)
    (hstep : step nested m = .ok true m') (htrace : m'.control.trace = false) (budget : Nat) :
    runLines nested (budget + 1) m = runLines nested budget m' := by
  rw [runLines_succ h, Act.bind_ok (advanceRun_of_ok hkey hstep), htrace]
  rfl

theorem runLines_ne_finished (nested : Act Unit) (budget : Nat) : runLines nested budget m ≠ .error .finished m' := by
  induction budget generalizing m with
  | zero =>
    by_cases h : m.control.inRange
    · rw [runLines_zero h]
      intro he
      cases he
    · rw [runLines_of_outside h]
      exact Act.printLine_ne_finished _
  | succ budget ih =>
    by_cases h : m.control.inRange
    · rw [runLines_succ h]
      cases hline : advanceRun nested m with
      | ok go m₁ =>
        rw [Act.bind_ok hline]
        cases go with
        | true => exact ih
        | false => exact Act.printLine_ne_finished _
      | error e m₁ =>
        rw [Act.bind_error hline]
        intro he
        cases he
        exact advanceRun_ne_finished nested hline
    · rw [runLines_of_outside h]
      exact Act.printLine_ne_finished _

end Lines

/-- **A line and what is left of the run.** Behind the line the run goes on as
one that starts there, or else it is over. -/
theorem Quiet.line (hm : m.Quiet) (h : m.control.inRange) :
    (∃ m₁ : Machine, m₁.Quiet ∧ ∀ nested budget, runLines nested (budget + 1) m = runLines nested budget m₁) ∨
      ∃ r, (∀ m', r ≠ .error .exhausted m') ∧ ∀ nested budget, runLines nested (budget + 1) m = r := by
  -- a line of a quiet program starts no run, so any will do
  have hleads := advanceRun_leads hm (pure ())
  cases hline : advanceRun (pure ()) m with
  | ok go m₁ =>
    rw [hline] at hleads
    have hsucc (nested : Act Unit) (budget : Nat) : runLines nested (budget + 1) m =
        (if go then runLines nested budget else Act.printLine "DONE." : Act Unit) m₁ := by
      rw [runLines_succ h, Act.bind_ok ((advanceRun_congr hm nested (pure ())).trans hline)]
    cases go with
    | true => exact .inl ⟨m₁, Shifts.quiet hleads hm, hsucc⟩
    | false =>
      have hprint : (Act.printLine "DONE.").Does Verb.Quiet anyFault := Act.printLine_does _
      exact .inr ⟨_, (hprint m₁).ne_exhausted, hsucc⟩
  | error e m₁ =>
    rw [hline] at hleads
    refine .inr ⟨.error e m₁, ?_, ?_⟩
    · intro m' he
      cases he
      exact hleads.2.1.granted rfl
    · intro nested budget
      rw [runLines_succ h, Act.bind_error ((advanceRun_congr hm nested (pure ())).trans hline)]

/-- Behind the last line no lines are lacking. -/
theorem runLines_granted_of_outside (h : ¬ m.control.inRange) (nested : Act Unit) (budget : Nat) (m' : Machine) :
    runLines nested budget m ≠ .error .exhausted m' := by
  have hprint : (Act.printLine "DONE.").Does Verb.Quiet anyFault := Act.printLine_does _
  rw [runLines_of_outside h]
  exact (hprint m).ne_exhausted m'

/-- What a run inside the run is makes no difference. -/
theorem runLines_congr (hm : m.Quiet) (nested nested' : Act Unit) (budget : Nat) :
    runLines nested budget m = runLines nested' budget m := by
  induction budget generalizing m with
  | zero =>
    by_cases h : m.control.inRange
    · rw [runLines_zero h, runLines_zero h]
    · rw [runLines_of_outside h, runLines_of_outside h]
  | succ budget ih =>
    by_cases h : m.control.inRange
    · obtain ⟨m₁, hm₁, hgo⟩ | ⟨r, -, hr⟩ := hm.line h
      · rw [hgo, hgo, ih hm₁]
      · rw [hr, hr]
    · rw [runLines_of_outside h, runLines_of_outside h]

/-- Where lines are lacking there is a line to come, and the machine is
quiet. -/
theorem quiet_of_exhausted (hm : m.Quiet) {nested : Act Unit} {budget : Nat}
    (hrun : runLines nested budget m = .error .exhausted m') : m'.Quiet ∧ m'.control.inRange := by
  induction budget generalizing m with
  | zero =>
    by_cases h : m.control.inRange
    · rw [runLines_zero h] at hrun
      cases hrun
      exact ⟨hm, h⟩
    · exact absurd hrun (runLines_granted_of_outside h nested 0 m')
  | succ budget ih =>
    by_cases h : m.control.inRange
    · obtain ⟨m₁, hm₁, hgo⟩ | ⟨r, hx, hr⟩ := hm.line h
      · exact ih hm₁ ((hgo nested budget).symm.trans hrun)
      · exact absurd ((hr nested budget).symm.trans hrun) (hx m')
    · exact absurd hrun (runLines_granted_of_outside h nested _ m')

/-- The lines of a run, in two parts. -/
theorem runLines_add (hm : m.Quiet) (nested nested' nested'' : Act Unit) (k budget : Nat) :
    runLines nested (k + budget) m = (runLines nested' k).further (runLines nested'' budget) m := by
  induction k generalizing m with
  | zero =>
    by_cases h : m.control.inRange
    · rw [Act.further_of_exhausted (runLines_zero h), Nat.zero_add]
      exact runLines_congr hm nested nested'' budget
    · rw [Act.further_of_granted (runLines_granted_of_outside h nested' 0), runLines_of_outside h,
        runLines_of_outside h]
  | succ k ih =>
    rw [Nat.add_right_comm]
    by_cases h : m.control.inRange
    · obtain ⟨m₁, hm₁, hgo⟩ | ⟨r, hx, hr⟩ := hm.line h
      · rw [hgo, ih hm₁]
        exact (Act.further_congr (hgo nested' k)).symm
      · have hgranted (m' : Machine) : runLines nested' (k + 1) m ≠ .error .exhausted m' := by
          rw [hr]
          exact hx m'
        rw [hr, Act.further_of_granted hgranted, hr]
    · rw [Act.further_of_granted (runLines_granted_of_outside h nested' _), runLines_of_outside h,
        runLines_of_outside h]

/-- **A run can be cut in two.** -/
theorem run_add (hm : m.Quiet) (k budget : Nat) : run (k + budget) m = (run k).further (run budget) m :=
  runLines_add hm _ _ _ k budget

/-- What a run comes to it comes to if more lines are granted. -/
theorem run_of_le (hm : m.Quiet) {lines budget : Nat} (h : lines ≤ budget)
    (hx : ∀ m', run lines m ≠ .error .exhausted m') : run budget m = run lines m := by
  obtain ⟨k, rfl⟩ := Nat.exists_eq_add_of_le h
  rw [run_add hm, Act.further_of_granted hx]

/-! ### Breaks -/

/-- The machine with the break key pressed. -/
def pressed (m : Machine) : Machine := { m with console := { m.console with interrupted := true } }

/-- Between two lines the break key stops a run, and leaves nothing behind. -/
theorem run_pressed (hm : m.Quiet) {n : Int64} (hat : m.control.lineAt? m.control.address = some n)
    (h : m.control.inRange) (budget : Nat) :
    run (budget + 1) m.pressed = .error (.failed (Error.breakKey.inLine n)) m := by
  have hbreak : m.pressed.breakError = Error.breakKey.inLine n := by
    unfold breakError
    rw [show m.pressed.control.lineAt? m.pressed.control.address = some n from hat]
  -- the key was not pressed before
  have hsame : ({ m.pressed with console := { m.pressed.console with interrupted := false } } : Machine) = m := by
    unfold pressed
    dsimp only
    rw [← hm.interrupted]
  have hline : advanceRun (runNested (budget + 1) 31) m.pressed =
      .error (.failed (Error.breakKey.inLine n)) m := by
    rw [advanceRun, Act.bind_error (checkBreak_of_true rfl), hbreak, hsame]
  show runLines (runNested (budget + 1) 31) (budget + 1) m.pressed = _
  rw [runLines_succ (show m.pressed.control.inRange from h)]
  exact Act.bind_error hline _

theorem ofLine_cont : Tape.ofLine "CONT" = .cons ⟨.verb .resume, ⟨1, 1, 0⟩, ⟨1, 5, 4⟩⟩ (.stop ⟨1, 5, 4⟩) := by
  decide +kernel

/-- `CONT` goes on with the run, if there is a line to come. -/
theorem execute_cont (h : m.control.inRange) (run : Act Unit) : execute run "CONT" m = run m := by
  have hperform : Action.resume.perform run none m = run m := by
    show (if m.control.inRange then run else _ : Act Unit) m = _
    rw [if_pos h]
  have hread : Script.read (Tape.ofLine "CONT") = .step .resume .done := by
    rw [ofLine_cont]
    rfl
  have hexec : execute run "CONT" = (Script.read (Tape.ofLine "CONT")).exec run none := by
    unfold execute
    rw [ofLine_cont]
  rw [hexec, hread, Script.exec, Script.exec, bind_pure_unit, hperform]

theorem enter_cont (h : m.control.inRange) {run : Act Unit} (hrun : ∀ m', run m ≠ .error .finished m') :
    enter run "CONT" m = run m := by
  have hexec := execute_cont h run
  have hvacant : isVacant "CONT" = false := by decide +kernel
  unfold enter
  rw [ofLine_cont, hvacant]
  cases hm : run m with
  | ok a m' => exact Act.tryCatch_ok (hexec.trans hm) _
  | error e m' =>
    refine (Act.tryCatch_error (hexec.trans hm) _).trans ?_
    cases e with
    | finished => exact absurd hm (hrun m')
    | _ => rfl

/-- A run that is broken off and goes on with `CONT`, again and again. The
moments tell how many lines there are before the next break, and `budget` how
many are granted behind the last one. If the run is over before, the breaks left
are left out. -/
def brokenRun (budget : Nat) : List Nat → Act Unit
  | [] => run budget
  | k :: moments => (run k).further do
    modify pressed
    try run 1
    catch
      | .failed _ => enter (brokenRun budget moments) "CONT"
      | h => throw h

/-- The lines that are granted in all. -/
def granted (budget : Nat) (moments : List Nat) : Nat := moments.foldr (· + ·) budget

/-- Where lines are lacking, the number of the line to come is known. -/
theorem exists_lineAt (h : m.control.inRange) : ∃ n, m.control.lineAt? m.control.address = some n := by
  have hlt : m.control.address < m.control.table.size := of_decide_eq_true h
  exact ⟨_, Array.getElem?_eq_getElem hlt⟩

theorem brokenRun_eq_run (hm : m.Quiet) (budget : Nat) (moments : List Nat) :
    brokenRun budget moments m = run (granted budget moments) m := by
  induction moments generalizing m with
  | nil => rfl
  | cons k moments ih =>
    show (run k).further _ m = run (k + granted budget moments) m
    rw [run_add hm]
    -- either the moment of the first break comes, or the run is over before
    by_cases hx : ∃ m', run k m = .error .exhausted m'
    · obtain ⟨m', hrun⟩ := hx
      obtain ⟨hm', hin⟩ := quiet_of_exhausted hm hrun
      obtain ⟨n, hat⟩ := exists_lineAt hin
      have hpress : (modify pressed : Act Unit) m' = .ok () m'.pressed := rfl
      -- the break takes the key press back, and `CONT` finds the machine as it
      -- was
      rw [Act.further_of_exhausted hrun, Act.further_of_exhausted hrun, Act.bind_ok hpress]
      refine (Act.tryCatch_error (run_pressed hm' hat hin 0) _).trans ?_
      rw [← ih hm']
      refine enter_cont hin ?_
      intro m''
      rw [ih hm']
      exact runLines_ne_finished _ _
    · have hgranted (m' : Machine) : run k m ≠ .error .exhausted m' := fun h => hx ⟨m', h⟩
      rw [Act.further_of_granted hgranted, Act.further_of_granted hgranted]

/-- **Breaks leave no trace.** A run that is broken off at some moments between
its lines, and goes on with `CONT` each time, leaves the machine and has the
result of a run that is never broken off: after as many lines in all, and hence
in the end if it comes to one. Wherever it is between two lines, the error of
the next break names the line that is to come, and `CONT` goes on with it. -/
theorem breaks_leave_no_trace (hm : m.Quiet) (budget : Nat) (moments : List Nat) :
    brokenRun budget moments m = run (granted budget moments) m ∧
      (∀ lines ≤ granted budget moments, (∀ m', run lines m ≠ .error .exhausted m') →
        brokenRun budget moments m = run lines m) ∧
      ∀ m', brokenRun budget moments m = .error .exhausted m' →
        ∃ n control, m'.control.fetch = some (n, control) ∧
          (∀ lines, run (lines + 1) m'.pressed = .error (.failed (Error.breakKey.inLine n)) m') ∧
          ∀ lines, enter (run lines) "CONT" m' = run lines m' := by
  have heq := brokenRun_eq_run hm budget moments
  refine ⟨heq, ?_, ?_⟩
  · intro lines hle hx
    exact heq.trans (run_of_le hm hle hx)
  · intro m' hexhausted
    obtain ⟨hm', hin⟩ := quiet_of_exhausted hm (heq.symm.trans hexhausted)
    obtain ⟨n, hat⟩ := exists_lineAt hin
    refine ⟨n, m'.fetched.control, fetch_eq_some hat, run_pressed hm' hat hin, ?_⟩
    intro lines
    exact enter_cont hin fun m'' => runLines_ne_finished _ _

-- Breaks before the first question, at the same place once more, and between
-- the second answer and its use.
theorem breaks_leave_no_trace_asking :
    ∃ m m' : Machine, m.Quiet ∧
      (Session.afterwards (run 25) m).console.output = "n?5\n5\nn?6\n12\nn?7\n21\nDONE.\n" ∧
      brokenRun 20 [1, 0, 4] m = run 25 m ∧ brokenRun 0 [1, 0, 4] m = .error .exhausted m' ∧
      run 1 m'.pressed = .error (.failed (Error.breakKey.inLine 30)) m' := by
  have hm : ∃ m : Machine, (∀ x ∈ m.listing.lines, (Tape.ofStatements x.2).Avoids [.run, .resume, .load]) ∧
      m.console.breakIn = none ∧ m.console.interrupted = false ∧
      (Session.afterwards (run 25) m).console.output = "n?5\n5\nn?6\n12\nn?7\n21\nDONE.\n" ∧
      (brokenRun 0 [1, 0, 4]).halt? m = some .exhausted ∧
      (Session.afterwards (brokenRun 0 [1, 0, 4]) m).control.fetch.map (·.1) = some 30 :=
    ⟨Session.afterwards (do
      enter (run 0) "10 for i = 1 to 3"
      enter (run 0) "20 input \"n\"; a"
      enter (run 0) "30 print a * i"
      enter (run 0) "40 next"
      reset) { console := { answers := [some "5", some "6", some "7"] } }, by decide +kernel⟩
  obtain ⟨m, hlines, hbreak, hkey, houtput, hhalt, hnext⟩ := hm
  have hm : m.Quiet := ⟨hlines, hbreak, hkey⟩
  cases hrun : brokenRun 0 [1, 0, 4] m with
  | ok a m' =>
    rw [Act.halt?, hrun] at hhalt
    cases hhalt
  | error e m' =>
    rw [Act.halt?, hrun] at hhalt
    obtain rfl : e = .exhausted := Option.some.inj hhalt
    obtain ⟨n, control, hfetch, hpressed, -⟩ := (breaks_leave_no_trace hm 0 [1, 0, 4]).2.2 m' hrun
    rw [Session.afterwards, hrun] at hnext
    obtain rfl : n = 30 := by
      rw [hfetch] at hnext
      exact Option.some.inj hnext
    exact ⟨m, m', hm, houtput, (breaks_leave_no_trace hm 20 [1, 0, 4]).1, hrun, hpressed 0⟩

end Machine

end LineBasic
