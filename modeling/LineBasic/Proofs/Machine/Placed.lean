import LineBasic.Proofs.Machine.ChecksFirst
import LineBasic.Proofs.Machine.Resume

/-!
# Where the text is at fault

If a line makes no sense, the error says where. The position is counted in the
text that is at fault, and this is the text that was entered, a line of the
program, or a line of a file that was to be loaded. Bodies of loops in one line
are no exception: though they are read as texts of their own, their positions
are those of the line.

* `Act.Faults`: what is known of the faults that an act finds in texts.
* `Script.exec_faults`: a script blames the text that it was read from.
* `Machine.runNested_faults`: a program blames its lines.
* `Machine.execute_run_faults`: a text blames itself, or the program that it
  runs.
* `positions_by_offset`: positions are determined by offsets, in cursors,
  lexemes and errors.
-/

namespace LineBasic

namespace Act

variable {allowed : Verb → Prop} {fault : Machine → Error → Prop} {α β : Type}

/-- Whenever the act fails since a text is at fault, it is as `fault` says. -/
def Faults (fault : Machine → Error → Prop) (x : Act α) : Prop :=
  ∀ m e m', x m = .error (.failed e) m' → e.kind = .syntaxError → fault m' e

theorem Does.faults {x : Act α} (h : x.Does allowed fault) : x.Faults fault := by
  intro m e m' hx
  have hm := h m
  rw [hx] at hm
  exact hm.2.2.2 e rfl

theorem faults_pure (a : α) : (pure a : Act α).Faults fault := by
  intro m e m' hx
  cases hx

/-- An act halts, or else what follows it does. -/
theorem error_of_bind {x : Act α} {f : α → Act β} {m m' : Machine} {k : Halt} (h : (x >>= f) m = .error k m') :
    x m = .error k m' ∨ ∃ a m₁, x m = .ok a m₁ ∧ f a m₁ = .error k m' := by
  cases hm : x m with
  | ok a m₁ =>
    rw [bind_ok hm] at h
    exact .inr ⟨a, m₁, rfl, h⟩
  | error k' m₁ =>
    rw [bind_error hm] at h
    cases h
    exact .inl rfl

theorem Faults.bind {x : Act α} (hx : x.Faults fault) {f : α → Act β} (hf : ∀ a, (f a).Faults fault) :
    (x >>= f).Faults fault := by
  intro m e m' h
  rcases error_of_bind h with hm | ⟨a, m₁, -, hfa⟩
  · exact hx m e m' hm
  · exact hf a m₁ e m' hfa

theorem faults_if {c : Prop} [Decidable c] {x y : Act α} (hx : x.Faults fault) (hy : y.Faults fault) :
    (if c then x else y).Faults fault := by
  split
  · exact hx
  · exact hy

theorem faults_get {f : Machine → Act α} (h : ∀ m, (f m).Faults fault) : ((get : Act Machine) >>= f).Faults fault :=
  fun m => h m m

/-- Errors are passed on by what is done when an act halts. -/
theorem Faults.tryCatch {x : Act α} (hx : x.Faults fault) {g : Halt → Act α}
    (hfailed : ∀ e m, g (.failed e) m = .error (.failed e) m)
    (hg : ∀ h, (∀ e, h ≠ .failed e) → (g h).Faults fault) : (tryCatch x g).Faults fault := by
  intro m e m' h
  cases hm : x m with
  | ok a m₁ =>
    rw [tryCatch_ok hm] at h
    cases h
  | error k m₁ =>
    rw [tryCatch_error hm] at h
    cases k with
    | failed e₀ =>
      rw [hfailed] at h
      cases h
      exact hx m e m' hm
    | _ => exact hg _ (fun _ => Halt.noConfusion) m₁ e m' h

/-- A pass leaves less room, and the measure of `passes` is that room. -/
theorem passes_faults (limit : Int64) (step : Stride) {pass : Int64 → Act Unit} (h : ∀ v, (pass v).Faults fault)
    (v : Int64) : (passes limit step pass v).Faults fault := by
  rw [passes]
  split
  · refine (h v).bind fun _ => ?_
    split
    case h_1 w hw =>
      have := Stride.room_lt_of_next? hw
      exact passes_faults limit step h w
    case h_2 => exact faults_pure ()
  · exact faults_pure ()
termination_by step.room v

end Act

/-! ### Scripts -/

section Scripts

variable {allowed : Verb → Prop} {here : Position → Prop} {fault : Machine → Error → Prop} {run : Act Unit}
  (hr : run.Faults fault)

include hr

theorem Action.perform_faults {a : Action} (h : a.PartsFit) (hf : ∀ (m : Machine) e, m.FaultInFile e → fault m e)
    (line : Option Int64) : (a.perform run line).Faults fault := by
  by_cases hrun : a = .run
  · subst hrun
    have hreset : Machine.reset.Does (fun _ => True) fault := Machine.reset_does
    exact hreset.faults.bind fun _ => hr
  by_cases hresume : a = .resume
  · subst hresume
    have hfail : (Act.fail .cantContinue : Act Unit).Does (fun _ => True) fault := Act.does_fail ⟨nofun, nofun⟩
    exact Act.faults_get fun m => Act.faults_if hr hfail.faults
  · have hdoes : (a.perform run line).Does (fun _ => True) fault :=
      a.perform_does run line ⟨fun _ _ => trivial, h⟩ hf hrun hresume
    exact hdoes.faults

/-- **A script blames the text that it was read from**, a file, or what a run
that it starts blames. -/
theorem Script.exec_faults {s : Script} (h : s.Fits allowed here) (hf : ∀ m e, Machine.Faulty here m e → fault m e)
    (line : Option Int64) : (s.exec run line).Faults fault := by
  induction s with
  | done => exact Act.faults_pure ()
  | broken before error =>
    have hbroken : (do Act.check before; Act.fail error : Act Unit).Does (fun _ => True) fault :=
      (Act.check_does h.1).bind fun _ => Act.does_fail_sited h.2 fun m hp => hf m _ (.inl hp)
    exact hbroken.faults
  | step action rest ih =>
    exact (Action.perform_faults hr h.1.parts (fun m e he => hf m e (.inr he)) line).bind fun _ => ih h.2
  | branch condition yes no hyes hno =>
    have htruth : (Act.truth condition).Does (fun _ => True) fault := Act.truth_does h.1
    exact htruth.faults.bind fun b => Act.faults_if (hyes h.2.1) (hno h.2.2)
  | loop head body rest hbody hrest =>
    have hrange : (Act.range head).Does (fun _ => True) fault := Act.range_does h.1
    refine hrange.faults.bind fun r => ?_
    refine (Act.passes_faults _ _ (fun v => ?_) _).bind fun _ => hrest h.2.2
    have hwrite : (Act.writeNumber head.place.name r.1 (.integer v)).Does (fun _ => True) fault :=
      Act.writeNumber_does _ _ _
    exact hwrite.faults.bind fun _ => hbody h.2.1

end Scripts

namespace Machine

/-- The text is at fault, or a line of a file, or a run finds a fault. -/
def Fault (text : String) (run : Act Unit) (m : Machine) (e : Error) : Prop :=
  (e.line = none ∧ e.PlacedIn text) ∨ m.FaultInFile e ∨ ∃ m₁, run m₁ = .error (.failed e) m

section Texts

variable (run : Act Unit) (text : String)

/-- What a run finds is a fault in any case. -/
theorem run_fault : run.Faults (Fault text run) := fun m _ _ h _ => .inr (.inr ⟨m, h⟩)

theorem fault_of_faulty (m : Machine) (e : Error) (h : m.Faulty (Position.LiesIn text.toList) e) :
    Fault text run m e := by
  rcases h with h | h
  · exact .inl ⟨h.1, h.placedIn⟩
  · exact .inr (.inl h)

theorem execute_faults : (execute run text).Faults (Fault text run) := by
  have htape : (Tape.ofLine text).Fits (fun _ => True) (Position.LiesIn text.toList) :=
    (Tape.scannable_ofLine text).fits fun _ _ => trivial
  obtain ⟨line, s, -, hfits, hexec⟩ := Task.exists_ofText htape
  rw [hexec run]
  exact Script.exec_faults (run_fault run text) hfits (fault_of_faulty run text) line

theorem executeLine_faults (n : Int64) : (executeLine run n text).Faults (Fault text run) := by
  have htape : (Tape.ofStatements text).Fits (fun _ => True) (Position.LiesIn text.toList) :=
    (Tape.scannable_ofStatements text).fits fun _ _ => trivial
  exact Script.exec_faults (run_fault run text) (Script.read_fits htape) (fault_of_faulty run text) (some n)

end Texts

/-! ### Runs -/

/-- A line of the program is at fault: it was executed when this was its text,
and the error says where in it. No other line had been named before. -/
def FaultInLine (budget : Nat) (m : Machine) (e : Error) : Prop :=
  ∃ depth n text m₁ e₀, m₁.listing.find? n = some text ∧
    executeLine (runNested budget depth) n text m₁ = .error (.failed e₀) m ∧ e₀.line = none ∧ e = e₀.inLine n ∧
    e.PlacedIn text

/-- A line of the program or of a file is at fault. -/
def FaultInProgram (budget : Nat) (m : Machine) (e : Error) : Prop := m.FaultInLine budget e ∨ m.FaultInFile e

theorem FaultInFile.inLine {m : Machine} {e : Error} (h : m.FaultInFile e) (n : Int64) : m.FaultInFile (e.inLine n) := by
  obtain ⟨file, texts, text, e₀, hread, htext, hparse, he, hplace⟩ := h
  refine ⟨file, texts, text, e₀, hread, htext, hparse, .inr ?_, hplace.inLine n⟩
  rcases he with rfl | ⟨k, rfl⟩
  · exact ⟨n, rfl⟩
  · exact ⟨k, Error.inLine_inLine e₀ k n⟩

/-- An error that names its line already is not changed by the lines around
it. -/
theorem FaultInProgram.inLine {budget : Nat} {m : Machine} {e : Error} (h : m.FaultInProgram budget e) (n : Int64) :
    m.FaultInProgram budget (e.inLine n) := by
  rcases h with ⟨depth, k, text, m₁, e₀, hfind, hline, hnone, rfl, hplace⟩ | hfile
  · rw [Error.inLine_inLine]
    exact .inl ⟨depth, k, text, m₁, e₀, hfind, hline, hnone, rfl, hplace⟩
  · exact .inr (hfile.inLine n)

/-- An error of a line is one of its statements, with the number of the line. -/
theorem asLine_failed {x : Act Unit} {n : Int64} {m m' : Machine} {e : Error}
    (h : asLine n x m = .error (.failed e) m') : ∃ e₀, x m = .error (.failed e₀) m' ∧ e = e₀.inLine n := by
  rw [asLine] at h
  rcases Act.error_of_bind h with hcatch | ⟨u, m₁, -, hrest⟩
  · cases hx : x m with
    | ok u m₁ =>
      rw [Act.tryCatch_ok hx] at hcatch
      cases hcatch
    | error k m₁ =>
      rw [Act.tryCatch_error hx] at hcatch
      cases k with
      | failed e₀ =>
        cases hcatch
        exact ⟨e₀, rfl, rfl⟩
      | _ => cases hcatch
  · cases hrest

/-- The current line of a program blames its own text, or the runs inside it
do. -/
theorem step_faults {budget depth : Nat} (h : (runNested budget depth).Faults (FaultInProgram budget)) :
    (step (runNested budget depth)).Faults (FaultInProgram budget) := by
  intro m e m' hstep hk
  cases hat : m.control.lineAt? m.control.address with
  | none =>
    rw [step_of_none _ hat] at hstep
    cases hstep
  | some n =>
    cases hfind : m.listing.find? n with
    | none =>
      rw [step_of_vanished _ hat hfind] at hstep
      cases hstep
      cases hk
    | some text =>
      rw [step_of_text _ hat hfind] at hstep
      obtain ⟨e₀, hline, rfl⟩ := asLine_failed hstep
      rw [Error.kind_inLine] at hk
      rcases executeLine_faults _ text n m.fetched e₀ m' hline hk with ⟨hnone, hplace⟩ | hfile | ⟨m₁, hrun⟩
      · exact .inl ⟨depth, n, text, m.fetched, e₀, hfind, hline, hnone, rfl, hplace.inLine n⟩
      · exact .inr (hfile.inLine n)
      · exact (h m₁ e₀ m' hrun hk).inLine n

theorem advanceRun_faults {budget depth : Nat} (h : (runNested budget depth).Faults (FaultInProgram budget)) :
    (advanceRun (runNested budget depth)).Faults (FaultInProgram budget) := by
  have hbreak : checkBreak.Does (fun _ => True) (FaultInProgram budget) := checkBreak_does
  refine hbreak.faults.bind fun _ => ?_
  refine Act.Faults.tryCatch ?_ (fun _ _ => rfl) ?_
  · exact (step_faults h).bind fun _ => Act.faults_get fun m => Act.faults_pure _
  · intro k hk
    cases k with
    | failed e => exact absurd rfl (hk e)
    | finished => exact Act.faults_pure false
    | _ =>
      intro m e m' he
      cases he

theorem runLines_faults {budget depth : Nat} (h : (runNested budget depth).Faults (FaultInProgram budget)) (lines : Nat) :
    (runLines (runNested budget depth) lines).Faults (FaultInProgram budget) := by
  have hprint : (Act.printLine "DONE.").Does (fun _ => True) (FaultInProgram budget) := Act.printLine_does _
  induction lines with
  | zero =>
    refine Act.faults_get fun m => Act.faults_if ?_ hprint.faults
    intro m e m' he
    cases he
  | succ lines ih =>
    refine Act.faults_get fun m => Act.faults_if ?_ hprint.faults
    exact (advanceRun_faults h).bind fun go => Act.faults_if ih hprint.faults

/-- **A program blames its own lines, or those of a file that it loads.** -/
theorem runNested_faults (budget depth : Nat) : (runNested budget depth).Faults (FaultInProgram budget) := by
  induction depth with
  | zero =>
    have hfail : (Act.fail .nestedTooDeep : Act Unit).Does (fun _ => True) (FaultInProgram budget) :=
      Act.does_fail ⟨nofun, nofun⟩
    exact hfail.faults
  | succ depth ih => exact runLines_faults ih budget

/-! ### Lines that are entered -/

section Entering

variable (budget : Nat) (text : String)

/-- The text is at fault, or a line of the program or of a file. -/
def FaultOnEntry (m : Machine) (e : Error) : Prop :=
  (e.line = none ∧ e.PlacedIn text) ∨ m.FaultInProgram budget e

theorem execute_run_faults : (execute (run budget) text).Faults (FaultOnEntry budget text) := by
  intro m e m' h hk
  rcases execute_faults (run budget) text m e m' h hk with hplace | hfile | ⟨m₁, hrun⟩
  · exact .inl hplace
  · exact .inr (.inr hfile)
  · exact .inr (runNested_faults budget runDepth m₁ e m' hrun hk)

/-- A line that cannot be stored blames its text. -/
theorem edit_faults : (edit text).Faults (FaultOnEntry budget text) := by
  have hparse : (Act.ofExcept (Line.parse text)).Faults (FaultOnEntry budget text) := by
    intro m e m' h hk
    cases hline : Line.parse text with
    | ok line =>
      rw [hline] at h
      cases h
    | error e₀ =>
      rw [hline] at h
      cases h
      have hat := (Line.sited_parse text e hline).place hk
      exact .inl ⟨hat.1, hat.placedIn⟩
  refine hparse.bind fun line => Act.Faults.bind ?_ fun l => ?_
  · intro m e m' h hk
    cases hedit : m.listing.edit line with
    | ok l =>
      rw [Act.inspect_ok hedit] at h
      cases h
    | error e₀ =>
      rw [Act.inspect_error hedit] at h
      cases h
      -- the number may be missing or too great, but the text is not at fault
      unfold Listing.edit at hedit
      split at hedit
      · exact absurd hk (Act.everyday_store _ _ _ e hedit).notSyntax
      · obtain rfl := Except.error.inj hedit
        cases hk
  · intro m e m' h
    cases h

/-- **A line that is entered blames its own text, a line of the program or one
of a file.** -/
theorem enter_faults : (enter (run budget) text).Faults (FaultOnEntry budget text) := by
  have hscan := Tape.scannable_ofLine text
  unfold enter
  split
  · exact Act.faults_pure ()
  · split
    case h_1 e ht =>
      rw [ht] at hscan
      have hfail : (Act.fail e : Act Unit).Does (fun _ => True) (FaultOnEntry budget text) :=
        Act.does_fail_sited hscan fun m hat => .inl ⟨hat.1, hat.placedIn⟩
      exact hfail.faults
    case h_2 => exact edit_faults budget text
    case h_3 =>
      refine (execute_run_faults budget text).tryCatch (fun _ _ => rfl) ?_
      intro k hk
      cases k with
      | failed e => exact absurd rfl (hk e)
      | finished => exact Act.faults_pure ()
      | _ =>
        intro m e m' he
        cases he

end Entering

end Machine

/-- **Positions are determined by offsets.** However a cursor of a text was
reached, it is the one at its offset: before it lie as many line feeds as its
line tells, and since the last of them as many characters as its column tells.
So a text is scanned in the same way from every lexeme on, its number and a
comment apart. And an error that blames a text has the position of the cursor at
its offset in that text. This holds for scanning, for a line that is executed in
a program or outside of any, and for all that comes of entering a line. -/
theorem positions_by_offset (text : String) :
    (∀ c, Cursor.Reached text.toList c → c = .atOffset text.toList c.position.offset ∧
      ∃ before, before ++ c.rest = text.toList ∧ c.position.line = 1 + before.count '\n' ∧
        c.position.column = 1 + (before.reverse.takeWhile (· ≠ '\n')).length) ∧
    (∀ x rest, (Tape.ofLine text).From (.cons x rest) → (∀ n, x.token ≠ .lineNumber n) →
      (∀ s, x.token ≠ .comment s) → (Scanner.atOffset text.toList x.start.offset).tape = .cons x rest) ∧
    (∀ e, (Tape.ofLine text).lexemes = .error e ∨
      (∃ offset, (Scanner.atOffset text.toList offset).tape.lexemes = .error e) →
        e.kind = .syntaxError → e.PlacedIn text) ∧
    (∀ run m e m', Machine.execute run text m = .error (.failed e) m' ∨
      (∃ n, Machine.executeLine run n text m = .error (.failed e) m') →
        e.kind = .syntaxError → Machine.Fault text run m' e) ∧
    ∀ budget m e m', Machine.enter (Machine.run budget) text m = .error (.failed e) m' →
      e.kind = .syntaxError → Machine.FaultOnEntry budget text m' e := by
  refine ⟨?_, ?_, ?_, ?_, ?_⟩
  · intro c hc
    refine ⟨hc.standsIn.eq_atOffset, ?_⟩
    obtain ⟨before, hbefore, hp⟩ := hc.standsIn
    exact ⟨before, hbefore, by rw [hp]; rfl, by rw [hp]; rfl⟩
  · intro x rest hfrom hnumber hcomment
    exact Scanner.tape_atOffset (Scanner.ready_ofText _) hfrom hnumber hcomment
  · rintro e (he | ⟨offset, he⟩) hk
    · exact (((Tape.scannable_ofLine text).lexemes e he).place hk).placedIn
    · have hscan := Scanner.scannable_tape (Scanner.ready_atOffset text.toList offset)
      exact ((hscan.lexemes e he).place hk).placedIn
  · rintro run m e m' (he | ⟨n, he⟩) hk
    · exact Machine.execute_faults run text m e m' he hk
    · exact Machine.executeLine_faults run text n m e m' he hk
  · intro budget m e m' he hk
    exact Machine.enter_faults budget text m e m' he hk

/-- Behind a text with a line feed and a letter of two bytes: in the line that
was entered, and in the error of the line that is stored. -/
theorem positions_by_offset_lines :
    (Scanner.atOffset "10 A$=\"é\n\":B 7".toList 12).tape =
        .ofList ⟨2, 6, 15⟩ [⟨.name "B", ⟨2, 3, 12⟩, ⟨2, 4, 13⟩⟩, ⟨.number 7, ⟨2, 5, 14⟩, ⟨2, 6, 15⟩⟩] ∧
      ∃ e m', Machine.enter (Machine.run 5) "RUN" (Machine.typed ["10 A$=\"é\n\":B 7"]) = .error (.failed e) m' ∧
        e.kind = .syntaxError ∧ e.line = some 10 ∧ e.position = some ⟨2, 7, 15⟩ ∧
        Machine.FaultOnEntry 5 "RUN" m' e := by
  have htape : Tape.ofLine "10 A$=\"é\n\":B 7" = .ofList ⟨2, 6, 15⟩ [⟨.lineNumber 10, ⟨1, 1, 0⟩, ⟨1, 3, 2⟩⟩,
      ⟨.name "A$", ⟨1, 4, 3⟩, ⟨1, 6, 5⟩⟩, ⟨.equal, ⟨1, 6, 5⟩, ⟨1, 7, 6⟩⟩, ⟨.quoted "é\n", ⟨1, 7, 6⟩, ⟨2, 2, 11⟩⟩,
      ⟨.colon, ⟨2, 2, 11⟩, ⟨2, 3, 12⟩⟩, ⟨.name "B", ⟨2, 3, 12⟩, ⟨2, 4, 13⟩⟩,
      ⟨.number 7, ⟨2, 5, 14⟩, ⟨2, 6, 15⟩⟩] := by
    decide +kernel
  refine ⟨?_, ?_⟩
  · refine (positions_by_offset "10 A$=\"é\n\":B 7").2.1 ⟨.name "B", ⟨2, 3, 12⟩, ⟨2, 4, 13⟩⟩
      (.ofList ⟨2, 6, 15⟩ [⟨.number 7, ⟨2, 5, 14⟩, ⟨2, 6, 15⟩⟩]) ?_ (fun _ => Token.noConfusion)
      fun _ => Token.noConfusion
    rw [htape]
    exact .later _ (.later _ (.later _ (.later _ (.later _ (.here _ _)))))
  · obtain ⟨m', hrun⟩ := Act.exists_error_of_halt? (x := Machine.enter (Machine.run 5) "RUN")
      (m := Machine.typed ["10 A$=\"é\n\":B 7"])
      (h := .failed ⟨.syntaxError, some 10, some ⟨2, 7, 15⟩, "'=' EXPECTED, BUT '7' FOUND"⟩) (by decide +kernel)
    exact ⟨_, m', hrun, rfl, rfl, rfl, (positions_by_offset "RUN").2.2.2.2 5 _ _ m' hrun rfl⟩

end LineBasic
