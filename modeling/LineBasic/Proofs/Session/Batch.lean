import LineBasic.Proofs.Machine.Conduct
import LineBasic.Proofs.Session.Report

/-!
# A program from a file

A session without a user loads a program from a file and runs it. The name of
the file becomes part of a statement `LOAD`, between quotes, and there is no way
to write a quote in there. Any other character may stand in the name: the file
that is read is the one of that name, and the name has no other effect.

* `Machine.enter_load`, `Machine.enter_run`: the two lines that are entered.
* `Session.batch_loads_file`: what comes of a file.
* `Session.batch_splits_at_quote`: a quote in the name ends it, and what follows
  is executed.
-/

namespace LineBasic

namespace Machine

variable {m : Machine} {file : String}

/-- `LOAD` in quotes, entered by a user. -/
theorem enter_load (run : Act Unit) (hf : '"' ∉ file.toList) {r : EStateM.Result Halt Machine Unit}
    (h : (Action.load (.text file)).perform run none m = r) (hr : ∀ m', r ≠ .error .finished m') :
    enter run ("LOAD \"" ++ file ++ "\"") m = r := by
  have hopening : "LOAD \"" = Verb.spelling .load ++ " \"" := by decide
  obtain ⟨a, b, c, d, p, ht⟩ := ofLine_quoted (v := .load) nofun hopening hf
  have hexec : execute run ("LOAD \"" ++ file ++ "\"") m = r := by
    rw [execute_quoted (v := .load) run (fun _ _ => rfl) nofun hopening hf, bind_pure_unit, h]
  have hvacant : isVacant ("LOAD \"" ++ file ++ "\"") = false := by
    unfold isVacant
    rw [String.toList_append, String.toList_append]
    rfl
  rw [enter_of_cons ht nofun hvacant (fun m' => hexec ▸ hr m'), hexec]

/-- A file that is not there. -/
theorem load_missing (run : Act Unit) (hp : m.console.Plain) (hfile : m.console.storage.files[file]? = none) :
    (Action.load (.text file)).perform run none m = .error (.failed (.fileNotFound file)) m := by
  have hread : Act.readLines file m = .error (.failed (.fileNotFound file)) m := by
    have hlines : m.console.readLines file = .error (.fileNotFound file) := by
      simp only [Console.readLines, Storage.read, Storage.locate, hp.naming, hfile]
      rfl
    rw [Act.readLines, Act.inspect, hlines]
    rfl
  exact Act.bind_error hread _

/-- A file that makes no program. The lines before the one at fault are kept. -/
theorem load_failed (run : Act Unit) (hp : m.console.Plain) {text : String}
    (hfile : m.console.storage.files[file]? = some text) {e : Error} {l : Listing}
    (hl : Listing.load (lines text) = (.error e, l)) :
    (Action.load (.text file)).perform run none m = .error (.failed e) { m with listing := l } := by
  have hread : Act.readLines file m = .ok (lines text) m := by
    rw [Act.readLines, Act.inspect, hp.readLines hfile]
    rfl
  have hload : Act.loadLines (lines text) m = .error (.failed e) { m with listing := l } := by
    rw [Act.loadLines, hl]
  exact (Act.bind_ok hread _).trans (Act.bind_error hload _)

/-- A file that makes a program. -/
theorem load_done (run : Act Unit) (hp : m.console.Plain) (hs : m.console.Steady) {text : String}
    (hfile : m.console.storage.files[file]? = some text) {n : Nat} {l : Listing}
    (hl : Listing.load (lines text) = (.ok n, l)) :
    (Action.load (.text file)).perform run none m =
      .ok () ({ m with listing := l }.say
        ("PROGRAM LOADED: " ++ file ++ ", " ++ Nat.repr (lines text).length ++ " LINES")) := by
  have hread : Act.readLines file m = .ok (lines text) m := by
    rw [Act.readLines, Act.inspect, hp.readLines hfile]
    rfl
  have hload : Act.loadLines (lines text) m = .ok () { m with listing := l } := by
    rw [Act.loadLines, hl]
  refine (Act.bind_ok hread _).trans ((Act.bind_ok hload _).trans ?_)
  exact Act.printLine_steady (m := { m with listing := l }) hs _

theorem ofLine_run : Tape.ofLine "RUN" = .cons ⟨.verb .run, ⟨1, 1, 0⟩, ⟨1, 4, 3⟩⟩ (.stop ⟨1, 4, 3⟩) := by
  decide +kernel

/-- `RUN`, entered by a user: a reset and a run. -/
theorem enter_run (budget : Nat) (m : Machine) :
    enter (run budget) "RUN" m = (do reset; run budget : Act Unit) m := by
  have hread : Script.read (Tape.ofLine "RUN") = .step .run .done := by
    rw [ofLine_run]
    rfl
  have hexec : execute (run budget) "RUN" m = (do reset; run budget : Act Unit) m := by
    have hopen : execute (run budget) "RUN" = (Script.read (Tape.ofLine "RUN")).exec (run budget) none := by
      unfold execute
      rw [ofLine_run]
    rw [hopen, hread, Script.exec, Script.exec, bind_pure_unit]
    rfl
  have hne : ∀ m', (do reset; run budget : Act Unit) m ≠ .error .finished m' := by
    intro m'
    rcases reset_cases m with ⟨e, m₁, hreset, -⟩ | ⟨m₁, hreset, -⟩
    · rw [Act.bind_error hreset]
      intro h
      cases h
    · rw [Act.bind_ok hreset]
      exact runLines_ne_finished _ _
  rw [enter_of_cons ofLine_run (by intro n hn; cases hn) (by decide +kernel) (fun m' => hexec ▸ hne m'), hexec]

end Machine

namespace Session

open Machine (reset run)

variable {m m' : Machine} {file : String} {budget : Nat}

theorem batch_of_ok (h : play (run budget) file m = .ok () m') : batch budget file m = m' := by
  have hperform : perform (run budget) file m = .ok () m' := Act.tryCatch_ok h _
  unfold batch afterwards
  rw [hperform]

theorem batch_of_error {e : Halt} (h : play (run budget) file m = .error e m') :
    batch budget file m = afterwards (report e) m' := by
  have hperform : perform (run budget) file m = (do let _ ← report e : Act Unit) m' :=
    Act.tryCatch_error h fun e => do let _ ← report e
  unfold batch afterwards
  rw [hperform]
  cases hreport : report e m' with
  | ok b m'' =>
    rw [Act.bind_ok hreport]
    rfl
  | error e m'' => rw [Act.bind_error hreport]

/-- On a machine that is at no line, all there is to say about an error is its
message. -/
theorem afterwards_report_failed (hs : m.console.Steady) (hline : m.control.lineAt? m.control.address = none)
    (e : Error) : afterwards (report (.failed e)) m = m.say ("?" ++ e.message) := by
  have hinfo : m.lineInfo m.control.address "" = [] := by rw [Machine.lineInfo, hline]
  have hsay : complaint m e = ["?" ++ e.message] := by rw [complaint, hinfo, ite_self]
  unfold afterwards
  rw [report_failed hs, hsay]
  rfl

/-- **The file that is given is the one that is loaded.** Let no quote be in its
name. If there is no such file, all that happens is that this is reported. If
its lines make no program, that is reported, and the lines before the one at
fault are kept. Otherwise the program is the one that the lines make, that is
said, and it is reset and run; what stops it is reported. -/
theorem batch_loads_file (hf : '"' ∉ file.toList) {console : Console} (hp : console.Plain) (hs : console.Steady)
    (chance : StdGen) (budget : Nat) :
    let m : Machine := { console, chance }
    (console.storage.files[file]? = none →
      batch budget file m = m.say ("?FILE NOT FOUND" ++ if file.isEmpty then "" else "; " ++ file)) ∧
    ∀ text, console.storage.files[file]? = some text →
      (∀ e l, Listing.load (lines text) = (.error e, l) →
        batch budget file m = { m with listing := l }.say ("?" ++ e.message)) ∧
      ∀ n l, Listing.load (lines text) = (.ok n, l) →
        let loaded := { m with listing := l }.say
          ("PROGRAM LOADED: " ++ file ++ ", " ++ Nat.repr (lines text).length ++ " LINES")
        (∀ m', (do reset; run budget : Act Unit) loaded = .ok () m' → batch budget file m = m') ∧
        ∀ e m', (do reset; run budget : Act Unit) loaded = .error e m' →
          batch budget file m = afterwards (report e) m' := by
  intro m
  refine ⟨?_, ?_⟩
  · intro hfile
    have hload := Machine.enter_load (run budget) hf (Machine.load_missing (m := m) (run budget) hp hfile) nofun
    have hplay : play (run budget) file m = .error (.failed (.fileNotFound file)) m := Act.bind_error hload _
    rw [batch_of_error hplay, afterwards_report_failed hs rfl]
    rfl
  intro text hfile
  refine ⟨?_, ?_⟩
  · intro e l hl
    have hload := Machine.enter_load (run budget) hf (Machine.load_failed (m := m) (run budget) hp hfile hl) nofun
    have hplay : play (run budget) file m = .error (.failed e) { m with listing := l } := Act.bind_error hload _
    rw [batch_of_error hplay, afterwards_report_failed (m := { m with listing := l }) hs rfl]
  · intro n l hl loaded
    have hload := Machine.enter_load (run budget) hf (Machine.load_done (m := m) (run budget) hp hs hfile hl) nofun
    have hplay : play (run budget) file m = (do reset; run budget : Act Unit) loaded :=
      (Act.bind_ok hload _).trans (Machine.enter_run budget loaded)
    exact ⟨fun m' h => batch_of_ok (hplay.trans h), fun e m' h => batch_of_error (hplay.trans h)⟩

-- A colon, a blank and a line feed are in the name.
theorem batch_loads_file_colon :
    let m : Machine := { console := { storage := { files := .ofList [("a:b c\n", "10 print 1")] } } }
    let loaded := { m with listing := (Listing.load ["10 print 1"]).2 }.say "PROGRAM LOADED: a:b c\n, 1 LINES"
    (∃ m', (do reset; run 5 : Act Unit) loaded = .ok () m' ∧ batch 5 "a:b c\n" m = m') ∧
      (batch 5 "a:b c\n" m).console.output = "PROGRAM LOADED: a:b c\n, 1 LINES\n1\nDONE.\n" := by
  intro m loaded
  have hname : '"' ∉ "a:b c\n".toList := by decide
  have hfile : m.console.storage.files["a:b c\n"]? = some "10 print 1" := by decide +kernel
  have hlines : Listing.load (lines "10 print 1") = (.ok 1, (Listing.load ["10 print 1"]).2) := by decide +kernel
  obtain ⟨hdone, -⟩ := ((batch_loads_file hname ⟨rfl, rfl⟩ ⟨rfl, rfl⟩ mkStdGen 5).2 _ hfile).2 _ _ hlines
  refine ⟨?_, by decide +kernel⟩
  have hhalt : (do reset; run 5 : Act Unit).halt? loaded = none := by decide +kernel
  cases hrun : (do reset; run 5 : Act Unit) loaded with
  | ok u m' => exact ⟨m', rfl, hdone m' hrun⟩
  | error e m' =>
    rw [Act.halt?, hrun] at hhalt
    cases hhalt

-- The rest of the name is a statement of its own.
theorem batch_splits_at_quote :
    let m : Machine := { console := { storage := { files := .ofList [("A", "10 PRINT 1")] } } }
    (batch 5 "A\":PRINT \"HI" m).console.output = "PROGRAM LOADED: A, 1 LINES\nHI\n1\nDONE.\n" := by
  decide +kernel

end Session

end LineBasic
