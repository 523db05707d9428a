import LineBasic.Proofs.Machine.Resume

/-!
# What a session prints

A console on which no print fails and no break key is pressed takes down what is
said. There the lines that a machine prints, and the report of what stopped it,
are added to the output, and nothing else changes.

* `Machine.say`, `Machine.sayAll`: the machine after lines were printed.
* `Session.complaint`: what there is to say about an error.
* `Session.afterwards_report`: a report prints just that.
* `Session.report_failed`, `Session.report_quit`: what is reported on such a
  console.
* `Machine.enter_of_cons`: a statement that is entered is executed.
-/

namespace LineBasic

namespace Console

/-- No print fails, and none presses the break key. -/
structure Steady (c : Console) : Prop where
  failIn : c.failIn = none
  breakIn : c.breakIn = none

/-- The console with one more line printed. -/
def say (c : Console) (text : String) : Console := { c with output := c.output ++ text ++ "\n" }

variable {c : Console}

theorem Steady.say (h : c.Steady) (text : String) : (c.say text).Steady := ⟨h.failIn, h.breakIn⟩

theorem Steady.print (h : c.Steady) (text : String) : c.print text true = (.ok (), c.say text) := by
  obtain ⟨output, answers, storage, clears, interrupted, breakIn, failIn, unanswered⟩ := c
  obtain rfl : failIn = none := h.failIn
  obtain rfl : breakIn = none := h.breakIn
  rfl

end Console

namespace Machine

/-- The machine with one more line printed. -/
def say (m : Machine) (text : String) : Machine := { m with console := m.console.say text }

/-- The machine with more lines printed. -/
def sayAll (m : Machine) (texts : List String) : Machine := texts.foldl say m

end Machine

namespace Act

variable {m : Machine}

theorem printLine_cases (text : String) (m : Machine) :
    ∃ console, printLine text m = .ok () { m with console } ∨
      ∃ h, printLine text m = .error h { m with console } := by
  unfold printLine print console
  cases hp : m.console.print text true with
  | mk x c =>
    cases x with
    | ok u => exact ⟨c, .inl (by simp only [hp])⟩
    | error h => exact ⟨c, .inr ⟨h, by simp only [hp]⟩⟩

theorem printLine_steady (h : m.console.Steady) (text : String) : printLine text m = .ok () (m.say text) := by
  simp only [printLine, print, console, h.print text]
  rfl

theorem printAll_steady (h : m.console.Steady) (texts : List String) : printAll texts m = .ok () (m.sayAll texts) := by
  induction texts generalizing m with
  | nil => rfl
  | cons text texts ih => exact (bind_ok (printLine_steady h text) _).trans (ih (h.say text))

end Act

/-! ### Reports -/

namespace Session

/-- What there is to say about an error: its message, and the line at which the
program is, unless the error arose outside any program line or is one of the
text. -/
def complaint (m : Machine) (e : Error) : List String :=
  ("?" ++ e.message) :: if e.isSyntax || e.isDirect then [] else m.lineInfo m.control.address ""

variable {m m' : Machine} {e : Error}

theorem report_quit (h : m.console.Steady) : report .quit m = .ok true (m.say "GOOD BYE!") :=
  (Act.bind_ok (Act.tryCatch_ok (Act.printLine_steady h "GOOD BYE!") _) _).trans rfl

/-- Behind its message an error has the rest of the complaint printed. -/
theorem printAll_complaint {console : Console} (h : Act.printLine ("?" ++ e.message) m = .ok () { m with console }) :
    Act.printAll (complaint m e) m =
      (if !e.isSyntax && !e.isDirect then (do Machine.dump (← get).control.address "") else pure () : Act Unit)
        { m with console } := by
  refine (Act.bind_ok h _).trans ?_
  rw [← Bool.not_or]
  cases e.isSyntax || e.isDirect with
  | true => rfl
  | false => rfl

theorem report_of_printed (h : Act.printAll (complaint m e) m = .ok () m') : report (.failed e) m = .ok false m' := by
  obtain ⟨console, hsaid | ⟨h', hsaid⟩⟩ := Act.printLine_cases ("?" ++ e.message) m
  · rw [printAll_complaint hsaid] at h
    refine (Act.bind_ok (a := .error false) (Act.tryCatch_ok ((Act.bind_ok hsaid _).trans ?_) _) _).trans rfl
    cases hshow : !e.isSyntax && !e.isDirect with
    | true =>
      rw [hshow] at h
      exact (Act.bind_ok h _).trans rfl
    | false =>
      rw [hshow] at h
      cases h
      rfl
  · rw [complaint, Act.printAll, Act.bind_error hsaid] at h
    cases h

theorem report_failed (h : m.console.Steady) (e : Error) :
    report (.failed e) m = .ok false (m.sayAll (complaint m e)) :=
  report_of_printed (Act.printAll_steady h (complaint m e))

end Session

/-! ### Entering a statement -/

namespace Machine

variable {m : Machine}

/-- Without a line number a text that is entered is executed. -/
theorem enter_of_cons {run : Act Unit} {text : String} {x : Lexeme} {rest : Tape}
    (ht : Tape.ofLine text = .cons x rest) (hx : ∀ n, x.token ≠ .lineNumber n) (hv : isVacant text = false)
    (hne : ∀ m', execute run text m ≠ .error .finished m') : enter run text m = execute run text m := by
  unfold enter
  rw [ht, hv]
  obtain ⟨token, p, q⟩ := x
  cases hexec : execute run text m with
  | ok u m' =>
    cases token with
    | lineNumber n => exact absurd rfl (hx n)
    | _ => exact Act.tryCatch_ok hexec _
  | error e m' =>
    cases e with
    | finished => exact absurd hexec (hne m')
    | _ =>
      cases token with
      | lineNumber n => exact absurd rfl (hx n)
      | _ => exact Act.tryCatch_error hexec _

end Machine

end LineBasic
