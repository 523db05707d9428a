import LineBasic.Proofs.Machine.Quits
import LineBasic.Proofs.Session.Report

/-!
# No error ends a session

A session at the console takes one line after the other. Each is entered, and if
it fails that is said and the session goes on. It ends at the first line that
ends it, or when no line is left, with a farewell; what the user would have
typed after that stays unread. A question in a program takes its answers from
the same lines.

What a turn does is told here without a number of lines granted to a run. If
every line that is entered comes to an end, there is such a number, and with
more lines granted the session is the same.

* `Session.Turn`: a turn after which the session goes on.
* `Session.Closes`: a turn that ends it.
* `Session.interactive_closes`: the session takes turns until one ends it.
-/

namespace LineBasic

open Machine (Shift Shifts run)

/-! ### The console along the way -/

namespace Console

/-- The console after some use. It is as steady as before, and then the break
key was not pressed on the way. Answers were taken in turn. -/
structure Later (c c' : Console) : Prop where
  steady : c.Steady → c'.Steady
  unpressed : c.Steady → c.interrupted = false → c'.interrupted = false
  answers : c'.answers <:+ c.answers

variable {c c' c'' : Console}

theorem Later.refl (c : Console) : c.Later c := ⟨id, fun _ => id, List.suffix_rfl⟩

theorem Later.trans (h : c.Later c') (h' : c'.Later c'') : c.Later c'' :=
  ⟨fun hc => h'.steady (h.steady hc), fun hc hk => h'.unpressed (h.steady hc) (h.unpressed hc hk),
    h'.answers.trans h.answers⟩

theorem Follows.later (h : c.Follows c') : c.Later c' :=
  ⟨fun hc => ⟨h.failIn hc.failIn, h.breakIn hc.breakIn⟩, fun hc hk => (h.interrupted hc.breakIn).trans hk, h.answers⟩

theorem later_say (c : Console) (text : String) : c.Later (c.say text) :=
  ⟨fun h => h.say text, fun _ => id, List.suffix_rfl⟩

end Console

namespace Machine

variable {allowed : Verb → Prop} {m m' : Machine} {text : String}

theorem Shift.later (h : Shift allowed m m') : m.console.Later m'.console := by
  cases h with
  | use hf => exact hf.later
  | acknowledge => exact ⟨fun h => ⟨h.failIn, h.breakIn⟩, fun _ _ => rfl, List.suffix_rfl⟩
  | _ => exact .refl _

theorem Shifts.later (h : Shifts allowed m m') : m.console.Later m'.console :=
  h.keep (P := fun m' => m.console.Later m'.console) (fun _ _ hs hm => hm.trans hs.later) (.refl _)

theorem later_sayAll (m : Machine) (texts : List String) : m.console.Later (m.sayAll texts).console := by
  induction texts generalizing m with
  | nil => exact .refl _
  | cons text texts ih => exact (m.console.later_say text).trans (ih (m.say text))

theorem later_of_reaches {c c' : Config} (h : c.Reaches c') (hc : c.Fit) :
    c'.Fit ∧ c.machine.console.Later c'.machine.console := by
  induction h with
  | refl => exact ⟨hc, .refl _⟩
  | tail _ hnext ih =>
    obtain ⟨hfit, hlater⟩ := ih
    obtain ⟨hfit', ⟨hs, -⟩ | ⟨text, line, l, -, -, -, hmach, -⟩⟩ := Config.next_cases hfit hnext
    · exact ⟨hfit', hlater.trans hs.later⟩
    · rw [hmach]
      exact ⟨hfit', hlater⟩

theorem later_afterwards (m : Machine) (call : Call) (budget : Nat) :
    m.console.Later (Session.afterwards (call.act (run budget)) m).console := by
  obtain ⟨c, hreach, hm⟩ := exists_reaches_afterwards call budget m
  have hlater := (later_of_reaches hreach (Config.fit_call _ call)).2
  rw [hm] at hlater
  exact hlater

theorem Enters.later_ok {u : Unit} (h : m.Enters text (.ok u m')) : m.console.Later m'.console := by
  obtain ⟨-, budget, henter⟩ := h
  have hlater := later_afterwards m (.enter text) budget
  rw [Session.afterwards, Call.act, henter] at hlater
  exact hlater

theorem Enters.later_error {e : Halt} (h : m.Enters text (.error e m')) : m.console.Later m'.console := by
  obtain ⟨-, budget, henter⟩ := h
  have hlater := later_afterwards m (.enter text) budget
  rw [Session.afterwards, Call.act, henter] at hlater
  exact hlater

theorem Enters.ne_finished (h : m.Enters text (.error .finished m')) : False := by
  obtain ⟨-, budget, henter⟩ := h
  obtain ⟨e, he⟩ | ⟨hf, -⟩ := enter_halt henter
  · cases he
  · exact hf rfl

end Machine

/-! ### Turns -/

namespace Session

/-- The machine when a line was asked for. An empty line and the prompt were
printed, and if there is a line it was taken and echoed. -/
def prompted (m : Machine) : Machine := { m with console := ((m.console.say "").input "> ").2 }

/-- A turn after which the session goes on: the line that was entered has come
to a good end, or it has failed and that was said. Or else the break key was
pressed instead. -/
inductive Turn : Machine → Machine → Prop
  | done {m m' : Machine} {line : String} {rest : List (Option String)} :
      m.console.answers = some line :: rest → (prompted m).Enters line (.ok () m') → Turn m m'
  | failed {m m' : Machine} {line : String} {rest : List (Option String)} {e : Error} :
      m.console.answers = some line :: rest → (prompted m).Enters line (.error (.failed e) m') →
      Turn m (m'.sayAll (complaint m' e))
  | broken {m : Machine} {rest : List (Option String)} : m.console.answers = none :: rest →
      Turn m ((prompted m).sayAll (complaint (prompted m) .breakKey))

/-- A turn that ends the session: no line is left, or the line that was entered
ends it. -/
inductive Closes : Machine → Machine → Prop
  | silent {m : Machine} : m.console.answers = [] → Closes m ((prompted m).say "GOOD BYE!")
  | quit {m m' : Machine} {line : String} {rest : List (Option String)} :
      m.console.answers = some line :: rest → (prompted m).Enters line (.error .quit m') →
      Closes m (m'.say "GOOD BYE!")

/-- Some turns after which the session goes on. -/
def Turns : Machine → Machine → Prop := Relation.ReflTransGen Turn

/-- The machine when the user was greeted. -/
def greeted (m : Machine) : Machine := m.sayAll ["TINY BASIC INTERPRETER V1.00", "READY"]

variable {m m' m'' : Machine} {line : String} {rest : List (Option String)} {run : Act Unit} {e : Halt}

theorem prompted_later (m : Machine) : m.console.Later (prompted m).console :=
  (m.console.later_say "").trans ((m.console.say "").follows_input "> ").later

/-- The answer was taken. -/
theorem answers_prompted {a : Option String} (h : m.console.answers = a :: rest) :
    (prompted m).console.answers = rest := by
  have hs : (m.console.say "").answers = a :: rest := h
  unfold prompted Console.input
  rw [hs]
  cases a with
  | none => rfl
  | some line => rfl

theorem Turn.later (h : Turn m m') : m.console.Later m'.console := by
  cases h with
  | done _ henter => exact (prompted_later m).trans henter.later_ok
  | failed _ henter => exact (prompted_later m).trans (henter.later_error.trans (Machine.later_sayAll _ _))
  | broken _ => exact (prompted_later m).trans (Machine.later_sayAll _ _)

theorem Closes.later (h : Closes m m') : m.console.Later m'.console := by
  cases h with
  | silent _ => exact (prompted_later m).trans (Console.later_say _ _)
  | quit _ henter => exact (prompted_later m).trans (henter.later_error.trans (Console.later_say _ _))

theorem Turns.later (h : Turns m m') : m.console.Later m'.console := by
  induction h with
  | refl => exact .refl _
  | tail _ hturn ih => exact ih.trans hturn.later

theorem Closes.farewell (h : Closes m m') : ∃ before, m'.console.output = before ++ "GOOD BYE!\n" := by
  cases h with
  | silent _ => exact ⟨_, String.append_assoc ..⟩
  | quit _ _ => exact ⟨_, String.append_assoc ..⟩

/-! ### What a session does -/

theorem turn_of_some (run : Act Unit) (h : m.console.answers = some line :: rest) :
    turn run (m.say "") = Machine.enter run line (prompted m) := by
  have hs : (m.console.say "").answers = some line :: rest := h
  have hinput : Act.console (·.input "> ") (m.say "") = .ok line (prompted m) := by
    unfold Act.console prompted Console.input
    dsimp only [Machine.say]
    rw [hs]
  exact Act.bind_ok hinput _

theorem turn_of_none (run : Act Unit) (h : m.console.answers = none :: rest) :
    turn run (m.say "") = .error (.failed .breakKey) (prompted m) := by
  have hs : (m.console.say "").answers = none :: rest := h
  have hinput : Act.console (·.input "> ") (m.say "") = .error (.failed .breakKey) (prompted m) := by
    unfold Act.console prompted Console.input
    dsimp only [Machine.say]
    rw [hs]
  exact Act.bind_error hinput _

theorem turn_of_nil (run : Act Unit) (h : m.console.answers = []) :
    turn run (m.say "") = .error .quit (prompted m) := by
  have hs : (m.console.say "").answers = [] := h
  have hinput : Act.console (·.input "> ") (m.say "") = .error .quit (prompted m) := by
    unfold Act.console prompted Console.input
    dsimp only [Machine.say]
    rw [hs]
  exact Act.bind_error hinput _

theorem attend_of_ok (h : turn run m = .ok () m') : attend run m = .ok false m' := by
  refine (Act.bind_ok (a := .error false) (Act.tryCatch_ok ?_ _) _).trans rfl
  exact (Act.bind_ok h _).trans rfl

theorem attend_of_error {b : Bool} (h : turn run m = .error e m') (hreport : report e m' = .ok b m'') :
    attend run m = .ok b m'' := by
  refine (Act.bind_ok (a := .ok b) ((Act.tryCatch_error (Act.bind_error h _) _).trans ?_) _).trans rfl
  exact (Act.bind_ok hreport _).trans rfl

/-- A turn, and then the session goes on. -/
theorem turns_of_open (hs : m.console.Steady) (h : attend run (m.say "") = .ok false m') (n : Nat) :
    turns run (n + 1) m = turns run n m' :=
  (Act.bind_ok (Act.printLine_steady hs "") _).trans (Act.bind_ok h _)

/-- A turn, and then the session is over. -/
theorem turns_of_closed (hs : m.console.Steady) (h : attend run (m.say "") = .ok true m') (n : Nat) :
    turns run (n + 1) m = .ok () m' :=
  (Act.bind_ok (Act.printLine_steady hs "") _).trans (Act.bind_ok h _)

/-- **Turns are taken until one ends the session.** No more turns are needed
than there are lines left, and one for the farewell. -/
theorem exists_closes {n : Nat} (hn : m.console.answers.length < n) (hs : m.console.Steady)
    (hend : ∀ m₁, Turns m m₁ → ∀ line rest, m₁.console.answers = some line :: rest →
      ∃ r, (prompted m₁).Enters line r) :
    ∃ last final, Turns m last ∧ Closes last final ∧
      ∃ least, ∀ budget ≥ least, turns (Machine.run budget) n m = .ok () final := by
  induction n generalizing m with
  | zero => exact absurd hn (Nat.not_lt_zero _)
  | succ n ih =>
    have hprompted := (prompted_later m).steady hs
    -- a turn after which the session goes on, with enough lines granted
    have further {m₁ : Machine} (hturn : Turn m m₁) (hlen : m₁.console.answers.length < n) (enough : Nat)
        (hattend : ∀ budget ≥ enough, attend (Machine.run budget) (m.say "") = .ok false m₁) :
        ∃ last final, Turns m last ∧ Closes last final ∧
          ∃ least, ∀ budget ≥ least, turns (Machine.run budget) (n + 1) m = .ok () final := by
      obtain ⟨last, final, hturns, hclose, least, hleast⟩ :=
        ih hlen (hturn.later.steady hs) fun m₂ h₂ => hend m₂ (.head hturn h₂)
      refine ⟨last, final, .head hturn hturns, hclose, max enough least, ?_⟩
      intro budget hb
      rw [turns_of_open hs (hattend budget (le_trans (le_max_left ..) hb))]
      exact hleast budget (le_trans (le_max_right ..) hb)
    cases hanswers : m.console.answers with
    | nil =>
      refine ⟨m, _, .refl, .silent hanswers, 0, ?_⟩
      intro budget _
      exact turns_of_closed hs (attend_of_error (turn_of_nil _ hanswers) (report_quit hprompted)) n
    | cons a rest =>
      have hrest := answers_prompted hanswers
      rw [hanswers, List.length_cons] at hn
      cases a with
      | none =>
        refine further (.broken hanswers) ?_ 0 ?_
        · have hle := (Machine.later_sayAll (prompted m) (complaint (prompted m) .breakKey)).answers.length_le
          rw [hrest] at hle
          omega
        · intro budget _
          exact attend_of_error (turn_of_none _ hanswers) (report_failed hprompted _)
      | some line =>
        obtain ⟨r, henters⟩ := hend m .refl line rest hanswers
        obtain ⟨hr, enough, henough⟩ := id henters
        have henter (budget : Nat) (hb : budget ≥ enough) : turn (Machine.run budget) (m.say "") = r := by
          rw [turn_of_some _ hanswers]
          exact Machine.Enters.of_le (fun m' => (hr m').1) henough hb
        cases r with
        | ok u m₁ =>
          have hle := henters.later_ok.answers.length_le
          refine further (.done hanswers henters) (by rw [hrest] at hle; omega) enough fun budget hb => ?_
          exact attend_of_ok (henter budget hb)
        | error e m₁ =>
          have hlater := henters.later_error
          cases e with
          | finished => exact henters.ne_finished.elim
          | exhausted => exact absurd rfl (hr m₁).1
          | aborted => exact absurd rfl (hr m₁).2
          | quit =>
            refine ⟨m, _, .refl, .quit hanswers henters, enough, ?_⟩
            intro budget hb
            exact turns_of_closed hs (attend_of_error (henter budget hb) (report_quit (hlater.steady hprompted))) n
          | failed e =>
            have hle := (hlater.trans (Machine.later_sayAll m₁ (complaint m₁ e))).answers.length_le
            refine further (.failed hanswers henters) (by rw [hrest] at hle; omega) enough fun budget hb => ?_
            exact attend_of_error (henter budget hb) (report_failed (hlater.steady hprompted) e)

theorem interactive_of_turns {budget : Nat} (hs : m.console.Steady)
    (h : turns (Machine.run budget) ((greeted m).console.answers.length + 1) (greeted m) = .ok () m') :
    interactive budget m = m' := by
  have hgreet : greet m = .ok () (greeted m) := Act.printAll_steady hs _
  have hconverse : converse (Machine.run budget) m = .ok () m' := (Act.bind_ok hgreet _).trans h
  unfold interactive afterwards
  rw [hconverse]

/-- **No error ends a session.** If every line that is entered comes to an end,
and none of them ends the process, the session comes to an end: turns are taken,
in each of which the next line is entered and what makes it fail is said, until
one of them ends the session, with a farewell. What is left of the lines is what
was not taken by then. That a program is over is never passed on by a line or a
run, and a line ends the session if and only if it comes to `QUIT`, directly or
in a program, or to a question to which no answer is left. -/
theorem interactive_closes (hs : m.console.Steady)
    (hend : ∀ m₁, Turns (greeted m) m₁ → ∀ line rest, m₁.console.answers = some line :: rest →
      ∃ r, (prompted m₁).Enters line r) :
    (∃ last final, Turns (greeted m) last ∧ Closes last final ∧
      (∃ least, ∀ budget ≥ least, interactive budget m = final) ∧
      final.console.answers <:+ m.console.answers ∧
      ∃ before, final.console.output = before ++ "GOOD BYE!\n") ∧
    (∀ budget text m m', Machine.enter (Machine.run budget) text m ≠ .error .finished m' ∧
      Machine.run budget m ≠ .error .finished m') ∧
    ∀ m text r, Machine.Enters m text r →
      ((∃ m', r = .error .quit m') ↔
        ∃ c, Config.Reaches ⟨m, 0, [.call (.enter text)], none⟩ c ∧ c.Quits) := by
  have hgreeted : m.console.Later (greeted m).console := Machine.later_sayAll m _
  refine ⟨?_, ?_, fun m text r h => h.quit_iff⟩
  · obtain ⟨last, final, hturns, hclose, least, hleast⟩ :=
      exists_closes (Nat.lt_succ_self _) (hgreeted.steady hs) hend
    refine ⟨last, final, hturns, hclose, ⟨least, ?_⟩, ?_, hclose.farewell⟩
    · intro budget hb
      exact interactive_of_turns hs (hleast budget hb)
    · exact (hgreeted.trans (hturns.later.trans hclose.later)).answers
  · intro budget text m m'
    refine ⟨?_, Machine.runLines_ne_finished _ _⟩
    intro henter
    obtain ⟨e, he⟩ | ⟨hf, -⟩ := Machine.enter_halt henter
    · cases he
    · exact hf rfl

-- A jump to nowhere, a line that cannot be scanned, a question and its answer,
-- an answer that is no number, and `QUIT` behind another statement.
theorem interactive_closes_failing :
    let m : Machine := { console := { answers := [some "goto 5", some "10 + \"", some "input \"n\"; a", some "7",
      some "input \"n\"; a", some "x", some "print a: quit", some "print 3"] } }
    m.console.Steady ∧
      (∃ last final, Turns (greeted m) last ∧ Closes last final ∧
        ∃ least, ∀ budget ≥ least, interactive budget m = final) ∧
      (interactive 0 m).console.answers = [some "print 3"] ∧
      (interactive 0 m).console.output =
        "TINY BASIC INTERPRETER V1.00\nREADY\n\n> goto 5\n?UNDEFINED LINE; LINE 5 NOT FOUND\n\n> 10 + \"\n" ++
        "?SYNTAX ERROR AT 1:7; '\"' EXPECTED, BUT END OF LINE FOUND\n\n> input \"n\"; a\nn?7\n\n" ++
        "> input \"n\"; a\nn?x\n?TYPE MISMATCH; \"x\" IS NOT AN INTEGER\n\n> print a: quit\n7\nGOOD BYE!\n" := by
  intro m
  have hs : m.console.Steady := ⟨rfl, rfl⟩
  have hlines : ∀ a ∈ m.console.answers, ∀ line ∈ a, (Tape.ofLine line).Avoids [.run, .resume, .dim] := by decide +kernel
  obtain ⟨⟨last, final, hturns, hclose, hleast, -⟩, -⟩ := interactive_closes hs fun m₁ hturns line rest hanswers => by
    have hgreeted : m.console.Later (greeted m).console := Machine.later_sayAll m _
    have hmem := (hgreeted.trans hturns.later).answers.subset (hanswers ▸ List.mem_cons_self)
    exact Machine.exists_enters (hlines _ hmem line rfl) (prompted m₁)
  exact ⟨hs, ⟨last, final, hturns, hclose, hleast⟩, by decide +kernel, by decide +kernel⟩

end Session

end LineBasic
