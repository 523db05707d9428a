import LineBasic.Proofs.Machine.Calls
import LineBasic.Proofs.Machine.Granted

/-!
# What ends a session

A session is over when a line that was entered halts for that reason. Whatever
is under way then is given up, in any number of runs and loops, and no task
stands in the way. And there are two things only that make a line halt so: a
statement `QUIT`, wherever it stands, and a question to which no answer is left.

* `Config.Quits`: such a statement is to be executed.
* `Config.quits_of_halts`: nothing else ends a session.
* `Config.Quits.halts`: nothing keeps such a statement from ending it.
* `Machine.Enters.quit_iff`: a line that is entered ends the session if and only
  if it comes to such a statement.
-/

namespace LineBasic

/-! ### Questions -/

namespace Console

variable {c : Console} {prompt : String}

theorem answers_of_quit (h : (c.input prompt).1 = .error .quit) : c.answers = [] := by
  unfold input at h
  split at h
  case h_1 hnil => exact hnil
  case h_2 => cases h
  case h_3 => cases h

theorem answers_of_quit_integer (h : (c.inputInteger prompt).1 = .error .quit) : c.answers = [] := by
  unfold inputInteger at h
  split at h
  case h_1 line _ _ =>
    unfold integerOf at h
    split at h
    · cases h
    · cases h
  case h_2 e c' hc =>
    obtain rfl := Except.error.inj h
    exact answers_of_quit (by rw [hc])

end Console

namespace Act

variable {α : Type} {m m' : Machine} {e : Halt}

theorem ne_quit_failed (e : Error) : (fun h => h ≠ Halt.quit) (.failed e) := Halt.noConfusion

theorem halt_of_console {g : Console → Except Halt α × Console} (h : console g m = .error e m') :
    (g m.console).1 = .error e := by
  unfold console at h
  split at h
  · cases h
  case h_2 hg =>
    cases h
    rw [hg]

/-- An act that spares something does not end the session, unless that is
allowed. -/
theorem Spares.ne_quit {γ : Type} {f : Control → γ} {x : Act α} (h : x.Spares f (· ≠ .quit)) :
    x m ≠ .error .quit m' := by
  intro hx
  have hm := h m
  rw [hx] at hm
  exact hm.2 rfl

/-- A question ends the session only if there is no answer. -/
theorem answers_of_ask {prompt name : String} {i : Int64} (h : ask prompt name i m = .error .quit m') :
    m.console.answers = [] := by
  unfold ask at h
  cases hk : VariableKind.ofName name with
  | text =>
    rw [hk] at h
    dsimp only at h
    cases hin : console (·.input prompt) m with
    | ok s m₁ =>
      rw [bind_ok hin] at h
      exact absurd h (writeText_spares (f := id) ne_quit_failed name i s).ne_quit
    | error e m₁ =>
      rw [bind_error hin] at h
      cases h
      exact Console.answers_of_quit (halt_of_console hin)
  | numeric =>
    rw [hk] at h
    dsimp only at h
    cases hin : console (·.inputInteger prompt) m with
    | ok n m₁ =>
      rw [bind_ok hin] at h
      exact absurd h (writeNumber_spares (f := id) ne_quit_failed name i (.integer n)).ne_quit
    | error e m₁ =>
      rw [bind_error hin] at h
      cases h
      exact Console.answers_of_quit_integer (halt_of_console hin)

end Act

/-! ### Tasks -/

namespace Task

variable {m m' : Machine} {t : Task}

/-- `INPUT` ends the session only if there is no answer: what is evaluated
before the question uses no answers. -/
theorem answers_of_input {line : Option Int64} {prompt : Expr} {mark : Bool} {place : Place} {rest : Script}
    (h : stepScript line (.step (.input prompt mark place) rest) m = .error .quit m') : m.console.answers = [] := by
  rw [stepScript_step line rest Action.noConfusion Action.noConfusion] at h
  cases hact : (Action.input prompt mark place).perform (pure ()) line m with
  | ok u m₁ =>
    rw [Act.bind_ok hact] at h
    cases h
  | error e m₁ =>
    rw [Act.bind_error hact] at h
    cases h
    rw [Action.perform] at hact
    obtain ⟨chance, ⟨s, hs⟩ | ⟨e, he⟩⟩ := Act.text_looks prompt m
    · rw [Act.bind_ok hs] at hact
      obtain ⟨chance', ⟨i, hi⟩ | ⟨e, he⟩⟩ := Act.index_looks place { m with chance }
      · rw [Act.bind_ok hi] at hact
        have hnil := Act.answers_of_ask hact
        exact hnil
      · rw [Act.bind_error he] at hact
        cases hact
    · rw [Act.bind_error he] at hact
      cases hact

/-- A task that moves the stack does not end the session. -/
theorem step_ne_quit_of_movesStack (h : t.MovesStack) : t.step m ≠ .error .quit m' := by
  have reset_ne (ts : List Task) : (Machine.reset >>= fun _ => pure ts : Act (List Task)) m ≠ .error .quit m' := by
    rcases m.reset_cases with ⟨e, m₁, hreset, -⟩ | ⟨m₁, hreset, -⟩
    · rw [Act.bind_error hreset]
      intro h
      cases h
    · rw [Act.bind_ok hreset]
      intro h
      cases h
  cases t with
  | call c =>
    cases c with
    | reset => exact reset_ne []
    | new =>
      intro h
      cases h
    | _ => exact h.elim
  | script line s =>
    cases s with
    | step action s =>
      -- what comes of the action, and nothing of what follows
      have act {γ : Type} {f : Control → γ} (hs : (action.perform (pure ()) line).Spares f (· ≠ .quit))
          (hr : action ≠ .run) (hc : action ≠ .resume) : (script line (.step action s)).step m ≠ .error .quit m' := by
        show stepScript line (.step action s) m ≠ _
        rw [stepScript_step line s hr hc]
        exact (hs.bind fun _ => Act.spares_pure _).ne_quit
      cases action with
      | gosub target =>
        refine act (f := fun _ => ()) ?_ Action.noConfusion Action.noConfusion
        refine (Act.integer_spares Act.ne_quit_failed target).bind fun n m => ?_
        rcases Act.callLine_cases n m with ⟨e, he⟩ | ⟨address, stack, -, -, hok⟩
        · rw [he]
          exact ⟨rfl, Act.ne_quit_failed e⟩
        · rw [hok]
          exact rfl
      | returns =>
        refine act (f := fun _ => ()) (fun m => ?_) Action.noConfusion Action.noConfusion
        rcases Act.returnBack_cases m with ⟨e, he⟩ | ⟨address, -, hok⟩
        · rw [Action.perform, he]
          exact ⟨rfl, Act.ne_quit_failed e⟩
        · rw [Action.perform, hok]
          exact rfl
      | new =>
        intro h
        cases h
      | run => exact reset_ne _
      | reset => exact reset_ne _
      | resume =>
        refine Act.Spares.ne_quit (f := id) (Act.spares_get fun m => ?_)
        exact Act.spares_if (Act.spares_pure _) (Act.spares_fail Act.ne_quit_failed _) m
      | startLoop head =>
        exact act (Act.startLoop_base Act.ne_quit_failed line head) Action.noConfusion Action.noConfusion
      | next name => exact act (Act.next_base Act.ne_quit_failed name) Action.noConfusion Action.noConfusion
      | _ => exact h.elim
    | _ => exact h.elim
  | _ => exact h.elim

/-- **A task that ends the session** is a statement `QUIT`, or one that asks in
vain. -/
theorem verb_of_quit (h : t.step m = .error .quit m') :
    t.verb? = some .quit ∨ t.verb? = some .input ∧ m.console.answers = [] := by
  by_cases hmove : t.MovesStack
  · exact absurd h (step_ne_quit_of_movesStack hmove)
  by_cases hq : t.verb? = some .quit
  · exact .inl hq
  by_cases hi : t.verb? = some .input
  · refine .inr ⟨hi, ?_⟩
    cases t with
    | script line s =>
      cases s with
      | step action s =>
        cases action with
        | input prompt mark place => exact answers_of_input h
        | _ => cases hi
      | _ => cases hi
    | _ => cases hi
  · have hs : t.step.Spares (fun _ => ()) (· ≠ .quit) := by
      refine step_spares Act.ne_quit_failed (fun _ _ _ => rfl) hmove fun v h hv hbrings => ?_
      cases hbrings with
      | quit => exact absurd hv hq
      | input => exact absurd hv hi
      | _ => exact Halt.noConfusion
    exact absurd h hs.ne_quit

theorem unwind_ne_quit {e : Halt} (he : e ≠ .quit) (t : Task) : t.unwind e m ≠ .error .quit m' := by
  have hin (n : Int64) : e.inLine n ≠ .quit := by
    cases e with
    | quit => exact absurd rfl he
    | _ => exact Halt.noConfusion
  have hs : (t.unwind e).Spares (fun _ => ()) (· ≠ .quit) :=
    unwind_spares (H := (· ≠ .quit)) Act.ne_quit_failed (fun _ _ _ => rfl) he hin t
  exact hs.ne_quit

end Task

/-! ### Machines at work -/

namespace Config

variable {c c' : Config}

/-- The statement that is to be executed ends the session: it is `QUIT`, or it
comes to a question to which no answer is left. -/
def Quits (c : Config) : Prop :=
  c.verb? = some .quit ∨
    c.verb? = some .input ∧ c.machine.console.answers = [] ∧ ∃ c', c.next = some c' ∧ c'.halt = some .quit

/-- **Nothing else ends a session.** -/
theorem quits_of_halts (h : c.Halts .quit) : c.Quits := by
  obtain ⟨hc, c', h, hc'⟩ := h
  obtain ⟨m, d, agenda, halt⟩ := c
  cases agenda with
  | nil => cases h
  | cons t rest =>
    cases halt with
    | none =>
      have work (hnext : next ⟨m, d, t :: rest, none⟩ = some (settle d rest (t.step m))) :
          Quits ⟨m, d, t :: rest, none⟩ := by
        obtain rfl := Option.some.inj (hnext.symm.trans h)
        obtain ⟨m', hstep⟩ := halt_settle hc'
        rcases Task.verb_of_quit hstep with hq | ⟨hi, hnil⟩
        · exact .inl hq
        · exact .inr ⟨hi, hnil, _, hnext, hc'⟩
      cases t with
      | startRun =>
        by_cases hlt : d < Machine.runDepth
        · obtain rfl := Option.some.inj ((if_pos hlt).symm.trans h)
          cases hc'
        · obtain rfl := Option.some.inj ((if_neg hlt).symm.trans h)
          cases hc'
      | endRun =>
        obtain rfl := Option.some.inj h
        cases hc'
      | _ => exact work rfl
    | some e =>
      have he : e ≠ .quit := fun he => hc (congrArg some he)
      have work (hnext : next ⟨m, d, t :: rest, some e⟩ = some (settle d rest (t.unwind e m))) :
          Quits ⟨m, d, t :: rest, some e⟩ := by
        obtain rfl := Option.some.inj (hnext.symm.trans h)
        obtain ⟨m', hunwind⟩ := halt_settle hc'
        exact absurd hunwind (Task.unwind_ne_quit he t)
      cases t with
      | endRun =>
        obtain rfl := Option.some.inj h
        exact absurd hc' hc
      | _ => exact work rfl

theorem Quits.halts (h : c.Quits) : c.Halts .quit := by
  obtain ⟨m, d, agenda, halt⟩ := c
  rcases agenda with _ | ⟨t, rest⟩
  · rcases h with hq | ⟨hi, -⟩
    · cases hq
    · cases hi
  cases halt with
  | some e =>
    rcases h with hq | ⟨hi, -⟩
    · cases hq
    · cases hi
  | none =>
    refine ⟨(Option.some_ne_none _).symm, ?_⟩
    rcases h with hq | ⟨-, -, h⟩
    · cases t with
      | script line s =>
        cases s with
        | step action s =>
          cases action with
          | quit => exact ⟨_, rfl, rfl⟩
          | _ => cases hq
        | _ => cases hq
      | _ => cases hq
    · exact h

end Config

/-- **A line that is entered and comes to an end ends the session** if and only
if it comes to a statement `QUIT`, directly or in a program, or to a question to
which no answer is left. -/
theorem Machine.Enters.quit_iff {m : Machine} {text : String} {r : EStateM.Result Halt Machine Unit}
    (h : m.Enters text r) :
    (∃ m', r = .error .quit m') ↔ ∃ c, Config.Reaches ⟨m, 0, [.call (.enter text)], none⟩ c ∧ c.Quits := by
  obtain ⟨hr, budget, rfl⟩ := h
  have hends : Config.Ends _ [] (enter (run budget) text m) := (Call.enter text).ends_act budget m
  constructor
  · rintro ⟨m', hm'⟩
    rw [hm'] at hends
    rcases hends with hreach | ⟨hx, -⟩
    · obtain ⟨c, hc, hhalts⟩ := Config.exists_halts_of_reaches hreach (Option.some_ne_none _).symm rfl
      exact ⟨c, hc, Config.quits_of_halts hhalts⟩
    · cases hx
  · rintro ⟨c, hreach, hq⟩
    cases hres : enter (run budget) text m with
    | ok u m' =>
      rw [hres] at hends
      cases hq.halts.halt_of_reaches (.inl rfl) hreach hends rfl
    | error e m' =>
      rw [hres] at hends
      rcases hends with hlast | ⟨rfl, -⟩
      · obtain rfl := Option.some.inj (hq.halts.halt_of_reaches (.inl rfl) hreach hlast rfl)
        exact ⟨m', rfl⟩
      · exact absurd hres (hr m').1

end LineBasic
