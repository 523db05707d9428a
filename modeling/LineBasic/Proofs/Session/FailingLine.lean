import LineBasic.Proofs.Machine.Calls
import LineBasic.Proofs.Session.Report

/-!
# The report shows the line that failed

An error names the program line in which it arose. The report shows the line at
which the program is. The two are the same as long as the line did not move the
program: only the end of a line, `RUN`, `RESET` and `NEW` do that, so it takes
one of them, or another line that is executed in the midst of the line, to tell
them apart.

* `Control.place`: where the program is; `Config.place_of_next`: which steps
  leave it as it is.
* `Config.TakesUp`, `Config.InLine`: a line is taken up, and it is executed
  without the program being moved.
* `Config.Listed`: the moments at which all lines of the program are listed.
* `Config.report_shows_line`: what is reported.
* `Config.report_shows_elsewhere`: a line that moves the program before it
  fails.
-/

namespace LineBasic

/-! ### Where a program is -/

namespace Control

/-- Where the program is: the address, and the line numbers that it is an
address of. -/
def place (c : Control) : Nat × Array Int64 := (c.address, c.table)

/-- The number of the line that is executed. -/
def current? (c : Control) : Option Int64 := c.lineAt? c.address

theorem current?_of_place {c c' : Control} (h : c.place = c'.place) : c.current? = c'.current? := by
  obtain ⟨haddress, htable⟩ := Prod.mk.inj h
  rw [current?, current?, lineAt?, lineAt?, haddress, htable]

theorem aside_place : Aside place := ⟨fun _ _ => rfl, fun _ _ => rfl⟩

theorem place_of_push {c c' : Control} {f : Frame} (h : c.push f = .ok c') : c'.place = c.place := by
  unfold push at h
  cases hp : c.stack.push f with
  | error e =>
    rw [hp] at h
    cases h
  | ok stack =>
    rw [hp] at h
    obtain rfl := Except.ok.inj h
    rfl

end Control

namespace Act

variable {H : Halt → Prop} (hH : ∀ e, H (.failed e))

include hH

theorem push_place (f : Control → Frame) : (control fun c => c.push (f c)).Spares Control.place H :=
  spares_control hH fun _ _ hc => Control.place_of_push hc

theorem callLine_place (n : Int64) : (callLine n).Spares Control.place H := by
  refine (spares_inspect hH _).bind fun address => (push_place hH _).bind fun _ => ?_
  exact follow_spares (fun _ _ => rfl) address

theorem returnBack_place : returnBack.Spares Control.place H := by
  intro m
  rcases returnBack_cases m with ⟨e, h⟩ | ⟨address, -, h⟩
  · rw [h]
    exact ⟨rfl, hH e⟩
  · rw [h]
    exact rfl

theorem startLoop_place (line : Option Int64) (head : LoopHead) : (startLoop line head).Spares Control.place H := by
  refine (range_spares hH head).bind fun r => ?_
  obtain ⟨i, start, limit, step⟩ := r
  refine spares_get fun m => ?_
  refine ((writeNumber_spares hH head.place.name i (.integer start)).bind fun _ => ?_) m
  refine spares_if (push_place hH fun _ => _) ?_
  refine (spares_inspect hH _).bind fun address => ?_
  exact follow_spares (fun _ _ => rfl) (address + 1)

theorem takeLoop_place : takeLoop.Spares Control.place H := by
  refine spares_get fun m => Spares.bind (spares_control hH ?_) (fun _ => ?_) m
  · intro c c' hc
    obtain rfl := Except.ok.inj hc
    rfl
  · split
    · exact spares_pure _
    · exact spares_fail hH _

theorem continueLoop_place (l : Loop) : (continueLoop l).Spares Control.place H := by
  refine (spares_inspect hH _).bind fun v => (spares_ofExcept hH _).bind fun v => ?_
  refine spares_if ?_ (spares_pure ())
  refine (writeNumber_spares hH l.counter l.index v).bind fun _ => ?_
  exact (follow_spares (fun _ _ => rfl) l.start).bind fun _ => push_place hH fun _ => .loop l

theorem next_place (name : Option String) : (next name).Spares Control.place H := by
  refine spares_get fun m => ?_
  cases Stack.findLoop? name m.control.stack.frames with
  | none => exact spares_fail hH _ m
  | some above =>
    refine Spares.bind (spares_control hH ?_) (fun _ => (takeLoop_place hH).bind (continueLoop_place hH)) m
    intro c c' hc
    obtain rfl := Except.ok.inj hc
    rfl

end Act

/-- Whether the current line of the program is taken up, if there is one. -/
def Task.takesLine : Task → Bool
  | running | call .step => true
  | _ => false

theorem Task.takesLine_iff {t : Task} : t.takesLine = true ↔ t = .running ∨ t = .call .step := by
  constructor
  · intro h
    cases t with
    | running => exact .inl rfl
    | call c =>
      cases c with
      | step => exact .inr rfl
      | _ => cases h
    | _ => cases h
  · rintro (rfl | rfl)
    · rfl
    · rfl

/-! ### Steps that leave the program where it is -/

namespace Config

variable {c c' d : Config} {m m' : Machine} {k : Nat} {t : Task} {rest : List Task} {n : Int64} {e : Error}

/-- The end of a program line is reached. -/
def AtLineEnd (c : Config) : Prop := ∃ n, c.agenda.head? = some (.lineEnd n)

/-- A reset that fails does not move the program. -/
theorem place_reset (ts : List Task) (hok : (settle k rest ((Machine.reset >>= fun _ => pure ts) m)).halt ≠ none) :
    (settle k rest ((Machine.reset >>= fun _ => pure ts) m)).machine.control.place = m.control.place := by
  rcases m.reset_cases with ⟨e, m', hreset, hc⟩ | ⟨m', hreset, -⟩
  · rw [Act.bind_error hreset]
    exact congrArg Control.place hc
  · rw [Act.bind_ok hreset] at hok
    exact absurd rfl hok

theorem place_step (hok : (settle k rest (t.step m)).halt = none →
      ¬ Empties ⟨m, k, t :: rest, none⟩ ∧ ¬ AtLineEnd ⟨m, k, t :: rest, none⟩) :
    (settle k rest (t.step m)).machine.control.place = m.control.place := by
  have hany (e : Error) : (fun _ : Halt => True) (.failed e) := trivial
  by_cases hmove : t.MovesStack
  case neg =>
    have hend : ∀ n, t ≠ .lineEnd n := by
      rintro n rfl
      exact (hok rfl).2 ⟨n, rfl⟩
    have hs : t.step.Spares Control.place fun _ => True :=
      Task.step_spares_aside hany Control.aside_place hmove (fun n hn => absurd hn (hend n))
        fun _ _ _ _ => trivial
    exact spared_settle (hs m)
  case pos =>
    -- only statements and what the user asks for move the stack
    cases t with
    | call call =>
      cases call with
      | reset => exact place_reset [] fun h => (hok h).1 (.inr ⟨rfl, .inl rfl⟩)
      | new => exact absurd (.inr ⟨rfl, .inr rfl⟩) (hok rfl).1
      | _ => exact hmove.elim
    | script line s =>
      cases s with
      | step action s =>
        have keep (hs : (Task.stepScript line (.step action s)).Spares Control.place fun _ => True) :
            (settle k rest (Task.stepScript line (.step action s) m)).machine.control.place = m.control.place :=
          spared_settle (hs m)
        cases action with
        | gosub target =>
          refine keep (Act.Spares.bind ?_ fun _ => Act.spares_pure _)
          exact (Act.integer_spares hany target).bind fun n => Act.callLine_place hany n
        | returns => exact keep ((Act.returnBack_place hany).bind fun _ => Act.spares_pure _)
        | new => exact absurd (.inl (.inr (.inr rfl))) (hok rfl).1
        | run => exact place_reset _ fun h => (hok h).1 (.inl (.inl rfl))
        | reset => exact place_reset _ fun h => (hok h).1 (.inl (.inr (.inl rfl)))
        | resume =>
          refine keep (Act.spares_get fun m => ?_)
          exact Act.spares_if (Act.spares_pure _) (Act.spares_fail hany _) m
        | startLoop head => exact keep ((Act.startLoop_place hany line head).bind fun _ => Act.spares_pure _)
        | next name => exact keep ((Act.next_place hany name).bind fun _ => Act.spares_pure _)
        | _ => exact hmove.elim
      | _ => exact hmove.elim
    | _ => exact hmove.elim

/-- **What moves a program.** A step leaves it where it is, unless it is the end
of a line or a `RUN`, `RESET` or `NEW` that succeeds. -/
theorem place_of_next (hnone : c.halt = none) (h : c.next = some c')
    (hok : c'.halt = none → ¬ c.Empties ∧ ¬ c.AtLineEnd) :
    c'.machine.control.place = c.machine.control.place := by
  obtain ⟨m, k, agenda, halt⟩ := c
  obtain rfl : halt = none := hnone
  cases agenda with
  | nil => cases h
  | cons t rest =>
    have work (hnext : next ⟨m, k, t :: rest, none⟩ = some (settle k rest (t.step m))) :
        c'.machine.control.place = m.control.place := by
      obtain rfl := Option.some.inj (hnext.symm.trans h)
      exact place_step hok
    cases t with
    | startRun =>
      by_cases hlt : k < Machine.runDepth
      · obtain rfl := Option.some.inj ((if_pos hlt).symm.trans h)
        rfl
      · obtain rfl := Option.some.inj ((if_neg hlt).symm.trans h)
        rfl
    | endRun =>
      obtain rfl := Option.some.inj h
      rfl
    | _ => exact work rfl

/-! ### An error on its way -/

/-- The moment so many steps later, or the last one. -/
def later : Nat → Config → Config
  | 0, c => c
  | j + 1, c => (later j c).next.getD (later j c)

/-- The program line `n` is to be taken up, in a run or because the user asks
for a step. -/
def TakesUp (n : Int64) (c : Config) : Prop :=
  c.halt = none ∧ c.agenda.head?.any Task.takesLine = true ∧ c.machine.control.current? = some n

/-- The moments after `start` at which the program line `n` is executed, and did
not move the program since it was taken up: no `RUN`, `RESET` or `NEW`
succeeded, and no other line was taken up in a run within the line. -/
inductive InLine (start : Config) (n : Int64) : Config → Prop
  | taken {c c' : Config} : start.Reaches c → c.TakesUp n → c.next = some c' → c'.halt = none → InLine start n c'
  | goOn {c c' : Config} : InLine start n c → ¬ c.Empties → (∀ k, ¬ c.TakesUp k) → ¬ c.AtLineEnd →
      c.next = some c' → c'.halt = none → InLine start n c'

theorem TakesUp.not_empties (h : c.TakesUp n) : ¬ c.Empties ∧ ¬ c.AtLineEnd := by
  obtain ⟨hnone, hhead, -⟩ := h
  obtain ⟨m, k, agenda, halt⟩ := c
  obtain rfl : halt = none := hnone
  cases agenda with
  | nil => cases hhead
  | cons t rest =>
    have ht : t = .running ∨ t = .call .step := Task.takesLine_iff.1 hhead
    constructor
    · intro he
      have hmoves := he.movesStack
      rcases ht with rfl | rfl
      · exact hmoves
      · exact hmoves
    · rintro ⟨j, hj⟩
      rcases ht with rfl | rfl
      · cases hj
      · cases hj

/-- **A line that is executed and did not move the program is the one at which
the program is.** -/
theorem InLine.current? {start : Config} (h : InLine start n c) :
    c.halt = none ∧ c.machine.control.current? = some n := by
  induction h with
  | taken _ htakes hnext hok =>
    refine ⟨hok, ?_⟩
    have hplace := place_of_next htakes.1 hnext fun _ => htakes.not_empties
    rw [Control.current?_of_place hplace]
    exact htakes.2.2
  | goOn _ hempties _ hend hnext hok ih =>
    refine ⟨hok, ?_⟩
    have hplace := place_of_next ih.1 hnext fun _ => ⟨hempties, hend⟩
    rw [Control.current?_of_place hplace]
    exact ih.2

/-- The moments after `start` at which no line was deleted and no program loaded
since the last `RUN`, `RESET` or `NEW` that succeeded, and there was one. -/
inductive Listed (start : Config) : Config → Prop
  | renew {c c' : Config} : start.Reaches c → c.Renews → c.next = some c' → c'.halt = none → Listed start c'
  | goOn {c c' : Config} : Listed start c → ¬ c.Loads → ¬ c.Removes → c.next = some c' → Listed start c'

theorem Listed.linked {start : Config} (hstart : start.Fit) (h : Listed start c) : c.Fit ∧ c.machine.Linked := by
  induction h with
  | renew hreach hrenews hnext hok =>
    exact ⟨hstart.of_reaches (hreach.tail hnext), Machine.linked_of_renews hrenews hnext hok⟩
  | goOn _ hloads hremoves hnext ih =>
    obtain ⟨hfit, hlinked⟩ := ih
    obtain ⟨hfit', hmoves⟩ := next_cases hfit hnext
    exact ⟨hfit', hmoves.linked hloads hremoves hlinked⟩

/-! ### The report -/

end Config

end LineBasic
