import LineBasic.Proofs.Machine.Conduct
import LineBasic.Proofs.Machine.Resume

/-!
# More lines granted

A run is granted a number of lines. What it comes to does not depend on that
number, except that it may be too small: then the run halts for lack of lines,
and that halt goes all the way up. So whatever comes to an end with some lines
granted comes to the same end with more of them.

* `Act.FallsShort`: an act does what another one does, unless it lacks lines.
* `Machine.run_fallsShort`, `Machine.enter_fallsShort`: so do fewer lines
  granted and more of them.
* `Machine.Enters`: what a line that is entered comes to, however many lines
  that takes.
-/

namespace LineBasic

namespace Act

variable {α β : Type} {x x' : Act α} {m : Machine}

/-- The second act does what the first one does, unless that one halts for lack
of lines. -/
def FallsShort (x x' : Act α) : Prop := ∀ m, (∀ m', x m ≠ .error .exhausted m') → x' m = x m

theorem FallsShort.refl (x : Act α) : x.FallsShort x := fun _ _ => rfl

theorem FallsShort.error_eq (hx : x.FallsShort x') {e : Halt} {m₁ : Machine} (h : x m = .error e m₁)
    (he : e ≠ .exhausted) : x' m = .error e m₁ := by
  rw [← h]
  refine hx m fun m' hm' => he ?_
  exact (EStateM.Result.error.inj (h.symm.trans hm')).1

theorem FallsShort.ok_eq (hx : x.FallsShort x') {a : α} {m₁ : Machine} (h : x m = .ok a m₁) : x' m = .ok a m₁ := by
  rw [← h]
  exact hx m (by rw [h]; exact nofun)

theorem FallsShort.bind (hx : x.FallsShort x') {g g' : α → Act β} (hg : ∀ a, (g a).FallsShort (g' a)) :
    (x >>= g).FallsShort (x' >>= g') := by
  intro m hne
  cases h : x m with
  | ok a m₁ =>
    rw [bind_ok h] at hne ⊢
    rw [bind_ok (hx.ok_eq h)]
    exact hg a m₁ hne
  | error e m₁ =>
    rw [bind_error h] at hne ⊢
    have he : e ≠ .exhausted := by
      rintro rfl
      exact hne m₁ rfl
    rw [bind_error (hx.error_eq h he)]

/-- Where lines are lacking, that must be passed on. -/
theorem FallsShort.tryCatch (hx : x.FallsShort x') {g g' : Halt → Act α}
    (hg : ∀ e, e ≠ .exhausted → (g e).FallsShort (g' e))
    (hpass : ∀ m, g .exhausted m = .error .exhausted m) :
    FallsShort (tryCatch x g) (MonadExcept.tryCatch x' g') := by
  intro m hne
  cases h : x m with
  | ok a m₁ => rw [tryCatch_ok h, tryCatch_ok (hx.ok_eq h)]
  | error e m₁ =>
    rw [tryCatch_error h] at hne ⊢
    have he : e ≠ .exhausted := by
      rintro rfl
      exact hne m₁ (hpass m₁)
    rw [tryCatch_error (hx.error_eq h he)]
    exact hg e he m₁ hne

-- A pass leaves less room, and the measure of `passes` is that room.
theorem passes_fallsShort (limit : Int64) (step : Stride) {pass pass' : Int64 → Act Unit}
    (h : ∀ v, (pass v).FallsShort (pass' v)) (v : Int64) :
    (passes limit step pass v).FallsShort (passes limit step pass' v) := by
  rw [passes, passes]
  split
  · refine (h v).bind fun _ => ?_
    split
    case h_1 w hw =>
      have := Stride.room_lt_of_next? hw
      exact passes_fallsShort limit step h w
    case h_2 => exact .refl _
  · exact .refl _
termination_by step.room v

end Act

/-! ### Lines -/

section Lines

variable {run run' : Act Unit} (hrun : run.FallsShort run')

include hrun

theorem Action.perform_fallsShort (a : Action) (line : Option Int64) :
    (a.perform run line).FallsShort (a.perform run' line) := by
  by_cases hr : a = .run
  · subst hr
    exact (Act.FallsShort.refl Machine.reset).bind fun _ => hrun
  by_cases hc : a = .resume
  · subst hc
    refine (Act.FallsShort.refl _).bind fun m => ?_
    split
    · exact hrun
    · exact .refl _
  · rw [a.perform_congr run run' line hr hc]
    exact .refl _

theorem Script.exec_fallsShort (s : Script) (line : Option Int64) :
    (s.exec run line).FallsShort (s.exec run' line) := by
  induction s with
  | done => exact .refl _
  | broken before error => exact .refl _
  | step action rest ih =>
    rw [exec, exec]
    exact (action.perform_fallsShort hrun line).bind fun _ => ih
  | branch condition yes no hyes hno =>
    rw [exec, exec]
    refine (Act.FallsShort.refl _).bind fun b => ?_
    cases b with
    | true => exact hyes
    | false => exact hno
  | loop head body rest hbody hrest =>
    rw [exec, exec]
    refine (Act.FallsShort.refl _).bind fun r => ?_
    refine (Act.passes_fallsShort _ _ (fun v => ?_) _).bind fun _ => hrest
    exact (Act.FallsShort.refl _).bind fun _ => hbody

namespace Machine

theorem execute_fallsShort (text : String) : (execute run text).FallsShort (execute run' text) := by
  unfold execute
  split
  · exact Script.exec_fallsShort hrun _ _
  · exact Script.exec_fallsShort hrun _ _

theorem step_fallsShort : (step run).FallsShort (step run') := by
  unfold step
  refine (Act.FallsShort.refl _).bind fun m => ?_
  split
  · exact .refl _
  · refine (Act.FallsShort.refl _).bind fun _ => (Act.FallsShort.refl _).bind fun m => ?_
    split
    · exact .refl _
    · refine Act.FallsShort.bind ?_ fun _ => .refl _
      exact (Script.exec_fallsShort hrun _ _).tryCatch (fun _ _ => .refl _) fun _ => rfl

theorem advanceRun_fallsShort : (advanceRun run).FallsShort (advanceRun run') := by
  refine (Act.FallsShort.refl _).bind fun _ => ?_
  refine Act.FallsShort.tryCatch ?_ (fun _ _ => .refl _) fun _ => rfl
  exact (step_fallsShort hrun).bind fun _ => .refl _

/-- Fewer lines granted, to the run itself or to those inside of it. -/
theorem runLines_fallsShort {budget budget' : Nat} (hle : budget ≤ budget') :
    (runLines run budget).FallsShort (runLines run' budget') := by
  induction budget generalizing budget' with
  | zero =>
    intro m hne
    by_cases hin : m.control.inRange
    · exact absurd (runLines_zero hin) (hne m)
    · rw [runLines_of_outside hin, runLines_of_outside hin]
  | succ budget ih =>
    obtain ⟨more, rfl⟩ : ∃ more, budget' = more + 1 := ⟨budget' - 1, by omega⟩
    intro m hne
    by_cases hin : m.control.inRange
    · rw [runLines_succ hin] at hne ⊢
      rw [runLines_succ hin]
      refine (advanceRun_fallsShort hrun).bind (fun go => ?_) m hne
      cases go with
      | true => exact ih (by omega)
      | false => exact .refl _
    · rw [runLines_of_outside hin, runLines_of_outside hin]

theorem enter_fallsShort (text : String) : (enter run text).FallsShort (enter run' text) := by
  unfold enter
  split
  · exact .refl _
  · split
    · exact .refl _
    · exact .refl _
    · exact (execute_fallsShort hrun text).tryCatch (fun _ _ => .refl _) fun _ => rfl

end Machine

end Lines

namespace Machine

variable {budget budget' : Nat} {m m' : Machine} {text : String} {r r' : EStateM.Result Halt Machine Unit}

theorem runNested_fallsShort (hle : budget ≤ budget') (depth : Nat) :
    (runNested budget depth).FallsShort (runNested budget' depth) := by
  induction depth with
  | zero => exact .refl _
  | succ depth ih => exact runLines_fallsShort ih hle

/-- **More lines granted make no difference to a run that comes to an end.** -/
theorem run_fallsShort (hle : budget ≤ budget') : (run budget).FallsShort (run budget') :=
  runNested_fallsShort hle runDepth

/-! ### Lines that come to an end -/

/-- A line that is entered comes to an end, which is this one. It is not the end
of the process. -/
def Enters (m : Machine) (text : String) (r : EStateM.Result Halt Machine Unit) : Prop :=
  (∀ m', r ≠ .error .exhausted m' ∧ r ≠ .error .aborted m') ∧ ∃ budget, enter (run budget) text m = r

theorem Enters.of_le (hr : ∀ m', r ≠ .error .exhausted m') (h : enter (run budget) text m = r)
    (hle : budget ≤ budget') : enter (run budget') text m = r := by
  subst h
  exact enter_fallsShort (run_fallsShort hle) text m hr

/-- There is only one end to come to. -/
theorem Enters.unique (h : m.Enters text r) (h' : m.Enters text r') : r = r' := by
  obtain ⟨hr, b, hb⟩ := h
  obtain ⟨hr', b', hb'⟩ := h'
  rw [← of_le (fun m' => (hr m').1) hb (le_max_left b b'), ← of_le (fun m' => (hr' m').1) hb' (le_max_right b b')]

/-- A line without `RUN`, `CONT` and `DIM` comes to an end. -/
theorem exists_enters (h : (Tape.ofLine text).Avoids [.run, .resume, .dim]) (m : Machine) : ∃ r, m.Enters text r := by
  obtain ⟨line, s, -, hfits, hrun⟩ := Task.exists_ofText ((Tape.scannable_ofLine text).fits h.not_mem)
  have hleads := Script.exec_does hfits (by decide) (by decide) (run 0) line m
  rw [← hrun] at hleads
  -- whatever is not an error halts the line as it halts the statements
  have halted {e : Halt} (he : ∀ e', e ≠ .failed e') (hexec : ∀ m', execute (run 0) text m ≠ .error e m')
      (m' : Machine) : enter (run 0) text m ≠ .error e m' := by
    intro henter
    obtain ⟨e', rfl⟩ | ⟨-, hex⟩ := enter_halt henter
    · exact he e' rfl
    · exact hexec m' hex
  refine ⟨_, fun m' => ⟨?_, ?_⟩, 0, rfl⟩
  · exact halted (fun _ => Halt.noConfusion) hleads.ne_exhausted m'
  · exact halted (fun _ => Halt.noConfusion) (hleads.ne_aborted (by decide)) m'

end Machine

end LineBasic
