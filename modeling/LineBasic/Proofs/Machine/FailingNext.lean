import LineBasic.Proofs.Machine.ChecksFirst

/-!
# A `NEXT` that fails

A `NEXT` looks for its loop before it changes anything. When it has found the
loop it takes the frame of it off the stack, with all frames above it, and only
then reads the counter and adds the step to it. If one of these fails, the
frames are gone. All else is as before, and if no loop is found the frames are
too.

* `Loop.Stuck`: why a loop that was found does not go on.
* `Act.next_error`: what is left of the machine when `NEXT` fails.
* `Script.failing_next`: the same for every line that begins with `NEXT`.
-/

namespace LineBasic

/-- The loop cannot go on: its counter is not to be read, or the step is not to
be added to it. -/
def Loop.Stuck (l : Loop) (memory : Memory) (e : Error) : Prop :=
  memory.readNumber l.counter l.index = .error e ∨
    ∃ v, memory.readNumber l.counter l.index = .ok v ∧ Binary.add.apply v (.integer l.step) = .error e

theorem Loop.isNumeric_of_admits {l : Loop} {v : Value} (h : l.admits v = true) : v.isNumeric = true := by
  cases v with
  | integer n => rfl
  | float x => rfl
  | text s => cases h

/-- Without the frames of the latest `n` loops and of one more. -/
theorem Stack.pop_drop (s : Stack) (n : Nat) : (s.drop n).pop = s.drop (n + 1) :=
  Act.stack_ext List.tail_drop

namespace Act

variable {m m' : Machine} {l : Loop} {name : Option String} {h : Halt}

/-- A counter that was read can be written, and a frame that was taken off put
back, so a loop fails to go on before it changes anything. -/
theorem continueLoop_error (hroom : m.control.stack.depth < Stack.capacity) (he : continueLoop l m = .error h m') :
    m' = m ∧ ∃ e, h = .failed e ∧ l.Stuck m.memory e := by
  unfold continueLoop at he
  cases hread : m.memory.readNumber l.counter l.index with
  | error e =>
    have hinspect : inspect (·.memory.readNumber l.counter l.index) m = .error (.failed e) m := inspect_error hread
    rw [bind_error hinspect] at he
    obtain ⟨rfl, rfl⟩ := EStateM.Result.error.inj he
    exact ⟨rfl, e, rfl, .inl hread⟩
  | ok v =>
    have hinspect : inspect (·.memory.readNumber l.counter l.index) m = .ok v m := inspect_ok hread
    rw [bind_ok hinspect] at he
    cases hadd : Binary.add.apply v (.integer l.step) with
    | error e =>
      have hsum : ofExcept (Binary.add.apply v (.integer l.step)) m = .error (.failed e) m := by
        rw [hadd]
        rfl
      rw [bind_error hsum] at he
      obtain ⟨rfl, rfl⟩ := EStateM.Result.error.inj he
      exact ⟨rfl, e, rfl, .inr ⟨v, hread, hadd⟩⟩
    | ok w =>
      have hsum : ofExcept (Binary.add.apply v (.integer l.step)) m = .ok w m := by
        rw [hadd]
        rfl
      rw [bind_ok hsum] at he
      split at he
      · next hin =>
        -- from here on nothing fails
        obtain ⟨memory, hw⟩ := Memory.exists_write_of_readNumber hread (Loop.isNumeric_of_admits hin)
        have hfollow : follow l.start { m with memory } =
            .ok () { m with memory, control := { m.control with following := l.start } } := rfl
        have hpush : m.control.stack.push (.loop l) =
            .ok ⟨.loop l :: m.control.stack.frames, m.control.stack.depth + 1, by simp [m.control.stack.depth_eq]⟩ :=
          if_neg (by omega)
        rw [bind_ok (writeNumber_ok hw), bind_ok hfollow, control_ok (by rw [Control.push, hpush]; rfl)] at he
        cases he
      · cases he

/-- **What is left when `NEXT` fails**: all, if no loop is found; otherwise all
but the frames down to that of the loop. -/
theorem next_error (hdepth : m.control.stack.depth ≤ Stack.capacity) (he : next name m = .error h m') :
    (Stack.findLoop? name m.control.stack.frames = none ∧ h = .failed (.nextWithoutFor name) ∧ m' = m) ∨
      ∃ above l e, Stack.findLoop? name m.control.stack.frames = some above ∧
        m.control.stack.frames[above]? = some (.loop l) ∧ h = .failed e ∧ l.Stuck m.memory e ∧
        m' = { m with control := { m.control with stack := m.control.stack.drop (above + 1) } } := by
  rw [next, get_bind] at he
  cases hfind : Stack.findLoop? name m.control.stack.frames with
  | none =>
    rw [hfind] at he
    obtain ⟨rfl, rfl⟩ := EStateM.Result.error.inj he
    exact .inl ⟨rfl, rfl, rfl⟩
  | some above =>
    obtain ⟨l, rest, hl⟩ := exists_drop_of_findLoop? hfind
    have hget : m.control.stack.frames[above]? = some (.loop l) := by
      rw [← List.head?_drop, hl, List.head?_cons]
    have hlt : above < m.control.stack.depth := by
      rw [m.control.stack.depth_eq]
      exact (List.getElem?_eq_some_iff.1 hget).1
    have hdrop : control (fun c => .ok { c with stack := c.stack.drop above }) m =
        .ok () { m with control := { m.control with stack := m.control.stack.drop above } } := control_ok rfl
    have htop : (m.control.stack.drop above).top? = some (.loop l) := congrArg List.head? hl
    rw [hfind] at he
    dsimp only at he
    rw [bind_ok hdrop, bind_ok (takeLoop_ok htop)] at he
    dsimp only at he
    rw [Stack.pop_drop] at he
    have hroom : (m.control.stack.drop (above + 1)).depth < Stack.capacity := by
      show m.control.stack.depth - (above + 1) < Stack.capacity
      omega
    obtain ⟨rfl, e, rfl, hstuck⟩ := continueLoop_error hroom he
    exact .inr ⟨above, l, e, rfl, hget, rfl, hstuck, rfl⟩

end Act

/-- The variable that is named behind `NEXT`. -/
def Tape.named? : Tape → Option String
  | .cons ⟨.name s, _, _⟩ _ => some s
  | _ => none

namespace Script

variable {t : Tape} {p q : Position}

/-- A line that begins with `NEXT` is read up to the end of that statement, or
breaks off at a lexeme. -/
theorem read_next_cases (t : Tape) (p q : Position) :
    (∃ e, (t = .broken e ∨ ∃ s p' q', t = .cons ⟨.name s, p', q'⟩ (.broken e)) ∧
      read (.cons ⟨.verb .next, p, q⟩ t) = .broken [] e) ∨
    ∃ rest, read (.cons ⟨.verb .next, p, q⟩ t) = .step (.next t.named?) rest := by
  rw [read_eq_readStatement, readStatement]
  cases t with
  | broken e => exact .inl ⟨e, .inl rfl, rfl⟩
  | stop p => exact .inr ⟨_, rfl⟩
  | cons x rest =>
    obtain ⟨token, p', q'⟩ := x
    cases token with
    | name s =>
      cases rest with
      | broken e => exact .inl ⟨e, .inr ⟨s, p', q', rfl⟩, rfl⟩
      | stop p => exact .inr ⟨_, rfl⟩
      | cons y rest => exact .inr ⟨_, rfl⟩
    | _ => exact .inr ⟨_, rfl⟩

/-- **What a `NEXT` that fails leaves behind.** The line fails with it. The
variables, the line that follows and all else but the stack are as before. The
stack is as before too if the text cannot be read or no loop is found. But if
the loop is found and its counter cannot be read or increased, its frame is lost
with those above it. -/
theorem failing_next (run : Act Unit) (line : Option Int64) (t : Tape) (p q : Position) (m m' : Machine) (h : Halt)
    (hdepth : m.control.stack.depth ≤ Stack.capacity)
    (he : (read (.cons ⟨.verb .next, p, q⟩ t)).first run line m = .error h m') :
    (read (.cons ⟨.verb .next, p, q⟩ t)).exec run line m = .error h m' ∧
      m'.memory = m.memory ∧ m'.control.following = m.control.following ∧
      (∃ stack, m' = { m with control := { m.control with stack } }) ∧
      ((∃ e, (t = .broken e ∨ ∃ s p' q', t = .cons ⟨.name s, p', q'⟩ (.broken e)) ∧ h = .failed e ∧ m' = m) ∨
        (Stack.findLoop? t.named? m.control.stack.frames = none ∧ h = .failed (.nextWithoutFor t.named?) ∧ m' = m) ∨
        ∃ above l e, Stack.findLoop? t.named? m.control.stack.frames = some above ∧
          m.control.stack.frames[above]? = some (.loop l) ∧ h = .failed e ∧ l.Stuck m.memory e ∧
          m'.control.stack = m.control.stack.drop (above + 1)) := by
  refine ⟨exec_of_first_error he, ?_⟩
  rcases read_next_cases t p q with ⟨e, ht, hread⟩ | ⟨rest, hread⟩
  · rw [hread] at he
    obtain ⟨rfl, rfl⟩ := EStateM.Result.error.inj he
    exact ⟨rfl, rfl, ⟨_, rfl⟩, .inl ⟨e, ht, rfl, rfl⟩⟩
  · rw [hread] at he
    rcases Act.next_error hdepth he with ⟨hfind, rfl, rfl⟩ | ⟨above, l, e, hfind, hl, rfl, hstuck, rfl⟩
    · exact ⟨rfl, rfl, ⟨_, rfl⟩, .inr (.inl ⟨hfind, rfl, rfl⟩)⟩
    · exact ⟨rfl, rfl, ⟨_, rfl⟩, .inr (.inr ⟨above, l, e, hfind, hl, rfl, hstuck, rfl⟩)⟩

-- The counter of the outer of two loops cannot be increased. Both frames are
-- lost.
theorem failing_next_outer :
    let z := Position.start
    let m := Machine.typed ["for i = 9223372036854775807 to 9223372036854775807", "for j = 1 to 2"]
    let t : Tape := .ofList z [⟨.name "I", z, z⟩]
    (m.control.stack.depth = 2 ∧ Stack.findLoop? (some "I") m.control.stack.frames = some 1) ∧
      ∃ m', (read (.cons ⟨.verb .next, z, z⟩ t)).exec (pure ()) none m = .error (.failed .overflow) m' ∧
        m'.memory = m.memory ∧ m'.control.stack.frames = [] := by
  intro z m t
  have hdepth : m.control.stack.depth = 2 := by decide +kernel
  have hfind : Stack.findLoop? (some "I") m.control.stack.frames = some 1 := by decide +kernel
  obtain ⟨m', hfirst⟩ := Act.exists_error_of_halt? (m := m) (h := .failed .overflow)
    (x := (read (.cons ⟨.verb .next, z, z⟩ t)).first (pure ()) none) (by decide +kernel)
  obtain ⟨hexec, hmemory, -, -, hcases⟩ := failing_next (pure ()) none t z z m m' (.failed .overflow)
    (by rw [hdepth]; decide) hfirst
  refine ⟨⟨hdepth, hfind⟩, m', hexec, hmemory, ?_⟩
  rcases hcases with ⟨e, ht | ⟨s, p, q, ht⟩, -⟩ | ⟨hnone, -⟩ | ⟨above, l, e, hsome, -, -, -, hstack⟩
  · simp [t, Tape.ofList] at ht
  · simp [t, Tape.ofList] at ht
  · cases hfind.symm.trans hnone
  · obtain rfl : 1 = above := Option.some.inj (hfind.symm.trans hsome)
    rw [hstack]
    refine List.drop_eq_nil_of_le ?_
    rw [← m.control.stack.depth_eq, hdepth]

-- The last value of a counter is the greatest there is: `NEXT` fails, and its
-- loop is no longer under way.
theorem next_loses_frame :
    let m := Machine.typed ["for i = 9223372036854775807 to 9223372036854775807"]
    m.control.stack.frames = [.loop ⟨"I", 0, 1, 9223372036854775807, 1⟩] ∧
      ((Call.enter "next").act (Machine.run 0)).halt? m = some (.failed .overflow) ∧
      (Session.afterwards ((Call.enter "next").act (Machine.run 0)) m).control.stack.frames = [] := by
  decide +kernel

end Script

end LineBasic
