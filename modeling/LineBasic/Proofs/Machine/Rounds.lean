import LineBasic.Proofs.Grammar.Loop
import LineBasic.Proofs.Machine.Conduct

/-!
# How often a loop in one line goes round

A loop `FOR v=a TO b STEP s` in one line goes round once for each of the values
`a`, `a + s`, `a + 2s`, … that is not past `b`. The number of rounds is known
before the first one, and nothing that the body does to the counter changes it.
The last value may be so near the end of the numbers that the next one does not
fit: the loop is over then, and no error is raised. Between the rounds nothing
happens at all.

* `Loop.rounds`, `Loop.lt_rounds_iff`: the number of rounds, and which values
  belong to them.
* `Act.passes_eq_forM`: the passes of a loop are its rounds.
* `LoopLine.interpret_tape`: what a line with a loop does.
-/

namespace LineBasic

/-! ### The number of rounds -/

theorem Stride.toInt_ne_zero (step : Stride) : step.val.toInt ≠ 0 := fun h => step.property (Int64.toInt_inj.1 h)

namespace Loop

/-- The value is past the limit, in the direction of the step. -/
def Past (step limit v : Int) : Prop := (0 < step ∧ limit < v) ∨ (step < 0 ∧ v < limit)

instance (step limit v : Int) : Decidable (Past step limit v) :=
  inferInstanceAs (Decidable ((0 < step ∧ limit < v) ∨ (step < 0 ∧ v < limit)))

/-- The number of rounds of a loop. -/
def rounds (start limit step : Int) : Nat :=
  if Past step limit start then 0 else ((limit - start).fdiv step).toNat + 1

variable {start limit step : Int}

/-- **The rounds are those whose value is not past the limit.** -/
theorem lt_rounds_iff (hstep : step ≠ 0) (k : Nat) :
    k < rounds start limit step ↔ ¬ Past step limit (start + k * step) := by
  have hk : (0 : Int) ≤ k := Int.natCast_nonneg k
  -- a limit below the start is, with the signs changed, one above it
  have hflip : (limit - start).fdiv step = (start - limit).fdiv (-step) := by
    rw [← Int.neg_fdiv_neg (start - limit), neg_neg, neg_sub]
  by_cases hstart : Past step limit start
  · rw [rounds, if_pos hstart]
    unfold Past at hstart ⊢
    rcases lt_or_gt_of_ne hstep with hneg | hpos
    · have hmul : (k : Int) * step ≤ 0 := mul_nonpos_of_nonneg_of_nonpos hk hneg.le
      omega
    · have hmul : 0 ≤ (k : Int) * step := mul_nonneg hk hpos.le
      omega
  · rw [rounds, if_neg hstart]
    unfold Past at hstart ⊢
    rcases lt_or_gt_of_ne hstep with hneg | hpos
    · have hdiv := Int.le_ediv_iff_mul_le (a := (k : Int)) (b := start - limit) (c := -step) (by omega)
      have hquot : 0 ≤ (start - limit) / -step := Int.ediv_nonneg (by omega) (by omega)
      rw [mul_neg] at hdiv
      rw [hflip, Int.fdiv_eq_ediv_of_nonneg _ (by omega)]
      omega
    · have hdiv := Int.le_ediv_iff_mul_le (a := (k : Int)) (b := limit - start) hpos
      have hquot : 0 ≤ (limit - start) / step := Int.ediv_nonneg (by omega) hpos.le
      rw [Int.fdiv_eq_ediv_of_nonneg _ hpos.le]
      omega

/-- The first round is followed by those of the loop that begins one step on. -/
theorem rounds_succ (hstep : step ≠ 0) (h : ¬ Past step limit start) :
    rounds start limit step = rounds (start + step) limit step + 1 := by
  have hfirst : 0 < rounds start limit step := by
    rw [lt_rounds_iff hstep]
    simpa using h
  have hnext (k : Nat) : k + 1 < rounds start limit step ↔ k < rounds (start + step) limit step := by
    rw [lt_rounds_iff hstep, lt_rounds_iff hstep, Nat.cast_succ, add_mul, one_mul, add_comm _ step, add_assoc]
  have hlast := hnext (rounds (start + step) limit step)
  have hbefore := hnext (rounds (start + step) limit step - 1)
  omega

/-- The value of a round. -/
def valueAt (start : Int64) (step : Stride) (k : Nat) : Int64 := .ofInt (start.toInt + k * step.val.toInt)

/-- **The values of all rounds fit**: none is outside of the numbers between the
start and the limit. -/
theorem toInt_valueAt {start limit : Int64} {step : Stride} {k : Nat}
    (h : k < rounds start.toInt limit.toInt step.val.toInt) :
    (valueAt start step k).toInt = start.toInt + k * step.val.toInt := by
  have hs := step.toInt_ne_zero
  have hpast := (lt_rounds_iff hs k).1 h
  have hk : (0 : Int) ≤ k := Int.natCast_nonneg k
  have ha := start.le_toInt
  have ha' := start.toInt_lt
  have hb := limit.le_toInt
  have hb' := limit.toInt_lt
  unfold Past at hpast
  rcases lt_or_gt_of_ne hs with hneg | hpos
  · have hmul : (k : Int) * step.val.toInt ≤ 0 := mul_nonpos_of_nonneg_of_nonpos hk hneg.le
    exact Int64.toInt_ofInt_of_le (by omega) (by omega)
  · have hmul : 0 ≤ (k : Int) * step.val.toInt := mul_nonneg hk hpos.le
    exact Int64.toInt_ofInt_of_le (by omega) (by omega)

theorem within_iff {limit v : Int64} {step : Stride} :
    within limit step (.integer v) = true ↔ ¬ Past step.val.toInt limit.toInt v.toInt := by
  have hs := step.toInt_ne_zero
  have hzero : (0 : Int64).toInt = 0 := rfl
  simp only [within, Past]
  split
  case isTrue h =>
    rw [Int64.lt_iff_toInt_lt, hzero] at h
    rw [decide_eq_true_iff, Int64.le_iff_toInt_le]
    omega
  case isFalse h =>
    rw [Int64.lt_iff_toInt_lt, hzero] at h
    rw [decide_eq_true_iff, Int64.le_iff_toInt_le]
    omega

/-- A value that does not fit is past every limit. -/
theorem past_of_next? {limit v : Int64} {step : Stride} (h : step.next? v = none) :
    Past step.val.toInt limit.toInt (v.toInt + step.val.toInt) := by
  have hs := step.toInt_ne_zero
  have hv := v.le_toInt
  have hv' := v.toInt_lt
  have hb := limit.le_toInt
  have hb' := limit.toInt_lt
  unfold Stride.next? Integer.ofInt? at h
  split at h
  · cases h
  case isFalse hfits =>
    unfold Past
    omega

end Loop

namespace Act

/-- **The passes of a loop are its rounds**, one after the other. -/
theorem passes_eq_forM (limit : Int64) (step : Stride) (pass : Int64 → Act Unit) (v : Int64) :
    passes limit step pass v =
      forM (List.range (Loop.rounds v.toInt limit.toInt step.val.toInt)) fun k => pass (Loop.valueAt v step k) := by
  have hs := step.toInt_ne_zero
  have hfirst : Loop.valueAt v step 0 = v := by
    rw [Loop.valueAt, Nat.cast_zero, zero_mul, add_zero, Int64.ofInt_toInt]
  rw [passes]
  split
  case isTrue h =>
    rw [Loop.within_iff] at h
    rw [Loop.rounds_succ hs h, List.range_succ_eq_map, List.forM_cons, List.forM_map, hfirst]
    refine congrArg (pass v >>= ·) (funext fun _ => ?_)
    split
    case h_1 w hw =>
      have := Stride.room_lt_of_next? hw
      have hw : w.toInt = v.toInt + step.val.toInt := Integer.ofInt?_eq_some_iff.1 hw
      have hvalue (k : Nat) : Loop.valueAt v step k.succ = Loop.valueAt w step k := by
        rw [Loop.valueAt, Loop.valueAt, hw, Nat.cast_succ]
        congr 1
        ring
      rw [passes_eq_forM limit step pass w, hw]
      simp only [hvalue]
    case h_2 hw =>
      rw [Loop.rounds, if_pos (Loop.past_of_next? hw)]
      rfl
  case isFalse h =>
    rw [Loop.within_iff, not_not] at h
    rw [Loop.rounds, if_pos h]
    rfl
termination_by step.room v

/-- The first of some rounds that halts is the last one. -/
theorem forM_range_of_error {f : Nat → Act Unit} {k n : Nat} (hk : k < n) {m m₁ m₂ : Machine} {h : Halt}
    (hbefore : forM (List.range k) f m = .ok () m₁) (hround : f k m₁ = .error h m₂) :
    forM (List.range n) f m = .error h m₂ := by
  induction n with
  | zero => cases hk
  | succ n ih =>
    rw [List.range_succ, List.forM_append]
    rcases Nat.lt_succ_iff_lt_or_eq.1 hk with hlt | rfl
    · exact bind_error (ih hlt) _
    · rw [bind_ok hbefore, List.forM_cons]
      exact bind_error hround _

end Act

/-! ### The line -/

/-- Does what a tape says as a line. -/
def Tape.interpret (run : Act Unit) (line : Option Int64) (t : Tape) : Act Unit := (Script.read t).exec run line

namespace Machine

variable (run : Act Unit) {text : String}

/-- A text that begins with a verb is executed as a line outside of any
program. -/
theorem execute_of_verb {x : Lexeme} {v : Verb} {t : Tape} (hx : x.token = .verb v)
    (h : Tape.ofLine text = .cons x t) : execute run text = (Tape.cons x t).interpret run none := by
  obtain ⟨x, p, q⟩ := x
  subst hx
  rw [execute, h]
  rfl

/-- A text that begins with a number is executed as that line. -/
theorem execute_of_number {n : Int64} {p q : Position} {t : Tape}
    (h : Tape.ofLine text = .cons ⟨.lineNumber n, p, q⟩ t) : execute run text = t.interpret run (some n) := by
  rw [execute, h]
  rfl

theorem executeLine_eq (n : Int64) : executeLine run n text = (Tape.ofStatements text).interpret run (some n) := rfl

end Machine

namespace LoopLine

variable (l : LoopLine)

/-- Writes a value to the counter. -/
def writeCounter (i v : Int64) : Act Unit := Act.writeNumber l.head.place.name i (.integer v)

/-- A round of the loop: its value is written to the counter, and the body is
done as a line of its own. -/
def round (run : Act Unit) (line : Option Int64) (i start : Int64) (step : Stride) (k : Nat) : Act Unit := do
  l.writeCounter i (Loop.valueAt start step k)
  l.bodyTape.interpret run line

/-- Writing the counter changes the memory and nothing else, and raises no
`OVERFLOW`. -/
theorem writeCounter_cases (i v : Int64) (m : Machine) :
    ∃ memory, l.writeCounter i v m = .ok () { m with memory } ∨
      ∃ e : Error, e.kind ≠ .overflow ∧ l.writeCounter i v m = .error (.failed e) { m with memory } := by
  cases h : m.memory.write .numeric l.head.place.name i (.integer v) with
  | mk r memory =>
    refine ⟨memory, ?_⟩
    cases r with
    | ok _ => exact .inl (by simp only [writeCounter, Act.writeNumber, Act.memory, h])
    | error e =>
      have hkind : e.kind.OfWrite := Memory.kind_of_write_error (congrArg Prod.fst h)
      refine .inr ⟨e, ?_, by simp only [writeCounter, Act.writeNumber, Act.memory, h]⟩
      intro hover
      rw [hover] at hkind
      rcases hkind with h | h | h | h <;> cases h

/-- A line with a loop is its rounds, and then its rest. -/
theorem interpret_tape_eq (run : Act Unit) (line : Option Int64) {m m₁ : Machine} {i start limit : Int64}
    {step : Stride} (hrange : Act.range l.head m = .ok (i, start, limit, step) m₁) :
    l.tape.interpret run line m =
      (do
        forM (List.range (Loop.rounds start.toInt limit.toInt step.val.toInt)) (l.round run line i start step)
        l.restTape.interpret run line) m₁ := by
  rw [Tape.interpret, l.read_tape]
  refine (Act.bind_ok hrange _).trans ?_
  dsimp only
  rw [Act.passes_eq_forM]
  rfl

/-- If a round halts, so does the line. -/
theorem interpret_tape_of_error {run : Act Unit} {line : Option Int64} {m m₁ m₂ m₃ : Machine} {i start limit : Int64}
    {step : Stride} (hrange : Act.range l.head m = .ok (i, start, limit, step) m₁) {k : Nat}
    (hk : k < Loop.rounds start.toInt limit.toInt step.val.toInt) {h : Halt}
    (hbefore : forM (List.range k) (l.round run line i start step) m₁ = .ok () m₂)
    (hround : l.round run line i start step k m₂ = .error h m₃) : l.tape.interpret run line m = .error h m₃ := by
  rw [l.interpret_tape_eq run line hrange]
  exact Act.bind_error (Act.forM_range_of_error hk hbefore hround) _

theorem execute_eq_interpret (run : Act Unit) {text : String} (h : Tape.ofLine text = l.tape) :
    Machine.execute run text = l.tape.interpret run none :=
  Machine.execute_of_verb run l.opening_eq h

theorem execute_numbered (run : Act Unit) {text : String} {n : Int64} {p q : Position}
    (h : Tape.ofLine text = .cons ⟨.lineNumber n, p, q⟩ l.tape) :
    Machine.execute run text = l.tape.interpret run (some n) :=
  Machine.execute_of_number run h

theorem executeLine_eq_interpret (run : Act Unit) (n : Int64) {text : String} (h : Tape.ofStatements text = l.tape) :
    Machine.executeLine run n text = l.tape.interpret run (some n) := by
  rw [Machine.executeLine_eq, h]

/-- **A loop in one line goes round exactly as often as its head says.** Once
the head has been evaluated, the line is its rounds and then its rest, and the
rounds are those of the values that are not past the limit, each of which fits.
Writing the counter is all that the loop does besides its body: it leaves
everything but the memory as it is, and no number overflows. The first round
that halts is the end of the line; if there is none at all, the rest of the line
follows at once. -/
theorem interpret_tape (run : Act Unit) (line : Option Int64) {m m₁ : Machine} {i start limit : Int64} {step : Stride}
    (hrange : Act.range l.head m = .ok (i, start, limit, step) m₁) :
    let n := Loop.rounds start.toInt limit.toInt step.val.toInt
    let round := l.round run line i start step
    (∃ chance, m₁ = { m with chance }) ∧
      (l.tape.interpret run line m =
        (do
          forM (List.range n) round
          l.restTape.interpret run line) m₁) ∧
      (∀ k < n, (Loop.valueAt start step k).toInt = start.toInt + k * step.val.toInt) ∧
      (∀ v m₂, ∃ memory, l.writeCounter i v m₂ = .ok () { m₂ with memory } ∨
        ∃ e : Error, e.kind ≠ .overflow ∧ l.writeCounter i v m₂ = .error (.failed e) { m₂ with memory }) ∧
      (∀ k < n, ∀ m₂ m₃ h, forM (List.range k) round m₁ = .ok () m₂ → round k m₂ = .error h m₃ →
        l.tape.interpret run line m = .error h m₃) ∧
      (n = 0 → l.tape.interpret run line m = l.restTape.interpret run line m₁) ∧
      (∀ text, Tape.ofLine text = l.tape → Machine.execute run text = l.tape.interpret run none) ∧
      (∀ text n p q, Tape.ofLine text = .cons ⟨.lineNumber n, p, q⟩ l.tape →
        Machine.execute run text = l.tape.interpret run (some n)) ∧
      ∀ text n, Tape.ofStatements text = l.tape → Machine.executeLine run n text = l.tape.interpret run (some n) := by
  intro n round
  have hline := l.interpret_tape_eq run line hrange
  refine ⟨?_, hline, fun k hk => Loop.toInt_valueAt hk, l.writeCounter_cases i, ?_, ?_,
    fun text h => l.execute_eq_interpret run h, fun text n p q h => l.execute_numbered run h,
    fun text n h => l.executeLine_eq_interpret run n h⟩
  · obtain ⟨chance, ⟨r, hr⟩ | ⟨e, he⟩⟩ := Act.range_looks l.head m
    · rw [hr] at hrange
      cases hrange
      exact ⟨chance, rfl⟩
    · rw [he] at hrange
      cases hrange
  · intro k hk m₂ m₃ h hbefore hround
    exact l.interpret_tape_of_error hrange hk hbefore hround
  · intro hn
    have hn : Loop.rounds start.toInt limit.toInt step.val.toInt = 0 := hn
    rw [hline, hn]
    rfl

-- Behind the second value the next one does not fit, and the body spoils the
-- counter in a loop of its own.
theorem interpret_tape_last_values :
    let text := "FOR I=9223372036854775804 TO 9223372036854775807 STEP 2:FOR J=1 TO 2 STEP 1:I=0:NEXT:NEXT I:PRINT I"
    let step : Stride := ⟨2, by decide⟩
    ∃ l : LoopLine, Tape.ofLine text = l.tape ∧
      Act.range l.head {} = .ok (0, 9223372036854775804, 9223372036854775807, step) {} ∧
      ∀ run, Machine.execute run text {} =
        (do
          forM (List.range 2) (l.round run none 0 9223372036854775804 step)
          l.restTape.interpret run none) {} := by
  intro text step
  let range : List Token := [.name "I", .equal, .number 9223372036854775804, .keyword .upTo,
    .number 9223372036854775807, .keyword .step, .number 2]
  let body : List Token := [.verb .loop, .name "J", .equal, .number 1, .keyword .upTo, .number 2, .keyword .step,
    .number 1, .colon, .name "I", .equal, .number 0, .colon, .verb .next]
  let counter : List Token := [.name "I"]
  let rest : List Token := [.verb .print, .name "I"]
  have hrange := LoopHead.spelled_numbers "I" 9223372036854775804 9223372036854775807 2
  have htokens : (Tape.ofLine text).tokens? = some (.verb .loop :: (range ++ .colon :: (body ++ .colon :: .verb .next ::
      (counter ++ .colon :: rest)))) := by
    decide +kernel
  obtain ⟨l, htape, hl, -, -⟩ :=
    exists_of_tokens htokens hrange (by decide) (List.cons_ne_nil _ _) (by decide +kernel) (.inr rfl)
  have hvalues : Act.range l.head {} = .ok (0, 9223372036854775804, 9223372036854775807, step) {} := by
    rw [hl]
    rfl
  have hrounds :
      Loop.rounds (Int64.toInt 9223372036854775804) (Int64.toInt 9223372036854775807) step.val.toInt = 2 := by
    decide +kernel
  refine ⟨l, htape.symm, hvalues, fun run => ?_⟩
  obtain ⟨-, hline, -, -, -, -, htext, -, -⟩ := l.interpret_tape run none hvalues
  rw [htext text htape.symm, hline, hrounds]

end LoopLine

end LineBasic
