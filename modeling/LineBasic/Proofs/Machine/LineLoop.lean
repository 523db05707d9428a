import LineBasic.Proofs.Grammar.LoopLines
import LineBasic.Proofs.Machine.Calls
import LineBasic.Proofs.Machine.Finishes
import LineBasic.Proofs.Machine.Rounds

/-!
# Loops over lines

A loop `FOR v=a TO b STEP s` over the lines up to a `NEXT` passes over them once
for each of the values `a`, `a + s`, `a + 2s`, … that is not past `b`. `FOR`
writes the first value and pushes a frame. Each `NEXT` takes the frame off and
adds the step to whatever the variable holds; if the sum is not past the limit,
it is written and the frame put back, otherwise the program goes on behind the
`NEXT` and the variable keeps its last value.

* `Act.startLoop_eq`, `Act.openLoop_admitted`, `Act.next_again`,
  `Act.next_over`: what `FOR` and `NEXT` do.
* `Machine.Reads`: the tokens of a line of the program.
* `Machine.Arrives`, `Machine.Passes`: the way up to a line, and passes over the
  body of a loop.
* `Machine.passes_of_loop`: there are as many passes as there are values.
-/

namespace LineBasic

/-! ### What `FOR` and `NEXT` do -/

namespace Act

variable {m m₁ : Machine} {memory : Memory} {line : Option Int64} {l : Loop} {name : Option String} {x y : Int64}

/-- What only looks leaves the machine as it was, but for the source of random
numbers. -/
theorem Looks.of_ok {α : Type} {x : Act α} (hx : x.Looks) {a : α} (h : x m = .ok a m₁) :
    ∃ chance, m₁ = { m with chance } := by
  obtain ⟨chance, ⟨b, hb⟩ | ⟨e, he⟩⟩ := hx m
  · rw [hb] at h
    obtain ⟨-, rfl⟩ := EStateM.Result.ok.inj h
    exact ⟨chance, rfl⟩
  · rw [he] at h
    cases h

/-- What `FOR` does when its range is known: it writes the first value, and
enters the loop or goes on behind it. -/
def openLoop (line : Option Int64) (l : Loop) (start : Int64) : Act Unit := do
  writeNumber l.counter l.index (.integer start)
  if l.admits (.integer start) then control (·.push (.loop l))
  else follow ((← inspect (·.closing line l.counter)) + 1)

theorem startLoop_eq {head : LoopHead} {i start limit : Int64} {step : Stride}
    (h : range head m = .ok (i, start, limit, step) m₁) :
    startLoop line head m = openLoop line ⟨head.place.name, i, m₁.control.following, limit, step⟩ start m₁ := by
  rw [startLoop, bind_ok h]
  rfl

theorem writeNumber_ok {s : String} {i : Int64} {v : Value}
    (h : m.memory.write .numeric s i v = (.ok (), memory)) : writeNumber s i v m = .ok () { m with memory } := by
  rw [writeNumber, Act.memory, h]

/-- A loop that is entered. -/
theorem openLoop_admitted (line : Option Int64) {stack : Stack}
    (hw : m.memory.write .numeric l.counter l.index (.integer x) = (.ok (), memory))
    (hx : l.admits (.integer x) = true) (hp : m.control.stack.push (.loop l) = .ok stack) :
    openLoop line l x m = .ok () { m with memory, control := { m.control with stack } } := by
  rw [openLoop, bind_ok (writeNumber_ok hw), if_pos hx]
  refine control_ok ?_
  rw [Control.push, hp]
  rfl

/-- A loop that is not entered: its variable is written all the same. -/
theorem openLoop_refused (line : Option Int64)
    (hw : m.memory.write .numeric l.counter l.index (.integer x) = (.ok (), memory))
    (hx : l.admits (.integer x) = false) :
    openLoop line l x m =
      (inspect (·.closing line l.counter) >>= fun address => follow (address + 1)) { m with memory } := by
  rw [openLoop, bind_ok (writeNumber_ok hw), if_neg (by simp [hx])]

/-- `NEXT` adds the step to the variable of the latest frame, if that is its
loop. -/
theorem next_eq (htop : m.control.stack.top? = some (.loop l)) (hname : name.all (· == l.counter) = true)
    (hread : m.memory.readNumber l.counter l.index = .ok (.integer x)) (hy : y.toInt = x.toInt + l.step.toInt) :
    next name m =
      (if l.admits (.integer y) then do
        writeNumber l.counter l.index (.integer y)
        follow l.start
        control (·.push (.loop l))
      else pure ()) { m with control := { m.control with stack := m.control.stack.pop } } := by
  have hframes := Stack.frames_of_top? htop
  have hfind : Stack.findLoop? name m.control.stack.frames = some 0 := by
    rw [hframes, Stack.findLoop?, if_pos hname]
  have hdrop : control (fun c => .ok { c with stack := c.stack.drop 0 }) m = .ok () m := control_ok rfl
  have hinspect (c : Control) : inspect (·.memory.readNumber l.counter l.index) { m with control := c } =
      .ok (.integer x) { m with control := c } :=
    inspect_ok hread
  have hsum : Binary.add.apply (.integer x) (.integer l.step) = .ok (.integer y) := by
    have hfit : Integer.ofInt? (x.toInt + l.step.toInt) = some y := Integer.ofInt?_eq_some_iff.2 hy
    simp only [Binary.apply, Value.add, Value.arithmetic, Value.exactly, hfit]
  rw [next, get_bind, hfind]
  dsimp only
  rw [bind_ok hdrop, bind_ok (takeLoop_ok htop), continueLoop, bind_ok (hinspect _), hsum]
  rfl

/-- `NEXT` goes back to the first line of the loop. -/
theorem next_again (htop : m.control.stack.top? = some (.loop l)) (hname : name.all (· == l.counter) = true)
    (hdepth : m.control.stack.depth ≤ Stack.capacity)
    (hread : m.memory.readNumber l.counter l.index = .ok (.integer x)) (hy : y.toInt = x.toInt + l.step.toInt)
    (hin : l.admits (.integer y) = true)
    (hw : m.memory.write .numeric l.counter l.index (.integer y) = (.ok (), memory)) :
    next name m = .ok () { m with memory, control := { m.control with following := l.start } } := by
  have hframes := Stack.frames_of_top? htop
  have hpush : m.control.stack.pop.push (.loop l) = .ok m.control.stack := by
    have hroom : ¬ Stack.capacity ≤ m.control.stack.pop.depth := by
      have hd := m.control.stack.depth_eq
      rw [hframes, List.length_cons] at hd
      have hpop : m.control.stack.pop.depth = m.control.stack.depth - 1 := rfl
      omega
    rw [Stack.push, if_neg hroom]
    exact congrArg Except.ok (stack_ext hframes.symm)
  rw [next_eq htop hname hread hy, if_pos hin]
  have hwrite := writeNumber_ok (m := { m with control := { m.control with stack := m.control.stack.pop } }) hw
  refine (bind_ok hwrite _).trans ((bind_ok (by rfl) _).trans ?_)
  refine control_ok ?_
  rw [Control.push, hpush]
  rfl

/-- `NEXT` goes on behind the loop. -/
theorem next_over (htop : m.control.stack.top? = some (.loop l)) (hname : name.all (· == l.counter) = true)
    (hread : m.memory.readNumber l.counter l.index = .ok (.integer x)) (hy : y.toInt = x.toInt + l.step.toInt)
    (hin : l.admits (.integer y) = false) :
    next name m = .ok () { m with control := { m.control with stack := m.control.stack.pop } } := by
  rw [next_eq htop hname hread hy, if_neg (by simp [hin])]
  rfl

end Act

/-! ### Lines -/

/-- The place in the program, when the line at an address has been reached. -/
def Control.reached (c : Control) (address : Nat) : Control := { c with address, following := address }

namespace Machine

variable {m m' : Machine} {run : Act Unit} {address : Nat} {ts : List Token}

/-- The line at the address consists of the tokens. -/
def Reads (m : Machine) (address : Nat) (ts : List Token) : Prop :=
  ∃ n text, m.control.lineAt? address = some n ∧ m.listing.find? n = some text ∧
    (Tape.ofStatements text).tokens? = some ts

theorem Reads.of_eq (h : m.Reads address ts) (hlisting : m'.listing = m.listing)
    (htable : m'.control.table = m.control.table) : m'.Reads address ts := by
  obtain ⟨n, text, hat, hfind, ht⟩ := h
  refine ⟨n, text, ?_, hlisting ▸ hfind, ht⟩
  rw [Control.lineAt?, htable]
  exact hat

theorem Reads.inRange (h : m.Reads m.control.address ts) : m.control.inRange := by
  obtain ⟨n, text, hat, -⟩ := h
  obtain ⟨hlt, -⟩ := Array.getElem?_eq_some_iff.1 hat
  exact decide_eq_true hlt

/-- A line that comes to a good end is followed by another one. -/
theorem step_of_interpret (h : m.Reads m.control.address ts)
    (hline : ∀ t : Tape, t.tokens? = some ts → ∀ n, t.interpret run (some n) m.fetched = .ok () m') :
    step run m = .ok true { m' with control := m'.control.advance } := by
  obtain ⟨n, text, hat, hfind, htokens⟩ := h
  have hexec : executeLine run n text m.fetched = .ok () m' := hline _ htokens n
  rw [step_of_text run hat hfind, asLine, Act.bind_ok (Act.tryCatch_ok hexec _)]
  rfl

/-- A line that is a single statement. -/
theorem step_of_reads (h : m.Reads m.control.address ts) {action : Action}
    (hread : ∀ t : Tape, t.tokens? = some ts → Script.read t = .step action .done)
    (hact : ∀ n, action.perform run (some n) m.fetched = .ok () m') :
    step run m = .ok true { m' with control := m'.control.advance } := by
  refine step_of_interpret h fun t ht n => ?_
  rw [Tape.interpret, hread t ht]
  exact Act.bind_ok (hact n) _

/-- `FOR` opens a loop over the lines behind it. -/
theorem step_opening (run : Act Unit) {range : List Token} {head : LoopHead} {i start limit : Int64} {s : Stride}
    {m₁ : Machine} {memory : Memory} {stack : Stack} (hline : m.Reads m.control.address (.verb .loop :: range))
    (hhead : head.Spelled range) (hkind : VariableKind.ofName head.place.name = .numeric)
    (hrange : Act.range head m.fetched = .ok (i, start, limit, s) m₁)
    (hw : m.memory.write .numeric head.place.name i (.integer start) = (.ok (), memory))
    (hin : ¬ Loop.Past s.val.toInt limit.toInt start.toInt)
    (hp : m.control.stack.push (.loop ⟨head.place.name, i, m.control.address + 1, limit, s⟩) = .ok stack) :
    step run m = .ok true
      { m with
        memory, chance := m₁.chance, control := .reached { m.control with stack } (m.control.address + 1) } := by
  obtain ⟨chance, rfl⟩ := (Act.range_looks head).of_ok hrange
  have hact (n : Int64) := (Act.startLoop_eq hrange).trans (Act.openLoop_admitted (some n)
    (m := { m.fetched with chance }) (l := ⟨head.place.name, i, m.control.address + 1, limit, s⟩) hw
    (Loop.within_iff.2 hin) hp)
  exact step_of_reads hline (fun t ht => Script.read_opening ht hhead hkind) hact

/-- `NEXT` goes back to the first line of the loop. -/
theorem step_again (run : Act Unit) {name : Option String} {l : Loop} {x y : Int64} {memory : Memory}
    (hline : m.Reads m.control.address (Token.closing name)) (htop : m.control.stack.top? = some (.loop l))
    (hname : name.all (· == l.counter) = true) (hdepth : m.control.stack.depth ≤ Stack.capacity)
    (hread : m.memory.readNumber l.counter l.index = .ok (.integer x)) (hy : y.toInt = x.toInt + l.step.toInt)
    (hin : l.admits (.integer y) = true)
    (hw : m.memory.write .numeric l.counter l.index (.integer y) = (.ok (), memory)) :
    step run m = .ok true { m with memory, control := m.control.reached l.start } := by
  have hnext := Act.next_again (m := m.fetched) htop hname hdepth hread hy hin hw
  exact step_of_reads hline (fun t ht => Script.read_closing ht) fun _ => hnext

/-- `NEXT` goes on behind the loop. -/
theorem step_over (run : Act Unit) {name : Option String} {l : Loop} {x y : Int64}
    (hline : m.Reads m.control.address (Token.closing name)) (htop : m.control.stack.top? = some (.loop l))
    (hname : name.all (· == l.counter) = true)
    (hread : m.memory.readNumber l.counter l.index = .ok (.integer x)) (hy : y.toInt = x.toInt + l.step.toInt)
    (hin : l.admits (.integer y) = false) :
    step run m = .ok true
      { m with control := .reached { m.control with stack := m.control.stack.pop } (m.control.address + 1) } := by
  have hnext := Act.next_over (m := m.fetched) htop hname hread hy hin
  exact step_of_reads hline (fun t ht => Script.read_closing ht) fun _ => hnext

end Machine

/-! ### Passes over the body -/

namespace Loop

variable {start limit : Int64} {step : Stride} {k : Nat}

/-- The value behind the last round is still a number. -/
theorem toInt_valueAt_of_fits (h : -9223372036854775808 ≤ start.toInt + k * step.val.toInt)
    (h' : start.toInt + k * step.val.toInt ≤ 9223372036854775807) :
    (valueAt start step k).toInt = start.toInt + k * step.val.toInt :=
  Int64.toInt_ofInt_of_le h (by omega)

theorem within_valueAt_iff (h : (valueAt start step k).toInt = start.toInt + k * step.val.toInt) :
    within limit step (.integer (valueAt start step k)) = true ↔
      k < rounds start.toInt limit.toInt step.val.toInt := by
  rw [within_iff, h, lt_rounds_iff step.toInt_ne_zero]

end Loop

namespace Machine

variable {m p q m' : Machine} {nested : Act Unit} {l : Loop} {last : Nat} {xs ys : List Int64} {x : Int64}

/-- The way to a line, by lines that are executed one after the other. It ends
where the line is reached for the first time, before it is executed. -/
inductive Arrives (nested : Act Unit) (last : Nat) : Machine → Machine → Prop
  | here {m : Machine} : m.control.address = last → Arrives nested last m m
  | step {m m' q : Machine} :
      m.control.address ≠ last → step nested m = .ok true m' → Arrives nested last m' q → Arrives nested last m q

theorem Arrives.address_eq (h : Arrives nested last p q) : q.control.address = last := by
  induction h with
  | here h => exact h
  | step _ _ _ ih => exact ih

theorem Reachable.step {budget : Nat} (hm : m.Reachable) {b : Bool} (h : step (run budget) m = .ok b m') :
    m'.Reachable := by
  have hcall : (Call.step.act (run budget)) m = .ok () m' := Act.bind_ok h _
  have hafter := hm.call .step budget
  rw [Session.afterwards, hcall] at hafter
  exact hafter

theorem Arrives.reachable {budget : Nat} (h : Arrives (run budget) last p q) (hp : p.Reachable) : q.Reachable := by
  induction h with
  | here _ => exact hp
  | step _ hs _ ih => exact ih (hp.step hs)

/-- There is one way to a line. -/
theorem Arrives.unique {q' : Machine} (h : Arrives nested last p q) (h' : Arrives nested last p q') : q = q' := by
  induction h with
  | here h =>
    cases h' with
    | here _ => rfl
    | step hne _ _ => exact absurd h hne
  | step hne hs _ ih =>
    cases h' with
    | here h => exact absurd h hne
    | step _ hs' h' =>
      rw [hs] at hs'
      obtain ⟨-, rfl⟩ := EStateM.Result.ok.inj hs'
      exact ih h'

/-- Passes over the body of a loop. Each begins at its first line with a value
in the counter, arrives at the last line, and ends with that line executed. -/
inductive Passes (nested : Act Unit) (l : Loop) (last : Nat) : List Int64 → Machine → Machine → Prop
  | none (m : Machine) : Passes nested l last [] m m
  | pass {m q m' m'' : Machine} {x : Int64} {xs : List Int64} : m.control.address = l.start →
      m.memory.readNumber l.counter l.index = .ok (.integer x) → Arrives nested last m q → step nested q = .ok true m' →
      Passes nested l last xs m' m'' → Passes nested l last (x :: xs) m m''

theorem Passes.snoc (h : Passes nested l last xs m p) (haddress : p.control.address = l.start)
    (hread : p.memory.readNumber l.counter l.index = .ok (.integer x)) (harrive : Arrives nested last p q)
    (hstep : step nested q = .ok true m') : Passes nested l last (xs ++ [x]) m m' := by
  induction h with
  | none m => exact .pass haddress hread harrive hstep (.none m')
  | pass haddress' hread' harrive' hstep' _ ih =>
    exact .pass haddress' hread' harrive' hstep' (ih haddress hread harrive)

/-- So many passes lead to one machine. -/
theorem Passes.unique {p' : Machine} (h : Passes nested l last xs m p) (h' : Passes nested l last ys m p')
    (hlen : xs.length = ys.length) : p = p' := by
  induction h generalizing ys with
  | none m =>
    cases h' with
    | none => rfl
    | pass => cases hlen
  | pass _ _ harrive hstep _ ih =>
    cases h' with
    | none => cases hlen
    | pass _ _ harrive' hstep' h' =>
      obtain rfl := harrive.unique harrive'
      rw [hstep] at hstep'
      obtain ⟨-, rfl⟩ := EStateM.Result.ok.inj hstep'
      exact ih h' (Nat.succ.inj hlen)

/-- A pass over the body comes to the line that closes the loop, and leaves the
frames and the counter as they were. -/
def Completes (nested : Act Unit) (l : Loop) (last : Nat) (p : Machine) : Prop :=
  ∃ q name, Arrives nested last p q ∧ q.control.stack = p.control.stack ∧
    q.memory.readNumber l.counter l.index = p.memory.readNumber l.counter l.index ∧
    name.all (· == l.counter) = true ∧ q.Reads last (Token.closing name)

/-- The machine is about to pass over the body of a loop that was entered on
`m`. -/
structure Underway (m : Machine) (l : Loop) (x : Int64) (p : Machine) : Prop where
  reachable : p.Reachable
  address_eq : p.control.address = l.start
  frames_eq : p.control.stack.frames = .loop l :: m.control.stack.frames
  counter_eq : p.memory.readNumber l.counter l.index = .ok (.integer x)

/-- **One pass**, with the `NEXT` at its end: the next one is under way, or the
loop is over. -/
theorem Underway.pass {budget : Nat} (hp : Underway m l x p) (hpass : Completes (run budget) l last p) {y : Int64}
    (hy : y.toInt = x.toInt + l.step.toInt) :
    ∃ q p', Arrives (run budget) last p q ∧ step (run budget) q = .ok true p' ∧
      (l.admits (.integer y) = true → Underway m l y p') ∧
      (l.admits (.integer y) = false → p'.control.address = last + 1 ∧ p'.control.stack = m.control.stack ∧
        p'.memory.readNumber l.counter l.index = .ok (.integer x)) := by
  obtain ⟨q, name, harrive, hstack, hcounter, hname, hline⟩ := hpass
  have hq := harrive.reachable hp.reachable
  have haddress := harrive.address_eq
  have hread := hcounter.trans hp.counter_eq
  have hframes : q.control.stack.frames = .loop l :: m.control.stack.frames := hstack ▸ hp.frames_eq
  have htop : q.control.stack.top? = some (.loop l) := by rw [Stack.top?, hframes, List.head?_cons]
  rw [← haddress] at hline
  cases hin : l.admits (.integer y) with
  | true =>
    obtain ⟨memory, hw⟩ := Memory.exists_write_of_readNumber hread (x := .integer y) rfl
    have hstep := step_again (run budget) hline htop hname hq.orderly.depth_le hread hy hin hw
    refine ⟨q, _, harrive, hstep, fun _ => ⟨hq.step hstep, rfl, hframes, ?_⟩, Bool.noConfusion⟩
    exact hq.orderly.memory.readNumber_of_write hw
  | false =>
    have hstep := step_over (run budget) hline htop hname hread hy hin
    refine ⟨q, _, harrive, hstep, Bool.noConfusion, fun _ => ⟨congrArg (· + 1) haddress, ?_, hread⟩⟩
    exact Act.stack_ext (congrArg List.tail hframes)

/-- The first passes of a loop, up to the one that makes the machine ready for
the next. -/
theorem Underway.exists_passes {budget n : Nat} {first : Machine} {start : Int64} {step : Stride}
    (hfirst : Underway m l (Loop.valueAt start step 0) first) (hstep : l.step = step)
    (hvalue : ∀ k < n, (Loop.valueAt start step k).toInt = start.toInt + k * step.val.toInt)
    (hin : ∀ k < n, l.admits (.integer (Loop.valueAt start step k)) = true)
    (hbody : ∀ xs p, Passes (run budget) l last xs first p → xs.length < n → p.control.address = l.start →
      Completes (run budget) l last p) :
    ∀ k < n, ∃ p, Passes (run budget) l last ((List.range k).map (Loop.valueAt start step)) first p ∧
      Underway m l (Loop.valueAt start step k) p := by
  intro k
  induction k with
  | zero => exact fun _ => ⟨first, .none first, hfirst⟩
  | succ k ih =>
    intro hk
    obtain ⟨p, hpasses, hp⟩ := ih (by omega)
    have hsum : (Loop.valueAt start step (k + 1)).toInt = (Loop.valueAt start step k).toInt + l.step.toInt := by
      rw [hvalue (k + 1) hk, hvalue k (by omega), hstep, Nat.cast_succ, add_mul, one_mul, add_assoc]
    have hcompletes := hbody _ p hpasses (by simp; omega) hp.address_eq
    obtain ⟨q, p', harrive, hnext, hagain, -⟩ := hp.pass hcompletes hsum
    refine ⟨p', ?_, hagain (hin (k + 1) hk)⟩
    rw [List.range_succ, List.map_append]
    exact hpasses.snoc hp.address_eq hp.counter_eq harrive hnext

/-- **A loop over lines passes over its body once for each value.** `FOR` stands
alone on the current line and `NEXT` on the line `last`. The range is not empty,
the value behind the last one is still a number, and each pass that begins comes
to the line `last` and leaves the frames and the counter as they were. Then
there are exactly so many passes as there are values, each with its value in the
counter; behind them the program goes on behind the `NEXT`, with the frames that
it had before the `FOR` and the last value in the counter. -/
theorem passes_of_loop (budget : Nat) (hm : m.Reachable) {head : LoopHead} {range : List Token} {i a b : Int64}
    {s : Stride} {m₁ : Machine} (hfor : m.Reads m.control.address (.verb .loop :: range)) (hhead : head.Spelled range)
    (hkind : VariableKind.ofName head.place.name = .numeric)
    (hrange : Act.range head m.fetched = .ok (i, a, b, s) m₁)
    (hwrite : (m.memory.write .numeric head.place.name i (.integer a)).1 = .ok ())
    (hin : ¬ Loop.Past s.val.toInt b.toInt a.toInt) (hroom : m.control.stack.depth < 65535) (last : Nat) :
    let l : Loop := ⟨head.place.name, i, m.control.address + 1, b, s⟩
    let n := ((b.toInt - a.toInt).fdiv s.val.toInt).toNat + 1
    a.toInt + n * s.val.toInt ≤ 9223372036854775807 → -9223372036854775808 ≤ a.toInt + n * s.val.toInt →
    (∀ first xs p, step (run budget) m = .ok true first → Passes (run budget) l last xs first p → xs.length < n →
      p.control.address = l.start → Completes (run budget) l last p) →
    ∃ first m', step (run budget) m = .ok true first ∧
      Passes (run budget) l last ((List.range n).map (Loop.valueAt a s)) first m' ∧
      (∀ k < n, (Loop.valueAt a s k).toInt = a.toInt + k * s.val.toInt) ∧
      m'.control.address = last + 1 ∧ m'.control.stack = m.control.stack ∧
      m'.memory.readNumber l.counter l.index = .ok (.integer (Loop.valueAt a s (n - 1))) := by
  intro l n hhigh hlow hbody
  have hn : n = Loop.rounds a.toInt b.toInt s.val.toInt := (if_neg hin).symm
  have hvalue (k : Nat) (hk : k < n) : (Loop.valueAt a s k).toInt = a.toInt + k * s.val.toInt :=
    Loop.toInt_valueAt (hn ▸ hk)
  have hlast := Loop.toInt_valueAt_of_fits hlow hhigh
  have hadmits (k : Nat) (hk : k < n) : l.admits (.integer (Loop.valueAt a s k)) = true :=
    (Loop.within_valueAt_iff (hvalue k hk)).2 (hn ▸ hk)
  have hover : l.admits (.integer (Loop.valueAt a s n)) = false := by
    refine Bool.eq_false_iff.2 fun h => ?_
    have hlt : n < Loop.rounds a.toInt b.toInt s.val.toInt := (Loop.within_valueAt_iff hlast).1 h
    omega
  -- the frame is pushed and the first value written
  have hzero : Loop.valueAt a s 0 = a := by simp [Loop.valueAt]
  obtain ⟨memory, hw⟩ : ∃ memory, m.memory.write .numeric head.place.name i (.integer a) = (.ok (), memory) :=
    ⟨_, Prod.ext hwrite rfl⟩
  have hpush : m.control.stack.push (.loop l) =
      .ok ⟨.loop l :: m.control.stack.frames, m.control.stack.depth + 1, by simp [m.control.stack.depth_eq]⟩ :=
    if_neg (by simp [Stack.capacity]; omega)
  obtain ⟨first, hstep, hfirst⟩ : ∃ first, step (run budget) m = .ok true first ∧
      Underway m l (Loop.valueAt a s 0) first := by
    have hstep := step_opening (run budget) hfor hhead hkind hrange hw hin hpush
    refine ⟨_, hstep, hm.step hstep, rfl, rfl, ?_⟩
    rw [hzero]
    exact hm.orderly.memory.readNumber_of_write hw
  -- all passes but the last one, and then that one
  have hbody' := fun xs p => hbody first xs p hstep
  obtain ⟨p, hpasses, hp⟩ := hfirst.exists_passes rfl hvalue hadmits hbody' (n - 1) (by omega)
  have hsum : (Loop.valueAt a s n).toInt = (Loop.valueAt a s (n - 1)).toInt + l.step.toInt := by
    rw [hlast, hvalue (n - 1) (by omega), Nat.cast_pred (by omega)]
    ring
  have hcompletes := hbody' _ p hpasses (by simp; omega) hp.address_eq
  obtain ⟨q, m', harrive, hnext, -, hout⟩ := hp.pass hcompletes hsum
  have hall := hpasses.snoc hp.address_eq hp.counter_eq harrive hnext
  rw [← List.map_singleton, ← List.map_append, ← List.range_succ, Nat.succ_eq_add_one,
    Nat.sub_add_cancel (by omega)] at hall
  exact ⟨first, m', hstep, hall, hvalue, hout hover⟩

/-- Whether there is a current line and it goes well. -/
def succeeds (nested : Act Unit) (m : Machine) : Bool :=
  match step nested m with
  | .ok b _ => b
  | .error _ _ => false

theorem step_of_succeeds (h : m.succeeds nested = true) :
    step nested m = .ok true (Session.afterwards (step nested) m) := by
  unfold succeeds at h
  unfold Session.afterwards
  cases hs : step nested m with
  | ok b m' =>
    rw [hs] at h
    obtain rfl : b = true := h
    rfl
  | error e m' =>
    rw [hs] at h
    cases h

theorem readNumber_of_toInteger {memory : Memory} {name : String} {i x : Int64}
    (h : memory.readNumber name i >>= Value.toInteger = .ok x) : memory.readNumber name i = .ok (.integer x) := by
  cases hr : memory.readNumber name i with
  | error e =>
    rw [hr] at h
    cases h
  | ok v =>
    rw [hr] at h
    cases v with
    | integer n =>
      obtain rfl := Except.ok.inj h
      rfl
    | float y => cases h
    | text s => cases h

-- Down from 5 in steps of 3, over a line that looks at the counter.
theorem passes_of_loop_down :
    let l : Loop := ⟨"I", 0, 1, 0, -3⟩
    ∃ m first m' : Machine, m.Reachable ∧ step (run 0) m = .ok true first ∧
      Passes (run 0) l 2 [5, 2] first m' ∧ m'.control.address = 3 ∧ m'.control.stack = m.control.stack ∧
      m'.memory.readNumber "I" 0 = .ok (.integer 2) := by
  intro l
  let after (m : Machine) : Machine := Session.afterwards (step (run 0)) m
  let value (m : Machine) : Except Error Int64 := m.memory.readNumber "I" 0 >>= Value.toInteger
  have hm : ∃ m : Machine, m.Reachable ∧ m.control.address = 0 ∧ m.control.lineAt? 0 = some 10 ∧
      m.listing.find? 10 = some "FOR I = 5 TO 0 STEP - 3" ∧
      (m.memory.write .numeric "I" 0 (.integer 5)).1 = .ok () ∧ m.control.stack.depth = 0 ∧
      m.succeeds (run 0) = true ∧
      (∀ p ∈ [after m, after (after (after m))],
        p.control.address = 1 ∧ p.succeeds (run 0) = true ∧
        (after p).control.address = 2 ∧ (after p).control.stack.frames = p.control.stack.frames ∧
        (after p).control.lineAt? 2 = some 30 ∧ (after p).listing.find? 30 = some "NEXT I" ∧
        (after p).succeeds (run 0) = true) ∧
      value (after m) = .ok 5 ∧ value (after (after m)) = .ok 5 ∧ value (after (after (after m))) = .ok 2 ∧
      value (after (after (after (after m)))) = .ok 2 :=
    ⟨typed ["10 for i = 5 to 0 step -3", "20 print i", "30 next i", "reset"], reachable_typed _, by decide +kernel⟩
  obtain ⟨m, hm, haddress, hline, hfind, hwrite, hdepth, hsucceeds, hpass, h₁, h₂, h₃, h₄⟩ := hm
  have hstep := step_of_succeeds hsucceeds
  have hcompletes {p : Machine} {x : Int64} (hp : p ∈ [after m, after (after (after m))]) (hx : value p = .ok x)
      (hx' : value (after p) = .ok x) :
      Arrives (run 0) 2 p (after p) ∧ Completes (run 0) l 2 p := by
    obtain ⟨hp, hs, hp', hframes, hlast, hnext, -⟩ := hpass p hp
    have harrives : Arrives (run 0) 2 p (after p) := .step (by omega) (step_of_succeeds hs) (.here hp')
    refine ⟨harrives, after p, some "I", harrives, Act.stack_ext hframes, ?_, rfl, 30, "NEXT I", hlast, hnext, ?_⟩
    · exact (readNumber_of_toInteger hx').trans (readNumber_of_toInteger hx).symm
    · decide +kernel
  have hfirst := hcompletes (by simp) h₁ h₂
  have hsecond := hcompletes (by simp) h₃ h₄
  have hbetween : Passes (run 0) l 2 [5] (after m) (after (after (after m))) := by
    obtain ⟨hp, -, -, -, -, -, hs⟩ := hpass (after m) (by simp)
    exact .pass hp (readNumber_of_toInteger h₁) hfirst.1 (step_of_succeeds hs) (.none _)
  have hbody (first : Machine) (xs : List Int64) (p : Machine) (hs : step (run 0) m = .ok true first)
      (hp : Passes (run 0) l 2 xs first p) (hxs : xs.length < 2) : Completes (run 0) l 2 p := by
    rw [hstep] at hs
    obtain ⟨-, rfl⟩ := EStateM.Result.ok.inj hs
    rcases (by omega : xs.length = 0 ∨ xs.length = 1) with hlen | hlen
    · obtain rfl := hp.unique (.none (after m)) hlen
      exact hfirst.2
    · obtain rfl := hp.unique hbetween hlen
      exact hsecond.2
  let range : List Token :=
    [.name "I", .equal, .number 5, .keyword .upTo, .number 0, .keyword .step, .sign .minus, .number 3]
  have hthree : Phrase .disjunction {} [.sign .minus, .number 3] (.unary .negate (.number 3)) :=
    .operand nofun (.operand nofun (.operand nofun (.operand nofun (.operand nofun (.operand nofun
      (.sign .minus (.number 3)))))))
  have hhead : LoopHead.Spelled range ⟨⟨"I", none⟩, .number 5, .number 0, .unary .negate (.number 3)⟩ :=
    .mk (.scalar "I") (.ofNumber 5 .disjunction) (.ofNumber 0 .disjunction) hthree
  have hfor : m.Reads m.control.address (.verb .loop :: range) := by
    rw [haddress]
    exact ⟨10, _, hline, hfind, by decide +kernel⟩
  have hall := passes_of_loop 0 hm (s := ⟨-3, by decide⟩) hfor hhead (by decide) rfl hwrite (by decide) (by omega) 2
  rw [haddress] at hall
  obtain ⟨first, m', hs, hpasses, -, hout⟩ :=
    hall (by decide) (by decide) fun first xs p hs hp hxs _ => hbody first xs p hs hp hxs
  exact ⟨m, first, m', hm, hs, hpasses, hout⟩

end Machine

end LineBasic
