import LineBasic.Machine.Run
import LineBasic.Proofs.Fitting.Script
import LineBasic.Proofs.Memory
import LineBasic.Proofs.Machine.SaveLoad

/-!
# What statements do to a machine

A statement changes a machine in small shifts: it draws a number, uses the
console, changes the variables, moves in the program, goes back to its start,
clears it or loads another one. Here it is said once which shifts there are.
What is to be known of a machine later follows from single shifts.

A statement other than `RUN` and `CONT` always comes to an end. If it fails, the
interpreter is not at fault. If a text is at fault, it is said which one.

* `Machine.Shift`: a single shift.
* `Act.Does`: an act shifts the machine, and comes to an end.
* `Action.perform_does`, `Script.exec_does`: what statements do.
-/

namespace LineBasic

/-! ### Shifts -/

/-- A loop has a step other than zero, and counts in a numeric variable. -/
def Frame.Fits : Frame → Prop
  | returnTo _ => True
  | loop l => l.step ≠ 0 ∧ VariableKind.ofName l.counter = .numeric

/-- What the use of a console leaves as it is. Where no key press is to come,
none comes. Answers are taken in turn. -/
structure Console.Follows (c c' : Console) : Prop where
  naming : c'.storage.naming = c.storage.naming
  failIn : c.failIn = none → c'.failIn = none
  breakIn : c.breakIn = none → c'.breakIn = none
  interrupted : c.breakIn = none → c'.interrupted = c.interrupted
  answers : c'.answers <:+ c.answers

/-- The moves in a program whose lines stay the same. -/
inductive Control.Move (c : Control) : Control → Prop
  | follow (address : Nat) : Move c { c with following := address }
  | advance : Move c c.advance
  | trace (on : Bool) : Move c { c with trace := on }
  | push {f : Frame} {c' : Control} : f.Fits → c.push f = .ok c' → Move c c'
  | drop (n : Nat) : Move c { c with stack := c.stack.drop n }

namespace Machine

/-- A shift of a machine. Another program is loaded only if that is allowed. -/
inductive Shift (allowed : Verb → Prop) (m : Machine) : Machine → Prop
  | draw (chance : StdGen) : Shift allowed m { m with chance }
  | use {console : Console} : m.console.Follows console → Shift allowed m { m with console }
  /-- The break key is seen to be pressed. -/
  | acknowledge : Shift allowed m { m with console := { m.console with interrupted := false } }
  | memory {memory : Memory} : m.memory.Change memory → Shift allowed m { m with memory }
  | control {control : Control} : m.control.Move control → Shift allowed m { m with control }
  | rewind : Shift allowed m { m with control := m.control.reset m.listing.numbers }
  | renew : Shift allowed m m.renew
  | load (texts : List String) : allowed .load → Shift allowed m { m with listing := (Listing.load texts).2 }

/-- Any number of shifts. -/
def Shifts (allowed : Verb → Prop) : Machine → Machine → Prop := Relation.ReflTransGen (Shift allowed)

variable {allowed : Verb → Prop} {m m' : Machine}

/-- **What every shift keeps is kept.** -/
theorem Shifts.keep {P : Machine → Prop} (hstep : ∀ ⦃m m'⦄, Shift allowed m m' → P m → P m')
    (h : Shifts allowed m m') (hm : P m) : P m' := by
  induction h with
  | refl => exact hm
  | tail _ hs ih => exact hstep hs ih

theorem Shift.plain (h : Shift allowed m m') (hm : m.console.Plain) : m'.console.Plain := by
  cases h with
  | use hf => exact ⟨hf.naming.trans hm.naming, hf.failIn hm.failIn⟩
  | acknowledge => exact ⟨hm.naming, hm.failIn⟩
  | _ => exact hm

theorem Shifts.plain (h : Shifts allowed m m') (hm : m.console.Plain) : m'.console.Plain :=
  h.keep (P := fun m => m.console.Plain) (fun _ _ hs => hs.plain) hm

end Machine

open Machine (Shift Shifts)

/-! ### Acts -/

/-- The interpreter is not at fault for the halt, unless the program has a line
that is no longer listed. -/
def Halt.Excused (m : Machine) (h : Halt) : Prop :=
  ∀ e, h = .failed e →
    e.Ordinary ∨ ∃ n, n ∈ m.control.table ∧ m.listing.find? n = none ∧ e = .lineVanished n

/-- A line of a file is at fault: it cannot be scanned, and the error says
where. A program line may have been named since. -/
def Machine.FaultInFile (m : Machine) (e : Error) : Prop :=
  ∃ file texts text e₀, m.console.readLines file = .ok texts ∧ text ∈ texts ∧ Line.parse text = .error e₀ ∧
    (e = e₀ ∨ ∃ n, e = e₀.inLine n) ∧ e.PlacedIn text

/-- The text is at fault at one of the places, or a line of a file is. -/
def Machine.Faulty (here : Position → Prop) (m : Machine) (e : Error) : Prop :=
  e.At here ∨ m.FaultInFile e

/-- If the text is at fault for the halt, then as `fault` says. -/
def Halt.Blames (fault : Machine → Error → Prop) (m : Machine) (h : Halt) : Prop :=
  ∀ e, h = .failed e → e.kind = .syntaxError → fault m e

/-- Nothing is asked of a fault. -/
def anyFault (_ : Machine) (_ : Error) : Prop := True

/-- The halt is not for lack of lines granted. If it is for lack of memory, that
was asked for by a `DIM`. -/
structure Halt.Due (allowed : Verb → Prop) (h : Halt) : Prop where
  granted : h ≠ .exhausted
  dim : h = .aborted → allowed .dim

theorem Halt.Due.failed {allowed : Verb → Prop} (e : Error) : (Halt.failed e).Due allowed :=
  ⟨Halt.noConfusion, Halt.noConfusion⟩

theorem Halt.blames_any (m : Machine) (h : Halt) : h.Blames anyFault m := fun _ _ _ => trivial

theorem Halt.blames_failed {fault : Machine → Error → Prop} {m : Machine} {e : Error}
    (h : e.kind = .syntaxError → fault m e) : (Halt.failed e).Blames fault m := by
  intro e' he
  obtain rfl := Halt.failed.inj he
  exact h

theorem Halt.excused_failed {m : Machine} {e : Error} (h : e.Ordinary) : (Halt.failed e).Excused m := by
  intro e' he
  obtain rfl := Halt.failed.inj he
  exact .inl h

namespace Act

variable {allowed : Verb → Prop} {fault : Machine → Error → Prop} {α β : Type} {m m' : Machine}

/-- The machine was shifted. If there was a halt, it is due to the machine and
the verbs allowed, given `plain` it has an excuse, and it blames the text only
as `fault` says. -/
def Leads (allowed : Verb → Prop) (fault : Machine → Error → Prop) (plain : Prop) (m : Machine) :
    EStateM.Result Halt Machine α → Prop
  | .ok _ m' => Shifts allowed m m'
  | .error h m' => Shifts allowed m m' ∧ h.Due allowed ∧ (plain → h.Excused m') ∧ h.Blames fault m'

/-- The act comes to an end, and on the way shifts the machine. On a plain
console the halts have excuses. -/
def Does (allowed : Verb → Prop) (fault : Machine → Error → Prop) (x : Act α) : Prop :=
  ∀ m, Leads allowed fault m.console.Plain m (x m)

theorem leads_failed {plain : Prop} {e : Error} (hs : Shifts allowed m m') (h : e.Everyday) :
    Leads allowed fault plain m (.error (.failed e) m' : EStateM.Result Halt Machine α) :=
  ⟨hs, .failed e, fun _ => Halt.excused_failed h.ordinary, Halt.blames_failed fun hk => absurd hk h.notSyntax⟩

theorem leads_fail {plain : Prop} {e : Error} (h : e.Everyday) :
    Leads allowed fault plain m ((fail e : Act α) m) :=
  leads_failed .refl h

theorem Leads.mono {plain plain' : Prop} (hp : plain' → plain) {r : EStateM.Result Halt Machine α}
    (h : Leads allowed fault plain m r) : Leads allowed fault plain' m r := by
  cases r with
  | ok a m' => exact h
  | error e m' => exact ⟨h.1, h.2.1, fun hp' => h.2.2.1 (hp hp'), h.2.2.2⟩

/-- What is done after some shifts. -/
theorem Leads.after {r : EStateM.Result Halt Machine α} (hs : Shifts allowed m m')
    (h : Leads allowed fault m'.console.Plain m' r) : Leads allowed fault m.console.Plain m r := by
  cases r with
  | ok a m'' => exact hs.trans h
  | error e m'' => exact ⟨hs.trans h.1, h.2.1, fun hp => h.2.2.1 (hs.plain hp), h.2.2.2⟩

/-- An act, and another one behind it. -/
theorem leads_bind {plain : Prop} {x : Act α} (hx : Leads allowed fault plain m (x m')) {f : α → Act β}
    (hf : ∀ a m'', x m' = .ok a m'' → Shifts allowed m m'' → Leads allowed fault plain m (f a m'')) :
    Leads allowed fault plain m ((x >>= f) m') := by
  show Leads allowed fault plain m (EStateM.bind x f m')
  unfold EStateM.bind
  cases h : x m' with
  | ok a m'' =>
    rw [h] at hx
    exact hf a m'' h hx
  | error e m'' =>
    rw [h] at hx
    exact hx

theorem Does.bind {x : Act α} (hx : x.Does allowed fault) {f : α → Act β} (hf : ∀ a, (f a).Does allowed fault) :
    (x >>= f).Does allowed fault :=
  fun m => leads_bind (hx m) fun a m' _ hs => (hf a m').after hs

theorem does_pure (a : α) : (pure a : Act α).Does allowed fault := fun _ => .refl

theorem does_fail {e : Error} (h : e.Everyday) : (fail e : Act α).Does allowed fault := fun _ => leads_fail h

/-- The text is at fault, and it is known where. -/
theorem does_fail_sited {e : Error} {here : Position → Prop} (h : e.Sited here)
    (hf : ∀ m, e.At here → fault m e) : (fail e : Act α).Does allowed fault :=
  fun m => ⟨.refl, .failed e, fun _ => Halt.excused_failed h.ordinary, Halt.blames_failed fun hk => hf m (h.place hk)⟩

theorem does_throw {h : Halt} (hf : ∀ e, h ≠ .failed e) (hd : h.Due allowed) :
    (throw h : Act α).Does allowed fault :=
  fun _ => ⟨.refl, hd, fun _ e he => absurd he (hf e), fun e he => absurd he (hf e)⟩

/-- An act that looks at the machine first. -/
theorem get_bind (f : Machine → Act α) (m : Machine) : ((get : Act Machine) >>= f) m = f m m := rfl

theorem does_get {f : Machine → Act α} (h : ∀ m, Leads allowed fault m.console.Plain m (f m m)) :
    ((get : Act Machine) >>= f).Does allowed fault :=
  fun m => h m

theorem does_if {c : Prop} [Decidable c] {x y : Act α} (hx : x.Does allowed fault) (hy : y.Does allowed fault) :
    (if c then x else y).Does allowed fault := by
  split
  · exact hx
  · exact hy

theorem does_modify {f : Machine → Machine} (h : ∀ m, Shifts allowed m (f m)) :
    (modify f : Act Unit).Does allowed fault :=
  fun m => h m

theorem does_ofExcept {x : Except Error α} (h : Raises Error.Everyday x) : (ofExcept x).Does allowed fault := by
  cases x with
  | ok a => exact does_pure a
  | error e => exact does_fail (h e rfl)

theorem ok_of_ofExcept {x : Except Error α} {a : α} (h : ofExcept x m = .ok a m') : x = .ok a := by
  cases x with
  | ok b =>
    cases h
    rfl
  | error e => cases h

theorem state_of_ofExcept {x : Except Error α} {a : α} (h : ofExcept x m = .ok a m') : m = m' := by
  cases x with
  | ok b =>
    cases h
    rfl
  | error e => cases h

theorem does_inspect {f : Machine → Except Error α} (h : ∀ m, Raises Error.Everyday (f m)) :
    (inspect f).Does allowed fault :=
  fun m => does_ofExcept (h m) m

theorem does_evaluate {f : Memory → Eval α} {Q : α → Prop} (h : ∀ memory, (f memory).Yields Q) :
    (evaluate f).Does allowed fault := by
  intro m
  have hm := h m.memory m.chance
  unfold evaluate
  generalize f m.memory m.chance = r at hm
  cases r with
  | ok a g => exact .single (.draw g)
  | error e g => exact leads_failed (.single (.draw g)) hm

theorem does_memory {f : Memory → Except Error Unit × Memory} (hc : ∀ memory : Memory, memory.Change (f memory).2)
    (ho : ∀ memory, Raises Error.Everyday (f memory).1) : (memory f).Does allowed fault := by
  intro m
  have hcm := hc m.memory
  have hom := ho m.memory
  unfold memory
  generalize f m.memory = r at hcm hom
  obtain ⟨x, memory⟩ := r
  cases x with
  | ok u => exact .single (.memory hcm)
  | error e => exact leads_failed (.single (.memory hcm)) (hom e rfl)

theorem memory_of_memory {f : Memory → Except Error Unit × Memory} {u : Unit} (h : memory f m = .ok u m') :
    m' = { m with memory := (f m.memory).2 } := by
  unfold memory at h
  generalize f m.memory = r at h
  obtain ⟨x, memory⟩ := r
  cases x with
  | ok u =>
    cases h
    rfl
  | error e => cases h

theorem does_remember {f : Memory → Except Halt Memory}
    (hc : ∀ memory memory' : Memory, f memory = .ok memory' → memory.Change memory')
    (ho : ∀ memory h, f memory = .error h →
      h = .aborted ∧ allowed .dim ∨ ∃ e : Error, h = .failed e ∧ e.Everyday) : (remember f).Does allowed fault := by
  intro m
  unfold remember
  cases hr : f m.memory with
  | ok memory => exact .single (.memory (hc _ _ hr))
  | error h =>
    rcases ho _ h hr with ⟨rfl, hdim⟩ | ⟨e, rfl, he⟩
    · exact ⟨.refl, ⟨Halt.noConfusion, fun _ => hdim⟩, fun _ _ => Halt.noConfusion, fun _ => Halt.noConfusion⟩
    · exact leads_failed .refl he

theorem does_control {f : Control → Except Error Control}
    (hc : ∀ c c' : Control, f c = .ok c' → c.Move c') (ho : ∀ c, Raises Error.Everyday (f c)) : (control f).Does allowed fault := by
  intro m
  unfold control
  cases hr : f m.control with
  | ok c => exact .single (.control (hc _ _ hr))
  | error e => exact leads_failed .refl (ho _ e hr)

theorem does_console {f : Console → Except Halt α × Console} (hc : ∀ c : Console, c.Follows (f c).2)
    (hd : ∀ c h, (f c).1 = .error h → h.Due allowed)
    (ho : ∀ (c : Console) e, (f c).1 = .error (.failed e) → e.kind ≠ .syntaxError ∧ (c.Plain → e.Ordinary)) :
    (console f).Does allowed fault := by
  intro m
  have hcm := hc m.console
  have hdm := hd m.console
  have hom := ho m.console
  unfold console
  generalize f m.console = r at hcm hdm hom
  obtain ⟨x, c⟩ := r
  cases x with
  | ok a => exact .single (.use hcm)
  | error h =>
    refine ⟨.single (.use hcm), hdm h rfl, ?_, ?_⟩
    · intro hp e he
      exact .inl ((hom e (by rw [he])).2 hp)
    · intro e he hk
      exact absurd hk (hom e (by rw [he])).1

end Act

/-! ### The console -/

namespace Console

theorem follows_countPrint (c : Console) : c.Follows c.countPrint := by
  obtain ⟨-, hstorage, hfail⟩ := c.countPrint_frame
  have hcalm : c.breakIn = none → c.countPrint = c := by
    intro hb
    rw [countPrint, hb]
  have hanswers : c.countPrint.answers = c.answers := by
    unfold countPrint
    split
    · rfl
    · split <;> rfl
  refine ⟨congrArg Storage.naming hstorage, fun h => hfail.trans h, ?_, ?_, ?_⟩
  · intro hb
    rw [hcalm hb, hb]
  · intro hb
    rw [hcalm hb]
  · rw [hanswers]

theorem follows_print (c : Console) (text : String) (newline : Bool) : c.Follows (c.print text newline).2 := by
  unfold print
  split
  · exact ⟨rfl, fun _ => rfl, id, fun _ => rfl, List.suffix_rfl⟩
  · have h := follows_countPrint { c with failIn := c.failIn.map (· - 1) }
    refine ⟨h.naming, ?_, h.breakIn, h.interrupted, h.answers⟩
    intro hf
    exact h.failIn (by rw [hf]; rfl)

theorem follows_input (c : Console) (prompt : String) : c.Follows (c.input prompt).2 := by
  unfold input
  split
  · exact ⟨rfl, id, id, fun _ => rfl, List.suffix_rfl⟩
  case h_2 rest hrest => exact ⟨rfl, id, id, fun _ => rfl, hrest ▸ List.suffix_cons none rest⟩
  case h_3 line rest hrest => exact ⟨rfl, id, id, fun _ => rfl, hrest ▸ List.suffix_cons (some line) rest⟩

/-- A question ends the session or is broken off, if it is not answered. -/
theorem input_halt {c : Console} {prompt : String} {h : Halt} (hi : (c.input prompt).1 = .error h) :
    h = .quit ∨ h = .failed .breakKey := by
  unfold input at hi
  split at hi
  · exact .inl (Except.error.inj hi).symm
  · exact .inr (Except.error.inj hi).symm
  · cases hi

theorem inputInteger_snd (c : Console) (prompt : String) :
    (c.inputInteger prompt).2 = (c.input prompt).2 := by
  unfold inputInteger
  split <;> simp_all

theorem inputInteger_halt {c : Console} {prompt : String} {h : Halt}
    (hi : (c.inputInteger prompt).1 = .error h) :
    (h = .quit ∨ h = .failed .breakKey) ∨ ∃ s, h = .failed (.notAnInteger s) := by
  unfold inputInteger at hi
  split at hi
  case h_1 line _ _ =>
    unfold integerOf at hi
    split at hi
    · cases hi
    · exact .inr ⟨trim line, (Except.error.inj hi).symm⟩
  case h_2 h' _ hc =>
    obtain rfl := Except.error.inj hi
    exact .inl (input_halt (by rw [hc]))

theorem follows_writeText {c c' : Console} {file text : String} (h : c.writeText file text = .ok c') :
    c.Follows c' := by
  unfold writeText Storage.write at h
  split at h
  case h_1 storage hs =>
    obtain rfl := Except.ok.inj h
    refine ⟨?_, id, id, fun _ => rfl, List.suffix_rfl⟩
    cases hl : c.storage.locate true file with
    | error e => rw [hl] at hs; cases hs
    | ok f =>
      rw [hl] at hs
      obtain rfl := Except.ok.inj hs
      rfl
  case h_2 => cases h

theorem kind_toError (f : FileFault) (file : String) : (f.toError file).kind ≠ .syntaxError := by
  cases f with
  | missing => exact nofun
  | refused reason => exact nofun

/-- The text of a file is not at fault if the file cannot be read. On a plain
console it can only be missing. -/
theorem readLines_error {c : Console} {file : String} {e : Error} (h : c.readLines file = .error e) :
    e.kind ≠ .syntaxError ∧ (c.Plain → e.Ordinary) := by
  unfold readLines at h
  split at h
  · cases h
  case h_2 f hread =>
    obtain rfl := Except.error.inj h
    refine ⟨kind_toError f file, ?_⟩
    intro hc
    unfold Storage.read at hread
    rw [Storage.locate, hc.naming] at hread
    dsimp only at hread
    split at hread
    · cases hread
    · obtain rfl := Except.error.inj hread
      intro hk
      cases hk

theorem writeText_error {c : Console} {file text : String} {e : Error} (h : c.writeText file text = .error e) :
    e.kind ≠ .syntaxError := by
  unfold writeText at h
  split at h
  · cases h
  case h_2 f _ =>
    obtain rfl := Except.error.inj h
    exact kind_toError f file

/-- Printing may fail, and that is all. -/
theorem print_halt {c : Console} {text : String} {newline : Bool} {h : Halt}
    (he : (c.print text newline).1 = .error h) :
    h = .failed .printFailed := by
  unfold print at he
  split at he
  · exact (Except.error.inj he).symm
  · cases he

end Console

namespace Act

variable {allowed : Verb → Prop} {fault : Machine → Error → Prop} {m : Machine}

theorem print_does (text : String) (newline : Bool) : (print text newline).Does allowed fault := by
  refine does_console (fun c => c.follows_print text newline) ?_ ?_
  · intro c h hc
    rw [Console.print_halt hc]
    exact .failed _
  · intro c e he
    obtain rfl := Halt.failed.inj (Console.print_halt he)
    refine ⟨nofun, ?_⟩
    intro hc
    rw [Console.print, if_neg (by simp [hc.failIn])] at he
    cases he

theorem printLine_does (text : String) : (printLine text).Does allowed fault := print_does text true

theorem printAll_does (texts : List String) : (printAll texts).Does allowed fault := by
  induction texts with
  | nil => exact does_pure ()
  | cons text rest ih => exact (printLine_does text).bind fun _ => ih

theorem due_of_input {h : Halt} (hi : h = .quit ∨ h = .failed .breakKey) : h.Due allowed := by
  rcases hi with rfl | rfl
  · exact ⟨Halt.noConfusion, Halt.noConfusion⟩
  · exact .failed _

theorem input_does (prompt : String) : (console (·.input prompt)).Does allowed fault := by
  refine does_console (fun c => c.follows_input prompt) ?_ ?_
  · intro c h hc
    exact due_of_input (Console.input_halt hc)
  · intro c e he
    rcases Console.input_halt he with h | h
    · cases h
    · obtain rfl := Halt.failed.inj h
      exact ⟨nofun, fun _ => nofun⟩

theorem inputInteger_does (prompt : String) : (console (·.inputInteger prompt)).Does allowed fault := by
  refine does_console ?_ ?_ ?_
  · intro c
    rw [Console.inputInteger_snd]
    exact c.follows_input prompt
  · intro c h hc
    rcases Console.inputInteger_halt hc with hi | ⟨s, rfl⟩
    · exact due_of_input hi
    · exact .failed _
  · intro c e he
    rcases Console.inputInteger_halt he with (h | h) | ⟨s, h⟩
    · cases h
    · obtain rfl := Halt.failed.inj h
      exact ⟨nofun, fun _ => nofun⟩
    · obtain rfl := Halt.failed.inj h
      exact ⟨nofun, fun _ => nofun⟩

theorem clear_does : (console fun c => (.ok (), c.clear)).Does allowed fault := by
  refine does_console (fun c => ⟨rfl, id, id, fun _ => rfl, List.suffix_rfl⟩) ?_ ?_
  · intro c h hc
    cases hc
  · intro c e he
    cases he

theorem readLines_does (file : String) : (readLines file).Does allowed fault := by
  intro m
  show Leads allowed fault m.console.Plain m (ofExcept (m.console.readLines file) m)
  cases hread : m.console.readLines file with
  | ok texts => exact .refl
  | error e =>
    have hkind := Console.readLines_error hread
    refine ⟨.refl, .failed e, fun hp => Halt.excused_failed (hkind.2 hp), Halt.blames_failed fun hk => ?_⟩
    exact absurd hk hkind.1

theorem writeFile_does (file content : String) : (writeFile file content).Does allowed fault := by
  intro m
  unfold writeFile
  cases hw : m.console.writeText file content with
  | ok c => exact .single (.use (Console.follows_writeText hw))
  | error e =>
    refine ⟨.refl, .failed e, ?_, Halt.blames_failed fun hk => absurd hk (Console.writeText_error hw)⟩
    intro hp
    obtain ⟨c, hc, -⟩ := hp.writeText file content
    rw [hc] at hw
    cases hw

theorem everyday_joined (memory : Memory) (v : Variable) : Raises Error.Everyday (joined memory v) := by
  unfold joined
  generalize List.range v.size = is
  generalize "" = s
  induction is generalizing s with
  | nil => exact raises_ok s
  | cons i is ih =>
    rw [List.foldlM_cons]
    refine Raises.bind ?_ fun s' => ih s'
    refine Raises.bind ?_ fun t => raises_ok (s ++ t)
    exact (memory.everyday_readKind .text v.name _).bind fun x => x.everyday_toText

theorem everyday_numberAfter (previous : Int64) (line : Line) :
    Raises Error.Everyday (Listing.numberAfter previous line) := by
  unfold Listing.numberAfter
  split
  · exact raises_ok _
  · split
    · exact raises_ok _
    · exact raises_error ⟨nofun, nofun⟩

theorem everyday_store (l : Listing) (n : Int64) (line : Line) : Raises Error.Everyday (l.store n line) := by
  unfold Listing.store
  split
  · split
    · exact raises_ok _
    · exact raises_error ⟨nofun, nofun⟩
  · exact raises_ok _

/-- If the text of a line is at fault, it cannot be scanned. -/
theorem loadLine_error (l : Listing) (previous : Int64) (text : String) :
    Raises (fun e => e.Ordinary ∧ (e.kind = .syntaxError → Line.parse text = .error e)) (l.loadLine previous text) := by
  refine Raises.bind (fun e he => ⟨(Line.sited_parse text e he).ordinary, fun _ => he⟩) fun line => ?_
  refine Raises.mono (P := Error.Everyday) ?_ fun e he => ⟨he.ordinary, fun hk => absurd hk he.notSyntax⟩
  refine (everyday_numberAfter previous line).bind fun n => ?_
  exact (everyday_store l n line).bind fun l' => raises_ok _

theorem load_error (texts : List String) :
    Raises (fun e => e.Ordinary ∧ (e.kind = .syntaxError → ∃ text ∈ texts, Line.parse text = .error e))
      (Listing.load texts).1 := by
  unfold Listing.load
  generalize Listing.empty = l
  generalize (0 : Int64) = previous
  induction texts generalizing l previous with
  | nil => exact raises_ok _
  | cons text rest ih =>
    have later (l : Listing) (n : Int64) : Raises (fun e => e.Ordinary ∧
        (e.kind = .syntaxError → ∃ t ∈ text :: rest, Line.parse t = .error e)) (l.loadFrom n rest).1 := by
      refine (ih l n).mono fun e he => ⟨he.1, fun hk => ?_⟩
      obtain ⟨t, ht, hparse⟩ := he.2 hk
      exact ⟨t, List.mem_cons_of_mem _ ht, hparse⟩
    rw [Listing.loadFrom]
    split
    · exact later l previous
    · split
      case h_1 n l' _ => exact later l' n
      case h_2 e he =>
        obtain ⟨hord, hparse⟩ := loadLine_error l previous text e he
        exact raises_error ⟨hord, fun hk => ⟨text, List.mem_cons_self, hparse hk⟩⟩

/-- The program is loaded from a file, and faults in its lines are those of the
file. -/
theorem loadFile_does (h : allowed .load) (hf : ∀ (m : Machine) e, m.FaultInFile e → fault m e) (file : String)
    {after : List String → Act Unit} (ha : ∀ texts, (after texts).Does allowed fault) :
    (do let texts ← readLines file; loadLines texts; after texts : Act Unit).Does allowed fault := by
  intro m
  refine leads_bind (readLines_does file m) ?_
  intro texts m' hread _
  obtain rfl : m = m' := state_of_ofExcept hread
  have hfile : m.console.readLines file = .ok texts := ok_of_ofExcept hread
  refine leads_bind ?_ fun _ m' _ hs => (ha texts m').after hs
  have hload : Shifts allowed m { m with listing := (Listing.load texts).2 } := .single (.load texts h)
  have herror := load_error texts
  unfold loadLines
  generalize Listing.load texts = r at hload herror
  obtain ⟨x, l⟩ := r
  cases x with
  | ok n => exact hload
  | error e =>
    have he := herror e rfl
    refine ⟨hload, .failed e, fun _ => Halt.excused_failed he.1, Halt.blames_failed fun hk => ?_⟩
    obtain ⟨text, htext, hparse⟩ := he.2 hk
    have hplaced : e.PlacedIn text := ((Line.sited_parse text e hparse).place hk).placedIn
    exact hf _ e ⟨file, texts, text, e, hfile, htext, hparse, .inl rfl, hplaced⟩

/-! ### Evaluation -/

section Evaluation

variable {e : Expr} (h : e.Fits)

include h

theorem value_does : (value e).Does allowed fault := does_evaluate fun memory => Expr.eval_everyday memory h

theorem integer_does : (integer e).Does allowed fault :=
  (value_does h).bind fun v => does_ofExcept v.everyday_toInteger

theorem text_does : (text e).Does allowed fault := (value_does h).bind fun v => does_ofExcept v.everyday_toText

theorem truth_does : (truth e).Does allowed fault := (value_does h).bind fun v => does_ofExcept v.everyday_truth

theorem numeric_does : (numeric e).Does allowed fault := (value_does h).bind fun v => does_ofExcept v.everyday_numeric

theorem stride_does : (stride e).Does allowed fault := (value_does h).bind fun v => does_ofExcept v.everyday_toStride

end Evaluation

theorem integer?_does {e : Option Expr} (h : ∀ x ∈ e, x.Fits) : (integer? e).Does allowed fault := by
  cases e with
  | none => exact does_pure none
  | some e => exact (integer_does (h e rfl)).bind fun n => does_pure (some n)

theorem index_does {p : Place} (h : p.Fits) : (index p).Does allowed fault :=
  (integer?_does h).bind fun i => does_pure (i.getD 0)

theorem check_does {os : List Operand} (h : ∀ o ∈ os, o.Fits) : (check os).Does allowed fault := by
  induction os with
  | nil => exact does_pure ()
  | cons o os ih =>
    obtain ⟨ho, hos⟩ := List.forall_mem_cons.1 h
    exact (does_evaluate fun memory => Operand.check_everyday memory ho).bind fun _ => ih hos

theorem printed_does {items : List (Expr × Separator)} (h : ∀ i ∈ items, i.1.Fits) :
    (printed items).Does allowed fault := by
  induction items with
  | nil => exact does_pure ""
  | cons i items ih =>
    obtain ⟨e, s⟩ := i
    obtain ⟨he, hi⟩ := List.forall_mem_cons.1 h
    exact (value_does he).bind fun v => (ih hi).bind fun tail => does_pure _

/-! ### Variables and places in the program -/

theorem write_does (kind : VariableKind) (name : String) (i : Int64) (x : Value) :
    (memory (·.write kind name i x)).Does allowed fault :=
  does_memory (fun _ => .write kind name i x) fun memory => memory.everyday_write kind name i x

theorem writeNumber_does (name : String) (i : Int64) (x : Value) : (writeNumber name i x).Does allowed fault :=
  write_does .numeric name i x

theorem writeText_does (name : String) (i : Int64) (s : String) : (writeText name i s).Does allowed fault :=
  write_does .text name i (.text s)

theorem does_storeLines (name : String) (texts : List String) :
    (remember fun m => (m.storeLines name texts).mapError .failed).Does allowed fault := by
  refine does_remember (fun memory memory' hs => ?_) fun memory h hs => .inr ?_
  · cases hstore : memory.storeLines name texts with
    | ok stored =>
      rw [hstore] at hs
      obtain rfl := Except.ok.inj hs
      exact .storeLines hstore
    | error e =>
      rw [hstore] at hs
      cases hs
  · cases hstore : memory.storeLines name texts with
    | ok stored =>
      rw [hstore] at hs
      cases hs
    | error e =>
      rw [hstore] at hs
      exact ⟨e, (Except.error.inj hs).symm, memory.everyday_storeLines name texts e hstore⟩

theorem assign_does {place : Place} (hp : place.Fits) {e : Expr} (he : e.Fits) :
    (assign place e).Does allowed fault := by
  refine (index_does hp).bind fun i => ?_
  cases VariableKind.ofName place.name with
  | text => exact (text_does he).bind fun s => writeText_does place.name i s
  | numeric => exact (numeric_does he).bind fun v => writeNumber_does place.name i v

theorem ask_does (prompt name : String) (i : Int64) : (ask prompt name i).Does allowed fault := by
  unfold ask
  cases VariableKind.ofName name with
  | text => exact (input_does prompt).bind fun s => writeText_does name i s
  | numeric => exact (inputInteger_does prompt).bind fun n => writeNumber_does name i (.integer n)

theorem follow_does (address : Nat) : (follow address).Does allowed fault :=
  does_modify fun _ => .single (.control (.follow address))

theorem everyday_push (c : Control) (f : Frame) : Raises Error.Everyday (c.push f) := by
  unfold Control.push Stack.push
  split
  · exact raises_error ⟨nofun, nofun⟩
  · exact raises_ok _

theorem push_does {f : Control → Frame} (h : ∀ c, (f c).Fits) : (control fun c => c.push (f c)).Does allowed fault :=
  does_control (fun c _ hc => .push (h c) hc) fun c => everyday_push c (f c)

theorem everyday_resolve (c : Control) (n : Int64) : Raises Error.Everyday (c.resolve n) := by
  unfold Control.resolve
  split
  · exact raises_ok _
  · exact raises_error ⟨nofun, nofun⟩

theorem jump_does (n : Int64) : (control (·.jump n)).Does allowed fault := by
  refine does_control ?_ fun c => (everyday_resolve c n).map _
  intro c c' h
  unfold Control.jump at h
  cases hr : c.resolve n with
  | error e => rw [hr] at h; cases h
  | ok address =>
    rw [hr] at h
    obtain rfl := Except.ok.inj h
    exact .follow address

theorem callLine_does (n : Int64) : (callLine n).Does allowed fault := by
  refine (does_inspect fun m => everyday_resolve m.control n).bind fun address => ?_
  exact (push_does (f := fun c => .returnTo c.following) fun _ => trivial).bind fun _ => follow_does address

theorem pop_eq_drop (s : Stack) : s.pop = s.drop 1 := by
  simp [Stack.pop, Stack.drop]

theorem shifts_pop (m : Machine) :
    Shifts allowed m { m with control := { m.control with stack := m.control.stack.pop } } := by
  rw [pop_eq_drop]
  exact .single (.control (.drop 1))

theorem inspect_ok {f : Machine → Except Error α} {a : α} (h : f m = .ok a) : inspect f m = .ok a m := by
  rw [inspect, h]
  rfl

theorem inspect_error {f : Machine → Except Error α} {e : Error} (h : f m = .error e) :
    inspect f m = .error (.failed e) m := by
  rw [inspect, h]
  rfl

theorem control_ok {f : Control → Except Error Control} {c : Control} (h : f m.control = .ok c) :
    control f m = .ok () { m with control := c } := by
  rw [control, h]

theorem returnBack_does : returnBack.Does allowed fault := by
  intro m
  unfold returnBack control
  dsimp only
  split
  case h_1 c hc =>
    split at hc
    · split at hc
      case isTrue address _ _ =>
        obtain rfl := Except.ok.inj hc
        exact (shifts_pop m).tail (.control (.follow address))
      case isFalse => cases hc
    · cases hc
    · cases hc
  case h_2 e he =>
    refine leads_failed .refl ?_
    split at he
    · split at he
      · cases he
      · obtain rfl := Except.error.inj he
        exact ⟨nofun, nofun⟩
    · obtain rfl := Except.error.inj he
      exact ⟨nofun, nofun⟩
    · obtain rfl := Except.error.inj he
      exact ⟨nofun, nofun⟩

/-! ### Loops -/

theorem range_does {head : LoopHead} (h : head.Fits) : (range head).Does allowed fault := by
  refine (index_does h.place).bind fun i => (integer_does h.start).bind fun start => ?_
  exact (integer_does h.limit).bind fun limit => (stride_does h.step).bind fun step => does_pure _

theorem startLoop_does (line : Option Int64) {head : LoopHead} (h : head.Fits) :
    (startLoop line head).Does allowed fault := by
  refine (range_does h).bind ?_
  rintro ⟨i, start, limit, step⟩
  refine does_get fun m => ?_
  refine ((writeNumber_does head.place.name i (.integer start)).bind fun _ => ?_) m
  dsimp only
  split
  · exact push_does fun _ => ⟨step.property, h.numeric⟩
  · refine (does_inspect ?_).bind fun address => follow_does (address + 1)
    intro m
    unfold Machine.closing
    dsimp only
    split
    · exact raises_ok _
    · exact raises_error ⟨nofun, nofun⟩

/-- A loop is found where it was said to be. -/
theorem exists_drop_of_findLoop? {name : Option String} {frames : List Frame} {above : Nat}
    (h : Stack.findLoop? name frames = some above) : ∃ l rest, frames.drop above = .loop l :: rest := by
  induction frames generalizing above with
  | nil => cases h
  | cons f frames ih =>
    cases f with
    | returnTo address => cases h
    | loop l =>
      rw [Stack.findLoop?] at h
      split at h
      · obtain rfl := Option.some.inj h
        exact ⟨l, frames, rfl⟩
      · obtain ⟨k, hk, rfl⟩ := Option.map_eq_some_iff.1 h
        exact ih hk

/-- The latest frame is taken off, and it is a loop. -/
theorem takeLoop_ok {l : Loop} (h : m.control.stack.top? = some (.loop l)) :
    takeLoop m = .ok l { m with control := { m.control with stack := m.control.stack.pop } } := by
  refine (get_bind _ m).trans ?_
  refine (bind_ok (control_ok (f := fun c => .ok { c with stack := c.stack.pop }) rfl) _).trans ?_
  rw [h]
  rfl

theorem stack_ext {s s' : Stack} (h : s.frames = s'.frames) : s = s' := by
  obtain ⟨frames, depth, hd⟩ := s
  obtain ⟨frames', depth', hd'⟩ := s'
  obtain rfl : frames = frames' := h
  obtain rfl : depth = depth' := hd.trans hd'.symm
  rfl

/-- What was taken off is put back. -/
theorem eq_of_push_pop {s s' : Stack} {f : Frame} (ht : s.top? = some f) (h : s.pop.push f = .ok s') : s' = s := by
  unfold Stack.push at h
  split at h
  · cases h
  · obtain rfl := Except.ok.inj h
    refine stack_ext ?_
    exact List.cons_head?_tail ht

/-- A loop that was taken off goes on, or is over. If it goes on, the stack is
what it was before. -/
theorem continueLoop_leads {m₁ : Machine} {l : Loop} (h : m.control.stack.top? = some (.loop l))
    (hm₁ : m₁ = { m with control := { m.control with stack := m.control.stack.pop } }) :
    Leads allowed fault m.console.Plain m (continueLoop l m₁) := by
  have hpop : Shifts allowed m m₁ := hm₁ ▸ shifts_pop m
  refine leads_bind (.after hpop (does_inspect (fun m => m.memory.everyday_readKind .numeric _ _) m₁)) ?_
  intro v _ hv _
  obtain rfl := state_of_ofExcept hv
  refine leads_bind (.after hpop (does_ofExcept (Binary.add.everyday_apply v (.integer l.step)) m₁)) ?_
  intro v _ hv _
  obtain rfl := state_of_ofExcept hv
  split
  · refine leads_bind (.after hpop (writeNumber_does l.counter l.index v m₁)) ?_
    intro _ m₂ hm₂ _
    obtain rfl := memory_of_memory hm₂
    generalize hmem : (m₁.memory.write .numeric l.counter l.index v).2 = memory
    have hchange : m.memory.Change memory := by
      rw [← hmem, hm₁]
      exact .write .numeric l.counter l.index v
    show Leads allowed fault m.console.Plain m (control (·.push (.loop l)) _)
    unfold control Control.push
    subst hm₁
    dsimp only
    cases hs : m.control.stack.pop.push (.loop l) with
    | ok s =>
      obtain rfl := eq_of_push_pop h hs
      exact (Relation.ReflTransGen.single (.memory hchange)).tail (.control (.follow l.start))
    | error e =>
      have heveryday : e.Everyday := everyday_push { m.control with stack := m.control.stack.pop } (.loop l) e (by
        rw [Control.push, hs]
        rfl)
      exact leads_failed ((hpop.tail (.memory hchange)).tail (.control (.follow l.start))) heveryday
  · exact hpop

theorem next_does (name : Option String) : (next name).Does allowed fault := by
  refine does_get fun m => ?_
  cases hfind : Stack.findLoop? name m.control.stack.frames with
  | none => exact leads_fail ⟨nofun, nofun⟩
  | some above =>
    obtain ⟨l, rest, hl⟩ := exists_drop_of_findLoop? hfind
    have hdrop : control (fun c => .ok { c with stack := c.stack.drop above }) m =
        .ok () { m with control := { m.control with stack := m.control.stack.drop above } } := control_ok rfl
    have hshift : Shifts allowed m { m with control := { m.control with stack := m.control.stack.drop above } } :=
      .single (.control (.drop above))
    have htop : (m.control.stack.drop above).top? = some (.loop l) := congrArg List.head? hl
    dsimp only
    rw [bind_ok hdrop, bind_ok (takeLoop_ok htop)]
    exact (continueLoop_leads htop rfl).after hshift

/-- A pass leaves less room, and the measure of `passes` is that room. -/
theorem passes_does (limit : Int64) (step : Stride) {pass : Int64 → Act Unit}
    (h : ∀ v, (pass v).Does allowed fault) (v : Int64) : (passes limit step pass v).Does allowed fault := by
  rw [passes]
  split
  · refine (h v).bind fun _ => ?_
    split
    case h_1 w hw =>
      have := Stride.room_lt_of_next? hw
      exact passes_does limit step h w
    case h_2 => exact does_pure ()
  · exact does_pure ()
termination_by step.room v

end Act

namespace Machine

variable {allowed : Verb → Prop} {fault : Machine → Error → Prop}

theorem bindLabels_does (labels : List (String × Int64)) : (bindLabels labels).Does allowed fault := by
  induction labels with
  | nil => exact Act.does_pure ()
  | cons x rest ih =>
    obtain ⟨name, n⟩ := x
    exact (Act.write_does .numeric name 0 (.integer n)).bind fun _ => ih

theorem reset_does : reset.Does allowed fault := by
  refine (Act.does_modify fun _ => .single (.memory .clear)).bind fun _ => ?_
  refine Act.does_get fun m => ?_
  exact ((bindLabels_does m.listing.labels.toList).bind fun _ => Act.does_modify fun _ => .single .rewind) m

theorem dump_does (address : Nat) (tag : String) : (dump address tag).Does allowed fault :=
  Act.does_get fun m => Act.printAll_does (m.lineInfo address tag) m

theorem debug_does : debug.Does allowed fault := by
  refine Act.does_get fun m => ?_
  refine ((dump_does m.control.address "").bind fun _ => ?_) m
  refine (dump_does m.control.following "NEXT ").bind fun _ => ?_
  exact (Act.printLine_does _).bind fun _ => Act.printAll_does _

theorem advance_does : advance.Does allowed fault := Act.does_modify fun _ => .single (.control .advance)

/-! ### The break key -/

/-- The error of the break key, in the line that is to be executed. -/
def breakError (m : Machine) : Error :=
  match m.control.lineAt? m.control.address with
  | some n => Error.breakKey.inLine n
  | none => .breakKey

theorem checkBreak_of_false {m : Machine} (h : m.console.interrupted = false) : checkBreak m = .ok () m := by
  rw [checkBreak, Act.get_bind, h]
  rfl

theorem checkBreak_of_true {m : Machine} (h : m.console.interrupted = true) :
    checkBreak m =
      .error (.failed m.breakError) { m with console := { m.console with interrupted := false } } := by
  rw [checkBreak, Act.get_bind, h]
  rfl

theorem checkBreak_does : checkBreak.Does allowed fault := by
  intro m
  cases h : m.console.interrupted with
  | false =>
    rw [checkBreak_of_false h]
    exact .refl
  | true =>
    rw [checkBreak_of_true h]
    refine Act.leads_failed (.single .acknowledge) ?_
    unfold breakError
    split
    · exact ⟨nofun, nofun⟩
    · exact ⟨nofun, nofun⟩

end Machine

/-! ### Actions and scripts -/

namespace Action

variable {allowed : Verb → Prop} {fault : Machine → Error → Prop} {a : Action}

/-- **An action that starts no run comes to an end, and only shifts the
machine.** -/
theorem perform_does (run : Act Unit) (line : Option Int64) (h : a.Fits allowed)
    (hf : ∀ (m : Machine) e, m.FaultInFile e → fault m e) (hr : a ≠ .run) (hc : a ≠ .resume) :
    (a.perform run line).Does allowed fault := by
  have hparts := h.parts
  cases a with
  | label name =>
    cases line with
    | some n => exact Act.writeNumber_does name 0 (.integer n)
    | none => exact Act.does_pure ()
  | debug => exact Machine.debug_does
  | trace mode =>
    have shown : (do Act.printLine ("TRACE IS: " ++ if (← get).control.trace then "ON" else "OFF") : Act Unit).Does
        allowed fault := Act.does_get fun m => Act.printLine_does _ m
    cases mode with
    | none => exact shown
    | some e =>
      refine (Act.truth_does (hparts e rfl)).bind fun on => ?_
      exact (Act.does_modify fun _ => .single (.control (.trace on))).bind fun _ => shown
  | remark comment =>
    exact Act.does_get fun m => Act.does_if (Act.printLine_does _) (Act.does_pure ()) m
  | assign place value => exact Act.assign_does hparts.1 hparts.2
  | dim name size =>
    have hdim : allowed .dim := h.verb .dim rfl
    refine (Act.integer_does hparts).bind fun n => ?_
    refine Act.does_remember (fun _ _ hd => .dim hd) fun memory h hd => ?_
    exact (Memory.dim_eq_error hd).imp_left fun haborted => ⟨haborted, hdim⟩
  | goto target => exact (Act.integer_does hparts).bind fun n => Act.jump_does n
  | gosub target => exact (Act.integer_does hparts).bind fun n => Act.callLine_does n
  | returns => exact Act.returnBack_does
  | clear => exact Act.clear_does
  | print items => exact (Act.printed_does hparts).bind fun s => Act.print_does s _
  | input prompt mark place =>
    refine (Act.text_does hparts.1).bind fun s => (Act.index_does hparts.2).bind fun i => ?_
    exact Act.ask_does _ place.name i
  | new => exact Act.does_modify fun _ => .single .renew
  | list first last =>
    refine (Act.integer?_does hparts.1).bind fun first => (Act.integer?_does hparts.2).bind fun last => ?_
    refine Act.does_get fun m => ?_
    exact ((Act.printAll_does _).bind fun _ => Act.printLine_does "DONE") m
  | read name file =>
    refine (Act.text_does hparts).bind fun f => (Act.readLines_does f).bind fun texts => ?_
    exact Act.does_storeLines name _
  | write name file =>
    refine (Act.does_inspect fun m => m.memory.everyday_find name).bind fun v => ?_
    refine (Act.text_does hparts).bind fun f => ?_
    refine (Act.does_inspect fun m => ?_).bind fun s => Act.writeFile_does f s
    exact Act.everyday_joined m.memory v
  | load file =>
    have hload : allowed .load := h.verb .load rfl
    refine (Act.text_does hparts).bind fun f => ?_
    exact Act.loadFile_does hload hf f fun texts => Act.printLine_does _
  | save file =>
    refine (Act.text_does hparts).bind fun f => ?_
    refine Act.does_get fun m => ?_
    exact ((Act.writeFile_does f _).bind fun _ => Act.printLine_does _) m
  | finish => exact Act.does_throw nofun ⟨Halt.noConfusion, Halt.noConfusion⟩
  | quit => exact Act.does_throw nofun ⟨Halt.noConfusion, Halt.noConfusion⟩
  | run => exact absurd rfl hr
  | reset => exact Machine.reset_does
  | resume => exact absurd rfl hc
  | startLoop head => exact Act.startLoop_does line hparts
  | next name => exact Act.next_does name

/-- What a run is makes no difference to an action that starts none. -/
theorem perform_congr (run run' : Act Unit) (line : Option Int64) (hr : a ≠ .run) (hc : a ≠ .resume) :
    a.perform run line = a.perform run' line := by
  cases a with
  | run => exact absurd rfl hr
  | resume => exact absurd rfl hc
  | _ => rfl

end Action

namespace Script

variable {allowed : Verb → Prop} {here : Position → Prop} {s : Script}

section

variable (h : s.Fits allowed here) (hr : ¬ allowed .run) (hc : ¬ allowed .resume)

include h hr hc

/-- **A script without `RUN` and `CONT` comes to an end.** -/
theorem exec_does (run : Act Unit) (line : Option Int64) : (s.exec run line).Does allowed anyFault := by
  induction s with
  | done => exact Act.does_pure ()
  | broken before error => exact (Act.check_does h.1).bind fun _ => Act.does_fail_sited h.2 fun _ _ => trivial
  | step action rest ih =>
    have hrun : action ≠ .run := fun he => hr (h.1.verb .run (by rw [he]; rfl))
    have hresume : action ≠ .resume := fun he => hc (h.1.verb .resume (by rw [he]; rfl))
    exact (action.perform_does run line h.1 (fun _ _ _ => trivial) hrun hresume).bind fun _ => ih h.2
  | branch condition yes no hyes hno =>
    rw [exec]
    refine (Act.truth_does h.1).bind fun b => ?_
    cases b with
    | true => exact hyes h.2.1
    | false => exact hno h.2.2
  | loop head body rest hbody hrest =>
    rw [exec]
    refine (Act.range_does h.1).bind fun r => ?_
    refine (Act.passes_does _ _ (fun v => ?_) _).bind fun _ => hrest h.2.2
    exact (Act.writeNumber_does _ _ _).bind fun _ => hbody h.2.1

/-- What a run is makes no difference to a script without `RUN` and `CONT`. -/
theorem exec_congr (run run' : Act Unit) (line : Option Int64) : s.exec run line = s.exec run' line := by
  induction s with
  | done => rfl
  | broken before error => rfl
  | step action rest ih =>
    have hrun : action ≠ .run := fun he => hr (h.1.verb .run (by rw [he]; rfl))
    have hresume : action ≠ .resume := fun he => hc (h.1.verb .resume (by rw [he]; rfl))
    rw [exec, exec, ih h.2, action.perform_congr run run' line hrun hresume]
  | branch condition yes no hyes hno => rw [exec, exec, hyes h.2.1, hno h.2.2]
  | loop head body rest hbody hrest => rw [exec, exec, hbody h.2.1, hrest h.2.2]

end

end Script

end LineBasic
