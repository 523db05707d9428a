import LineBasic.Proofs.Machine.Step

/-!
# What statements leave alone

Most statements have nothing to do with the frames that are under way, and most
of them halt only with an error. Both are said here in one go: an act spares
what a function tells of the control, and its halts are those of a class that
holds all errors. The statements that move the stack are told apart.

* `Act.Spares`: what an act leaves as it is, and why it may halt.
* `Act.Looks`: an act that changes nothing at all.
* `Act.Evaluates`: an act for which only the memory and the source of random
  numbers matter.
* `Action.MovesStack`: the statements that push or drop frames.
* `Action.perform_spares`: all other statements spare the stack, the table and
  the address.
* `Task.step_spares`, `Task.unwind_spares`: and so do the tasks of a machine at
  work.
-/

namespace LineBasic

/-- What the function tells of the control has nothing to do with the line that
follows, nor with tracing. -/
structure Control.Aside {γ : Type} (f : Control → γ) : Prop where
  follow : ∀ (c : Control) (address : Nat), f { c with following := address } = f c
  trace : ∀ (c : Control) (on : Bool), f { c with trace := on } = f c

theorem Control.aside_of_stack {γ : Type} {f : Control → γ} (hf : ∀ c c' : Control, c.stack = c'.stack → f c = f c') :
    Aside f :=
  ⟨fun _ _ => hf _ _ rfl, fun _ _ => hf _ _ rfl⟩

namespace Act

variable {α β γ : Type} {f : Control → γ} {H : Halt → Prop} {m m' : Machine}

/-- An act that began on `m` left `f` of the control as it was. If it halted,
`H` allows for that. -/
def Spared (f : Control → γ) (H : Halt → Prop) (m : Machine) : EStateM.Result Halt Machine α → Prop
  | .ok _ m' => f m'.control = f m.control
  | .error h m' => f m'.control = f m.control ∧ H h

/-- The act leaves `f` of the control as it is, and halts only as `H` allows. -/
def Spares (f : Control → γ) (H : Halt → Prop) (x : Act α) : Prop := ∀ m, Spared f H m (x m)

theorem Spared.after {r : EStateM.Result Halt Machine α} (h : Spared f H m' r) (hm : f m'.control = f m.control) :
    Spared f H m r := by
  cases r with
  | ok a m'' => exact h.trans hm
  | error e m'' => exact ⟨h.1.trans hm, h.2⟩

/-- An act, and another one behind it. -/
theorem spared_bind {x : Act α} (hx : Spared f H m (x m')) {g : α → Act β}
    (hg : ∀ a m'', x m' = .ok a m'' → f m''.control = f m.control → Spared f H m (g a m'')) :
    Spared f H m ((x >>= g) m') := by
  cases h : x m' with
  | ok a m'' =>
    rw [h] at hx
    rw [bind_ok h]
    exact hg a m'' h hx
  | error e m'' =>
    rw [h] at hx
    rw [bind_error h]
    exact hx

theorem Spares.bind {x : Act α} (hx : x.Spares f H) {g : α → Act β} (hg : ∀ a, (g a).Spares f H) :
    (x >>= g).Spares f H :=
  fun m => spared_bind (hx m) fun a m' _ hm => (hg a m').after hm

theorem spares_pure (a : α) : (pure a : Act α).Spares f H := fun _ => rfl

theorem spares_throw {h : Halt} (hh : H h) : (throw h : Act α).Spares f H := fun _ => ⟨rfl, hh⟩

theorem spares_get {g : Machine → Act α} (h : ∀ m, Spared f H m (g m m)) : ((get : Act Machine) >>= g).Spares f H :=
  fun m => h m

theorem spares_if {c : Prop} [Decidable c] {x y : Act α} (hx : x.Spares f H) (hy : y.Spares f H) :
    (if c then x else y).Spares f H := by
  split
  · exact hx
  · exact hy

theorem spares_modify {g : Machine → Machine} (h : ∀ m, f (g m).control = f m.control) :
    (modify g : Act Unit).Spares f H :=
  fun m => h m

theorem follow_spares (hf : ∀ (c : Control) (address : Nat), f { c with following := address } = f c)
    (address : Nat) : (follow address).Spares f H :=
  fun m => hf m.control address

/-! ### Acts that only look -/

/-- The act only looks at the machine, and may draw random numbers. If it halts,
there is an error. -/
def Looks (x : Act α) : Prop :=
  ∀ m, ∃ chance, (∃ a, x m = .ok a { m with chance }) ∨ ∃ e, x m = .error (.failed e) { m with chance }

theorem looks_pure (a : α) : (pure a : Act α).Looks := fun m => ⟨m.chance, .inl ⟨a, rfl⟩⟩

theorem Looks.bind {x : Act α} (hx : x.Looks) {g : α → Act β} (hg : ∀ a, (g a).Looks) : (x >>= g).Looks := by
  intro m
  obtain ⟨chance, ⟨a, ha⟩ | ⟨e, he⟩⟩ := hx m
  · rw [bind_ok ha]
    exact hg a { m with chance }
  · rw [bind_error he]
    exact ⟨chance, .inr ⟨e, rfl⟩⟩

theorem looks_ofExcept (x : Except Error α) : (ofExcept x).Looks := by
  intro m
  cases x with
  | ok a => exact ⟨m.chance, .inl ⟨a, rfl⟩⟩
  | error e => exact ⟨m.chance, .inr ⟨e, rfl⟩⟩

/-- The act evaluates, and does nothing else. -/
def Evaluates (x : Act α) : Prop := ∃ f : Memory → Eval α, x = evaluate f

theorem evaluate_ok {f : Memory → Eval α} {a : α} {chance : StdGen} (h : f m.memory m.chance = .ok a chance) :
    evaluate f m = .ok a { m with chance } := by
  rw [evaluate, h]

theorem evaluates_pure (a : α) : (pure a : Act α).Evaluates := ⟨fun _ => pure a, rfl⟩

theorem evaluates_ofExcept (r : Except Error α) : (ofExcept r).Evaluates := by
  cases r with
  | ok a => exact evaluates_pure a
  | error e => exact ⟨fun _ => throw e, rfl⟩

theorem Evaluates.bind {x : Act α} (hx : x.Evaluates) {g : α → Act β} (hg : ∀ a, (g a).Evaluates) :
    (x >>= g).Evaluates := by
  obtain ⟨f, rfl⟩ := hx
  choose g' hg' using hg
  refine ⟨fun memory => f memory >>= fun a => g' a memory, funext fun m => ?_⟩
  show EStateM.bind (evaluate f) g m = _
  unfold EStateM.bind evaluate
  cases hf : f m.memory m.chance with
  | ok a chance =>
    have hbind : (f m.memory >>= fun a => g' a m.memory) m.chance = g' a m.memory chance := by
      show EStateM.bind _ _ _ = _
      rw [EStateM.bind, hf]
    simp only [hbind, hg', evaluate]
  | error e chance =>
    have hbind : (f m.memory >>= fun a => g' a m.memory) m.chance = .error e chance := by
      show EStateM.bind _ _ _ = _
      rw [EStateM.bind, hf]
    simp only [hbind]

theorem Evaluates.looks {x : Act α} (hx : x.Evaluates) : x.Looks := by
  obtain ⟨f, rfl⟩ := hx
  intro m
  cases h : f m.memory m.chance with
  | ok a chance => exact ⟨chance, .inl ⟨a, evaluate_ok h⟩⟩
  | error e chance => exact ⟨chance, .inr ⟨e, by rw [evaluate, h]⟩⟩

/-- What the program is and where it is makes no difference to an evaluation. -/
theorem Evaluates.elsewhere {x : Act α} (hx : x.Evaluates) {a : α} (h : x m = .ok a m') (listing : Listing)
    (control : Control) : x { m with listing, control } = .ok a { m' with listing, control } := by
  obtain ⟨f, rfl⟩ := hx
  unfold evaluate at h ⊢
  dsimp only
  cases hf : f m.memory m.chance with
  | ok b chance =>
    rw [hf] at h
    obtain ⟨rfl, rfl⟩ := EStateM.Result.ok.inj h
    rfl
  | error e chance =>
    rw [hf] at h
    cases h

theorem value_evaluates (e : Expr) : (value e).Evaluates := ⟨e.eval, rfl⟩

theorem integer_evaluates (e : Expr) : (integer e).Evaluates :=
  (value_evaluates e).bind fun v => evaluates_ofExcept v.toInteger

theorem index_evaluates (p : Place) : (index p).Evaluates := by
  have hindex : (integer? p.index).Evaluates := by
    cases p.index with
    | none => exact evaluates_pure none
    | some e => exact (integer_evaluates e).bind fun n => evaluates_pure (some n)
  exact hindex.bind fun i => evaluates_pure (i.getD 0)

theorem range_evaluates (head : LoopHead) : (range head).Evaluates := by
  refine (index_evaluates head.place).bind fun i => ?_
  refine (integer_evaluates head.start).bind fun start => ?_
  refine (integer_evaluates head.limit).bind fun limit => ?_
  have hstride : (stride head.step).Evaluates :=
    (value_evaluates head.step).bind fun v => evaluates_ofExcept v.toStride
  exact hstride.bind fun step => evaluates_pure (i, start, limit, step)

theorem value_looks (e : Expr) : (value e).Looks := (value_evaluates e).looks

theorem integer_looks (e : Expr) : (integer e).Looks := (integer_evaluates e).looks

theorem text_looks (e : Expr) : (text e).Looks := (value_looks e).bind fun v => looks_ofExcept v.toText

theorem index_looks (p : Place) : (index p).Looks := (index_evaluates p).looks

theorem range_looks (head : LoopHead) : (range head).Looks := (range_evaluates head).looks

/-! ### Acts that have nothing to do with the control -/

theorem spares_console {g : Console → Except Halt α × Console} (h : ∀ c e, (g c).1 = .error e → H e) :
    (console g).Spares f H := by
  intro m
  have hm := h m.console
  unfold console
  generalize g m.console = r at hm
  obtain ⟨x, c⟩ := r
  cases x with
  | ok a => exact rfl
  | error e => exact ⟨rfl, hm e rfl⟩

theorem spares_remember {g : Memory → Except Halt Memory} (h : ∀ memory e, g memory = .error e → H e) :
    (remember g).Spares f H := by
  intro m
  unfold remember
  cases hg : g m.memory with
  | ok memory => exact rfl
  | error e => exact ⟨rfl, h m.memory e hg⟩

section Errors

variable (hH : ∀ e, H (.failed e))

include hH

theorem spares_fail (e : Error) : (fail e : Act α).Spares f H := spares_throw (hH e)

theorem spares_ofExcept (x : Except Error α) : (ofExcept x).Spares f H := by
  cases x with
  | ok a => exact spares_pure a
  | error e => exact spares_fail hH e

theorem spares_inspect (g : Machine → Except Error α) : (inspect g).Spares f H :=
  fun m => spares_ofExcept hH (g m) m

theorem spares_evaluate (g : Memory → Eval α) : (evaluate g).Spares f H := by
  intro m
  unfold evaluate
  cases g m.memory m.chance with
  | ok a chance => exact rfl
  | error e chance => exact ⟨rfl, hH e⟩

theorem spares_memory (g : Memory → Except Error Unit × Memory) : (memory g).Spares f H := by
  intro m
  unfold memory
  obtain ⟨x, memory⟩ := g m.memory
  cases x with
  | ok u => exact rfl
  | error e => exact ⟨rfl, hH e⟩

theorem spares_control {g : Control → Except Error Control} (h : ∀ c c', g c = .ok c' → f c' = f c) :
    (control g).Spares f H := by
  intro m
  unfold control
  cases hc : g m.control with
  | ok c => exact h m.control c hc
  | error e => exact ⟨rfl, hH e⟩

theorem print_spares (text : String) (newline : Bool) : (print text newline).Spares f H := by
  refine spares_console ?_
  intro c e he
  rw [Console.print_halt he]
  exact hH _

theorem printLine_spares (text : String) : (printLine text).Spares f H := print_spares hH text true

theorem printAll_spares (texts : List String) : (printAll texts).Spares f H := by
  induction texts with
  | nil => exact spares_pure ()
  | cons text rest ih => exact (printLine_spares hH text).bind fun _ => ih

theorem writeFile_spares (file content : String) : (writeFile file content).Spares f H := by
  intro m
  unfold writeFile
  cases m.console.writeText file content with
  | ok c => exact rfl
  | error e => exact ⟨rfl, hH e⟩

theorem loadLines_spares (texts : List String) : (loadLines texts).Spares f H := by
  intro m
  unfold loadLines
  obtain ⟨x, l⟩ := Listing.load texts
  cases x with
  | ok n => exact rfl
  | error e => exact ⟨rfl, hH e⟩

/-! ### Evaluation -/

theorem value_spares (e : Expr) : (value e).Spares f H := spares_evaluate hH e.eval

theorem integer_spares (e : Expr) : (integer e).Spares f H :=
  (value_spares hH e).bind fun v => spares_ofExcept hH v.toInteger

theorem text_spares (e : Expr) : (text e).Spares f H :=
  (value_spares hH e).bind fun v => spares_ofExcept hH v.toText

theorem truth_spares (e : Expr) : (truth e).Spares f H :=
  (value_spares hH e).bind fun v => spares_ofExcept hH v.truth

theorem numeric_spares (e : Expr) : (numeric e).Spares f H :=
  (value_spares hH e).bind fun v => spares_ofExcept hH v.numeric

theorem stride_spares (e : Expr) : (stride e).Spares f H :=
  (value_spares hH e).bind fun v => spares_ofExcept hH v.toStride

theorem integer?_spares (e : Option Expr) : (integer? e).Spares f H := by
  cases e with
  | none => exact spares_pure none
  | some e => exact (integer_spares hH e).bind fun n => spares_pure (some n)

theorem index_spares (p : Place) : (index p).Spares f H :=
  (integer?_spares hH p.index).bind fun i => spares_pure (i.getD 0)

theorem check_spares (os : List Operand) : (check os).Spares f H := by
  induction os with
  | nil => exact spares_pure ()
  | cons o os ih => exact (spares_evaluate hH o.check).bind fun _ => ih

theorem printed_spares (items : List (Expr × Separator)) : (printed items).Spares f H := by
  induction items with
  | nil => exact spares_pure ""
  | cons i items ih => exact (value_spares hH i.1).bind fun v => ih.bind fun tail => spares_pure _

theorem range_spares (head : LoopHead) : (range head).Spares f H := by
  refine (index_spares hH head.place).bind fun i => (integer_spares hH head.start).bind fun start => ?_
  exact (integer_spares hH head.limit).bind fun limit => (stride_spares hH head.step).bind fun step => spares_pure _

/-! ### Variables -/

theorem writeNumber_spares (name : String) (i : Int64) (x : Value) : (writeNumber name i x).Spares f H :=
  spares_memory hH _

theorem writeText_spares (name : String) (i : Int64) (s : String) : (writeText name i s).Spares f H :=
  spares_memory hH _

theorem assign_spares (place : Place) (e : Expr) : (assign place e).Spares f H := by
  refine (index_spares hH place).bind fun i => ?_
  cases VariableKind.ofName place.name with
  | text => exact (text_spares hH e).bind fun s => writeText_spares hH place.name i s
  | numeric => exact (numeric_spares hH e).bind fun v => writeNumber_spares hH place.name i v

theorem ask_spares (hq : H .quit) (prompt name : String) (i : Int64) : (ask prompt name i).Spares f H := by
  unfold ask
  cases VariableKind.ofName name with
  | text =>
    refine (spares_console ?_).bind fun s => writeText_spares hH name i s
    intro c e he
    rcases Console.input_halt he with rfl | rfl
    · exact hq
    · exact hH _
  | numeric =>
    refine (spares_console ?_).bind fun n => writeNumber_spares hH name i (.integer n)
    intro c e he
    rcases Console.inputInteger_halt he with (rfl | rfl) | ⟨s, rfl⟩
    · exact hq
    · exact hH _
    · exact hH _

end Errors

end Act

/-! ### The machine -/

namespace Machine

variable {γ : Type} {f : Control → γ} {H : Halt → Prop} (hH : ∀ e, H (.failed e))

include hH

theorem bindLabels_spares (labels : List (String × Int64)) : (bindLabels labels).Spares f H := by
  induction labels with
  | nil => exact Act.spares_pure ()
  | cons x rest ih => exact (Act.spares_memory hH _).bind fun _ => ih

theorem dump_spares (address : Nat) (tag : String) : (dump address tag).Spares f H :=
  Act.spares_get fun m => Act.printAll_spares hH (m.lineInfo address tag) m

theorem debug_spares : debug.Spares f H := by
  refine Act.spares_get fun m => ?_
  refine ((dump_spares hH m.control.address "").bind fun _ => ?_) m
  refine (dump_spares hH m.control.following "NEXT ").bind fun _ => ?_
  exact (Act.printLine_spares hH _).bind fun _ => Act.printAll_spares hH _

theorem checkBreak_spares : checkBreak.Spares f H := by
  intro m
  cases h : m.console.interrupted with
  | false =>
    rw [checkBreak_of_false h]
    exact rfl
  | true =>
    rw [checkBreak_of_true h]
    exact ⟨rfl, hH _⟩

omit hH in
/-- Behind the clearing of the memory, a reset binds the labels and then makes
the table. -/
theorem reset_eq (m : Machine) :
    reset m = (do
      bindLabels m.listing.labels.toList
      modify fun m => { m with control := m.control.reset m.listing.numbers } : Act Unit) { m with memory := .empty } := by
  have hclear : (modify fun m => { m with memory := .empty } : Act Unit) m = .ok () { m with memory := .empty } :=
    rfl
  rw [reset, Act.bind_ok hclear, Act.get_bind]

omit hH in
/-- A reset fails and leaves the place in the program as it is, or it drops all
frames. -/
theorem reset_cases (m : Machine) :
    (∃ e m', reset m = .error (.failed e) m' ∧ m'.control = m.control) ∨
      ∃ m', reset m = .ok () m' ∧ m'.control.stack = .empty := by
  rw [reset_eq]
  have hb := bindLabels_spares (f := id) (H := fun h => ∃ e, h = .failed e) (fun e => ⟨e, rfl⟩) m.listing.labels.toList
    { m with memory := .empty }
  cases hbind : bindLabels m.listing.labels.toList { m with memory := .empty } with
  | error e m' =>
    rw [hbind] at hb
    obtain ⟨hc, e, rfl⟩ := hb
    exact .inl ⟨e, m', Act.bind_error hbind _, hc⟩
  | ok u m' => exact .inr ⟨_, Act.bind_ok hbind _, rfl⟩

end Machine

/-! ### Actions -/

/-- The halts, errors apart, that a statement with the verb may come to. -/
inductive Verb.Brings : Verb → Halt → Prop
  | finish : Brings .finish .finished
  | quit : Brings .quit .quit
  | input : Brings .input .quit
  | dim : Brings .dim .aborted

namespace Action

/-- The action may push frames or drop some, or it starts a run. -/
def MovesStack : Action → Prop
  | gosub _ | returns | new | run | reset | resume | startLoop _ | next _ => True
  | _ => False

variable {γ : Type} {f : Control → γ} {H : Halt → Prop} {a : Action}

/-- **A statement that does not move the stack spares all but the line that
follows and tracing.** It halts with an error, or as its verb may. -/
theorem perform_spares (run : Act Unit) (line : Option Int64) (hH : ∀ e, H (.failed e))
    (hf : Control.Aside f) (ha : ¬ a.MovesStack) (hverb : ∀ v h, a.verb? = some v → v.Brings h → H h) :
    (a.perform run line).Spares f H := by
  cases a with
  | label name =>
    cases line with
    | some n => exact Act.writeNumber_spares hH name 0 (.integer n)
    | none => exact Act.spares_pure ()
  | debug => exact Machine.debug_spares hH
  | trace mode =>
    have shown : (do Act.printLine ("TRACE IS: " ++ if (← get).control.trace then "ON" else "OFF") : Act Unit).Spares
        f H := Act.spares_get fun m => Act.printLine_spares hH _ m
    cases mode with
    | none => exact shown
    | some e =>
      refine (Act.truth_spares hH e).bind fun on => ?_
      refine Act.Spares.bind (Act.spares_modify ?_) fun _ => shown
      exact fun m => hf.trace m.control on
  | remark comment =>
    exact Act.spares_get fun m => Act.spares_if (Act.printLine_spares hH _) (Act.spares_pure ()) m
  | assign place value => exact Act.assign_spares hH place value
  | dim name size =>
    refine (Act.integer_spares hH size).bind fun n => Act.spares_remember fun memory h hd => ?_
    rcases Memory.dim_eq_error hd with rfl | ⟨e, rfl, -⟩
    · exact hverb .dim .aborted rfl .dim
    · exact hH e
  | goto target =>
    refine (Act.integer_spares hH target).bind fun n => Act.spares_control hH fun c c' hc => ?_
    unfold Control.jump at hc
    cases hr : c.resolve n with
    | error e => rw [hr] at hc; cases hc
    | ok address =>
      rw [hr] at hc
      obtain rfl := Except.ok.inj hc
      exact hf.follow c address
  | clear =>
    refine Act.spares_console (g := fun c => (.ok (), c.clear)) ?_
    intro c e he
    cases he
  | print items => exact (Act.printed_spares hH items).bind fun s => Act.print_spares hH s _
  | input prompt mark place =>
    refine (Act.text_spares hH prompt).bind fun s => (Act.index_spares hH place).bind fun i => ?_
    exact Act.ask_spares hH (hverb .input .quit rfl .input) _ place.name i
  | list first last =>
    refine (Act.integer?_spares hH first).bind fun first => (Act.integer?_spares hH last).bind fun last => ?_
    refine Act.spares_get fun m => ?_
    exact ((Act.printAll_spares hH _).bind fun _ => Act.printLine_spares hH "DONE") m
  | read name file =>
    refine (Act.text_spares hH file).bind fun s => (Act.spares_inspect hH _).bind fun texts => ?_
    refine Act.spares_remember fun memory h hs => ?_
    cases hstore : memory.storeLines name (texts.map trimEnd) with
    | ok stored =>
      rw [hstore] at hs
      cases hs
    | error e =>
      rw [hstore] at hs
      obtain rfl := Except.error.inj hs
      exact hH e
  | write name file =>
    refine (Act.spares_inspect hH _).bind fun v => (Act.text_spares hH file).bind fun s => ?_
    exact (Act.spares_inspect hH _).bind fun t => Act.writeFile_spares hH s t
  | load file =>
    refine (Act.text_spares hH file).bind fun s => (Act.spares_inspect hH _).bind fun texts => ?_
    exact (Act.loadLines_spares hH texts).bind fun _ => Act.printLine_spares hH _
  | save file =>
    refine (Act.text_spares hH file).bind fun s => Act.spares_get fun m => ?_
    exact ((Act.writeFile_spares hH s _).bind fun _ => Act.printLine_spares hH _) m
  | finish => exact Act.spares_throw (hverb .finish .finished rfl .finish)
  | quit => exact Act.spares_throw (hverb .quit .quit rfl .quit)
  | _ => exact absurd trivial ha

end Action

/-! ### Tasks -/

namespace Machine

variable {γ : Type} {f : Control → γ} {H : Halt → Prop}

theorem advance_spares (hf : ∀ c c' : Control, c.stack = c'.stack → f c = f c') : advance.Spares f H :=
  Act.spares_modify fun m => hf m.control.advance m.control rfl

theorem edit_spares (hH : ∀ e, H (.failed e)) (text : String) : (edit text).Spares f H := by
  refine (Act.spares_ofExcept hH _).bind fun line => (Act.spares_inspect hH _).bind fun l => ?_
  exact Act.spares_modify fun m => rfl

/-- A line that is entered halts with an error, or as it does when it is
executed. That a program is over is not passed on. -/
theorem enter_halt {run : Act Unit} {text : String} {m m' : Machine} {h : Halt} (he : enter run text m = .error h m') :
    (∃ e, h = .failed e) ∨ h ≠ .finished ∧ execute run text m = .error h m' := by
  have direct {g : Halt → Act Unit} (he : tryCatch (execute run text) g m = .error h m')
      (hfinish : ∀ m, g .finished m = .ok () m) (hquit : ∀ m, g .quit m = .error .quit m)
      (hfailed : ∀ e m, g (.failed e) m = .error (.failed e) m)
      (hexhausted : ∀ m, g .exhausted m = .error .exhausted m)
      (haborted : ∀ m, g .aborted m = .error .aborted m) :
      (∃ e, h = .failed e) ∨ h ≠ .finished ∧ execute run text m = .error h m' := by
    cases hexec : execute run text m with
    | ok u m₁ =>
      rw [Act.tryCatch_ok hexec] at he
      cases he
    | error h₁ m₁ =>
      rw [Act.tryCatch_error hexec] at he
      cases h₁ with
      | finished =>
        rw [hfinish] at he
        cases he
      | quit =>
        rw [hquit] at he
        cases he
        exact .inr ⟨Halt.noConfusion, rfl⟩
      | failed e =>
        rw [hfailed] at he
        cases he
        exact .inl ⟨e, rfl⟩
      | exhausted =>
        rw [hexhausted] at he
        cases he
        exact .inr ⟨Halt.noConfusion, rfl⟩
      | aborted =>
        rw [haborted] at he
        cases he
        exact .inr ⟨Halt.noConfusion, rfl⟩
  unfold enter at he
  by_cases hv : isVacant text
  · rw [if_pos hv] at he
    cases he
  rw [if_neg hv] at he
  cases ht : Tape.ofLine text with
  | stop p =>
    rw [ht] at he
    exact direct he (fun _ => rfl) (fun _ => rfl) (fun _ _ => rfl) (fun _ => rfl) (fun _ => rfl)
  | broken e =>
    rw [ht] at he
    cases he
    exact .inl ⟨e, rfl⟩
  | cons x rest =>
    rw [ht] at he
    obtain ⟨token, p, q⟩ := x
    cases token with
    | lineNumber n =>
      have hs := edit_spares (f := id) (H := fun h => ∃ e, h = .failed e) (fun e => ⟨e, rfl⟩) text m
      rw [show edit text m = .error h m' from he] at hs
      exact .inl hs.2
    | _ => exact direct he (fun _ => rfl) (fun _ => rfl) (fun _ _ => rfl) (fun _ => rfl) (fun _ => rfl)

end Machine

namespace Task

/-- The task may push frames or drop some. -/
def MovesStack : Task → Prop
  | call .reset | call .new => True
  | script _ (.step action _) => action.MovesStack
  | _ => False

variable {γ : Type} {f : Control → γ} {H : Halt → Prop} {t : Task} {e : Halt}

theorem takeLine_spares (hH : ∀ e, H (.failed e)) (hf : Control.Aside f) : takeLine.Spares f H := by
  intro m
  cases hline : m.control.lineAt? m.control.address with
  | none =>
    rw [takeLine_of_none hline]
    exact rfl
  | some n =>
    rw [takeLine_of_some hline]
    cases hfind : m.fetched.listing.find? n with
    | none =>
      rw [openLine_of_none hfind]
      exact ⟨hf.follow _ _, hH _⟩
    | some text =>
      rw [openLine_of_some hfind]
      exact hf.follow _ _

theorem stepScript_spares (line : Option Int64) {s : Script} (hH : ∀ e, H (.failed e))
    (hf : Control.Aside f) (hs : ¬ (script line s).MovesStack)
    (hverb : ∀ v h, (script line s).verb? = some v → v.Brings h → H h) :
    (stepScript line s).Spares f H := by
  cases s with
  | done => exact Act.spares_pure []
  | broken before e =>
    exact (Act.check_spares hH before).bind fun _ => (Act.spares_fail hH e).bind fun _ => Act.spares_pure []
  | step action rest =>
    have hr : action ≠ .run := fun h => hs (h ▸ trivial)
    have hc : action ≠ .resume := fun h => hs (h ▸ trivial)
    rw [stepScript_step line rest hr hc]
    exact (Action.perform_spares (pure ()) line hH hf hs hverb).bind fun _ => Act.spares_pure _
  | branch condition yes no => exact (Act.truth_spares hH condition).bind fun b => Act.spares_pure _
  | loop head body rest => exact (Act.range_spares hH head).bind fun r => Act.spares_pure _

/-- **A task that does not move the stack spares all but the line that follows
and tracing**, and at the end of a line the address. -/
theorem step_spares_aside (hH : ∀ e, H (.failed e)) (hf : Control.Aside f) (ht : ¬ t.MovesStack)
    (hadvance : ∀ n, t = .lineEnd n → ∀ c : Control, f c.advance = f c)
    (hverb : ∀ v h, t.verb? = some v → v.Brings h → H h) : t.step.Spares f H := by
  cases t with
  | call c =>
    cases c with
    | enter text =>
      rw [step]
      refine Act.spares_if (Act.spares_pure []) ?_
      split
      · exact Act.spares_fail hH _
      · exact (Machine.edit_spares hH text).bind fun _ => Act.spares_pure []
      · exact Act.spares_pure _
    | execute text => exact Act.spares_pure _
    | run => exact Act.spares_pure _
    | step => exact takeLine_spares hH hf
    | reset => exact absurd trivial ht
    | new => exact absurd trivial ht
  | script line s => exact stepScript_spares line hH hf ht hverb
  | passes line counter index limit stride body v =>
    refine Act.spares_if ?_ (Act.spares_pure [])
    exact (Act.writeNumber_spares hH counter index (.integer v)).bind fun _ => Act.spares_pure _
  | lineEnd n => exact (Act.spares_modify fun m => hadvance n rfl m.control).bind fun _ => Act.spares_pure []
  | running =>
    refine Act.spares_get fun m => Act.spares_if ?_ ?_ m
    · refine (Machine.checkBreak_spares hH).bind fun _ => ?_
      exact (takeLine_spares hH hf).bind fun ts => Act.spares_pure _
    · exact (Act.printLine_spares hH "DONE.").bind fun _ => Act.spares_pure []
  | ran =>
    refine Act.spares_get fun m => Act.spares_if ?_ (Act.spares_pure _) m
    exact (Act.printLine_spares hH "DONE.").bind fun _ => Act.spares_pure []
  | _ => exact Act.spares_pure []

/-- A task that does not move the stack spares whatever can be told from the
stack. -/
theorem step_spares (hH : ∀ e, H (.failed e)) (hf : ∀ c c' : Control, c.stack = c'.stack → f c = f c')
    (ht : ¬ t.MovesStack) (hverb : ∀ v h, t.verb? = some v → v.Brings h → H h) : t.step.Spares f H :=
  step_spares_aside hH (Control.aside_of_stack hf) ht (fun _ _ _ => hf _ _ rfl) hverb

/-- A task that is dropped spares whatever can be told from the stack. -/
theorem unwind_spares (hH : ∀ e, H (.failed e)) (hf : ∀ c c' : Control, c.stack = c'.stack → f c = f c')
    (he : H e) (hin : ∀ n, H (e.inLine n)) (t : Task) : (t.unwind e).Spares f H := by
  cases t with
  | lineEnd n =>
    cases e with
    | finished => exact (Machine.advance_spares hf).bind fun _ => Act.spares_throw he
    | _ => exact Act.spares_throw (hin n)
  | ran =>
    cases e with
    | finished => exact (Act.printLine_spares hH "DONE.").bind fun _ => Act.spares_pure []
    | _ => exact Act.spares_throw he
  | entered =>
    cases e with
    | finished => exact Act.spares_pure []
    | _ => exact Act.spares_throw he
  | _ => exact Act.spares_throw he

end Task

/-- What is spared stays, whether the task succeeds or not. -/
theorem Config.spared_settle {γ : Type} {f : Control → γ} {H : Halt → Prop} {m : Machine} {d : Nat} {rest : List Task}
    {r : EStateM.Result Halt Machine (List Task)} (h : Act.Spared f H m r) :
    f (settle d rest r).machine.control = f m.control := by
  cases r with
  | ok ts m' => exact h
  | error e m' => exact h.1

end LineBasic
