import LineBasic.Proofs.Machine.Conduct
import LineBasic.Session

/-!
# Single lines come to an end

A program may go on forever. A single line does not, unless it starts a run: its
statements are done one after the other, and a loop in it goes through its
values whatever the body does to the counter. So it makes no difference to the
line what a run is, or how many lines are granted to one.

* `Machine.step_leads`: what the current line of the program does.
* `Config.Finishes`: the steps of a machine at work come to an end.
* `Config.lines_finish`: a line without `RUN` and `CONT` comes to an end.
-/

namespace LineBasic

open Machine (Shifts)

/-! ### Texts -/

namespace Tape

variable {t : Tape} {vs : List Verb}

/-- None of the verbs is on the tape. -/
def Avoids (vs : List Verb) (t : Tape) : Prop := ∀ v ∈ vs, .verb v ∉ t.tokens

instance : Decidable (t.Avoids vs) := inferInstanceAs (Decidable (∀ v ∈ vs, _))

theorem Avoids.mono {us : List Verb} (h : t.Avoids vs) (hsub : us ⊆ vs) : t.Avoids us := fun v hv => h v (hsub hv)

theorem Avoids.not_mem (h : t.Avoids vs) (v : Verb) (hv : .verb v ∈ t.tokens) : v ∉ vs :=
  fun hmem => h v hmem hv

end Tape

/-! ### Acts -/

namespace Act

variable {allowed : Verb → Prop} {fault : Machine → Error → Prop} {α : Type} {m m' : Machine}

/-- An act, and what is done when it halts. -/
theorem leads_tryCatch {plain : Prop} {x : Act α} (hx : Leads allowed fault plain m (x m')) {g : Halt → Act α}
    (hg : ∀ e m'', x m' = .error e m'' → Leads allowed fault plain m (g e m'')) :
    Leads allowed fault plain m (tryCatch x g m') := by
  show Leads allowed fault plain m (EStateM.tryCatch x g m')
  unfold EStateM.tryCatch
  cases h : x m' with
  | ok a m'' =>
    rw [h] at hx
    exact hx
  | error e m'' => exact hg e m'' h

theorem Leads.ne_exhausted {plain : Prop} {r : EStateM.Result Halt Machine α} (h : Leads allowed fault plain m r)
    (m' : Machine) : r ≠ .error .exhausted m' := by
  rintro rfl
  exact h.2.1.granted rfl

theorem Leads.ne_aborted {plain : Prop} {r : EStateM.Result Halt Machine α} (h : Leads allowed fault plain m r)
    (hdim : ¬ allowed .dim) (m' : Machine) : r ≠ .error .aborted m' := by
  rintro rfl
  exact hdim (h.2.1.dim rfl)

end Act

/-! ### The current line of a program -/

namespace Machine

variable {allowed : Verb → Prop} {m m' : Machine} {n : Int64} {text : String}

/-- The verbs of the current line are allowed. -/
def LineFits (allowed : Verb → Prop) (m : Machine) : Prop :=
  ∀ n text, m.control.lineAt? m.control.address = some n → m.listing.find? n = some text →
    ∀ v, .verb v ∈ (Tape.ofStatements text).tokens → allowed v

/-- The verb is in the current line. -/
def HasVerb (m : Machine) (v : Verb) : Prop :=
  ∃ n text, m.control.lineAt? m.control.address = some n ∧ m.listing.find? n = some text ∧
    .verb v ∈ (Tape.ofStatements text).tokens

/-- None of the verbs is in the current line, if there is one. -/
def LineAvoids (vs : List Verb) (m : Machine) : Prop :=
  ∀ n text, m.control.lineAt? m.control.address = some n → m.listing.find? n = some text →
    (Tape.ofStatements text).Avoids vs

theorem LineAvoids.not_hasVerb {vs : List Verb} (h : m.LineAvoids vs) (v : Verb) (hv : v ∈ vs) : ¬ m.HasVerb v := by
  rintro ⟨n, text, hat, hfind, hmem⟩
  exact h n text hat hfind v hv hmem

theorem modify_fetched (m : Machine) :
    (modify fun m' => { m' with control := m.fetched.control } : Act Unit) m = .ok () m.fetched := rfl

section Cases

variable (run : Act Unit)

theorem step_of_none (h : m.control.lineAt? m.control.address = none) : step run m = .ok false m := by
  rw [step, Act.get_bind, fetch_eq_none h]
  rfl

theorem step_of_vanished (h : m.control.lineAt? m.control.address = some n) (hfind : m.listing.find? n = none) :
    step run m = .error (.failed (.lineVanished n)) m.fetched := by
  have hfind' : m.fetched.listing.find? n = none := hfind
  rw [step, Act.get_bind, fetch_eq_some h]
  dsimp only
  rw [Act.bind_ok (modify_fetched m), Act.get_bind, hfind']
  rfl

theorem step_of_text (h : m.control.lineAt? m.control.address = some n) (hfind : m.listing.find? n = some text) :
    step run m = asLine n (executeLine run n text) m.fetched := by
  have hfind' : m.fetched.listing.find? n = some text := hfind
  rw [step, Act.get_bind, fetch_eq_some h]
  dsimp only
  rw [Act.bind_ok (modify_fetched m), Act.get_bind, hfind']

end Cases

/-- The statements of a line, and what is done behind them. -/
theorem asLine_leads {x : Act Unit} (n : Int64) (h : Act.Leads allowed anyFault m.console.Plain m (x m')) :
    Act.Leads allowed anyFault m.console.Plain m (asLine n x m') := by
  refine Act.leads_bind (Act.leads_tryCatch h ?_) ?_
  · intro e m'' he
    rw [he] at h
    obtain ⟨hs, hd, hex, -⟩ := h
    cases e with
    | finished => exact ⟨hs.tail (.control .advance), hd, fun _ e he => Halt.noConfusion he, Halt.blames_any _ _⟩
    | _ => exact ⟨hs, hd.inLine n, fun hp => (hex hp).inLine n, Halt.blames_any _ _⟩
  · intro _ m'' _ hs
    exact hs.tail (.control .advance)

section

variable (hline : m.LineFits allowed) (hr : ¬ allowed .run) (hc : ¬ allowed .resume)

include hline hr hc

/-- **The current line comes to an end, and only shifts the machine.** -/
theorem step_leads (run : Act Unit) : Act.Leads allowed anyFault m.console.Plain m (step run m) := by
  have hfetched : Shifts allowed m m.fetched := .single (.control (.follow _))
  cases hat : m.control.lineAt? m.control.address with
  | none =>
    rw [step_of_none run hat]
    exact .refl
  | some n =>
    cases hfind : m.listing.find? n with
    | none =>
      rw [step_of_vanished run hat hfind]
      refine ⟨hfetched, .failed _, ?_, Halt.blames_any _ _⟩
      intro _ e he
      exact .inr ⟨n, Array.mem_of_getElem? hat, hfind, (Halt.failed.inj he).symm⟩
    | some text =>
      rw [step_of_text run hat hfind]
      have hfits := Script.read_fits ((Tape.scannable_ofStatements text).fits (hline n text hat hfind))
      exact asLine_leads n ((Script.exec_does hfits hr hc run (some n) m.fetched).after hfetched)

/-- What a run is makes no difference to the current line. -/
theorem step_congr (run run' : Act Unit) : step run m = step run' m := by
  cases hat : m.control.lineAt? m.control.address with
  | none => rw [step_of_none run hat, step_of_none run' hat]
  | some n =>
    cases hfind : m.listing.find? n with
    | none => rw [step_of_vanished run hat hfind, step_of_vanished run' hat hfind]
    | some text =>
      have hfits := Script.read_fits ((Tape.scannable_ofStatements text).fits (hline n text hat hfind))
      have hcongr : executeLine run n text = executeLine run' n text :=
        Script.exec_congr hfits hr hc run run' (some n)
      rw [step_of_text run hat hfind, step_of_text run' hat hfind, hcongr]

end

/-- What a run is makes no difference to a text without `RUN` and `CONT`. -/
theorem execute_congr (h : (Tape.ofLine text).Avoids [.run, .resume]) (run run' : Act Unit) :
    execute run text = execute run' text := by
  obtain ⟨line, s, -, hfits, hexec⟩ := Task.exists_ofText ((Tape.scannable_ofLine text).fits h.not_mem)
  rw [hexec, hexec, Script.exec_congr hfits (by decide) (by decide) run run' line]

end Machine

/-! ### Memory that cannot be had -/

namespace Task

variable {t : Task} {m m' : Machine}

/-- A `DIM` for a variable that finds room, but with more slots than any block
of memory holds. -/
def Overflows (m : Machine) : Task → Prop
  | script _ (.step (.dim _ size) _) =>
    ∃ n m', Act.integer size m = .ok n m' ∧ m.memory.count ≤ Memory.capacity ∧ Variable.largest < n.toInt.toNat
  | _ => False

theorem stepScript_dim_aborted_iff {line : Option Int64} {name : String} {size : Expr} {rest : Script} :
    (∃ m', stepScript line (.step (.dim name size) rest) m = .error .aborted m') ↔
      (script line (.step (.dim name size) rest)).Overflows m := by
  rw [stepScript_step line rest Action.noConfusion Action.noConfusion]
  unfold Overflows
  obtain ⟨chance, ⟨n, hn⟩ | ⟨e, he⟩⟩ := Act.integer_looks size m
  · -- the size is known, so it is the memory that decides
    have hperform : (Action.dim name size).perform (pure ()) line m =
        Act.remember (·.dim name n none) { m with chance } := Act.bind_ok hn _
    have haborted : m.memory.dim name n none = .error .aborted ↔
        m.memory.count ≤ Memory.capacity ∧ Variable.largest < n.toInt.toNat := by
      rw [Memory.dim_eq_aborted_iff, Memory.refusal?_eq_none_iff]
      constructor
      · rintro ⟨⟨-, -, hroom⟩, hlarge⟩
        exact ⟨hroom, hlarge⟩
      · rintro ⟨hroom, hlarge⟩
        exact ⟨⟨rfl, by omega, hroom⟩, hlarge⟩
    constructor
    · rintro ⟨m', h⟩
      refine ⟨n, _, hn, haborted.1 ?_⟩
      cases hdim : m.memory.dim name n none with
      | ok memory =>
        have hok : Act.remember (·.dim name n none) { m with chance } = .ok () { m with chance, memory } := by
          simp only [Act.remember, hdim]
        rw [Act.bind_ok (hperform.trans hok)] at h
        cases h
      | error e =>
        have herror : Act.remember (·.dim name n none) { m with chance } = .error e { m with chance } := by
          simp only [Act.remember, hdim]
        rw [Act.bind_error (hperform.trans herror)] at h
        rw [(EStateM.Result.error.inj h).1]
    · rintro ⟨n', m', hn', hlarge⟩
      obtain ⟨rfl, -⟩ := EStateM.Result.ok.inj (hn.symm.trans hn')
      have herror : Act.remember (·.dim name n none) { m with chance } = .error .aborted { m with chance } := by
        simp only [Act.remember, haborted.2 hlarge]
      exact ⟨_, Act.bind_error (hperform.trans herror) _⟩
  · -- the size cannot be evaluated
    have hperform : (Action.dim name size).perform (pure ()) line m = .error (.failed e) { m with chance } :=
      Act.bind_error he _
    constructor
    · rintro ⟨m', h⟩
      rw [Act.bind_error hperform] at h
      cases h
    · rintro ⟨n, m', hn, -⟩
      cases he.symm.trans hn

/-- **The process ends only for a `DIM`** that asks for too much. -/
theorem step_aborted_iff (ht : t.Fits) : (∃ m', t.step m = .error .aborted m') ↔ t.Overflows m := by
  constructor
  · rintro ⟨m', h⟩
    have hverb : t.verb? = some .dim := by
      by_cases hent : ∃ text, t = .call (.enter text)
      · obtain ⟨text, rfl⟩ := hent
        obtain hl | ⟨line, l, -, -, hok⟩ :
            Act.Leads (fun _ => False) anyFault m.console.Plain m ((call (.enter text)).step m) ∨ _ :=
          enter_cases text m
        · exact absurd h (hl.ne_aborted id m')
        · cases h.symm.trans hok
      · have hl := step_does ht (fun text h => hent ⟨text, h⟩) m
        rw [h] at hl
        exact hl.2.1.dim rfl
    cases t with
    | script line s =>
      cases s with
      | step action s =>
        cases action with
        | dim name size => exact stepScript_dim_aborted_iff.1 ⟨m', h⟩
        | _ => cases hverb
      | _ => cases hverb
    | _ => cases hverb
  · intro h
    cases t with
    | script line s =>
      cases s with
      | step action s =>
        cases action with
        | dim name size => exact stepScript_dim_aborted_iff.2 h
        | _ => exact h.elim
      | _ => exact h.elim
    | _ => exact h.elim

/-- A task that is dropped does not end the process. -/
theorem eq_aborted_of_unwind {e : Halt} (he : e ≠ .exhausted) (h : t.unwind e m = .error .aborted m') :
    e = .aborted := by
  by_contra hne
  have hl : Act.Leads (fun _ => False) anyFault (m.console.Plain ∧ e.Excused m) m (t.unwind e m) :=
    unwind_leads ⟨he, hne⟩ t
  exact hl.ne_aborted id m' h

end Task

/-! ### Machines at work -/

namespace Config

variable {α : Type} {c c' : Config}

/-- The statement that is to be executed asks for too much memory. -/
def Overflows (c : Config) : Prop := c.halt = none ∧ ∃ t ∈ c.agenda.head?, t.Overflows c.machine

/-- **The process ends at a statement that asks for too much**, and at no
other. -/
theorem halts_aborted_iff (hc : c.Fit) : c.Halts .aborted ↔ c.Overflows := by
  obtain ⟨m, d, agenda, halt⟩ := c
  constructor
  · rintro ⟨hne, c', h, hc'⟩
    cases agenda with
    | nil => cases h
    | cons t rest =>
      cases halt with
      | none =>
        have work (hnext : next ⟨m, d, t :: rest, none⟩ = some (settle d rest (t.step m))) :
            Overflows ⟨m, d, t :: rest, none⟩ := by
          obtain rfl := Option.some.inj (hnext.symm.trans h)
          have hstep := halt_settle hc'
          exact ⟨rfl, t, rfl, (Task.step_aborted_iff (hc.tasks t List.mem_cons_self)).1 hstep⟩
        cases t with
        | startRun =>
          by_cases hlt : d < Machine.runDepth
          · obtain rfl := Option.some.inj ((if_pos hlt).symm.trans h)
            cases hc'
          · obtain rfl := Option.some.inj ((if_neg hlt).symm.trans h)
            cases hc'
        | endRun =>
          obtain rfl := Option.some.inj h
          cases hc'
        | _ => exact work rfl
      | some e =>
        have he : e ≠ .exhausted := fun he => hc.halt (congrArg some he)
        have work (hnext : next ⟨m, d, t :: rest, some e⟩ = some (settle d rest (t.unwind e m))) :
            Overflows ⟨m, d, t :: rest, some e⟩ := by
          obtain rfl := Option.some.inj (hnext.symm.trans h)
          obtain ⟨m', hunwind⟩ := halt_settle hc'
          exact absurd (congrArg some (Task.eq_aborted_of_unwind he hunwind)) hne
        cases t with
        | endRun =>
          obtain rfl := Option.some.inj h
          exact absurd hc' hne
        | _ => exact work rfl
  · rintro ⟨hnone, t, ht, hover⟩
    obtain rfl : halt = none := hnone
    cases agenda with
    | nil => cases ht
    | cons u rest =>
      obtain rfl : u = t := Option.some.inj ht
      obtain ⟨m', hstep⟩ := (Task.step_aborted_iff (hc.tasks u List.mem_cons_self)).2 hover
      have hnext : next ⟨m, d, u :: rest, none⟩ = some (settle d rest (u.step m)) := by
        cases u with
        | startRun => exact hover.elim
        | endRun => exact hover.elim
        | _ => rfl
      rw [hstep] at hnext
      exact ⟨(Option.some_ne_none _).symm, _, hnext, rfl⟩

/-- Where the steps end: the runs are over, and nothing is left to do. -/
def ended : EStateM.Result Halt Machine α → Config
  | .ok _ m => ⟨m, 0, [], none⟩
  | .error h m => ⟨m, 0, [], some h⟩

theorem next_ended (r : EStateM.Result Halt Machine α) : (ended r).next = none := by
  cases r with
  | ok a m => rfl
  | error e m => rfl

/-- The steps come to an end, which is the one that the result tells of. No
lines were lacking for it. -/
structure Finishes (c : Config) (r : EStateM.Result Halt Machine α) : Prop where
  granted : ∀ m, r ≠ .error .exhausted m
  reaches : c.Reaches (ended r)
  /-- There are no steps without end. -/
  acc : Acc (fun c₂ c₁ => c₁.next = some c₂) c
  /-- It is not the end of the process, unless too much memory was asked for. -/
  aborted_iff : (∃ m, r = .error .aborted m) ↔ ∃ c', c.Reaches c' ∧ c'.Overflows

/-- There is one way on only, so steps that have come to an end were all there
are. -/
theorem acc_of_reaches (h : c.Reaches c') (hend : c'.next = none) : Acc (fun c₂ c₁ => c₁.next = some c₂) c := by
  induction h using Relation.ReflTransGen.head_induction_on with
  | refl =>
    refine ⟨_, fun c₂ hc => ?_⟩
    rw [hend] at hc
    cases hc
  | head hstep _ ih =>
    refine ⟨_, fun c₂ hc => ?_⟩
    rw [← Option.some.inj (hstep.symm.trans hc)]
    exact ih

theorem aborted_iff_of_reaches {r : EStateM.Result Halt Machine α} (hfit : c.Fit) (hnone : c.halt = none)
    (h : c.Reaches (ended r)) : (∃ m, r = .error .aborted m) ↔ ∃ c', c.Reaches c' ∧ c'.Overflows := by
  constructor
  · rintro ⟨m, rfl⟩
    have hne : c.halt ≠ some .aborted := by
      rw [hnone]
      exact (Option.some_ne_none _).symm
    obtain ⟨c', hreach, hhalts⟩ := exists_halts_of_reaches h hne rfl
    exact ⟨c', hreach, (halts_aborted_iff (hfit.of_reaches hreach)).1 hhalts⟩
  · rintro ⟨c', hreach, hover⟩
    have hhalts := (halts_aborted_iff (hfit.of_reaches hreach)).2 hover
    have hlast := hhalts.halt_of_reaches (.inr rfl) hreach h (next_ended r)
    cases r with
    | ok a m => cases hlast
    | error e m =>
      obtain rfl := Option.some.inj hlast
      exact ⟨m, rfl⟩

theorem Ends.finishes {r : EStateM.Result Halt Machine α} {m : Machine} {call : Call}
    (h : Ends ⟨m, 0, [.call call], none⟩ [] r) (hx : ∀ m, r ≠ .error .exhausted m) :
    Finishes ⟨m, 0, [.call call], none⟩ r := by
  have hreach : Reaches ⟨m, 0, [.call call], none⟩ (ended r) := by
    cases r with
    | ok a m => exact h
    | error e m =>
      rcases h with h | ⟨rfl, -⟩
      · exact h
      · exact absurd rfl (hx m)
  exact ⟨hx, hreach, acc_of_reaches hreach (next_ended r), aborted_iff_of_reaches (fit_call m call) rfl hreach⟩

/-- **A line comes to an end, in whatever state the machine is.** A text in
which there is no `RUN` and no `CONT` has one result, whatever a run is, and so
has the current line of the program. It takes finitely many steps. The result is
a good end, the end of the program or of the session, or an error, unless the
line comes to a `DIM` that asks for more memory than can be had. Then the
process ends. -/
theorem lines_finish (m : Machine) :
    (∀ text, (Tape.ofLine text).Avoids [.run, .resume] →
      ∃ r, (∀ run, Machine.execute run text m = r) ∧ Finishes ⟨m, 0, [.call (.execute text)], none⟩ r ∧
        ((Tape.ofLine text).Avoids [.dim] → ∀ m', r ≠ .error .aborted m')) ∧
    (m.LineAvoids [.run, .resume] →
      ∃ r, (∀ run, Machine.step run m = r) ∧ Finishes ⟨m, 0, [.call .step], none⟩ r ∧
        (m.LineAvoids [.dim] → ∀ m', r ≠ .error .aborted m')) := by
  -- the result is the same for every run, so it is that of a run with no lines
  -- granted
  have hrun : Task.Reflects 0 [.startRun] (Machine.run 0) := Task.reflects_run 0 rfl
  constructor
  · intro text havoids
    have hr : .verb .run ∉ (Tape.ofLine text).tokens := havoids .run (by decide)
    have hc : .verb .resume ∉ (Tape.ofLine text).tokens := havoids .resume (by decide)
    obtain ⟨line, s, -, hfits, hexec⟩ :=
      Task.exists_ofText ((Tape.scannable_ofLine text).fits fun v (hv : .verb v ∈ (Tape.ofLine text).tokens) => hv)
    have hleads := Script.exec_does hfits hr hc (Machine.run 0) line m
    rw [← hexec] at hleads
    refine ⟨_, fun run => congrFun (Machine.execute_congr havoids run (Machine.run 0)) m, ?_, ?_⟩
    · exact (Task.reflects_execute hrun text m []).finishes hleads.ne_exhausted
    · exact fun hdim => hleads.ne_aborted (hdim .dim (by decide))
  · intro havoids
    have hline : m.LineFits m.HasVerb := fun n text hat hfind v hv => ⟨n, text, hat, hfind, hv⟩
    have hr : ¬ m.HasVerb .run := havoids.not_hasVerb .run (by decide)
    have hc : ¬ m.HasVerb .resume := havoids.not_hasVerb .resume (by decide)
    have hends : Ends ⟨m, 0, [.call .step], none⟩ [] (Machine.step (Machine.run 0) m) :=
      Task.Unfolds.reflects (t := .call .step) (Task.unfolds_takeLine hrun) trivial m []
    have hleads := Machine.step_leads hline hr hc (Machine.run 0)
    refine ⟨_, fun run => Machine.step_congr hline hr hc run (Machine.run 0), hends.finishes hleads.ne_exhausted, ?_⟩
    exact fun hdim => hleads.ne_aborted (hdim.not_hasVerb .dim (by decide))

-- One loop ends at the last number and the other one counts down to the first,
-- and their counters are assigned to in the body. There is such a loop in the
-- program as well. There is no `DIM`.
theorem lines_finish_nested :
    ∃ (m : Machine) (text : String), (Tape.ofLine text).Avoids [.run, .resume, .dim] ∧
      (Session.afterwards (Machine.execute (Machine.run 0) text) m).console.output =
        "9223372036854775806\n1\n0\n-9223372036854775806\n9223372036854775807\n1\n0\n-9223372036854775806\n" ∧
      m.control.lineAt? m.control.address = some 10 ∧
      m.listing.find? 10 = some "FOR I = 1 TO 3 : I = 9 : NEXT" ∧
      (∃ r, (∀ run, Machine.execute run text m = r) ∧ Finishes ⟨m, 0, [.call (.execute text)], none⟩ r ∧
        ∀ m', r ≠ .error .aborted m') ∧
      ∃ r, (∀ run, Machine.step run m = r) ∧ Finishes ⟨m, 0, [.call .step], none⟩ r ∧
        ∀ m', r ≠ .error .aborted m' := by
  have hm : ∃ (m : Machine) (text : String), (Tape.ofLine text).Avoids [.run, .resume, .dim] ∧
      (Session.afterwards (Machine.execute (Machine.run 0) text) m).console.output =
        "9223372036854775806\n1\n0\n-9223372036854775806\n9223372036854775807\n1\n0\n-9223372036854775806\n" ∧
      m.control.lineAt? m.control.address = some 10 ∧
      m.listing.find? 10 = some "FOR I = 1 TO 3 : I = 9 : NEXT" :=
    ⟨Session.afterwards (do
      Machine.enter (Machine.run 0) "10 for i = 1 to 3: i = 9: next"
      Machine.reset) {},
      "for i = 9223372036854775806 to 9223372036854775807: " ++
        "for j = 1 to -9223372036854775806 step -9223372036854775807: " ++
        "print i: print j: i = 0: j = 9: next j: next i",
      by decide +kernel⟩
  obtain ⟨m, text, havoids, houtput, hat, hfind⟩ := hm
  have hline : m.LineAvoids [.run, .resume, .dim] := by
    intro n text hn htext
    obtain rfl := Option.some.inj (hat.symm.trans hn)
    obtain rfl := Option.some.inj (hfind.symm.trans htext)
    decide +kernel
  obtain ⟨htext, hstep⟩ := lines_finish m
  obtain ⟨r, hr, hfinishes, hdim⟩ := htext text (havoids.mono (by decide))
  obtain ⟨r', hr', hfinishes', hdim'⟩ := hstep fun n text hn htext => (hline n text hn htext).mono (by decide)
  refine ⟨m, text, havoids, houtput, hat, hfind, ⟨r, hr, hfinishes, hdim (havoids.mono (by decide))⟩, ?_⟩
  exact ⟨r', hr', hfinishes', hdim' fun n text hn htext => (hline n text hn htext).mono (by decide)⟩

/-- Not every line without `RUN` and `CONT` comes to a good end, to the end of
the program or of the session, or to an error: more slots may be asked for than
fit. -/
theorem largest_array_aborts :
    (Tape.ofLine "DIM A(9223372036854775807)").Avoids [.run, .resume] ∧
      ∃ m', ∀ run, Machine.execute run "DIM A(9223372036854775807)" {} = .error .aborted m' := by
  have havoids : (Tape.ofLine "DIM A(9223372036854775807)").Avoids [.run, .resume] := by decide +kernel
  have hhalt : (Machine.execute (Machine.run 0) "DIM A(9223372036854775807)").halt? {} = some .aborted := by
    decide +kernel
  obtain ⟨m', hm'⟩ := Act.exists_error_of_halt? hhalt
  refine ⟨havoids, m', fun run => ?_⟩
  rw [Machine.execute_congr havoids run (Machine.run 0)]
  exact hm'

end Config

end LineBasic
