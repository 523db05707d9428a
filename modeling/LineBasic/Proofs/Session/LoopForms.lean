import LineBasic.Proofs.Alike.Execute
import LineBasic.Proofs.Machine.Skipping
import LineBasic.Proofs.Session.Batch
import LineBasic.Proofs.Session.Dialogue

/-!
# Two ways to write a loop

A loop can be written in one line, `FOR v=a TO b STEP s: B: NEXT v`, or over
three. In one line the loop keeps the count itself, and no frame is pushed. Over
three lines the frame has the limit and the step, and the count is in the
variable. A body that does the same wherever it stands makes no difference
between the two.

Only if there is no value for the variable at all the two differ: over three
lines the first value is written all the same, before the program goes on behind
the `NEXT`.

* `Listing.Holds`: the tokens of all lines of a program.
* `Machine.Turns`, `Machine.Rounds`: what a body does wherever it stands, and
  the rounds of a loop.
* `Machine.interpret_oneLine`, `Machine.Rounds.runLines_eq`: both ways to write
  a loop make its rounds.
* `Machine.loop_forms_agree`: a program with a loop does the same in both forms.
-/

namespace LineBasic

/-! ### The lines of a program -/

/-- The lines of the program consist of these tokens. -/
def Listing.Holds (l : Listing) (tss : List (List Token)) : Prop :=
  l.lines.map (fun x => (Tape.ofStatements x.2).tokens?) = tss.map some

/-- The tokens begin neither with a number nor with a label. -/
structure Unlabelled (ts : List Token) : Prop where
  number : ∀ k, ts.head? ≠ some (.number k)
  label : ∀ s rest, ts ≠ .name s :: .colon :: rest

theorem unlabelled_verb (v : Verb) (ts : List Token) : Unlabelled (.verb v :: ts) := by
  constructor
  · intro k h
    cases h
  · intro s rest h
    cases h

section Holds

variable {l : Listing} {tss : List (List Token)}

theorem Listing.Holds.length_numbers (h : l.Holds tss) : l.numbers.length = tss.length := by
  have hlength := congrArg List.length h
  rwa [List.length_map, List.length_map, ← List.length_map (·.1)] at hlength

theorem Listing.Holds.exists_line (h : l.Holds tss) {ts : List Token} (hts : ts ∈ tss) :
    ∃ x ∈ l.lines, (Tape.ofStatements x.2).tokens? = some ts := by
  have hmem : some ts ∈ tss.map some := List.mem_map_of_mem hts
  rw [← h] at hmem
  exact List.mem_map.1 hmem

end Holds

namespace Machine

variable {m m' : Machine} {tss : List (List Token)}

/-- No line is empty. -/
theorem Orderly.ne_nil_of_mem (hm : m.Orderly) (hl : m.listing.Holds tss) {ts : List Token} (hts : ts ∈ tss) :
    ts ≠ [] := by
  rintro rfl
  obtain ⟨x, hx, ht⟩ := hl.exists_line hts
  obtain ⟨-, hblank, us, hus, hspell⟩ := hm.lines x hx
  obtain rfl : [] = us := Option.some.inj (ht.symm.trans hus)
  exact hblank hspell.symm

/-- None of the lines is labelled if none begins with a label. -/
theorem Orderly.labelled_eq_nil (hm : m.Orderly) (hl : m.listing.Holds tss)
    (htss : ∀ ts ∈ tss, Unlabelled ts) : m.listing.labelled = [] := by
  refine List.filterMap_eq_nil_iff.2 fun x hx => ?_
  have hmem : (Tape.ofStatements x.2).tokens? ∈ tss.map some := hl ▸ List.mem_map_of_mem hx
  obtain ⟨ts, hts, ht⟩ := List.mem_map.1 hmem
  obtain ⟨line, hline, htokens⟩ := hm.exists_parse (n := x.1) hx ht.symm (htss ts hts).number
  have hlabel : line.label = none := by
    unfold Line.label
    rw [htokens]
    split
    case h_1 s rest => exact absurd rfl ((htss _ hts).label s rest)
    case h_2 => rfl
  simp only [Listing.labelOf, hline, hlabel, Option.map_none]

/-- A reset of a program without labels leaves the memory empty. -/
theorem reset_of_unlabelled (h : m.listing.labelled = []) :
    reset m = .ok () { m with memory := .empty, control := m.control.reset m.listing.numbers } := by
  have hlabels : m.listing.labels.toList = [] := by
    rw [Listing.labels, h]
    rfl
  rw [reset_eq, hlabels]
  rfl

/-- When a program is reset, its lines are at the addresses in turn. -/
theorem Orderly.reads_reset (hm : m.Orderly) (hl : m.listing.Holds tss) {k : Nat} {ts : List Token}
    (hk : tss[k]? = some ts) {d : Machine} (hlisting : d.listing = m.listing)
    (htable : d.control.table = m.listing.numbers.toArray) : d.Reads k ts := by
  have hat : (m.listing.lines.map fun x => (Tape.ofStatements x.2).tokens?)[k]? = some (some ts) := by
    rw [hl, List.getElem?_map, hk, Option.map_some]
  rw [List.getElem?_map, Option.map_eq_some_iff] at hat
  obtain ⟨⟨n, text⟩, hline, ht⟩ := hat
  refine ⟨n, text, ?_, ?_, ht⟩
  · rw [Control.lineAt?, htable, List.getElem?_toArray, Listing.numbers, List.getElem?_map, hline, Option.map_some]
  · rw [hlisting]
    exact hm.listing.find?_of_mem (List.mem_of_getElem? hline)

/-! ### Bodies that are the same everywhere -/

/-- The machine with another program, at a place in it. -/
def placed (d : Machine) (listing : Listing) (control : Control) : Machine := { d with listing, control }

/-- The machine with a value in a variable. -/
def holding (d : Machine) (v : String) (x : Int64) : Machine :=
  { d with memory := (d.memory.write .numeric v 0 (.integer x)).2 }

variable {body : List Token} {v : String} {d d' : Machine} {listing : Listing} {c : Control}

/-- The tokens do the same wherever they stand: in any program, at any place in
it where nothing is traced, as any line. They come to a good end, and leave the
program and the place as they are. Of the two machines only the memory, the
console and the source of random numbers matter. -/
def Turns (body : List Token) (d d' : Machine) : Prop :=
  ∀ t : Tape, t.tokens? = some body → ∀ run line listing control, control.trace = false →
    t.interpret run line (d.placed listing control) = .ok () (d'.placed listing control)

/-- One tape with the tokens is as good as another. -/
theorem turns_of_tape {t : Tape} (ht : t.tokens? = some body)
    (h : ∀ run line listing control, control.trace = false →
      t.interpret run line (d.placed listing control) = .ok () (d'.placed listing control)) : Turns body d d' := by
  intro u hu run line listing control htrace
  obtain ⟨xs, p, rfl, hxs⟩ := Tape.exists_ofList ht
  obtain ⟨ys, q, rfl, hys⟩ := Tape.exists_ofList hu
  have hread := Script.read_alike (Tape.alike_ofList (hxs.trans hys.symm) p q)
  have halike : Act.OutcomeAlike (Tape.interpret run line (.ofList p xs) (d.placed listing control))
      (Tape.interpret run line (.ofList q ys) (d.placed listing control)) :=
    Script.exec_alike run line hread _
  rw [h run line listing control htrace] at halike
  generalize Tape.interpret run line (.ofList q ys) (d.placed listing control) = r at halike
  cases halike with
  | ok => rfl

/-- The body on a line of its own. -/
theorem Turns.step_eq (h : Turns body d d') (run : Act Unit)
    (hline : (d.placed listing c).Reads c.address body) (htrace : c.trace = false) :
    step run (d.placed listing c) = .ok true (d'.placed listing (c.reached (c.address + 1))) :=
  step_of_interpret (m := d.placed listing c) hline fun t ht n =>
    h t ht run (some n) listing { c with following := c.address + 1 } htrace

/-- No break key is pressed in between, if none is to be. -/
theorem Turns.later (h : Turns body d d') {text : String} (ht : (Tape.ofStatements text).tokens? = some body) :
    d.console.Later d'.console := by
  -- the body as the only line of a program
  have hline : (d.placed ⟨[(1, text)]⟩ { table := #[1] }).Reads 0 body := ⟨1, text, rfl, rfl, ht⟩
  have hcall : Call.step.act (run 0) (d.placed ⟨[(1, text)]⟩ { table := #[1] }) = _ :=
    Act.bind_ok (h.step_eq (run 0) hline rfl) _
  have hlater := later_afterwards (d.placed ⟨[(1, text)]⟩ { table := #[1] }) .step 0
  rw [Session.afterwards, hcall] at hlater
  exact hlater

/-- Rounds of a loop, however it is written. In each the value is written to the
variable and the body is done, which leaves the value there. -/
inductive Rounds (v : String) (body : List Token) : List Int64 → Machine → Machine → Prop
  | none (d : Machine) : Rounds v body [] d d
  | round {d d' d'' : Machine} {x : Int64} {xs : List Int64} :
      Turns body (d.holding v x) d' → d'.memory.readNumber v 0 = .ok (.integer x) → Rounds v body xs d' d'' →
      Rounds v body (x :: xs) d d''

theorem Rounds.later {xs : List Int64} (h : Rounds v body xs d d') {text : String}
    (ht : (Tape.ofStatements text).tokens? = some body) : d.console.Later d'.console := by
  induction h with
  | none d => exact .refl _
  | round hturns _ _ ih => exact (hturns.later ht).trans ih

/-- The variable keeps the last value. -/
theorem Rounds.readNumber_eq {xs : List Int64} {x : Int64} (h : Rounds v body (xs ++ [x]) d d') :
    d'.memory.readNumber v 0 = .ok (.integer x) := by
  induction xs generalizing d with
  | nil =>
    cases h with
    | round _ hread hrest =>
      cases hrest
      exact hread
  | cons y ys ih =>
    cases h with
    | round _ _ hrest => exact ih hrest

/-- The variable can be written. -/
def Takes (d : Machine) (v : String) : Prop :=
  ∀ x : Int64, d.memory.write .numeric v 0 (.integer x) = (.ok (), (d.holding v x).memory)

theorem takes_of_readNumber {x : Value} (h : d.memory.readNumber v 0 = .ok x) : d.Takes v := by
  intro y
  obtain ⟨memory, hw⟩ := Memory.exists_write_of_readNumber h (x := .integer y) rfl
  rw [holding, hw]

theorem takes_of_empty (hv : VariableKind.ofName v = .numeric) (h : d.memory = .empty) : d.Takes v := by
  intro x
  have hfind : Memory.empty.find? v = none := by simp [Memory.find?, Memory.empty]
  have hroom : Memory.empty.count ≤ Memory.capacity := by simp [Memory.count, Memory.empty]
  obtain ⟨memory, hw⟩ := Memory.exists_write_of_missing hfind hroom hv (x := .integer x) rfl
  rw [holding, h, hw]

/-! ### The loop in one line -/

/-- The rounds of a loop in one line. -/
theorem Rounds.forM_eq {ks : List Nat} {value : Nat → Int64} (h : Rounds v body (ks.map value) d d')
    (hv : d.Takes v) {t : Tape} (ht : t.tokens? = some body) (run : Act Unit) (line : Option Int64)
    (listing : Listing) (htrace : c.trace = false) :
    (forM ks fun k => do
      Act.writeNumber v 0 (.integer (value k))
      t.interpret run line : Act Unit) (d.placed listing c) = .ok () (d'.placed listing c) := by
  induction ks generalizing d with
  | nil =>
    cases h
    rfl
  | cons k ks ih =>
    cases h with
    | round hturns hread hrest =>
      have hwrite := Act.writeNumber_ok (m := d.placed listing c) (hv (value k))
      have hbody := hturns t ht run line listing c htrace
      rw [List.forM_cons, Act.bind_ok ((Act.bind_ok hwrite _).trans hbody)]
      exact ih hrest (takes_of_readNumber hread)

/-- **A loop in one line makes its rounds.** -/
theorem interpret_oneLine {head : LoopHead} {range : List Token} {name : Option String} {a b : Int64} {s : Stride}
    {m₁ : Machine} {t : Tape}
    (ht : t.tokens? = some (.verb .loop :: (range ++ .colon :: (body ++ .colon :: Token.closing name))))
    (hhead : head.Spelled range) (hkind : VariableKind.ofName head.place.name = .numeric) (hne : body ≠ [])
    (hbody : Balanced 0 body) (hname : name.all (· == head.place.name))
    (hrange : Act.range head m = .ok (0, a, b, s) m₁) (hv : m₁.Takes head.place.name)
    (hrounds : Rounds head.place.name body
      ((List.range (Loop.rounds a.toInt b.toInt s.val.toInt)).map (Loop.valueAt a s)) m₁ d)
    (run : Act Unit) (line : Option Int64) (listing : Listing) (htrace : c.trace = false) :
    t.interpret run line (m.placed listing c) = .ok () (d.placed listing c) := by
  obtain ⟨u, hu, hread⟩ := Script.read_oneLine ht hhead hkind hne hbody hname
  have hrange := (Act.range_evaluates head).elsewhere hrange listing c
  rw [Tape.interpret, hread]
  refine (Act.bind_ok hrange _).trans ?_
  dsimp only
  rw [Act.passes_eq_forM]
  exact Act.bind_ok (hrounds.forM_eq hv hu run line listing htrace) _

/-! ### The loop over three lines -/

/-- The line of the body, and then the one behind it. -/
theorem Turns.runLines_eq (h : Turns body d d') {nested : Act Unit} {address : Nat} {ts : List Token}
    (htrace : c.trace = false) (hline : (d.placed listing c).Reads address body)
    (hlast : (d.placed listing c).Reads (address + 1) ts) (hsteady : d.console.Steady)
    (hkey : d.console.interrupted = false)
    (hstep : step nested (d'.placed listing (c.reached (address + 1))) = .ok true m')
    (htrace' : m'.control.trace = false) (budget : Nat) :
    runLines nested (budget + 2) (d.placed listing (c.reached address)) = runLines nested budget m' := by
  obtain ⟨n, text, -, -, ht⟩ := id hline
  have hline' : (d.placed listing (c.reached address)).Reads address body := hline.of_eq rfl rfl
  have hlast' : (d'.placed listing (c.reached (address + 1))).Reads (address + 1) ts := hlast.of_eq rfl rfl
  have hbody := runLines_of_step hline'.inRange hkey (h.step_eq nested hline' htrace) htrace (budget + 1)
  rw [hbody]
  exact runLines_of_step hlast'.inRange ((h.later ht).unpressed hsteady hkey) hstep htrace' budget

/-- **A loop over three lines makes its rounds**, from the first line of the
body on. -/
theorem Rounds.runLines_eq {l : Loop} {name : Option String} {value : Nat → Int64} {k j : Nat}
    (h : Rounds l.counter body ((List.range' k (j + 1)).map value) d d') (hindex : l.index = 0)
    (hname : name.all (· == l.counter) = true)
    (hnext : ∀ i ≤ k + j, (value (i + 1)).toInt = (value i).toInt + l.step.toInt)
    (hin : ∀ i ≤ k + j, l.admits (.integer (value i)) = true) (hout : l.admits (.integer (value (k + j + 1))) = false)
    (htrace : c.trace = false) (htop : c.stack.top? = some (.loop l))
    (hdepth : c.stack.depth ≤ Stack.capacity) (hbody : (d.placed listing c).Reads l.start body)
    (hlast : (d.placed listing c).Reads (l.start + 1) (Token.closing name)) (hsteady : d.console.Steady)
    (hkey : d.console.interrupted = false) (nested : Act Unit) (budget : Nat) :
    runLines nested (budget + 2 * (j + 1)) ((d.holding l.counter (value k)).placed listing (c.reached l.start)) =
      runLines nested budget
        (d'.placed listing (Control.reached { c with stack := c.stack.pop } (l.start + 2))) := by
  -- by the number of rounds still to come behind the one that is about to begin
  induction j generalizing k d with
  | zero =>
    cases h with
    | round hturns hread hrest =>
      cases hrest
      have hstep := step_over nested (m := d'.placed listing (c.reached (l.start + 1))) (hlast.of_eq rfl rfl) htop
        hname (hindex ▸ hread) (hnext k (by omega)) hout
      exact hturns.runLines_eq htrace (hbody.of_eq rfl rfl) (hlast.of_eq rfl rfl) hsteady hkey hstep htrace budget
  | succ j ih =>
    cases h with
    | @round _ d₁ _ _ _ hturns hread hrest =>
      obtain ⟨n, text, -, -, ht⟩ := id hbody
      have hlater : d.console.Later d₁.console := hturns.later ht
      have hw := takes_of_readNumber hread (value (k + 1))
      have hstep := step_again nested (m := d₁.placed listing (c.reached (l.start + 1))) (hlast.of_eq rfl rfl) htop
        hname hdepth (hindex ▸ hread) (hnext k (by omega)) (hin (k + 1) (by omega)) (hindex ▸ hw)
      have hround := hturns.runLines_eq htrace (hbody.of_eq rfl rfl) (hlast.of_eq rfl rfl) hsteady hkey hstep htrace
        (budget + 2 * (j + 1))
      refine hround.trans ?_
      refine ih hrest (fun i hi => hnext i (by omega)) (fun i hi => hin i (by omega)) ?_ (hbody.of_eq rfl rfl)
        (hlast.of_eq rfl rfl) (hlater.steady hsteady) (hlater.unpressed hsteady hkey)
      rw [← hout]
      congr 3
      omega

/-- The `NEXT` of a loop over three lines is in the third one. -/
theorem Orderly.closing_threeLines (hm : m.Orderly) {ts : List Token} {name : Option String}
    (hl : m.listing.Holds [ts, body, Token.closing name]) (hbody : Balanced 0 body) (hstart : Unlabelled body)
    (hname : name.all (· == v) = true) (hlisting : d.listing = m.listing) (haddress : d.control.address = 0)
    (htable : d.control.table = m.listing.numbers.toArray) (n : Int64) : d.closing (some n) v = .ok 2 := by
  obtain ⟨x₁, xs, hlines, -, h₂⟩ := List.map_eq_cons_iff.1 hl
  obtain ⟨x₂, xs, rfl, hx₂, h₃⟩ := List.map_eq_cons_iff.1 h₂
  obtain ⟨x₃, rfl, hx₃⟩ := List.map_eq_singleton_iff.1 h₃
  have hfind (x : Int64 × String) (hx : x ∈ m.listing.lines) : m.listing.find? x.1 = some x.2 :=
    hm.listing.find?_of_mem hx
  have htokens₂ : d.listing.tokensOf x₂.1 = body := by
    rw [hlisting]
    exact hm.tokensOf_eq (hfind x₂ (by simp [hlines])) hx₂ hstart.number
  have htokens₃ : d.listing.tokensOf x₃.1 = Token.closing name := by
    rw [hlisting]
    exact hm.tokensOf_eq (hfind x₃ (by simp [hlines])) hx₃ (unlabelled_verb _ _).number
  have hnext : searchNext v 0 0 (Token.closing name) = none := by
    refine searchNext_found fun s hs => ?_
    cases name with
    | none => cases hs
    | some s' =>
      obtain rfl : s' = s := by simpa using hs
      simpa using hname
  have hlater : d.control.table.toList.drop (d.control.address + 1) = [x₂.1, x₃.1] := by
    rw [htable, haddress, Listing.numbers, hlines]
    rfl
  have hsearch : d.listing.searchLines v 0 [x₂.1, x₃.1] = some 1 := by
    have hskip : searchNext v 0 0 (d.listing.tokensOf x₂.1) = some 0 := by
      rw [htokens₂]
      exact searchNext_balanced hbody
    rw [Listing.searchLines_of_some hskip, Listing.searchLines, htokens₃, hnext]
    rfl
  rw [closing, hlater, haddress]
  simp only [Option.isSome_some, if_true, hsearch]

/-! ### Both forms -/

/-- What is left of a run behind the last line. -/
theorem runLines_done {nested : Act Unit} (hsteady : d.console.Steady) {address : Nat} (hout : c.table.size ≤ address)
    (budget : Nat) : runLines nested budget (d.placed listing (c.reached address)) =
      .ok () ((d.placed listing (c.reached address)).say "DONE.") := by
  have hrange : ¬ (c.reached address).inRange := by
    intro h
    have hlt : address < c.table.size := of_decide_eq_true h
    omega
  rw [runLines_of_outside hrange]
  exact Act.printLine_steady (m := d.placed listing (c.reached address)) hsteady "DONE."

section Forms

variable {e m₁ : Machine} {head : LoopHead} {range : List Token} {name : Option String} {a b : Int64} {s : Stride}
  (hm : m.Orderly) (htrace : m.control.trace = false) (hconsole : m.console = e.console) (hchance : m.chance = e.chance)
  (hempty : e.memory = .empty) (hsteady : e.console.Steady) (hkey : e.console.interrupted = false)
  (hhead : head.Spelled range) (hkind : VariableKind.ofName head.place.name = .numeric)
  (hname : name.all (· == head.place.name) = true) (hbody : Balanced 0 body)
  (hrange : Act.range head e = .ok (0, a, b, s) m₁)
  (hrounds : Rounds head.place.name body
    ((List.range (Loop.rounds a.toInt b.toInt s.val.toInt)).map (Loop.valueAt a s)) m₁ d)

include hm hconsole hchance hempty in
/-- `RUN` resets the program, and then the lines are done. -/
theorem enters_run_placed (hl : m.listing.Holds tss) (htss : ∀ ts ∈ tss, Unlabelled ts) (budget : Nat)
    (hrun : ∀ nested, runLines nested budget
      (e.placed m.listing (m.control.reset m.listing.numbers)) = .ok () m') : m.Enters "RUN" (.ok () m') := by
  refine ⟨fun m₁ => ⟨?_, ?_⟩, budget, ?_⟩
  · intro h
    cases h
  · intro h
    cases h
  · rw [enter_run, Act.bind_ok (reset_of_unlabelled (hm.labelled_eq_nil hl htss)), hconsole, hchance, ← hempty]
    exact hrun _

include hm htrace hconsole hchance hempty hkey hhead hkind hname hbody hrange hrounds in
/-- `RUN` of the loop in one line. -/
theorem enters_oneLine (hne : body ≠ []) (hend : d.console.Steady)
    (hl : m.listing.Holds [.verb .loop :: (range ++ .colon :: (body ++ .colon :: Token.closing name))]) :
    ∃ control, m.Enters "RUN" (.ok () ((d.placed m.listing control).say "DONE.")) := by
  let control := m.control.reset m.listing.numbers
  have hline := hm.reads_reset hl (k := 0) rfl (d := e.placed m.listing control) rfl rfl
  have hsize : control.table.size = 1 := hl.length_numbers
  obtain ⟨chance, rfl⟩ := (Act.range_looks head).of_ok hrange
  have hstep (nested : Act Unit) : step nested (e.placed m.listing control) =
      .ok true (d.placed m.listing (control.reached 1)) :=
    step_of_interpret (m := e.placed m.listing control) hline fun t ht n =>
      interpret_oneLine ht hhead hkind hne hbody hname hrange (takes_of_empty hkind hempty) hrounds nested (some n)
        m.listing (c := { control with following := 1 }) htrace
  refine ⟨control.reached 1, enters_run_placed hm hconsole hchance hempty hl
    (List.forall_mem_singleton.2 (unlabelled_verb _ _)) 1 fun nested => ?_⟩
  refine (runLines_of_step hline.inRange hkey (hstep nested) htrace 0).trans ?_
  exact runLines_done hend hsize.le 0

/-- Tokens that begin with a verb, and an unlabelled body between them. -/
theorem unlabelled_lines {v v' : Verb} {ts ts' : List Token} (hstart : Unlabelled body) :
    ∀ us ∈ [.verb v :: ts, body, .verb v' :: ts'], Unlabelled us := by
  intro us hus
  simp only [List.mem_cons, List.not_mem_nil, or_false] at hus
  rcases hus with rfl | rfl | rfl
  · exact unlabelled_verb _ _
  · exact hstart
  · exact unlabelled_verb _ _

include hm htrace hconsole hchance hempty hsteady hkey hhead hkind hname hrange hrounds in
/-- `RUN` of the loop over three lines, if there is any round. -/
theorem enters_threeLines (hstart : Unlabelled body) (hend : d.console.Steady)
    (hl : m.listing.Holds [.verb .loop :: range, body, Token.closing name])
    (hin : ¬ Loop.Past s.val.toInt b.toInt a.toInt)
    (hvalue : ∀ k ≤ Loop.rounds a.toInt b.toInt s.val.toInt,
      (Loop.valueAt a s k).toInt = a.toInt + k * s.val.toInt) :
    ∃ control, m.Enters "RUN" (.ok () ((d.placed m.listing control).say "DONE.")) := by
  let control := m.control.reset m.listing.numbers
  let l : Loop := ⟨head.place.name, 0, 1, b, s⟩
  let within : Control := { control with stack := ⟨[.loop l], 1, rfl⟩ }
  obtain ⟨j, hj⟩ : ∃ j, Loop.rounds a.toInt b.toInt s.val.toInt = j + 1 := ⟨_, if_neg hin⟩
  rw [hj, List.range_eq_range'] at hrounds
  rw [hj] at hvalue
  have hline (d' : Machine) {k : Nat} {ts : List Token}
      (hk : [.verb .loop :: range, body, Token.closing name][k]? = some ts) : (d'.placed m.listing within).Reads k ts :=
    hm.reads_reset hl hk rfl rfl
  have hfor : (e.placed m.listing control).Reads 0 (.verb .loop :: range) := (hline e (k := 0) rfl).of_eq rfl rfl
  have hsize : control.table.size = 3 := hl.length_numbers
  have hadmits (k : Nat) (hk : k ≤ j + 1) : l.admits (.integer (Loop.valueAt a s k)) = true ↔ k < j + 1 := by
    rw [← hj]
    exact Loop.within_valueAt_iff (hvalue k hk)
  have hsum (k : Nat) (hk : k ≤ 0 + j) :
      (Loop.valueAt a s (k + 1)).toInt = (Loop.valueAt a s k).toInt + l.step.toInt := by
    rw [hvalue (k + 1) (by omega), hvalue k (by omega), Nat.cast_succ, add_mul, one_mul, add_assoc]
  have hlimit : l.admits (.integer (Loop.valueAt a s (0 + j + 1))) = false := by
    refine Bool.eq_false_iff.2 fun h => ?_
    have hlt := (hadmits (0 + j + 1) (by omega)).1 h
    omega
  obtain ⟨chance, rfl⟩ := (Act.range_looks head).of_ok hrange
  -- `FOR` pushes the frame and writes the first value
  have hopen (nested : Act Unit) : step nested (e.placed m.listing control) =
      .ok true ((holding { e with chance } l.counter (Loop.valueAt a s 0)).placed m.listing (within.reached 1)) := by
    have hpush : control.stack.push (.loop l) = .ok ⟨[.loop l], 1, rfl⟩ :=
      if_neg (show ¬ Stack.capacity ≤ 0 by decide)
    have hzero : Loop.valueAt a s 0 = a := by simp [Loop.valueAt]
    have hw := takes_of_empty (d := { e with chance }) hkind hempty a
    have hfirst := (Act.range_evaluates head).elsewhere hrange m.listing { control with following := 0 + 1 }
    have hstep := step_opening nested (m := e.placed m.listing control) hfor hhead hkind hfirst hw hin hpush
    rw [hzero]
    exact hstep
  have hrun := hrounds.runLines_eq (l := l) rfl hname hsum (fun k hk => (hadmits k (by omega)).2 (by omega)) hlimit
    (c := within) htrace rfl (show 1 ≤ Stack.capacity by decide) (hline _ (k := 1) rfl) (hline _ (k := 2) rfl) hsteady
    hkey
  refine ⟨control.reached 3, enters_run_placed hm hconsole hchance hempty hl (unlabelled_lines hstart)
    (0 + 2 * (j + 1) + 1) fun nested => ?_⟩
  refine (runLines_of_step hfor.inRange hkey (hopen nested) htrace _).trans ((hrun nested 0).trans ?_)
  exact runLines_done hend hsize.le 0

include hm htrace hconsole hchance hempty hsteady hkey hhead hkind hname hbody hrange in
/-- `RUN` of the loop over three lines, if there is no round. -/
theorem enters_threeLines_empty (hstart : Unlabelled body)
    (hl : m.listing.Holds [.verb .loop :: range, body, Token.closing name])
    (hout : Loop.Past s.val.toInt b.toInt a.toInt) :
    ∃ control, m.Enters "RUN" (.ok () (((m₁.holding head.place.name a).placed m.listing control).say "DONE.")) := by
  let control := m.control.reset m.listing.numbers
  have hfor := hm.reads_reset hl (k := 0) rfl (d := e.placed m.listing control) rfl rfl
  have hsize : control.table.size = 3 := hl.length_numbers
  obtain ⟨chance, rfl⟩ := (Act.range_looks head).of_ok hrange
  have hw := takes_of_empty (d := { e with chance }) hkind hempty a
  have hclosing := hm.closing_threeLines hl hbody hstart hname (d := e.placed m.listing control) rfl rfl rfl
  have hskip (nested : Act Unit) := step_skipping nested (m := e.placed m.listing control) hfor hhead hkind
    ((Act.range_evaluates head).elsewhere hrange m.listing { control with following := 1 }) hw hout hclosing
  refine ⟨control.reached 3, enters_run_placed hm hconsole hchance hempty hl (unlabelled_lines hstart) 1
    fun nested => ?_⟩
  refine (runLines_of_step hfor.inRange hkey (hskip nested) htrace 0).trans ?_
  exact runLines_done (d := holding { e with chance } head.place.name a) hsteady hsize.le 0

end Forms

/-- **The two ways to write a loop do the same.** The machine `p` has the
program `FOR v=a TO b STEP s: B: NEXT v`, and `q` has it over three lines.
Nothing is traced, no break key is pressed and no print fails. The body `B`
begins as a statement does, every loop in it is closed, and in each of the
rounds it comes to a good end, leaves `v` as it is and does the same wherever it
stands; and if there is a round, the value behind the last one is still a
number. Then `RUN` comes to its end on both machines, with the same printed by
then, and the same in all variables. If there is no round, there is one
difference: over three lines the first value is written to `v`, and in one line
there is no variable at all. -/
theorem loop_forms_agree {p q : Machine} (hp : p.Reachable) (hq : q.Reachable) (hconsole : q.console = p.console)
    (hchance : q.chance = p.chance) (htrace : p.control.trace = false) (htrace' : q.control.trace = false)
    (hsteady : p.console.Steady) (hkey : p.console.interrupted = false) {head : LoopHead} {range : List Token}
    {name : Option String} {a b : Int64} {s : Stride} {m₁ : Machine}
    (hone : p.listing.Holds [.verb .loop :: (range ++ .colon :: (body ++ .colon :: Token.closing name))])
    (hthree : q.listing.Holds [.verb .loop :: range, body, Token.closing name]) (hhead : head.Spelled range)
    (hkind : VariableKind.ofName head.place.name = .numeric) (hname : name.all (· == head.place.name) = true)
    (hrange : Act.range head { p with memory := .empty } = .ok (0, a, b, s) m₁) (hbody : Balanced 0 body)
    (hstart : Unlabelled body) :
    let n := Loop.rounds a.toInt b.toInt s.val.toInt
    (¬ Loop.Past s.val.toInt b.toInt a.toInt →
      a.toInt + n * s.val.toInt ≤ 9223372036854775807 ∧ -9223372036854775808 ≤ a.toInt + n * s.val.toInt) →
    Rounds head.place.name body ((List.range n).map (Loop.valueAt a s)) m₁ d →
    ∃ p' q', p.Enters "RUN" (.ok () p') ∧ q.Enters "RUN" (.ok () q') ∧ p'.console = d.console.say "DONE." ∧
      q'.console = p'.console ∧ p'.memory = d.memory ∧
      (¬ Loop.Past s.val.toInt b.toInt a.toInt → q'.memory = p'.memory ∧
        p'.memory.readNumber head.place.name 0 = .ok (.integer (Loop.valueAt a s (n - 1)))) ∧
      (Loop.Past s.val.toInt b.toInt a.toInt → p'.memory = .empty ∧
        q'.memory = (Memory.empty.write .numeric head.place.name 0 (.integer a)).2 ∧
        q'.memory.readNumber head.place.name 0 = .ok (.integer a)) := by
  intro n hfits hrounds
  have hm₁ : m₁.memory = .empty ∧ m₁.console = p.console := by
    obtain ⟨chance, rfl⟩ := (Act.range_looks head).of_ok hrange
    exact ⟨rfl, rfl⟩
  -- the body is a line of the other program
  have hmem : body ∈ [.verb .loop :: range, body, Token.closing name] := by simp
  obtain ⟨x, -, ht⟩ := hthree.exists_line hmem
  have hne := hq.orderly.ne_nil_of_mem hthree hmem
  have hend : d.console.Steady := (hrounds.later ht).steady (hm₁.2 ▸ hsteady)
  obtain ⟨c, hone⟩ := enters_oneLine (e := { p with memory := .empty }) hp.orderly htrace rfl rfl rfl hkey hhead hkind
    hname hbody hrange hrounds hne hend hone
  by_cases hpast : Loop.Past s.val.toInt b.toInt a.toInt
  · have hn : n = 0 := if_pos hpast
    rw [hn] at hrounds
    cases hrounds
    obtain ⟨c', hthree⟩ := enters_threeLines_empty (e := { p with memory := .empty }) hq.orderly htrace' hconsole
      hchance rfl hsteady hkey hhead hkind hname hbody hrange hstart hthree hpast
    have hw := takes_of_empty hkind hm₁.1 a
    refine ⟨_, _, hone, hthree, rfl, rfl, rfl, fun h => absurd hpast h, fun _ => ⟨hm₁.1, ?_, ?_⟩⟩
    · rw [← hm₁.1]
      rfl
    · rw [hm₁.1] at hw
      exact Memory.sound_empty.readNumber_of_write hw
  · have hvalue (k : Nat) (hk : k ≤ n) : (Loop.valueAt a s k).toInt = a.toInt + k * s.val.toInt := by
      rcases Nat.lt_or_eq_of_le hk with hlt | rfl
      · exact Loop.toInt_valueAt hlt
      · exact Loop.toInt_valueAt_of_fits (hfits hpast).2 (hfits hpast).1
    obtain ⟨c', hthree⟩ := enters_threeLines (e := { p with memory := .empty }) hq.orderly htrace' hconsole hchance rfl
      hsteady hkey hhead hkind hname hrange hrounds hstart hend hthree hpast hvalue
    have hlast : (List.range n).map (Loop.valueAt a s) =
        (List.range (n - 1)).map (Loop.valueAt a s) ++ [Loop.valueAt a s (n - 1)] := by
      have hn : n = ((b.toInt - a.toInt).fdiv s.val.toInt).toNat + 1 := if_neg hpast
      rw [hn, List.range_succ, List.map_append]
      rfl
    rw [hlast] at hrounds
    exact ⟨_, _, hone, hthree, rfl, rfl, rfl, fun _ => ⟨rfl, hrounds.readNumber_eq⟩, fun h => absurd h hpast⟩

-- From 2 to 6 in steps of 3, with a body that prints the variable.
theorem loop_forms_agree_print :
    ∃ p q p' q' : Machine, p.Reachable ∧ q.Reachable ∧
      p.listing.lines = [(10, "FOR I = 2 TO 6 STEP 3 : PRINT I : NEXT I")] ∧
      q.listing.lines = [(10, "FOR I = 2 TO 6 STEP 3"), (20, "PRINT I"), (30, "NEXT I")] ∧
      p.Enters "RUN" (.ok () p') ∧ q.Enters "RUN" (.ok () q') ∧ p'.console.output = "2\n5\nDONE.\n" ∧
      q'.console = p'.console ∧ q'.memory = p'.memory ∧ p'.memory.readNumber "I" 0 = .ok (.integer 5) := by
  let range : List Token := [.name "I", .equal, .number 2, .keyword .upTo, .number 6, .keyword .step, .number 3]
  let body : List Token := [.verb .print, .name "I"]
  let z : Position := ⟨1, 1, 0⟩
  obtain ⟨p, hp, hconsole, hgen, htrace, hone⟩ : ∃ p : Machine, p.Reachable ∧ p.console = {} ∧
      (p.chance.s1 = mkStdGen.s1 ∧ p.chance.s2 = mkStdGen.s2) ∧ p.control.trace = false ∧
      p.listing.lines = [(10, "FOR I = 2 TO 6 STEP 3 : PRINT I : NEXT I")] :=
    ⟨{ typed ["10 for i = 2 to 6 step 3: print i: next i"] with console := {} }, (reachable_typed _).console {}, rfl,
      by decide +kernel⟩
  obtain ⟨q, hq, hconsole', hgen', htrace', hthree⟩ : ∃ q : Machine, q.Reachable ∧ q.console = {} ∧
      (q.chance.s1 = mkStdGen.s1 ∧ q.chance.s2 = mkStdGen.s2) ∧ q.control.trace = false ∧
      q.listing.lines = [(10, "FOR I = 2 TO 6 STEP 3"), (20, "PRINT I"), (30, "NEXT I")] :=
    ⟨{ typed ["10 for i = 2 to 6 step 3", "20 print i", "30 next i"] with console := {} },
      (reachable_typed _).console {}, rfl, by decide +kernel⟩
  have hchance : q.chance = p.chance := by
    show (⟨q.chance.s1, q.chance.s2⟩ : StdGen) = ⟨p.chance.s1, p.chance.s2⟩
    rw [hgen.1, hgen.2, hgen'.1, hgen'.2]
  have hsteady : p.console.Steady := by
    rw [hconsole]
    exact ⟨rfl, rfl⟩
  -- the body does the same wherever it stands
  have hprint {d : Machine} {x : Int64} (hread : d.memory.readNumber "I" 0 = .ok (.integer x))
      (hs : d.console.Steady) : Turns body d (d.say (Integer.text x)) := by
    obtain ⟨v, hfind, -, hslot⟩ := Memory.readNumber_eq_ok_iff.1 hread
    have hmemory : d.memory.read "I" 0 = .ok (.integer x) := by
      simp [Memory.read, Memory.find, hfind, hslot, bind, Except.bind]
    have heval : Expr.eval d.memory (.scalar "I") d.chance = .ok (.integer x) d.chance := by
      show (liftM (d.memory.read "I" 0) : Eval Value) d.chance = _
      rw [hmemory]
      rfl
    refine turns_of_tape (t := .ofList z [⟨.verb .print, z, z⟩, ⟨.name "I", z, z⟩]) rfl fun _ _ listing control _ => ?_
    have hvalue := Act.evaluate_ok (m := d.placed listing control) (f := (Expr.eval · (.scalar "I"))) heval
    have hprinted : Act.printed [(.scalar "I", .none)] (d.placed listing control) =
        .ok (Integer.text x) (d.placed listing control) := by
      refine (Act.bind_ok hvalue _).trans ?_
      show EStateM.Result.ok (Integer.text x ++ "" ++ "") _ = _
      rw [String.append_empty, String.append_empty]
      rfl
    have hsaid := Act.printLine_steady (m := d.placed listing control) hs (Integer.text x)
    exact (Act.bind_ok ((Act.bind_ok hprinted _).trans hsaid) _).trans rfl
  -- two rounds
  let start : Machine := { p with memory := .empty }
  have hw := takes_of_empty (d := start) (v := "I") (by decide) rfl 2
  have hread := Memory.sound_empty.readNumber_of_write hw
  let once : Machine := (start.holding "I" 2).say (Integer.text 2)
  have hw' := takes_of_readNumber (d := once) hread 5
  have hread' := (Memory.sound_empty.write .numeric "I" 0 (.integer 2)).readNumber_of_write hw'
  have hrounds : Rounds "I" body [2, 5] start ((once.holding "I" 5).say (Integer.text 5)) :=
    .round (hprint hread hsteady) hread (.round (hprint hread' (hsteady.say _)) hread' (.none _))
  have hvalues : (List.range (Loop.rounds (Int64.toInt 2) (Int64.toInt 6) (Int64.toInt 3))).map
      (Loop.valueAt 2 ⟨3, by decide⟩) = [2, 5] := by decide
  have hlines : p.listing.Holds [.verb .loop :: (range ++ .colon :: (body ++ .colon :: Token.closing (some "I")))] := by
    rw [Listing.Holds, hone]
    decide +kernel
  have hlines' : q.listing.Holds [.verb .loop :: range, body, Token.closing (some "I")] := by
    rw [Listing.Holds, hthree]
    decide +kernel
  obtain ⟨p', q', hp', hq', hout, hsame, -, hmemory, -⟩ :=
    loop_forms_agree hp hq (hconsole'.trans hconsole.symm) hchance htrace htrace' hsteady (by rw [hconsole]) hlines
      hlines' (LoopHead.spelled_numbers "I" 2 6 3) (by decide) rfl (s := ⟨3, by decide⟩) rfl (by decide +kernel)
      (unlabelled_verb _ _) (fun _ => by decide) (hvalues ▸ hrounds)
  obtain ⟨hmemory, hlast⟩ := hmemory (by decide)
  have hsaid : p'.console = ((Console.say {} (Integer.text 2)).say (Integer.text 5)).say "DONE." := by
    rw [hout, ← hconsole]
    rfl
  refine ⟨p, q, p', q', hp, hq, hone, hthree, hp', hq', ?_, hsame, hmemory, hlast⟩
  rw [hsaid]
  decide +kernel

-- There is no round: in one line there is no variable, over three lines there
-- is one.
theorem loop_forms_differ_empty :
    ∃ p q p' q' : Machine, p.Reachable ∧ q.Reachable ∧
      p.listing.lines = [(10, "FOR I = 5 TO 1 STEP 1 : PRINT I : NEXT I")] ∧
      q.listing.lines = [(10, "FOR I = 5 TO 1 STEP 1"), (20, "PRINT I"), (30, "NEXT I")] ∧
      p.Enters "RUN" (.ok () p') ∧ q.Enters "RUN" (.ok () q') ∧ p'.console = Console.say {} "DONE." ∧
      q'.console = p'.console ∧ p'.memory.find? "I" = none ∧ q'.memory.readNumber "I" 0 = .ok (.integer 5) := by
  let range : List Token := [.name "I", .equal, .number 5, .keyword .upTo, .number 1, .keyword .step, .number 1]
  let body : List Token := [.verb .print, .name "I"]
  obtain ⟨p, hp, hconsole, htrace, hone⟩ : ∃ p : Machine, p.Reachable ∧ p.console = {} ∧ p.control.trace = false ∧
      p.listing.lines = [(10, "FOR I = 5 TO 1 STEP 1 : PRINT I : NEXT I")] :=
    ⟨{ typed ["10 for i = 5 to 1 step 1: print i: next i"] with console := {} }, (reachable_typed _).console {}, rfl,
      by decide +kernel⟩
  obtain ⟨q, hq, hconsole', htrace', hthree⟩ : ∃ q : Machine, q.Reachable ∧ q.console = {} ∧ q.control.trace = false ∧
      q.listing.lines = [(10, "FOR I = 5 TO 1 STEP 1"), (20, "PRINT I"), (30, "NEXT I")] :=
    ⟨{ typed ["10 for i = 5 to 1 step 1", "20 print i", "30 next i"] with console := {} },
      (reachable_typed _).console {}, rfl, by decide +kernel⟩
  have hlines : p.listing.Holds [.verb .loop :: (range ++ .colon :: (body ++ .colon :: Token.closing (some "I")))] := by
    rw [Listing.Holds, hone]
    decide +kernel
  have hlines' : q.listing.Holds [.verb .loop :: range, body, Token.closing (some "I")] := by
    rw [Listing.Holds, hthree]
    decide +kernel
  have hhead := LoopHead.spelled_numbers "I" 5 1 1
  let e (m : Machine) : Machine := { chance := m.chance }
  obtain ⟨c, hrun⟩ := enters_oneLine (e := e p) (d := e p) (s := ⟨1, by decide⟩) hp.orderly htrace hconsole rfl rfl rfl
    hhead (by decide) rfl (by decide +kernel) rfl (.none _) (List.cons_ne_nil _ _) ⟨rfl, rfl⟩ hlines
  obtain ⟨c', hrun'⟩ := enters_threeLines_empty (e := e q) (s := ⟨1, by decide⟩) hq.orderly htrace' hconsole' rfl rfl
    ⟨rfl, rfl⟩ rfl hhead (by decide) rfl (by decide +kernel) rfl (unlabelled_verb _ _) hlines' (by decide)
  have hw := takes_of_empty (d := e q) (v := "I") (by decide) rfl 5
  refine ⟨p, q, _, _, hp, hq, hone, hthree, hrun, hrun', rfl, rfl, ?_, Memory.sound_empty.readNumber_of_write hw⟩
  show Memory.empty.find? "I" = none
  simp [Memory.find?, Memory.empty]

end Machine

end LineBasic
