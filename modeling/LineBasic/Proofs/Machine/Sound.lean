import LineBasic.Proofs.Machine.Step
import LineBasic.Session

/-!
# Machines stay sound

Whatever a user asks of a machine, and however it ends, the machine stays sound:
the line numbers of the program stand in order, so that a line has one address;
the stored lines can be scanned and are written as they are stored; variables
are what their names say; and there are no more variables, frames and nested
runs than fit. All of this also holds on the way, after every single step.

* `Control.resolve_eq_ok_iff`: the search for a line in a table that ascends.
* `Machine.Orderly`: what every shift and every edit keeps.
* `Machine.Sound`: what follows for a user.
* `Machine.reachable_sound`: every machine that can be reached is sound.
-/

namespace LineBasic

/-! ### The table of line numbers -/

namespace Control

variable {table : Array Int64} {n : Int64} {low high i : Nat}

/-- What is found is there. -/
theorem getElem?_of_search (h : search table n low high = some i) : table[i]? = some n := by
  fun_induction search table n low high with
  | case1 low high hlt middle hnone => cases h
  | case2 low high hlt middle hk =>
    obtain rfl := Option.some.inj h
    exact hk
  | case3 low high hlt middle k hk hne hless ih => exact ih h
  | case4 low high hlt middle k hk hne hless ih => exact ih h
  | case5 low high hge => cases h

/-- What is there is found, if the numbers ascend: it is not in the half that is
left out. -/
theorem search_of_getElem? (hasc : table.toList.Pairwise (· < ·)) (hi : table[i]? = some n) (hlow : low ≤ i)
    (hhigh : i < high) (hsize : high ≤ table.size) : search table n low high = some i := by
  have hlt {j k : Nat} {x y : Int64} (hj : table[j]? = some x) (hk : table[k]? = some y) (hjk : j < k) : x < y := by
    obtain ⟨hj', rfl⟩ := Array.getElem?_eq_some_iff.1 hj
    obtain ⟨hk', rfl⟩ := Array.getElem?_eq_some_iff.1 hk
    exact List.pairwise_iff_getElem.1 hasc j k hj' hk' hjk
  fun_induction search table n low high with
  | case1 low high hless middle hnone =>
    have := Array.getElem?_eq_none_iff.1 hnone
    omega
  | case2 low high hless middle hk =>
    rcases Nat.lt_trichotomy i middle with h | h | h
    · exact absurd (hlt hi hk h) (Int64.lt_irrefl)
    · rw [h]
    · exact absurd (hlt hk hi h) (Int64.lt_irrefl)
  | case3 low high hless middle k hk hne hkn ih =>
    refine ih ?_ hhigh hsize
    rcases Nat.lt_trichotomy i middle with h | h | h
    · exact absurd (Int64.lt_trans (hlt hi hk h) hkn) (Int64.lt_irrefl)
    · rw [h, hk] at hi
      exact absurd (Option.some.inj hi) hne
    · exact h
  | case4 low high hless middle k hk hne hkn ih =>
    refine ih hlow ?_ (by omega)
    rcases Nat.lt_trichotomy i middle with h | h | h
    · exact h
    · rw [h, hk] at hi
      exact absurd (Option.some.inj hi) hne
    · exact absurd (hlt hk hi h) hkn
  | case5 low high hge => omega

/-- **In a table that ascends a line has one address**, and the search by halves
finds it. -/
theorem resolve_eq_ok_iff {c : Control} (hasc : c.table.toList.Pairwise (· < ·)) {address : Nat} :
    c.resolve n = .ok address ↔ c.table[address]? = some n := by
  unfold resolve
  constructor
  · intro h
    split at h
    case h_1 i hi =>
      obtain rfl := Except.ok.inj h
      exact getElem?_of_search hi
    case h_2 => cases h
  · intro h
    have hbound : address < c.table.size := (Array.getElem?_eq_some_iff.1 h).1
    rw [search_of_getElem? hasc h (Nat.zero_le _) hbound (Nat.le_refl _)]

end Control

/-! ### Machines in order -/

namespace Machine

/-- The loops under way fit. -/
def FramesFit (m : Machine) : Prop := ∀ f ∈ m.control.stack.frames, f.Fits

/-- The program and its place are in order, and so are the variables. -/
structure Orderly (m : Machine) : Prop where
  listing : m.listing.Kept fun _ => True
  ascending : m.control.table.toList.Pairwise (· < ·)
  positive : ∀ n ∈ m.control.table, 0 < n.toInt
  memory : m.memory.Sound
  depth_le : m.control.stack.depth ≤ Stack.capacity
  frames : m.FramesFit

/-- What a user can rely on. -/
structure Sound (m : Machine) : Prop where
  table_ascending : m.control.table.toList.Pairwise (· < ·)
  table_positive : ∀ n ∈ m.control.table, 0 < n.toInt
  resolve_iff : ∀ n address, m.control.resolve n = .ok address ↔ m.control.table[address]? = some n
  /-- A stored line can be scanned as statements, and is spelled as it is
  stored. -/
  lines : ∀ x ∈ m.listing.lines, 0 < x.1.toInt ∧ x.2 ≠ "" ∧
    ∃ ts, (Tape.ofStatements x.2).tokens? = some ts ∧ Line.spell ts = x.2
  variables_sound : ∀ name v, m.memory.find? name = some v → v.name = name ∧ v.kind = .ofName name ∧
    ∀ x, some x ∈ v.slots → v.kind.accepts x = true
  variables_le : m.memory.count ≤ 65536
  frames_le : m.control.stack.frames.length ≤ 65535
  loops : ∀ l, .loop l ∈ m.control.stack.frames → l.step ≠ 0 ∧ VariableKind.ofName l.counter = .numeric

/-! ### What is kept -/

variable {allowed : Verb → Prop} {m m' : Machine}

theorem orderly_fresh (console : Console) (chance : StdGen) : Orderly { console, chance } :=
  ⟨.empty, List.Pairwise.nil, nofun, Memory.sound_empty, Nat.zero_le _, nofun⟩

/-- The line numbers of a listing can serve as a table. -/
theorem table_of_kept {l : Listing} (h : l.Kept fun _ => True) :
    l.numbers.Pairwise (· < ·) ∧ ∀ n ∈ l.numbers, 0 < n.toInt := by
  refine ⟨List.pairwise_map.2 h.ascending, ?_⟩
  intro n hn
  obtain ⟨x, hx, rfl⟩ := List.mem_map.1 hn
  exact h.positive x hx

theorem push_eq_ok {c c' : Control} {f : Frame} (h : c.push f = .ok c') :
    c'.table = c.table ∧ c'.stack.depth ≤ Stack.capacity := by
  unfold Control.push Stack.push at h
  split at h
  · cases h
  case isFalse hroom =>
    obtain rfl := Except.ok.inj h
    exact ⟨rfl, by show c.stack.depth + 1 ≤ Stack.capacity; omega⟩

theorem Shift.framesFit (h : Shift allowed m m') (hm : m.FramesFit) : m'.FramesFit := by
  cases h with
  | control hmove =>
    cases hmove with
    | push hf hpush =>
      rename_i f c
      intro g hg
      unfold Control.push Stack.push at hpush
      split at hpush
      · cases hpush
      · obtain rfl := Except.ok.inj hpush
        rcases List.mem_cons.1 hg with rfl | hg
        · exact hf
        · exact hm g hg
    | drop n => exact fun f hf => hm f (List.mem_of_mem_drop hf)
    | _ => exact hm
  | rewind => exact fun _ hf => absurd hf List.not_mem_nil
  | renew => exact fun _ hf => absurd hf List.not_mem_nil
  | _ => exact hm

theorem Shift.orderly (h : Shift allowed m m') (hm : m.Orderly) : m'.Orderly := by
  have hframes := h.framesFit hm.frames
  cases h with
  | draw chance => exact { hm with }
  | use hc => exact { hm with }
  | acknowledge => exact { hm with }
  | memory hc => exact { hm with memory := hc.sound hm.memory }
  | control hc =>
    cases hc with
    | push hf hpush =>
      obtain ⟨htable, hdepth⟩ := push_eq_ok hpush
      refine { hm with ascending := ?_, positive := ?_, depth_le := hdepth, frames := hframes }
      · rw [htable]; exact hm.ascending
      · rw [htable]; exact hm.positive
    | drop n => exact { hm with depth_le := (Nat.sub_le _ _).trans hm.depth_le, frames := hframes }
    | _ => exact { hm with }
  | rewind =>
    obtain ⟨hasc, hpos⟩ := table_of_kept hm.listing
    refine { hm with ascending := ?_, positive := ?_, depth_le := Nat.zero_le _, frames := hframes }
    · exact hasc
    · intro n hn
      exact hpos n (List.mem_toArray.1 hn)
  | renew => exact ⟨.empty, List.Pairwise.nil, nofun, Memory.sound_empty, Nat.zero_le _, hframes⟩
  | load texts => exact { hm with listing := Listing.Kept.empty.loadFrom (by decide) fun _ _ => trivial }

/-- An edit brings in a line that can be scanned, or takes one out. -/
theorem Orderly.edit (hm : m.Orderly) {text : String} {line : Line} (hp : Line.parse text = .ok line) {l : Listing}
    (h : m.listing.edit line = .ok l) : Orderly { m with listing := l } :=
  { hm with listing := hm.listing.edit trivial hp h }

/-- **Every step keeps a machine in order**, and therefore all steps do. -/
theorem orderly_of_reaches {c c' : Config} (h : c.Reaches c') (hc : c.Fit) (hm : c.machine.Orderly) :
    c'.Fit ∧ c'.machine.Orderly := by
  induction h with
  | refl => exact ⟨hc, hm⟩
  | tail _ hnext ih =>
    obtain ⟨hfit, hord⟩ := ih
    obtain ⟨hfit', ⟨hs, -⟩ | ⟨text, line, l, -, hp, he, hmach, -⟩⟩ := Config.next_cases hfit hnext
    · exact ⟨hfit', hs.keep (fun _ _ hs => hs.orderly) hord⟩
    · rw [hmach]
      exact ⟨hfit', hord.edit hp he⟩

/-! ### What follows -/

/-- A line that was scanned and is not empty has a text. -/
theorem text_ne_empty {s : String} {line : Line} (hp : Line.parse s = .ok line) (he : line.isEmpty = false) :
    line.text ≠ "" := by
  have hleg := Line.legible_of_parse hp
  rw [Line.isEmpty_eq] at he
  have spelled (t : Token) (us : List Token) (ht : t.spelling ≠ "") : Line.spell (t :: us) ≠ "" := by
    intro hempty
    have hchars := Line.toList_spell_cons us ht
    rw [hempty] at hchars
    exact ht (String.toList_eq_nil_iff.1 (List.append_eq_nil_iff.1 hchars.symm).1)
  rw [Line.text]
  generalize line.tokens = ts at hleg he
  cases hleg with
  | nil => cases he
  | remark => exact spelled _ _ (by decide)
  | cons ht => exact spelled _ _ ht.spelling_ne

theorem Orderly.lines (hm : m.Orderly) : ∀ x ∈ m.listing.lines, 0 < x.1.toInt ∧ x.2 ≠ "" ∧
    ∃ ts, (Tape.ofStatements x.2).tokens? = some ts ∧ Line.spell ts = x.2 := by
  intro x hx
  obtain ⟨s, line, -, hp, he, htext⟩ := hm.listing.origin x hx
  refine ⟨hm.listing.positive x hx, ?_, line.tokens, ?_, ?_⟩
  · rw [htext]
    exact text_ne_empty hp he
  · rw [htext]
    exact Line.tokens?_ofStatements (Line.legible_of_parse hp)
  · rw [htext, Line.text]

theorem Orderly.sound (hm : m.Orderly) : m.Sound where
  table_ascending := hm.ascending
  table_positive := hm.positive
  resolve_iff := fun _ _ => Control.resolve_eq_ok_iff hm.ascending
  lines := hm.lines
  variables_sound := by
    intro name v hv
    obtain ⟨hname, hkind, hslots⟩ := hm.memory.variable_sound name v hv
    exact ⟨hname, hkind, hslots⟩
  variables_le := hm.memory.count_le
  frames_le := by
    rw [← m.control.stack.depth_eq]
    exact hm.depth_le
  loops := fun l hl => hm.frames (.loop l) hl

/-! ### Calls -/

/-- The machines that a user can have: a new one, one after whatever was asked
of it, however that ended, and one with another console. -/
inductive Reachable : Machine → Prop
  | fresh (console : Console) (chance : StdGen) : Reachable { console, chance }
  | call {m : Machine} (c : Call) (budget : Nat) :
      Reachable m → Reachable (Session.afterwards (c.act (run budget)) m)
  | console {m : Machine} (console : Console) : Reachable m → Reachable { m with console }

/-- A call leaves a machine that occurs among its steps. -/
theorem exists_reaches_afterwards (c : Call) (budget : Nat) (m : Machine) :
    ∃ c', Config.Reaches ⟨m, 0, [.call c], none⟩ c' ∧
      c'.machine = Session.afterwards (c.act (run budget)) m := by
  have hends := c.ends_act budget m
  unfold Session.afterwards
  generalize c.act (run budget) m = r at hends
  cases r with
  | ok a m' => exact ⟨_, hends, rfl⟩
  | error h m' =>
    rcases hends with hends | ⟨-, hends⟩
    · exact ⟨_, hends, rfl⟩
    · exact hends

theorem Reachable.orderly (h : m.Reachable) : m.Orderly := by
  induction h with
  | fresh console chance => exact orderly_fresh console chance
  | call c budget _ ih =>
    obtain ⟨c', hreach, hm⟩ := exists_reaches_afterwards c budget _
    rw [← hm]
    exact (orderly_of_reaches hreach (Config.fit_call _ c) ih).2
  | console console _ ih => exact { ih with }

/-- **Every machine that can be reached is sound**, and it stays so after every
single step of whatever is asked of it next. On the way at most 32 runs are
nested, and none is left when nothing is left to do. The steps end where the
machine says it ends. -/
theorem reachable_sound (hm : m.Reachable) :
    m.Sound ∧ ∀ (c : Call) (budget : Nat),
      Config.Ends ⟨m, 0, [.call c], none⟩ [] (c.act (run budget) m) ∧
        ∀ c', Config.Reaches ⟨m, 0, [.call c], none⟩ c' →
          c'.machine.Sound ∧ c'.depth ≤ 32 ∧ (c'.agenda = [] → c'.depth = 0) := by
  have hord := hm.orderly
  refine ⟨hord.sound, ?_⟩
  intro c budget
  refine ⟨c.ends_act budget m, ?_⟩
  intro c' hreach
  obtain ⟨hfit, hord'⟩ := orderly_of_reaches hreach (Config.fit_call _ c) hord
  refine ⟨hord'.sound, hfit.depth_le, ?_⟩
  intro hnil
  rw [hfit.depth_eq, hnil]
  rfl

-- A run has left a loop under way, and variables of both kinds.
theorem reachable_sound_loop :
    ∃ m : Machine, (m.control.table = #[10, 20] ∧ m.control.stack.frames.length = 1 ∧ m.memory.count = 2) ∧
      m.Sound := by
  have hm : Reachable
      (Session.afterwards ((Call.enter "run").act (run 5))
        (Session.afterwards ((Call.enter "20 a$=\"x\"").act (run 0))
          (Session.afterwards ((Call.enter "10 for i = 1 to 3").act (run 0)) {}))) :=
    .call _ 5 (.call _ 0 (.call _ 0 (.fresh {} mkStdGen)))
  exact ⟨_, by decide +kernel, (reachable_sound hm).1⟩

end Machine

end LineBasic
