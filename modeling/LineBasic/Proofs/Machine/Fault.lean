import LineBasic.Proofs.Listing.View
import LineBasic.Proofs.Machine.Step
import LineBasic.Session

/-!
# The interpreter is not at fault

There are errors that put the interpreter itself at fault: a function without an
argument, a variable, a loop or a line that has vanished. In a session on a
plain console only the last of them occurs, and only if the table of line
numbers has become stale: since it was made, a line was deleted, or another
program loaded.

* `Config.Reached`: the moments of a session.
* `Config.Untouched`: the moments at which the table cannot be stale.
* `Config.internal_only_vanished`: an internal error is a line that has
  vanished, at a moment when the table may be stale.
-/

namespace LineBasic

open Machine (Shift Shifts)

namespace Config

/-- A statement `LOAD` is to be executed. -/
def Loads (c : Config) : Prop := c.verb? = some .load

/-- A statement `RUN`, `RESET` or `NEW` is to be executed. -/
def Renews (c : Config) : Prop := c.verb? = some .run ∨ c.verb? = some .reset ∨ c.verb? = some .new

/-- A line that was entered, and is nothing but the number of a line of the
program, is to delete it. -/
def Removes (c : Config) : Prop :=
  ∃ text line n, c.agenda.head? = some (.call (.enter text)) ∧ Line.parse text = .ok line ∧
    line.number = some n ∧ line.isEmpty = true ∧ (c.machine.listing.find? n).isSome

/-- The moments of a session. It begins with a new machine, and lines are
entered one after the other. Between them the user may turn to another console,
as long as it is plain. -/
inductive Reached : Config → Prop
  | fresh {console : Console} (chance : StdGen) : console.Plain → Reached ⟨{ console, chance }, 0, [], none⟩
  | enter {c : Config} {console : Console} (text : String) : Reached c → c.agenda = [] → console.Plain →
      Reached ⟨{ c.machine with console }, c.depth, [.call (.enter text)], none⟩
  | next {c c' : Config} : Reached c → c.next = some c' → Reached c'

/-- The moments at which no line was deleted and no program loaded since the
beginning of the session, or since the last `RUN`, `RESET` or `NEW` that
succeeded. -/
inductive Untouched : Config → Prop
  | fresh {console : Console} (chance : StdGen) : console.Plain → Untouched ⟨{ console, chance }, 0, [], none⟩
  | enter {c : Config} {console : Console} (text : String) : Untouched c → c.agenda = [] → console.Plain →
      Untouched ⟨{ c.machine with console }, c.depth, [.call (.enter text)], none⟩
  | renew {c c' : Config} : Reached c → c.Renews → c.next = some c' → c'.halt = none → Untouched c'
  | next {c c' : Config} : Untouched c → ¬ c.Loads → ¬ c.Removes → c.next = some c' → Untouched c'

variable {c c' : Config}

theorem Reached.of_reaches (hc : c.Reached) (h : c.Reaches c') : c'.Reached := by
  induction h with
  | refl => exact hc
  | tail _ hnext ih => exact .next ih hnext

/-- **What is known of a session.** The console stays plain, and every halt has
an excuse. -/
theorem Reached.excused (h : c.Reached) : c.Fit ∧ c.machine.console.Plain ∧ c.Excused := by
  induction h with
  | fresh chance hp =>
    exact ⟨⟨nofun, nofun, rfl, Nat.zero_le _⟩, hp, nofun⟩
  | enter text _ hnil hp ih =>
    obtain ⟨hfit, -, -⟩ := ih
    refine ⟨⟨List.forall_mem_singleton.2 trivial, nofun, ?_, hfit.depth_le⟩, hp, nofun⟩
    have hd := hfit.depth_eq
    rw [hnil] at hd
    exact hd
  | next _ hnext ih =>
    obtain ⟨hfit, hp, hx⟩ := ih
    obtain ⟨hfit', ⟨hs, hx'⟩ | ⟨text, line, l, -, -, -, hm, hh⟩⟩ := next_cases hfit hnext
    · exact ⟨hfit', hs.plain hp, hx' hp hx⟩
    · refine ⟨hfit', ?_, ?_⟩
      · rw [hm]
        exact hp
      · intro h hmem
        rw [hh] at hmem
        cases hmem

theorem Untouched.reached (h : c.Untouched) : c.Reached := by
  induction h with
  | fresh chance hp => exact .fresh chance hp
  | enter text _ hnil hp ih => exact .enter text ih hnil hp
  | renew hc _ hnext _ => exact .next hc hnext
  | next _ _ _ hnext ih => exact .next ih hnext

end Config

/-! ### The table and the listing -/

namespace Listing

variable {l l' : Listing}

theorem mem_numbers_insert {n k : Int64} (text : String) (h : k ∈ l.numbers) : k ∈ (l.insert n text).numbers := by
  have hfind := isSome_find?_iff.2 h
  rw [← isSome_find?_iff, find?_insert]
  split
  · rfl
  · exact hfind

/-- Only an empty line with the number of a line that is listed takes a line
out. -/
theorem mem_numbers_edit {line : Line} (he : l.edit line = .ok l')
    (hempty : ∀ n, line.number = some n → line.isEmpty = true → ¬ (l.find? n).isSome) {k : Int64}
    (hk : k ∈ l.numbers) : k ∈ l'.numbers := by
  unfold edit at he
  cases hn : line.number with
  | none =>
    rw [hn] at he
    cases he
  | some n =>
    rw [hn] at he
    simp only [store] at he
    split at he
    case isTrue hline =>
      rw [if_neg (hempty n hn hline)] at he
      cases he
    case isFalse =>
      obtain rfl := Except.ok.inj he
      exact mem_numbers_insert line.text hk

end Listing

namespace Machine

variable {allowed : Verb → Prop} {m m' : Machine}

/-- Every line of the table is listed. -/
def Linked (m : Machine) : Prop := ∀ n ∈ m.control.table, n ∈ m.listing.numbers

/-- No shift but loading a program makes the table stale. -/
theorem Shift.linked (h : Shift allowed m m') (hl : ¬ allowed .load) (hm : m.Linked) : m'.Linked := by
  cases h with
  | control hc =>
    cases hc with
    | push hf hpush =>
      unfold Control.push Stack.push at hpush
      split at hpush
      · cases hpush
      · obtain rfl := Except.ok.inj hpush
        exact hm
    | _ => exact hm
  | rewind => exact fun n hn => List.mem_toArray.1 hn
  | renew => exact fun n hn => absurd hn (Array.not_mem_empty n)
  | load texts h => exact absurd h hl
  | _ => exact hm

/-- Behind a reset the table is that of the listing. -/
theorem linked_of_reset (h : reset m = .ok () m') : m'.Linked := by
  have hclear : (modify fun m => { m with memory := .empty } : Act Unit) m = .ok () { m with memory := .empty } :=
    rfl
  rw [reset, Act.bind_ok hclear, Act.get_bind] at h
  generalize ({ m with memory := .empty } : Machine) = m₁ at h
  cases hb : bindLabels m₁.listing.labels.toList m₁ with
  | error e m₂ =>
    rw [Act.bind_error hb] at h
    cases h
  | ok u m₂ =>
    rw [Act.bind_ok hb] at h
    cases h
    exact fun n hn => List.mem_toArray.1 hn

/-- `RUN`, `RESET` and `NEW` leave no stale table behind if they succeed. -/
theorem linked_of_renews {c c' : Config} (hr : c.Renews) (h : c.next = some c') (hh : c'.halt = none) :
    c'.machine.Linked := by
  obtain ⟨m, d, agenda, halt⟩ := c
  rcases agenda with _ | ⟨t, rest⟩
  · rcases hr with hr | hr | hr <;> cases hr
  cases halt with
  | some e => rcases hr with hr | hr | hr <;> cases hr
  | none =>
    -- a reset, and then something else to do
    have behind (ts : List Task) (hnext : Config.next ⟨m, d, t :: rest, none⟩ =
        some (Config.settle d rest ((reset >>= fun _ => pure ts) m))) : c'.machine.Linked := by
      obtain rfl := Option.some.inj (hnext.symm.trans h)
      cases hreset : reset m with
      | error e m' =>
        rw [Act.bind_error hreset] at hh
        cases hh
      | ok u m' =>
        rw [Act.bind_ok hreset]
        exact linked_of_reset hreset
    cases t with
    | script line s =>
      cases s with
      | step a s =>
        cases a with
        | run => exact behind _ rfl
        | reset => exact behind _ rfl
        | new =>
          obtain rfl := Option.some.inj h
          exact fun n hn => absurd hn (Array.not_mem_empty n)
        | _ => rcases hr with hr | hr | hr <;> cases hr
      | _ => rcases hr with hr | hr | hr <;> cases hr
    | _ => rcases hr with hr | hr | hr <;> cases hr

end Machine

/-! ### Sessions -/

namespace Config

variable {c c' : Config}

/-- No step but loading a program or deleting a line makes the table stale. -/
theorem Moves.linked (h : c.Moves c') (hl : ¬ c.Loads) (hr : ¬ c.Removes) (hc : c.machine.Linked) :
    c'.machine.Linked := by
  rcases h with ⟨hs, -⟩ | ⟨text, line, l, htask, hp, he, hm, -⟩
  · exact hs.keep (fun _ _ hs => hs.linked hl) hc
  · rw [hm]
    intro n hn
    refine Listing.mem_numbers_edit he ?_ (hc n hn)
    intro k hk hempty hfound
    exact hr ⟨text, line, k, htask, hp, hk, hempty, hfound⟩

/-- **At an untouched moment every line of the table is listed.** -/
theorem Untouched.linked (h : c.Untouched) : c.machine.Linked := by
  induction h with
  | fresh chance hp => exact fun n hn => absurd hn (Array.not_mem_empty n)
  | enter text _ _ _ ih => exact ih
  | renew _ hr hnext hh => exact Machine.linked_of_renews hr hnext hh
  | next hc hl hr hnext ih =>
    obtain ⟨hfit, -, -⟩ := hc.reached.excused
    exact (next_cases hfit hnext).2.linked hl hr ih

/-- An internal error is a line that has vanished, and the table is stale. -/
theorem Reached.internal (hc : c.Reached) {e : Error} (h : c.halt = some (.failed e)) (he : e.kind.code = 51) :
    (∃ n, e = .lineVanished n) ∧ ¬ c.Untouched := by
  have hkind : e.kind = .internalError := by
    generalize e.kind = k at he
    cases k <;> first | rfl | cases he
  obtain ⟨-, -, hx⟩ := hc.excused
  rcases hx (.failed e) h e rfl with ho | ⟨n, hn, hfind, rfl⟩
  · exact absurd hkind ho
  · refine ⟨⟨n, rfl⟩, ?_⟩
    intro hu
    have hlisted := Listing.isSome_find?_iff.2 (hu.linked n hn)
    rw [hfind] at hlisted
    cases hlisted

/-- A line that is entered leads to another moment of the session, unless it
goes on forever. -/
theorem Reached.after (hc : c.Reached) (hnil : c.agenda = []) {console : Console} (hp : console.Plain)
    (text : String) (budget : Nat)
    (hx : (Machine.enter (Machine.run budget) text).halt? { c.machine with console } ≠ some .exhausted) :
    Reached ⟨Session.afterwards (Machine.enter (Machine.run budget) text) { c.machine with console }, 0, [],
      (Machine.enter (Machine.run budget) text).halt? { c.machine with console }⟩ := by
  have hstart := Reached.enter text hc hnil hp
  have hdepth : c.depth = 0 := by
    obtain ⟨hfit, -, -⟩ := hc.excused
    rw [hfit.depth_eq, hnil]
    rfl
  rw [hdepth] at hstart
  have hends := (Call.enter text).ends_act budget { c.machine with console }
  change Config.Ends _ [] (Machine.enter (Machine.run budget) text { c.machine with console }) at hends
  unfold Act.halt? Session.afterwards at *
  generalize Machine.enter (Machine.run budget) text { c.machine with console } = r at hends hx
  cases r with
  | ok a m => exact hstart.of_reaches hends
  | error h m =>
    rcases hends with hends | ⟨hh, -⟩
    · exact hstart.of_reaches hends
    · exact absurd (congrArg some hh) hx

/-- **The only internal error is a line that has vanished, and the table must be
stale for it.** At every moment of a session on plain consoles: an internal
error is `LINE VANISHED`, and since the last successful `RUN`, `RESET` or `NEW`
a line was deleted or a program loaded. As long as that is not so, every line of
the table is listed. The same holds of what a line returns that is entered
next. -/
theorem internal_only_vanished (hc : c.Reached) :
    (∀ e, c.halt = some (.failed e) → e.kind.code = 51 → (∃ n, e = .lineVanished n) ∧ ¬ c.Untouched) ∧
      (c.Untouched → ∀ n ∈ c.machine.control.table, (c.machine.listing.find? n).isSome) ∧
      (c.agenda = [] → ∀ (console : Console) (text : String) (budget : Nat) (e : Error) (m : Machine),
        console.Plain →
        Machine.enter (Machine.run budget) text { c.machine with console } = .error (.failed e) m →
        e.kind.code = 51 →
        (∃ n, e = .lineVanished n) ∧
          Reached ⟨m, 0, [], some (.failed e)⟩ ∧ ¬ Untouched ⟨m, 0, [], some (.failed e)⟩) := by
  refine ⟨fun e => hc.internal, ?_, ?_⟩
  · intro hu n hn
    exact Listing.isSome_find?_iff.2 (hu.linked n hn)
  · intro hnil console text budget e m hp hm he
    have hafter := hc.after hnil hp text budget (by rw [Act.halt?, hm]; nofun)
    rw [Act.halt?, Session.afterwards, hm] at hafter
    exact ⟨(hafter.internal rfl he).1, hafter, (hafter.internal rfl he).2⟩

-- Line 20 is deleted behind the reset, and then the program goes on to it.
theorem internal_only_vanished_stale :
    ∃ c : Config, c.Reached ∧ c.halt = some (.failed (.lineVanished 20)) ∧ ¬ c.Untouched := by
  have plain : Console.Plain {} := ⟨rfl, rfl⟩
  have h₁ := (Reached.fresh mkStdGen plain).after rfl plain "10 print 1" 3 (by decide +kernel)
  have h₂ := h₁.after rfl plain "20 print 2" 3 (by decide +kernel)
  have h₃ := h₂.after rfl plain "reset" 3 (by decide +kernel)
  have h₄ := h₃.after rfl plain "20" 3 (by decide +kernel)
  have h₅ := h₄.after rfl plain "cont" 3 (by decide +kernel)
  refine ⟨_, h₅, by decide +kernel, ?_⟩
  exact ((internal_only_vanished h₅).1 (.lineVanished 20) (by decide +kernel) rfl).2

end Config

end LineBasic
