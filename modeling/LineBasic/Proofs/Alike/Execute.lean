import LineBasic.Machine.Run
import LineBasic.Proofs.Alike.Script
import LineBasic.Proofs.Line.RoundTrip

/-!
# Executing lines alike

Lines with the same tokens do the same to every machine. They leave the same
machine behind, and end in the same way, but for the position that a syntax
error names. A line and its text, in which every token is spelled out and set
apart by a single space, are such lines.

* `Act.Alike`: acts that leave the same machine and end alike.
* `Script.exec_alike`: scripts alike do alike.
* `Machine.execute_alike`: so do texts with the same tokens.
* `Machine.execute_line_text`: a line does what its text does.
-/

namespace LineBasic

/-! ### Acts -/

namespace Act

variable {α β : Type}

/-- The same machine is left, with the same result or with halts alike. -/
inductive OutcomeAlike : EStateM.Result Halt Machine α → EStateM.Result Halt Machine α → Prop
  | ok (a : α) (m : Machine) : OutcomeAlike (.ok a m) (.ok a m)
  | error {h h' : Halt} (m : Machine) : h.Alike h' → OutcomeAlike (.error h m) (.error h' m)

/-- On every machine the acts have outcomes alike. -/
def Alike (x y : Act α) : Prop := ∀ m, OutcomeAlike (x m) (y m)

theorem Alike.refl (x : Act α) : x.Alike x := by
  intro m
  cases x m with
  | ok a m' => exact .ok a m'
  | error h m' => exact .error m' (.refl h)

theorem alike_fail {e e' : Error} (h : e.Alike e') : Alike (fail e : Act α) (fail e') :=
  fun m => .error m h

/-- Acts alike that go on alike are alike. -/
theorem Alike.bind {x y : Act α} (h : x.Alike y) {f g : α → Act β} (hfg : ∀ a, (f a).Alike (g a)) :
    (x >>= f).Alike (y >>= g) := by
  intro m
  have hm := h m
  show OutcomeAlike (EStateM.bind x f m) (EStateM.bind y g m)
  unfold EStateM.bind
  generalize x m = r at hm
  generalize y m = r' at hm
  cases hm with
  | ok a m' => exact hfg a m'
  | error m' hh => exact .error m' hh

-- A pass leaves less room, and the measure of `passes` is that room.
theorem passes_alike (limit : Int64) (step : Stride) {pass pass' : Int64 → Act Unit}
    (h : ∀ v, (pass v).Alike (pass' v)) (v : Int64) :
    (passes limit step pass v).Alike (passes limit step pass' v) := by
  rw [passes, passes]
  split
  · refine (h v).bind fun _ => ?_
    split
    case h_1 w hw =>
      have := Stride.room_lt_of_next? hw
      exact passes_alike limit step h w
    case h_2 => exact .refl _
  · exact .refl _
termination_by step.room v

end Act

/-- **Scripts alike do alike.** -/
theorem Script.exec_alike (run : Act Unit) (line : Option Int64) {s s' : Script} (h : s.Alike s') :
    (s.exec run line).Alike (s'.exec run line) := by
  induction h with
  | done => exact .refl _
  | broken before he => exact (Act.Alike.refl _).bind fun _ => Act.alike_fail he
  | step action _ ih => exact (Act.Alike.refl _).bind fun _ => ih
  | branch c _ _ yes no =>
    rw [Script.exec, Script.exec]
    refine (Act.Alike.refl _).bind fun b => ?_
    cases b with
    | true => exact yes
    | false => exact no
  | loop head _ _ body rest =>
    rw [Script.exec, Script.exec]
    refine (Act.Alike.refl _).bind fun r => ?_
    refine (Act.passes_alike _ _ (fun v => ?_) _).bind fun _ => rest
    exact (Act.Alike.refl _).bind fun _ => body

/-! ### Texts -/

theorem Tape.alike_of_tokens? {t t' : Tape} {ts : List Token} (h : t.tokens? = some ts) (h' : t'.tokens? = some ts) :
    t.Alike t' := by
  obtain ⟨xs, p, rfl, hxs⟩ := exists_ofList h
  obtain ⟨ys, q, rfl, hys⟩ := exists_ofList h'
  exact alike_ofList (hxs.trans hys.symm) p q

namespace Machine

/-- **Texts with the same tokens do alike.** -/
theorem execute_alike (run : Act Unit) {s s' : String} (h : (Tape.ofLine s).Alike (Tape.ofLine s')) :
    (execute run s).Alike (execute run s') := by
  unfold execute
  generalize Tape.ofLine s = t at h
  generalize Tape.ofLine s' = t' at h
  have direct := Script.exec_alike run none (Script.read_alike h)
  cases h with
  | stop p q => exact direct
  | broken _ => exact direct
  | cons x _ _ _ _ hr =>
    cases x with
    | lineNumber n => exact Script.exec_alike run (some n) (Script.read_alike hr)
    | _ => exact direct

/-- However many lines it is granted, the text does not come to an end on the
machine. -/
def Diverges (text : String) (m : Machine) : Prop :=
  ∀ budget, ∃ m', execute (run budget) text m = .error .exhausted m'

theorem Diverges.of_alike {s s' : String} (h : (Tape.ofLine s).Alike (Tape.ofLine s')) {m : Machine}
    (hs : Diverges s m) : Diverges s' m := by
  intro budget
  obtain ⟨m', hm⟩ := hs budget
  have hout := execute_alike (run budget) h m
  rw [hm] at hout
  generalize execute (run budget) s' m = r at hout
  cases hout with
  | error _ hh => exact ⟨m', by rw [Halt.Alike.eq_exhausted hh]⟩

/-- A line without a number and its text have the same tokens. -/
theorem ofLine_text_alike {s : String} {l : Line} (h : Line.parse s = .ok l) (hn : l.number = none) :
    (Tape.ofLine s).Alike (Tape.ofLine l.text) := by
  obtain ⟨-, hfirst, -⟩ := Line.scans_of_parse h
  obtain ⟨l', hl', hn', htok⟩ := Line.parse_spell (Line.legible_of_parse h) (hfirst hn)
  have hall : l'.allTokens = l.allTokens := by
    unfold Line.allTokens
    rw [hn, hn', htok]
  have htext := Line.tokens?_ofLine hl'
  rw [hall] at htext
  exact Tape.alike_of_tokens? (Line.tokens?_ofLine h) htext

/-- **A line does what its text does.** Executed on the same machine, with as
many lines granted, a line without a number and its text leave the same machine,
console included. Both come to the same end; if that is a syntax error, its
position may differ. One of them goes on forever just when the other one
does. -/
theorem execute_line_text {s : String} {l : Line} (h : Line.parse s = .ok l) (hn : l.number = none)
    (m : Machine) :
    (∀ budget, Act.OutcomeAlike (execute (run budget) s m) (execute (run budget) l.text m)) ∧
      (Diverges s m ↔ Diverges l.text m) := by
  have htape := ofLine_text_alike h hn
  refine ⟨fun budget => execute_alike (run budget) htape m, ?_, ?_⟩
  · exact Diverges.of_alike htape
  · exact Diverges.of_alike htape.symm

-- Behind the loop a syntax error is raised, which the text and the line place
-- differently.
theorem execute_line_text_loop :
    ∃ l, Line.parse "for i=1to 3:print  i,:next i:goto" = .ok l ∧ l.number = none ∧
      (∀ budget, Act.OutcomeAlike (execute (run budget) "for i=1to 3:print  i,:next i:goto" {})
        (execute (run budget) l.text {})) ∧
      (Diverges "for i=1to 3:print  i,:next i:goto" {} ↔ Diverges l.text {}) := by
  obtain ⟨l, hl, hn⟩ := Line.exists_parse_of_number (s := "for i=1to 3:print  i,:next i:goto") (n := none)
    (by decide +kernel)
  exact ⟨l, hl, hn, execute_line_text hl hn {}⟩

end Machine

end LineBasic
