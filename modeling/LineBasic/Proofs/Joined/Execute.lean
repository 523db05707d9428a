import LineBasic.Proofs.Alike.Execute
import LineBasic.Proofs.Joined.Script
import LineBasic.Proofs.Line.Joined
import LineBasic.Proofs.Machine.Step

/-!
# Executing texts joined by a colon

A colon puts one text behind another. If the first text comes to its end, the
whole goes on as the second text would on the machine that the first one left.
If the first text halts, the whole halts there in the same way. This is so for
every text that does not end in a colon and has no statement that takes in the
rest of its line.

A syntax error in the first text is no halt of this kind, since what makes no
sense at the end of a line may make sense before a colon.

* `Act.Continues`: how an outcome is continued by another act.
* `Script.exec_joined`: a script is continued by the one that it was joined
  with.
* `Machine.execute_joined`: so is a text.
-/

namespace LineBasic

/-! ### Tapes -/

namespace Tape

theorem ready_ofList (p : Position) (xs : List Lexeme) : (ofList p xs).ready = .ok (ofList p xs) := by
  cases xs <;> rfl

/-- The lexemes of a text, and the lexemes of a text that has the same tokens up
to a colon. -/
theorem joined_ofList {xs ys : List Lexeme} (h : xs.map (·.token) = ys.map (·.token))
    (hverbs : ∀ v, v.takesRest = true → .verb v ∉ xs.map (·.token))
    (hcolon : (xs.map (·.token)).getLast? ≠ some .colon) (p q : Position) (a b : Position)
    (zs : List Lexeme) : (ofList q zs).Joined (ofList p xs) (ofList q (ys ++ ⟨.colon, a, b⟩ :: zs)) := by
  induction xs generalizing ys with
  | nil =>
    obtain rfl := List.map_eq_nil_iff.1 h.symm
    exact .stop p a b
  | cons x xs ih =>
    cases ys with
    | nil => cases h
    | cons y ys =>
      obtain ⟨token, px, qx⟩ := x
      obtain ⟨_, py, qy⟩ := y
      obtain ⟨rfl, hxs⟩ := List.cons.inj h
      refine .cons token px qx py qy ?_ ?_ (ih hxs ?_ ?_)
      · intro v hv
        by_contra hrest
        exact hverbs v (by simpa using hrest) (by simp [hv])
      · rintro rfl r hstop
        cases xs with
        | nil => exact hcolon rfl
        | cons => cases hstop
      · exact fun v hv hm => hverbs v hv (List.mem_cons_of_mem _ hm)
      · intro hlast
        refine hcolon ?_
        rw [List.map_cons, List.getLast?_cons, hlast]
        rfl

end Tape

/-! ### Acts -/

/-- Whether it is a syntax error that halts. -/
def Halt.isSyntax : Halt → Bool
  | failed e => e.isSyntax
  | _ => false

/-- How an outcome is continued by the act `second`: where nothing halts, it
goes on from the machine that was left. A halt stays what it is, unless it is a
syntax error. -/
inductive Act.Continues (second : Act Unit) :
    EStateM.Result Halt Machine Unit → EStateM.Result Halt Machine Unit → Prop
  | ok (m : Machine) : Continues second (.ok () m) (second m)
  | error (h : Halt) (m : Machine) : Continues second (.error h m) (.error h m)
  | senseless {h : Halt} (m : Machine) (r : EStateM.Result Halt Machine Unit) : h.isSyntax = true →
      Continues second (.error h m) r

theorem Act.continues_fail {second : Act Unit} {e e' : Error} (h : e.Kept e') (m : Machine) :
    Continues second ((Act.fail e : Act Unit) m) ((Act.fail e' : Act Unit) m) := by
  cases hs : e.isSyntax with
  | true => exact .senseless m _ hs
  | false =>
    rw [h hs]
    exact .error (.failed e) m

/-- **A script is continued by the one that it was joined with.** -/
theorem Script.exec_joined (run : Act Unit) (line : Option Int64) {second s s' : Script}
    (h : second.Joined s s') (m : Machine) :
    Act.Continues (second.exec run line) (s.exec run line m) (s'.exec run line m) := by
  induction h generalizing m with
  | done => exact .ok m
  | step action _ ih =>
    show Act.Continues _ (EStateM.bind _ _ m) (EStateM.bind _ _ m)
    unfold EStateM.bind
    cases action.perform run line m with
    | ok _ m₁ => exact ih m₁
    | error h m₁ => exact .error h m₁
  | broken before he =>
    show Act.Continues _ (EStateM.bind _ _ m) (EStateM.bind _ _ m)
    unfold EStateM.bind
    cases Act.check before m with
    | ok _ m₁ => exact Act.continues_fail he m₁
    | error h m₁ => exact .error h m₁
  | senseless s' he => exact .senseless m _ he

/-! ### Texts -/

namespace Machine

theorem execute_unnumbered (run : Act Unit) {text : String} {ts : List Token}
    (h : (Tape.ofLine text).tokens? = some ts) (hts : ∀ n us, ts ≠ .lineNumber n :: us) :
    execute run text = (Script.read (Tape.ofLine text)).exec run none := by
  unfold execute
  generalize Tape.ofLine text = t at h
  cases t with
  | stop p => rfl
  | broken e => rfl
  | cons x rest =>
    obtain ⟨token, p, q⟩ := x
    cases token with
    | lineNumber n =>
      obtain ⟨us, -, rfl⟩ := Option.map_eq_some_iff.1 h
      exact absurd rfl (hts n us)
    | _ => rfl

section Lines

variable {s₁ s₂ : String} {l₁ l₂ : Line} (h₁ : Line.parse s₁ = .ok l₁) (hn₁ : l₁.number = none)
  (h₂ : Line.parse s₂ = .ok l₂) (hn₂ : l₂.number = none)
  (hverbs : ∀ v, v.takesRest = true → .verb v ∉ l₁.tokens) (hcolon : l₁.tokens.getLast? ≠ some .colon)

include h₁ hn₁ h₂ hn₂ hverbs hcolon

/-- Behind the colon the tokens of the second text follow. -/
theorem ofLine_joined : ∃ tail : Tape, tail.ready = .ok tail ∧ tail.Alike (Tape.ofLine s₂) ∧
    tail.Joined (Tape.ofLine s₁) (Tape.ofLine (s₁ ++ ":" ++ s₂)) := by
  obtain ⟨xs, p, hxs, hx⟩ := Tape.exists_ofList (Line.tokens?_of_unnumbered h₁ hn₁)
  obtain ⟨ys, q, hys, hy⟩ := Tape.exists_ofList (Line.tokens?_of_unnumbered h₂ hn₂)
  obtain ⟨ws, r, hws, hw⟩ := Tape.exists_ofList (Line.tokens?_join h₁ hn₁ h₂ hn₂ (hverbs .remark rfl))
  obtain ⟨us, vs, rfl, hu, hv⟩ := List.map_eq_append_iff.1 hw
  obtain ⟨⟨token, a, b⟩, zs, rfl, hc, hz⟩ := List.map_eq_cons_iff.1 hv
  obtain rfl : token = .colon := hc
  refine ⟨.ofList r zs, Tape.ready_ofList r zs, ?_, ?_⟩
  · rw [hys]
    exact Tape.alike_ofList (hz.trans hy.symm) r q
  · rw [hxs, hws]
    exact Tape.joined_ofList (hx.trans hu.symm) (by rwa [hx]) (by rwa [hx]) p r a b zs

/-- What the first text does is continued by what the second text does, but for
positions. -/
theorem execute_continues (run : Act Unit) (m : Machine) : ∃ second : Act Unit,
    second.Alike (execute run s₂) ∧
      Act.Continues second (execute run s₁ m) (execute run (s₁ ++ ":" ++ s₂) m) := by
  obtain ⟨tail, hready, halike, hjoined⟩ := ofLine_joined h₁ hn₁ h₂ hn₂ hverbs hcolon
  have hs₁ := (Line.scans_of_unnumbered h₁ hn₁).1
  have hs₂ := (Line.scans_of_unnumbered h₂ hn₂).1
  have hs := hs₁.join (hverbs .remark rfl) hs₂
  rw [execute_unnumbered run (Line.tokens?_of_unnumbered h₁ hn₁) hs₁.ne_lineNumber,
    execute_unnumbered run (Line.tokens?_of_unnumbered h₂ hn₂) hs₂.ne_lineNumber,
    execute_unnumbered run (Line.tokens?_join h₁ hn₁ h₂ hn₂ (hverbs .remark rfl)) hs.ne_lineNumber]
  exact ⟨_, Script.exec_alike run none (Script.read_alike halike),
    Script.exec_joined run none (Script.read_joined hready hjoined) m⟩

end Lines

/-- **A colon puts one text behind another.** Let the first text have no `IF`,
`ON`, `FOR` or `REM`, and let it not end in a colon. If it comes to its end,
then the whole leaves the machine, console included, that the second text leaves
from there, and comes to the same end; if that is a syntax error, its position
may differ. If the first text halts, and not by a syntax error, then the whole
halts in the same way and leaves the same machine. -/
theorem execute_joined {s₁ s₂ : String} {l₁ l₂ : Line} (h₁ : Line.parse s₁ = .ok l₁) (hn₁ : l₁.number = none)
    (h₂ : Line.parse s₂ = .ok l₂) (hn₂ : l₂.number = none)
    (hverbs : ∀ v ∈ [Verb.when, .on, .loop, .remark], .verb v ∉ l₁.tokens)
    (hcolon : l₁.tokens.getLast? ≠ some .colon) (budget : Nat) (m : Machine) :
    (∀ m₁, execute (run budget) s₁ m = .ok () m₁ →
      Act.OutcomeAlike (execute (run budget) (s₁ ++ ":" ++ s₂) m) (execute (run budget) s₂ m₁)) ∧
    (∀ h m₁, execute (run budget) s₁ m = .error h m₁ → h.isSyntax = false →
      execute (run budget) (s₁ ++ ":" ++ s₂) m = .error h m₁) := by
  have hrest (v : Verb) (hv : v.takesRest = true) : .verb v ∉ l₁.tokens := by
    refine hverbs v ?_
    cases v with
    | when | on | loop | remark => simp
    | _ => cases hv
  obtain ⟨second, halike, hout⟩ := execute_continues h₁ hn₁ h₂ hn₂ hrest hcolon (run budget) m
  generalize execute (run budget) (s₁ ++ ":" ++ s₂) m = r at hout
  constructor
  · intro m₁ hm
    rw [hm] at hout
    cases hout with
    | ok => exact halike m₁
  · intro h m₁ hm hh
    rw [hm] at hout
    cases hout with
    | error => rfl
    | senseless _ _ hs =>
      rw [hh] at hs
      cases hs

-- Statements that find out for themselves where they end stand before the
-- colon. Behind the loop of the second text a syntax error is raised, which the
-- two texts place differently. The jump halts before it comes to that.
theorem execute_joined_listed :
    let s₁ := "here:dim a(3),b(2):a(1)=7:print a(1);:list"
    let s₂ := "for i=1 to 3:print i,:next i:goto"
    let jump := "print 3;:goto 99"
    (∃ m₁, execute (run 0) s₁ {} = .ok () m₁ ∧
      Act.OutcomeAlike (execute (run 0) (s₁ ++ ":" ++ s₂) {}) (execute (run 0) s₂ m₁)) ∧
    ∃ m₁, execute (run 0) jump {} = .error (.failed (.undefinedLine 99)) m₁ ∧
      execute (run 0) (jump ++ ":" ++ s₂) {} = .error (.failed (.undefinedLine 99)) m₁ := by
  intro s₁ s₂ jump
  have parsed {s : String} (h : ((Line.parse s).map fun l => decide (l.number = none ∧
      (∀ v ∈ [Verb.when, .on, .loop, .remark], .verb v ∉ l.tokens) ∧
      l.tokens.getLast? ≠ some .colon)).toOption = some true) :
      ∃ l, Line.parse s = .ok l ∧ l.number = none ∧
        (∀ v ∈ [Verb.when, .on, .loop, .remark], .verb v ∉ l.tokens) ∧ l.tokens.getLast? ≠ some .colon := by
    obtain ⟨l, hl, hp⟩ := Line.exists_parse_of_map h
    exact ⟨l, hl, of_decide_eq_true hp⟩
  obtain ⟨l₂, h₂, hn₂⟩ := Line.exists_parse_of_number (s := s₂) (n := none) (by decide +kernel)
  constructor
  · obtain ⟨l₁, h₁, hn₁, hverbs, hcolon⟩ := parsed (s := s₁) (by decide +kernel)
    obtain ⟨m₁, hm⟩ := Act.exists_ok_of_halt? (x := execute (run 0) s₁) (m := {}) (by decide +kernel)
    exact ⟨m₁, hm, (execute_joined h₁ hn₁ h₂ hn₂ hverbs hcolon 0 {}).1 m₁ hm⟩
  · obtain ⟨l₁, h₁, hn₁, hverbs, hcolon⟩ := parsed (s := jump) (by decide +kernel)
    obtain ⟨m₁, hm⟩ := Act.exists_error_of_halt? (x := execute (run 0) jump) (m := {})
      (h := .failed (.undefinedLine 99)) (by decide +kernel)
    exact ⟨m₁, hm, (execute_joined h₁ hn₁ h₂ hn₂ hverbs hcolon 0 {}).2 _ m₁ hm rfl⟩

end Machine

end LineBasic
