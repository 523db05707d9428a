import LineBasic.Proofs.Grammar.Statement

/-!
# Scripts before a colon

A text that is joined to another one by a colon goes on where it would have
ended. A reader of expressions does not notice: a colon ends an expression just
as the end of the text does. Each statement decides for itself where it stops.
Unless it takes in the rest of its line, it stops at a colon where it would have
stopped at the end of the line, with the same script so far. Behind the colon
the line goes on with the script of the tape that was joined.

The one statement that a colon changes is a name at the end of a line. Before a
colon it is a label; at the end of the line it makes no sense. Where a line
breaks off, it does so behind the same operands. Only a syntax error may name
another thing than the end of the line.

* `Tape.Joined`: a tape, and the one that goes on with a colon where the first
  one ends.
* `Script.Joined`: a script, and the one that goes on with `second` where the
  first one is done.
* `Script.read_joined`: tapes that are joined have such scripts.
-/

namespace LineBasic

/-- The error stays what it is, unless it is a syntax error. -/
def Error.Kept (e e' : Error) : Prop := e.isSyntax = false → e' = e

theorem Error.Kept.refl (e : Error) : e.Kept e := fun _ => rfl

theorem Error.kept_expected (p : Position) (name : String) (thing : Option String) (e : Error) :
    (Error.expected p name thing).Kept e := by
  intro hk
  cases hk

/-- Whether a statement with this verb takes in what follows it on its line: a
condition decides about all the rest, a loop has its body there, and a remark is
nothing but text. -/
def Verb.takesRest : Verb → Bool
  | when | on | loop | remark => true
  | _ => false

/-! ### Tapes -/

namespace Tape

/-- The second tape goes on with a colon and `tail` where the first one ends. No
statement of the first tape takes in what follows it, and the first tape does
not end in a colon. -/
inductive Joined (tail : Tape) : Tape → Tape → Prop
  | stop (p q q' : Position) : Joined tail (.stop p) (.cons ⟨.colon, q, q'⟩ tail)
  | cons (token : Token) (p q p' q' : Position) {r r' : Tape} :
      (∀ v, token = .verb v → v.takesRest = false) → (token = .colon → ∀ x, r ≠ .stop x) →
      Joined tail r r' → Joined tail (.cons ⟨token, p, q⟩ r) (.cons ⟨token, p', q'⟩ r')

variable {tail t t' : Tape}

theorem Joined.length_eq (h : tail.Joined t t') : t'.length = t.length + (tail.length + 1) := by
  induction h with
  | stop p q q' => simp [length]
  | cons _ _ _ _ _ _ _ _ ih => simp only [length, ih]; omega

/-- What a tape can say that was scanned to its end is a syntax error. -/
theorem Joined.kept_expected (h : tail.Joined t t') (name : String) (e' : Error) :
    (t.expected name).Kept e' := by
  cases h with
  | stop p => exact Error.kept_expected p name none e'
  | cons token p => exact Error.kept_expected p name _ e'

end Tape

/-! ### Scripts -/

namespace Script

/-- The second script goes on with `second` where the first one is done. Where
the first one breaks off, so does the second one, unless the first finds no
statement there. -/
inductive Joined (second : Script) : Script → Script → Prop
  | done : Joined second .done second
  | step (action : Action) {s s' : Script} : Joined second s s' → Joined second (.step action s) (.step action s')
  | broken (before : List Operand) {e e' : Error} : e.Kept e' →
      Joined second (.broken before e) (.broken before e')
  | senseless {e : Error} (s' : Script) : e.isSyntax = true → Joined second (.broken [] e) s'

variable {tail t t' : Tape}

/-- Tapes joined are read in lockstep, if those are that are shorter. -/
theorem lockstep_joined {n : Nat} (htail : tail.ready = .ok tail)
    (ha : ∀ ⦃u u' : Tape⦄, tail.Joined u u' → u.length < n →
      (read tail).Joined (read u) (read u')) :
    Lockstep (fun u u' => tail.Joined u u' ∧ u.length ≤ n) Error.Kept (tail.length + 1)
      (·.takesRest = false) (read tail).Joined read read where
  heads := by
    rintro t t' ⟨h, hn⟩
    cases h with
    | stop p q q' => exact .ended p q q' tail
    | cons x p q p' q' _ _ hr => exact .cons x p q p' q' ⟨hr, Nat.le_of_succ_le hn⟩
  expected h name := h.1.kept_expected name _
  everyday _ := .refl _
  length h := h.1.length_eq
  verb := by
    rintro v p q p' q' r r' ⟨h, -⟩
    cases h with
    | cons _ _ _ _ _ hv => exact hv v rfl
  handed := by
    rintro x x' r r' ⟨h, hn⟩
    cases h with
    | cons _ _ _ _ _ _ _ hr => exact ha hr hn
  done h := by cases h.1
  broken _ he := .broken _ he
  step _ hs := .step _ hs
  branch hv := by
    rcases hv with hv | hv <;> cases hv
  loop hv := by cases hv
  bodies hv := by cases hv
  ended := by
    rintro p q q' r' ⟨h, -⟩
    cases h with
    | stop p q q' =>
      refine ⟨?_, fun _ => .senseless _ rfl, nofun⟩
      have hrest : readRest read (.cons ⟨.colon, q, q'⟩ tail) = read tail := by
        simp only [readRest, htail]
        rfl
      rw [hrest]
      exact .done
  colon := by
    rintro p q p' q' z y r' ⟨h, -⟩
    cases h with
    | cons _ _ _ _ _ _ hc => exact hc rfl z rfl

/-- **The script of a tape goes on, behind a colon, with the script of the tape
that was joined.** -/
theorem read_joined (htail : tail.ready = .ok tail) (h : tail.Joined t t') :
    (read tail).Joined (read t) (read t') := by
  -- what a statement hands on is shorter, so the induction is on the length of
  -- the tape
  induction hn : t.length using Nat.strong_induction_on generalizing t t' with
  | _ n ih =>
    rw [read_eq_readStatement t, read_eq_readStatement t']
    refine (lockstep_joined htail ?_).readStatement ⟨h, hn.le⟩
    intro u u' hu hlt
    exact ih _ hlt hu rfl

end Script

end LineBasic
