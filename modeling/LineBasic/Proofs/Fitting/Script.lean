import LineBasic.Proofs.Lockstep.Script

/-!
# Scripts that fit

A script that was read holds only expressions whose calls fit, its loops count
in numeric variables, and its actions are those of the verbs on the tape. Where
it breaks off, the error says where, and that is a position on the tape. This
holds for the body of a loop in one line too, since the body is cut out of the
tape.

* `Tape.Fits`: the verbs on the tape are allowed, and its positions are of
  certain places.
* `Tape.tokens`: the tokens of a text, as far as it can be scanned.
* `Tape.Scannable.fits`: the tape of a text fits if its verbs are allowed.
* `Script.Fits`: what is known of a script that was read, given which verbs were
  allowed.
* `Script.read_fits`: a tape that fits has a script that fits.
-/

namespace LineBasic

/-! ### Tapes -/

/-- If the lexeme is a verb, it is allowed. -/
structure Lexeme.Fits (allowed : Verb → Prop) (here : Position → Prop) (x : Lexeme) : Prop where
  verb : ∀ v, x.token = .verb v → allowed v
  within : x.Within here

/-- Only verbs that are allowed are on the tape, and only lexemes within the
places. Where it cannot be scanned, the error is sited. -/
def Tape.Fits (allowed : Verb → Prop) (here : Position → Prop) : Tape → Prop
  | stop p => here p
  | broken e => e.Sited here
  | cons x rest => x.Fits allowed here ∧ rest.Fits allowed here

namespace Tape

/-- The tokens up to the end of the text, or to the first place where it cannot
be scanned. -/
def tokens : Tape → List Token
  | stop _ | broken _ => []
  | cons x rest => x.token :: rest.tokens

variable {allowed : Verb → Prop} {here : Position → Prop}

theorem Fits.expected {t : Tape} (h : t.Fits allowed here) (name : String) :
    (t.expected name).Sited here := by
  cases t with
  | stop p => exact ⟨nofun, fun _ => ⟨rfl, p, rfl, h⟩⟩
  | broken e => exact h
  | cons x rest => exact ⟨nofun, fun _ => ⟨rfl, x.start, rfl, h.1.within.start⟩⟩

theorem Scannable.fits {t : Tape} (h : t.Scannable here) (hv : ∀ v, .verb v ∈ t.tokens → allowed v) :
    t.Fits allowed here := by
  induction t with
  | stop p => exact h
  | broken e => exact h
  | cons x rest ih =>
    refine ⟨⟨?_, h.1⟩, ih h.2 fun v hm => hv v (List.mem_cons_of_mem _ hm)⟩
    intro v hx
    exact hv v (by rw [tokens, hx]; exact List.mem_cons_self)

theorem fits_ofList {p : Position} (hp : here p) {xs : List Lexeme} (h : ∀ x ∈ xs, x.Fits allowed here) :
    (ofList p xs).Fits allowed here := by
  induction xs with
  | nil => exact hp
  | cons x xs ih =>
    obtain ⟨hx, hxs⟩ := List.forall_mem_cons.1 h
    exact ⟨hx, ih hxs⟩

/-- The lexemes of a body and the tape behind it fit. -/
def BodyFits (allowed : Verb → Prop) (here : Position → Prop) : Except Error (List Lexeme × Option Tape) → Prop
  | .ok (xs, r) => (∀ x ∈ xs, x.Fits allowed here) ∧ ∀ t ∈ r, Fits allowed here t
  | .error e => e.Sited here

theorem BodyFits.keep {r : Except Error (List Lexeme × Option Tape)} (h : BodyFits allowed here r) {xs : List Lexeme}
    (hxs : ∀ x ∈ xs, x.Fits allowed here) : BodyFits allowed here (keep xs r) := by
  cases r with
  | error e => exact h
  | ok b =>
    refine ⟨?_, h.2⟩
    intro x hx
    rcases List.mem_append.1 hx with hx | hx
    · exact hxs x hx
    · exact h.1 x hx

/-- A tape with no lexemes before it. -/
theorem bodyFits_behind {t : Tape} (h : t.Fits allowed here) : BodyFits allowed here (.ok ([], some t)) := by
  refine ⟨fun _ hx => absurd hx List.not_mem_nil, ?_⟩
  intro u hu
  obtain rfl := Option.some.inj hu
  exact h

theorem untilNext_fits (counter : String) (depth : Nat) {t : Tape} (h : t.Fits allowed here) :
    BodyFits allowed here (t.untilNext counter depth) := by
  fun_induction untilNext counter depth t with
  | case1 => exact ⟨nofun, nofun⟩
  | case2 => exact h
  | case3 depth x rest hx ih => exact (ih h.2).keep (by simpa using h.1)
  | case4 => exact h.2
  | case5 => exact bodyFits_behind h.2
  | case6 => exact ⟨by simpa using h.1, nofun⟩
  | case7 x hx y more inner ih => exact (ih h.2.2).keep (by simpa using ⟨h.1, h.2.1⟩)
  | case8 x hx y more hy =>
    cases more with
    | broken e => exact h.2.2
    | stop p => exact bodyFits_behind h.2.2
    | cons z rest => exact bodyFits_behind h.2.2
  | case9 x hx y more s hy hs ih => exact (ih h.2.2).keep (by simpa using ⟨h.1, h.2.1⟩)
  | case10 => exact bodyFits_behind h.2
  | case11 depth x rest _ _ ih => exact (ih h.2).keep (by simpa using h.1)

/-- What is left of a comment is still a comment, and it ends within the
comment. -/
theorem shortenComment_fits {x : Lexeme} {s : String} (h : x.Fits allowed here) (hx : x.token = .comment s) :
    (shortenComment s x.start).1.Fits allowed here ∧ here (shortenComment s x.start).2 := by
  have hcut : s.toList.dropLast <+: s.toList := List.dropLast_prefix _
  have hkept : trimEndList s.toList.dropLast <+: s.toList := (List.rdropWhile_prefix isSpace _).trans hcut
  refine ⟨⟨nofun, h.within.start, h.within.comment s hx _ hkept, ?_⟩, h.within.comment s hx _ hcut⟩
  intro text htext w hw
  obtain rfl := Token.comment.inj htext
  rw [String.toList_ofList] at hw
  exact h.within.comment s hx w (hw.trans hkept)

theorem ofBody_fits {xs : List Lexeme} (h : ∀ x ∈ xs, x.Fits allowed here) :
    ∀ t ∈ ofBody xs, Fits allowed here t := by
  have hlast : ∀ x ∈ xs.dropLast, x.Fits allowed here :=
    fun x hx => h x (List.dropLast_subset xs hx)
  intro t ht
  unfold ofBody at ht
  split at ht
  case h_1 => cases ht
  case h_2 x hget =>
    have hx : x.Fits allowed here := h x (List.mem_of_getLast? hget)
    split at ht
    case h_1 =>
      split at ht
      · cases ht
      · obtain rfl := Option.some.inj ht
        exact fits_ofList hx.within.start hlast
    case h_2 s hs =>
      split at ht
      · obtain ⟨hcomment, hstop⟩ := shortenComment_fits hx hs
        obtain rfl := Option.some.inj ht
        refine fits_ofList hstop ?_
        intro y hy
        rcases List.mem_append.1 hy with hy | hy
        · exact hlast y hy
        · obtain rfl := List.mem_singleton.1 hy
          exact hcomment
      · obtain rfl := Option.some.inj ht
        exact fits_ofList hx.within.stop h
    case h_3 =>
      obtain rfl := Option.some.inj ht
      exact fits_ofList hx.within.stop h

end Tape

theorem Tape.scannable_ofLine (s : String) : (ofLine s).Scannable (Position.LiesIn s.toList) :=
  Scanner.scannable_tape (Scanner.ready_ofText _)

theorem Tape.scannable_ofStatements (s : String) : (ofStatements s).Scannable (Position.LiesIn s.toList) :=
  Scanner.scannable_tape (Scanner.ready_atOffset _ 0)

/-- Wherever the positions are, and whatever the verbs. -/
theorem Tape.Scannable.fits_any {here : Position → Prop} {t : Tape} (h : t.Scannable here) :
    t.Fits (fun _ => True) fun _ => True :=
  (h.mono fun _ _ => trivial).fits fun _ _ => trivial

theorem Line.sited_parse (s : String) : Raises (Error.Sited (Position.LiesIn s.toList)) (Line.parse s) :=
  (Tape.scannable_ofLine s).lexemes.map _

/-! ### Scripts -/

namespace Script

/-- The expressions of the script fit, its loops count in numeric variables, and
the verbs of its actions are allowed. Where it breaks off, the error is
sited. -/
def Fits (allowed : Verb → Prop) (here : Position → Prop) : Script → Prop
  | done => True
  | broken before error => (∀ o ∈ before, o.Fits) ∧ error.Sited here
  | step action rest => action.Fits allowed ∧ rest.Fits allowed here
  | branch condition yes no => condition.Fits ∧ yes.Fits allowed here ∧ no.Fits allowed here
  | loop head body rest => head.Fits ∧ body.Fits allowed here ∧ rest.Fits allowed here

variable {allowed : Verb → Prop} {here : Position → Prop}

theorem fits_broken {e : Error} (h : e.Sited here) : (broken [] e).Fits allowed here :=
  ⟨fun _ ho => absurd ho List.not_mem_nil, h⟩

theorem skip_fits {t : Tape} (h : t.Fits allowed here) : (skip t).Fits allowed here := by
  induction t with
  | stop p => exact trivial
  | broken e => exact fits_broken h
  | cons x rest ih => exact ih h.2

section Statements

variable {again : Tape → Script}
  (ha : ∀ ⦃t⦄, t.Fits allowed here → (again t).Fits allowed here)

include ha

theorem readBody_fits {xs : List Lexeme} (hxs : ∀ x ∈ xs, x.Fits allowed here) :
    (readBody again xs).Fits allowed here := by
  have hbody := Tape.ofBody_fits hxs
  unfold readBody
  split
  case h_1 t ht => exact ha (hbody t ht)
  case h_2 => exact trivial

theorem bodies_fit {found : Except Error (List Lexeme × Option Tape)}
    (h : Tape.BodyFits allowed here found) :
    Bodies (Same (Tape.Fits allowed here)) (Same (Error.Sited here)) (Same (Fits allowed here))
      again again found found := by
  cases found with
  | error e => exact .failed ⟨rfl, h⟩
  | ok found =>
    obtain ⟨xs, r⟩ := found
    have hbody := readBody_fits ha h.1
    cases r with
    | none => exact .opened ⟨rfl, hbody⟩ ⟨rfl, trivial⟩
    | some t => exact .closed ⟨rfl, hbody⟩ ⟨rfl, h.2 t rfl⟩

/-- A tape that fits is read in lockstep with itself. -/
theorem lockstep_fits : Lockstep (Same (Tape.Fits allowed here)) (Same (Error.Sited here)) 0 allowed
    (Same (Fits allowed here)) again again where
  toLockstep := Tape.lockstep_same (fun _ _ h => h.2) (fun _ h => h.expected)
    fun _ he => ⟨he.ordinary, fun hs => absurd hs he.notSyntax⟩
  verb h := h.2.1.verb _ rfl
  handed := by
    rintro x x' r r' ⟨heq, h⟩
    obtain ⟨rfl, rfl⟩ := Tape.cons.inj heq
    exact ⟨rfl, ha h.2⟩
  done _ := ⟨rfl, trivial⟩
  broken hops he := ⟨congrArg _ he.1, hops, he.2⟩
  step hact hs := ⟨congrArg _ hs.1, hact, hs.2⟩
  branch := by
    rintro c t _ y _ - hc ⟨rfl, hy⟩ ⟨rfl, ht⟩
    exact ⟨rfl, hc, hy, skip_fits ht⟩
  loop := by
    rintro head b _ s _ - hh ⟨rfl, hb⟩ ⟨rfl, hs⟩
    exact ⟨rfl, hh, hb, hs⟩
  bodies := by
    rintro p q p' q' r r' - ⟨heq, h⟩ counter
    obtain ⟨-, rfl⟩ := Tape.cons.inj heq
    exact bodies_fit ha (Tape.untilNext_fits counter 0 h.2)
  ended h := Tape.noConfusion h.1
  colon h := Tape.noConfusion (Tape.cons.inj h.1).2

theorem readStatement_fits {t : Tape} (h : t.Fits allowed here) :
    (readStatement again t).Fits allowed here :=
  ((lockstep_fits ha).readStatement ⟨rfl, h⟩).2

end Statements

theorem readUpTo_fits (bound : Tape) {t : Tape} (h : t.Fits allowed here) : (readUpTo bound t).Fits allowed here := by
  induction bound generalizing t with
  | stop p => exact fits_broken (h.expected _)
  | broken e => exact fits_broken (h.expected _)
  | cons _ bound ih => exact readStatement_fits (fun _ ht => ih ht) h

/-- **A tape that fits has a script that fits.** -/
theorem read_fits {t : Tape} (h : t.Fits allowed here) : (read t).Fits allowed here := readUpTo_fits t h

end Script

end LineBasic
