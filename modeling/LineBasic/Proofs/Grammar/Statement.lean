import LineBasic.Proofs.Alike.Script
import LineBasic.Proofs.Grammar.Longest

/-!
# Statements are read off their own lexemes

Reading a line takes a bound on the number of its statements, and hands on a
smaller one to the statements that follow or are nested. The bound never shows:
whatever a statement hands on is what is left behind some of its lexemes, or the
body of a loop among them. Either is a shorter tape, so any bound will do that
is no smaller than the tape. In particular the body of a loop, and the rest of a
line behind a statement, are read in the same way as lines of their own.

* `Tape.Closes`, `Tape.closes_untilNext`: the body of a loop, and what follows
  it, are parts of a tape.
* `Tape.Hands`: the tapes that a tape hands on.
* `Script.readStatement_congr`: a statement depends on how the tapes are read
  that it hands on, and on no others.
* `Script.read_eq_readStatement`: a line is a statement and the lines behind and
  inside it, without any bound.
-/

namespace LineBasic

open Tape (Leads)

/-! ### The body of a loop -/

namespace Tape

theorem ofList_append (p : Position) (xs ys : List Lexeme) : ofList p (xs ++ ys) = xs.foldr cons (ofList p ys) := by
  induction xs with
  | nil => rfl
  | cons x xs ih => exact congrArg (cons x) ih

theorem leads_foldr (xs : List Lexeme) (t : Tape) : Leads (xs.map (·.token)) (xs.foldr cons t) t := by
  induction xs with
  | nil => exact .nil t
  | cons x xs ih => exact .cons x.token x.start x.stop ih

theorem eq_of_scanned {t u : Tape} (h : t.scanned = .ok u) : u = t := by
  cases t with
  | broken e => cases h
  | _ => exact (Except.ok.inj h).symm

/-- The tape begins with this body, and the other tape follows `NEXT` and its
variable. Or the body is all of it. -/
inductive Closes (counter : String) : Tape → List Lexeme → Option Tape → Prop
  | opened (p : Position) (body : List Lexeme) : Closes counter (ofList p body) body none
  | closed (body : List Lexeme) {next : Lexeme} (named : List Lexeme) {rest : Tape} : next.token = .verb .next →
      (∀ y ∈ named, y.token = .name counter) → rest.Scanned →
      Closes counter ((body ++ next :: named).foldr cons rest) body (some rest)

/-- Lexemes put before a body. -/
theorem Closes.keep {counter : String} {t : Tape} {xs body : List Lexeme} {rest : Option Tape}
    {r : Except Error (List Lexeme × Option Tape)}
    (hr : ∀ body' rest', r = .ok (body', rest') → Closes counter t body' rest')
    (h : keep xs r = .ok (body, rest)) : Closes counter (xs.foldr cons t) body rest := by
  cases r with
  | error e => cases h
  | ok found =>
    obtain ⟨rfl, rfl⟩ := Prod.mk.inj (Except.ok.inj h)
    obtain ⟨body', rest'⟩ := found
    cases hr body' rest' rfl with
    | opened p =>
      rw [← ofList_append]
      exact .opened p _
    | closed _ named hnext hnamed hrest =>
      rw [← List.foldr_append, ← List.append_assoc]
      exact .closed _ named hnext hnamed hrest

/-- **What looking for the end of a loop can find.** -/
theorem closes_untilNext {counter : String} {depth : Nat} {t : Tape} {body : List Lexeme} {rest : Option Tape}
    (h : t.untilNext counter depth = .ok (body, rest)) : Closes counter t body rest := by
  -- a `NEXT` is passed over together with what follows it, so the induction is
  -- on the length
  induction hn : t.length using Nat.strong_induction_on generalizing t depth body rest with
  | _ n ih =>
    subst hn
    cases t with
    | stop p =>
      obtain ⟨rfl, rfl⟩ := Prod.mk.inj (Except.ok.inj h)
      exact .opened p []
    | broken e => cases h
    | cons x r =>
      obtain ⟨x, p, q⟩ := x
      have step (depth : Nat) (h : keep [⟨x, p, q⟩] (r.untilNext counter depth) = .ok (body, rest)) :=
        Closes.keep (fun _ _ h' => ih r.length (Nat.lt_succ_self _) h' rfl) h
      by_cases hnext : x = .verb .next
      · subst hnext
        cases r with
        | broken e => cases h
        | stop p' =>
          simp only [untilNext] at h
          split at h
          · obtain ⟨rfl, rfl⟩ := Prod.mk.inj (Except.ok.inj h)
            exact .closed [] [] rfl (by simp) (scanned_stop p')
          · obtain ⟨rfl, rfl⟩ := Prod.mk.inj (Except.ok.inj h)
            exact .opened p' [_]
        | cons y more =>
          obtain ⟨y, p', q'⟩ := y
          have pass (depth : Nat)
              (h : keep [⟨.verb .next, p, q⟩, ⟨y, p', q'⟩] (more.untilNext counter depth) = .ok (body, rest)) :=
            Closes.keep (fun _ _ h' => ih more.length (Nat.lt_add_of_pos_right (Nat.zero_lt_succ 1)) h' rfl) h
          cases depth with
          | succ inner => exact pass inner h
          | zero =>
            cases y with
            | name s =>
              simp only [untilNext] at h
              split at h
              · rename_i hs
                cases hmore : more.scanned with
                | error e =>
                  rw [hmore] at h
                  cases h
                | ok u =>
                  rw [hmore] at h
                  obtain ⟨rfl, rfl⟩ := Prod.mk.inj (Except.ok.inj h)
                  obtain rfl := eq_of_scanned hmore
                  refine .closed [] [_] rfl (by simpa using hs) ?_
                  rintro e rfl
                  cases hmore
              · exact pass 0 h
            | _ =>
              obtain ⟨rfl, rfl⟩ := Prod.mk.inj (Except.ok.inj h)
              exact .closed [] [] rfl (by simp) (scanned_cons _ _)
      · by_cases hloop : x = .verb .loop
        · subst hloop
          exact step (depth + 1) h
        · rw [untilNext_cons counter depth hloop hnext] at h
          exact step depth h

theorem length_of_ofBody {xs : List Lexeme} {t : Tape} (h : ofBody xs = some t) : t.length ≤ xs.length := by
  unfold ofBody at h
  split at h
  · cases h
  case h_2 x hlast =>
    have hpos : 0 < xs.length := List.length_pos_of_mem (List.mem_of_getLast? hlast)
    split at h
    · split at h
      · cases h
      · obtain rfl := Option.some.inj h
        rw [length_ofList, List.length_dropLast]
        omega
    · split at h
      · obtain rfl := Option.some.inj h
        rw [length_ofList, List.length_append, List.length_dropLast, List.length_singleton]
        omega
      · obtain rfl := Option.some.inj h
        rw [length_ofList]
    · obtain rfl := Option.some.inj h
      rw [length_ofList]

/-- The tapes that a tape hands on: what is left behind one of its lexemes, and
the body of a loop behind a colon. -/
inductive Hands : Tape → Tape → Prop
  | behind (x : Lexeme) (rest : Tape) : Hands (cons x rest) rest
  | body {x : Lexeme} {rest u : Tape} {counter : String} {xs : List Lexeme} {r : Option Tape} : x.token = .colon →
      rest.untilNext counter 0 = .ok (xs, r) → ofBody xs = some u → Hands (cons x rest) u
  | later (x : Lexeme) {rest u : Tape} : Hands rest u → Hands (cons x rest) u

theorem Leads.hands {ts : List Token} {t r u : Tape} (h : Leads ts t r) (hu : r.Hands u) : t.Hands u := by
  induction h with
  | nil => exact hu
  | cons x p q _ ih => exact .later ⟨x, p, q⟩ (ih hu)

theorem Closes.length_le {counter : String} {t : Tape} {body : List Lexeme} {rest : Option Tape}
    (h : Closes counter t body rest) : body.length ≤ t.length := by
  cases h with
  | opened p => rw [length_ofList]
  | @closed _ next named rest =>
    rw [(leads_foldr _ rest).length, List.length_map, List.length_append]
    omega

/-- **Whatever a tape hands on is shorter.** -/
theorem Hands.length_lt {t u : Tape} (h : t.Hands u) : u.length < t.length := by
  induction h with
  | behind x rest => exact Nat.lt_succ_self _
  | body _ hloop hbody =>
    have hbody := length_of_ofBody hbody
    have hloop := (closes_untilNext hloop).length_le
    rw [length]
    omega
  | later x _ ih => exact Nat.lt_succ_of_lt ih

end Tape

/-! ### Statements -/

namespace Script

/-- Two ways of reading agree on all that the tape hands on. -/
def Agree (again again' : Tape → Script) (t : Tape) : Prop := ∀ u, t.Hands u → again u = again' u

section Statements

variable {again again' : Tape → Script}

theorem Agree.of_leads {ts : List Token} {t r : Tape} (ha : Agree again again' t)
    (h : Leads ts t r) : Agree again again' r :=
  fun u hu => ha u (h.hands hu)

theorem Agree.tail {x : Lexeme} {t : Tape} (ha : Agree again again' (.cons x t)) :
    Agree again again' t :=
  fun u hu => ha u (.later x hu)

/-- The body of a loop, and what follows it, are among what the tape hands
on. -/
theorem Agree.bodies {x : Lexeme} {t : Tape} (ha : Agree again again' (.cons x t))
    (hx : x.token = .colon) (counter : String) :
    Bodies (Same (Agree again again')) (Same fun _ => True) Eq again again'
      (t.untilNext counter 0) (t.untilNext counter 0) := by
  cases h : t.untilNext counter 0 with
  | error e => exact .failed ⟨rfl, trivial⟩
  | ok found =>
    obtain ⟨body, rest⟩ := found
    have hbody : readBody again body = readBody again' body := by
      unfold readBody
      cases hb : Tape.ofBody body with
      | none => rfl
      | some v => exact ha v (.body hx h hb)
    cases Tape.closes_untilNext h with
    | opened p => exact .opened hbody rfl
    | @closed _ _ _ rest => exact .closed hbody ⟨rfl, ha.tail.of_leads (Tape.leads_foldr _ rest)⟩

/-- A tape is read in lockstep with itself, by two ways of reading that agree on
what it hands on. -/
theorem lockstep_agree : Lockstep (Same (Agree again again')) (Same fun _ => True) 0
    (fun _ => True) Eq again again' where
  toLockstep := Tape.lockstep_same (fun _ _ ha => ha.tail) (fun _ _ _ => trivial) fun _ _ => trivial
  verb _ := trivial
  handed := by
    rintro x x' r r' ⟨heq, ha⟩
    obtain ⟨rfl, rfl⟩ := Tape.cons.inj heq
    exact ha r (.behind x r)
  done _ := rfl
  broken _ he := congrArg _ he.1
  step _ hs := congrArg _ hs
  branch := by
    rintro c t _ y _ - - rfl ⟨rfl, -⟩
    rfl
  loop := by
    rintro head b _ s _ - - rfl rfl
    rfl
  bodies := by
    rintro p q p' q' r r' - ⟨heq, ha⟩ counter
    obtain ⟨-, rfl⟩ := Tape.cons.inj heq
    exact ha.bodies rfl counter
  ended h := Tape.noConfusion h.1
  colon h := Tape.noConfusion (Tape.cons.inj h.1).2

/-- **A statement depends on how the tapes are read that it hands on**, and on
no others. -/
theorem readStatement_congr {t : Tape} (ha : Agree again again' t) :
    readStatement again t = readStatement again' t :=
  lockstep_agree.readStatement ⟨rfl, ha⟩

end Statements

/-- Any two bounds that are large enough give the same script. -/
theorem readUpTo_congr {bound bound' t : Tape} (h : t.length ≤ bound.length) (h' : t.length ≤ bound'.length) :
    readUpTo bound t = readUpTo bound' t := by
  -- a tape without a lexeme has no statement, whatever the bound
  have none_left {t : Tape} (ht : t.length = 0) (bound : Tape) :
      readUpTo bound t = broken [] (t.expected "STATEMENT") := by
    cases t with
    | cons x rest => cases ht
    | _ => cases bound <;> rfl
  induction bound generalizing bound' t with
  | stop p => rw [none_left (Nat.le_zero.1 h), none_left (Nat.le_zero.1 h)]
  | broken e => rw [none_left (Nat.le_zero.1 h), none_left (Nat.le_zero.1 h)]
  | cons x bound ih =>
    cases t with
    | stop p => rw [none_left rfl, none_left rfl]
    | broken e => rw [none_left rfl, none_left rfl]
    | cons y rest =>
      cases bound' with
      | stop p => cases h'
      | broken e => cases h'
      | cons x' bound' =>
        have hb : rest.length ≤ bound.length := Nat.le_of_succ_le_succ h
        have hb' : rest.length ≤ bound'.length := Nat.le_of_succ_le_succ h'
        refine readStatement_congr ?_
        intro u hu
        have hlt : u.length < rest.length + 1 := hu.length_lt
        exact ih (by omega) (by omega)

/-- A line is a statement, with lines of their own behind it and inside it. -/
theorem read_eq_readStatement (t : Tape) : read t = readStatement read t := by
  cases t with
  | stop p => rfl
  | broken e => rfl
  | cons x rest =>
    refine readStatement_congr ?_
    intro u hu
    exact readUpTo_congr (Nat.le_of_lt_succ hu.length_lt) (Nat.le_refl _)

end Script

end LineBasic
