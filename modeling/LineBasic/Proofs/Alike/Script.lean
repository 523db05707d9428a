import LineBasic.Proofs.Alike.Basic
import LineBasic.Proofs.Lockstep.Script

/-!
# Scripts on tapes alike

Lines with the same tokens have the same script, but for the positions that the
errors of the script name. The body of a loop is cut out of its line by the
tokens, so the bodies of lines alike are alike as well.

* `Script.Alike`: scripts that differ in the positions of syntax errors only.
* `Tape.untilNext_alike`, `Tape.ofBody_alike`: the body of a loop.
* `Script.read_alike`: tapes alike have scripts alike.
-/

namespace LineBasic

/-! ### The body of a loop -/

namespace Tape

/-- The bodies have the same tokens, and what follows them is alike. -/
def BodyAlike : Except Error (List Lexeme × Option Tape) → Except Error (List Lexeme × Option Tape) → Prop
  | .ok (xs, r), .ok (ys, r') => xs.map (·.token) = ys.map (·.token) ∧ Option.Rel Alike r r'
  | .error e, .error e' => e.Alike e'
  | _, _ => False

theorem BodyAlike.keep {r r' : Except Error (List Lexeme × Option Tape)} (h : BodyAlike r r')
    (xs ys : List Lexeme) (hxy : xs.map (·.token) = ys.map (·.token)) :
    BodyAlike (keep xs r) (keep ys r') := by
  match r, r', h with
  | .ok (us, s), .ok (vs, s'), ⟨h1, h2⟩ =>
    refine ⟨?_, h2⟩
    rw [List.map_append, List.map_append, hxy, h1]
  | .error _, .error _, h => exact h

theorem bodyAlike_scanned {t t' : Tape} (h : t.Alike t') :
    BodyAlike (t.scanned.map fun t => ([], some t)) (t'.scanned.map fun t => ([], some t)) := by
  cases h with
  | stop p q => exact ⟨rfl, .some (.stop p q)⟩
  | broken he => exact he
  | cons x p q p' q' hr => exact ⟨rfl, .some (.cons x p q p' q' hr)⟩

theorem untilNext_cons (counter : String) (depth : Nat) {x : Lexeme} (hloop : x.token ≠ .verb .loop)
    (hnext : x.token ≠ .verb .next) (t : Tape) :
    untilNext counter depth (.cons x t) = keep [x] (untilNext counter depth t) := by
  rw [untilNext.eq_def]
  split
  · contradiction
  · contradiction
  · rename_i heq
    obtain ⟨rfl, rfl⟩ := Tape.cons.inj heq
    split
    · contradiction
    · contradiction
    · rfl

-- The recursion passes over two lexemes at a `NEXT`, so it is on the tapes and
-- not one lexeme at a time.
theorem untilNext_alike (counter : String) (depth : Nat) {t t' : Tape} (h : t.Alike t') :
    BodyAlike (t.untilNext counter depth) (t'.untilNext counter depth) := by
  match t, t', h with
  | _, _, .stop p q => exact ⟨rfl, .none⟩
  | _, _, .broken he => exact he
  | .cons _ r, .cons _ r', .cons tx px qx py qy hr =>
    have step (depth : Nat) :=
      (untilNext_alike counter depth hr).keep [⟨tx, px, qx⟩] [⟨tx, py, qy⟩] rfl
    by_cases hnext : tx = .verb .next
    · subst hnext
      match r, r', hr with
      | _, _, .broken he => exact he
      | _, _, .stop p q =>
        simp only [untilNext]
        split
        · exact ⟨rfl, .some (.stop p q)⟩
        · exact ⟨rfl, .none⟩
      | .cons _ m, .cons _ m', .cons uy pu qu pz qz hm =>
        have pass (depth : Nat) := (untilNext_alike counter depth hm).keep
          [⟨.verb .next, px, qx⟩, ⟨uy, pu, qu⟩] [⟨.verb .next, py, qy⟩, ⟨uy, pz, qz⟩] rfl
        cases depth with
        | succ inner => exact pass inner
        | zero =>
          cases uy with
          | name s =>
            simp only [untilNext]
            split
            · exact bodyAlike_scanned hm
            · exact pass 0
          | _ => exact ⟨rfl, .some (.cons _ pu qu pz qz hm)⟩
    · by_cases hloop : tx = .verb .loop
      · subst hloop
        exact step (depth + 1)
      · rw [untilNext_cons counter depth hloop hnext, untilNext_cons counter depth hloop hnext]
        exact step depth

theorem ofBody_alike {xs ys : List Lexeme} (h : xs.map (·.token) = ys.map (·.token)) :
    Option.Rel Alike (ofBody xs) (ofBody ys) := by
  rcases List.eq_nil_or_concat xs with rfl | ⟨us, ⟨tx, px, qx⟩, rfl⟩
  · obtain rfl := List.map_eq_nil_iff.1 h.symm
    exact .none
  · rcases List.eq_nil_or_concat ys with rfl | ⟨vs, ⟨ty, py, qy⟩, rfl⟩
    · simp at h
    · rw [List.concat_eq_append, List.concat_eq_append] at h
      have whole := alike_ofList h qx qy
      rw [List.map_append, List.map_append] at h
      obtain ⟨huv, hxy⟩ := List.append_inj' h rfl
      obtain rfl : tx = ty := (List.cons.inj hxy).1
      have hempty : us.isEmpty = vs.isEmpty := by
        rw [← List.isEmpty_map (l := us), huv, List.isEmpty_map]
      simp only [ofBody, List.concat_eq_append, List.getLast?_concat, List.dropLast_concat, hempty]
      cases tx with
      | colon =>
        simp only
        split
        · exact .none
        · exact .some (alike_ofList huv px py)
      | comment s =>
        simp only
        split
        · refine .some (alike_ofList ?_ _ _)
          rw [List.map_append, List.map_append, huv]
          rfl
        · exact .some whole
      | _ => exact .some whole

end Tape

/-! ### Scripts -/

namespace Script

/-- The scripts differ in the positions of syntax errors only. -/
inductive Alike : Script → Script → Prop
  | done : Alike .done .done
  | broken (before : List Operand) {e e' : Error} : e.Alike e' → Alike (.broken before e) (.broken before e')
  | step (action : Action) {s s' : Script} : Alike s s' → Alike (.step action s) (.step action s')
  | branch (c : Expr) {y y' n n' : Script} : Alike y y' → Alike n n' → Alike (.branch c y n) (.branch c y' n')
  | loop (head : LoopHead) {b b' s s' : Script} :
      Alike b b' → Alike s s' → Alike (.loop head b s) (.loop head b' s')

theorem skip_alike {t t' : Tape} (h : t.Alike t') : (skip t).Alike (skip t') := by
  induction h with
  | stop p q => exact .done
  | broken he => exact .broken [] he
  | cons _ _ _ _ _ _ ih => exact ih

section Statements

variable {again again' : Tape → Script} (ha : ∀ ⦃t t'⦄, t.Alike t' → (again t).Alike (again' t'))

include ha

theorem readBody_alike {xs ys : List Lexeme} (hxy : xs.map (·.token) = ys.map (·.token)) :
    (readBody again xs).Alike (readBody again' ys) := by
  have hbody := Tape.ofBody_alike hxy
  simp only [readBody]
  generalize Tape.ofBody xs = b at hbody
  generalize Tape.ofBody ys = b' at hbody
  cases hbody with
  | some ht => exact ha ht
  | none => exact .done

theorem bodies_alike {found found' : Except Error (List Lexeme × Option Tape)}
    (h : Tape.BodyAlike found found') :
    Bodies Tape.Alike Error.Alike Alike again again' found found' := by
  cases found with
  | error e =>
    cases found' with
    | error e' => exact .failed h
    | ok y => exact h.elim
  | ok x =>
    cases found' with
    | error e' => exact h.elim
    | ok y =>
      obtain ⟨xs, r⟩ := x
      obtain ⟨ys, r'⟩ := y
      obtain ⟨hxy, hrest⟩ := h
      have hbody := readBody_alike ha hxy
      cases hrest with
      | some ht => exact .closed hbody ht
      | none => exact .opened hbody .done

/-- Tapes alike are read in lockstep. -/
theorem lockstep_alike :
    Lockstep Tape.Alike Error.Alike 0 (fun _ => True) Alike again again' where
  heads h := by
    cases h with
    | stop p q => exact .stop p q
    | broken _ => exact .broken _ _
    | cons x p q p' q' hr => exact .cons x p q p' q' hr
  expected h := h.expected
  everyday _ := .refl _
  length h := h.length_eq
  verb _ := trivial
  handed h := by
    cases h with
    | cons _ _ _ _ _ hr => exact ha hr
  done _ := .done
  broken _ he := .broken _ he
  step _ hs := .step _ hs
  branch _ _ hy ht := .branch _ hy (skip_alike ht)
  loop _ _ hb hs := .loop _ hb hs
  bodies _ h counter := by
    cases h with
    | cons _ _ _ _ _ hr => exact bodies_alike ha (Tape.untilNext_alike counter 0 hr)
  ended h := by cases h
  colon h := by
    cases h with
    | cons _ _ _ _ _ hr => cases hr

theorem readRest_alike {t t' : Tape} (h : t.Alike t') :
    (readRest again t).Alike (readRest again' t') :=
  (lockstep_alike ha).readRest h

theorem readStatement_alike {t t' : Tape} (h : t.Alike t') :
    (readStatement again t).Alike (readStatement again' t') :=
  (lockstep_alike ha).readStatement h

end Statements

theorem readUpTo_alike {bound bound' : Tape} (hb : bound.Alike bound') {t t' : Tape} (h : t.Alike t') :
    (readUpTo bound t).Alike (readUpTo bound' t') := by
  induction hb generalizing t t' with
  | stop p q => exact .broken [] (h.expected _)
  | broken _ => exact .broken [] (h.expected _)
  | cons _ _ _ _ _ _ ih => exact readStatement_alike (fun _ _ ht => ih ht) h

/-- **Tapes alike have scripts alike.** -/
theorem read_alike {t t' : Tape} (h : t.Alike t') : (read t).Alike (read t') := readUpTo_alike h h

end Script

end LineBasic
