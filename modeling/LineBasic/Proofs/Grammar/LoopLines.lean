import LineBasic.Proofs.Grammar.Loop

/-!
# Lines that open and close a loop

A loop over lines is opened by a line with nothing but its head, and closed by a
line `NEXT` or `NEXT v`. A loop in one line may end with its line.

* `Script.read_opening`, `Script.read_closing`: the lines of a loop over lines.
* `Script.read_oneLine`: a line that is a loop and nothing else.
-/

namespace LineBasic

namespace Token

/-- The tokens `NEXT` and `NEXT v`. -/
def closing (name : Option String) : List Token := .verb .next :: (name.map Token.name).toList

end Token

theorem Tape.tokens?_ofList (p : Position) (xs : List Lexeme) : (ofList p xs).tokens? = some (xs.map (·.token)) := by
  induction xs with
  | nil => rfl
  | cons x xs ih => simp [ofList, tokens?, ih]

namespace Script

variable {t : Tape} {head : LoopHead} {range body : List Token}

/-- **A line with nothing but the head of a loop** opens a loop over the lines
that follow. -/
theorem read_opening (ht : t.tokens? = some (.verb .loop :: range)) (hrange : head.Spelled range)
    (hkind : VariableKind.ofName head.place.name = .numeric) : read t = .step (.startLoop head) .done := by
  obtain ⟨xs, p, rfl, hxs⟩ := Tape.exists_ofList ht
  obtain ⟨x, xs, rfl, hx, rfl⟩ := List.map_eq_cons_iff.1 hxs
  have hlead := Tape.leads_ofList p xs []
  rw [List.append_nil] at hlead
  have hloop : readLoop read (Tape.ofList p xs) = .ok (.step (.startLoop head) .done) :=
    readLoop_spelled hrange hkind hlead (Tape.scanned_ofList p []) (fun _ _ => nofun) rfl
  rw [read_eq_readStatement]
  refine (readStatement_verb hx read (Tape.scanned_ofList p xs)).trans ?_
  exact congrArg ofReading hloop

/-- **A line with nothing but `NEXT`** and perhaps a variable closes a loop over
lines. -/
theorem read_closing {name : Option String} (ht : t.tokens? = some (Token.closing name)) :
    read t = .step (.next name) .done := by
  obtain ⟨xs, p, rfl, hxs⟩ := Tape.exists_ofList ht
  obtain ⟨x, xs, rfl, hx, hname⟩ := List.map_eq_cons_iff.1 hxs
  have hnext : readNext read (Tape.ofList p xs) = .ok (.step (.next name) .done) := by
    cases name with
    | none =>
      obtain rfl := List.map_eq_nil_iff.1 hname
      rfl
    | some s =>
      obtain ⟨⟨y, q, r⟩, rfl, hy⟩ := List.map_eq_singleton_iff.1 hname
      obtain rfl : y = .name s := hy
      rfl
  rw [read_eq_readStatement]
  refine (readStatement_verb hx read (Tape.scanned_ofList p xs)).trans ?_
  exact congrArg ofReading hnext

/-- **A line that is a loop and nothing else.** Its body is read as a line of
its own. -/
theorem read_oneLine {name : Option String}
    (ht : t.tokens? = some (.verb .loop :: (range ++ .colon :: (body ++ .colon :: Token.closing name))))
    (hrange : head.Spelled range) (hkind : VariableKind.ofName head.place.name = .numeric) (hne : body ≠ [])
    (hbody : Balanced 0 body) (hname : name.all (· == head.place.name)) :
    ∃ u : Tape, u.tokens? = some body ∧ read t = .loop head (read u) .done := by
  obtain ⟨xs, p, rfl, h₀⟩ := Tape.exists_ofList ht
  obtain ⟨opening, xs, rfl, hopening, h₁⟩ := List.map_eq_cons_iff.1 h₀
  obtain ⟨ranges, xs, rfl, rfl, h₂⟩ := List.map_eq_append_iff.1 h₁
  obtain ⟨entry, xs, rfl, hentry, h₃⟩ := List.map_eq_cons_iff.1 h₂
  obtain ⟨bodies, xs, rfl, rfl, h₄⟩ := List.map_eq_append_iff.1 h₃
  obtain ⟨exit, xs, rfl, hexit, h₅⟩ := List.map_eq_cons_iff.1 h₄
  obtain ⟨closing, xs, rfl, hclosing, hcounter⟩ := List.map_eq_cons_iff.1 h₅
  have hbodies : bodies ≠ [] := fun h => hne (List.map_eq_nil_iff.2 h)
  -- behind the body there is the `NEXT` of the loop, and then nothing
  have hend : Tape.untilNext head.place.name 0 (.ofList p (closing :: xs)) = .ok ([], some (.stop p)) := by
    cases name with
    | none =>
      obtain rfl := List.map_eq_nil_iff.1 hcounter
      exact Tape.untilNext_alone _ hclosing (Tape.scanned_ofList p []) (by simp [Tape.ofList, Tape.peek?])
    | some s =>
      obtain ⟨y, rfl, hy⟩ := List.map_eq_singleton_iff.1 hcounter
      obtain rfl : s = head.place.name := by simpa using hname
      exact Tape.untilNext_named hclosing hy (Tape.scanned_ofList p [])
  have hscan := Tape.untilNext_balanced head.place.name hbody hexit p (closing :: xs)
  rw [hend] at hscan
  have hrest : readLoopRest read head (.ofList p (entry :: (bodies ++ exit :: closing :: xs))) =
      .ok (.loop head (read (.ofList exit.start bodies)) .done) := by
    refine (readLoopRest_colon hentry read head hscan).trans ?_
    rw [List.append_nil, readBody, Tape.ofBody_concat hbodies hexit]
    rfl
  have hlead := Tape.leads_ofList p ranges (entry :: (bodies ++ exit :: closing :: xs))
  have hloop := readLoop_spelled hrange hkind hlead (Tape.scanned_ofList _ _) (stops_colon hentry _) hrest
  refine ⟨.ofList exit.start bodies, Tape.tokens?_ofList _ _, ?_⟩
  rw [read_eq_readStatement]
  refine (readStatement_verb hopening read (Tape.scanned_ofList _ _)).trans ?_
  exact congrArg ofReading hloop

end Script

end LineBasic
