import LineBasic.Proofs.Grammar.Statement
import LineBasic.Proofs.Line.RoundTrip

/-!
# Loops in one line

A line `FOR v=a TO b STEP s : B : NEXT v : R` is one loop. Its body `B` may hold
loops in turn, as long as they are all closed in it: the `NEXT` that closes the
outer loop is then the first one behind the body, whether it names the variable
or not. Body and rest are read as lines of their own, of which the first ends at
the colon behind it.

* `LoopHead.Spelled`: the tokens between `FOR` and the body.
* `Balanced`: tokens in which every loop is closed.
* `Tape.untilNext_foldr`: looking for the end of a loop passes over them.
* `LoopLine`, `LoopLine.exists_of_tokens`: the lines of this form.
* `LoopLine.read_tape`: what is made of them.
-/

namespace LineBasic

open Tape (Leads)

/-! ### The head -/

/-- The tokens spell the place. -/
inductive Place.Spelled : List Token → Place → Prop
  | scalar (s : String) : Spelled [.name s] ⟨s, none⟩
  | element (s : String) {g : Edge} {ts : List Token} {e : Expr} : Phrase .disjunction g ts e →
      Spelled (.name s :: .openParen :: ts ++ [.closeParen]) ⟨s, some e⟩

/-- The tokens spell the head of a loop, from its variable to its step. -/
inductive LoopHead.Spelled : List Token → LoopHead → Prop
  | mk {ps ts us vs : List Token} {place : Place} {start limit step : Expr} {g g' g'' : Edge} :
      place.Spelled ps → Phrase .disjunction g ts start → Phrase .disjunction g' us limit →
      Phrase .disjunction g'' vs step →
      Spelled (ps ++ .equal :: (ts ++ .keyword .upTo :: (us ++ .keyword .step :: vs))) ⟨place, start, limit, step⟩

/-- The head of a loop between numbers. -/
theorem LoopHead.spelled_numbers (s : String) (a b c : Int64) :
    Spelled [.name s, .equal, .number a, .keyword .upTo, .number b, .keyword .step, .number c]
      ⟨⟨s, none⟩, .number a, .number b, .number c⟩ :=
  .mk (.scalar s) (.ofNumber a .disjunction) (.ofNumber b .disjunction) (.ofNumber c .disjunction)

namespace Script

variable {ts : List Token} {t rest : Tape}

theorem readPlace_spelled {place : Place} (h : Place.Spelled ts place) (hlead : Leads ts t rest) (hscan : rest.Scanned)
    (hparen : rest.peek? ≠ some .openParen) : readPlace t = .ok (place, rest) := by
  cases h with
  | scalar s =>
    cases hlead with
    | cons _ p q hr =>
      cases hr
      simp only [readPlace, Tape.expectName, hscan.ready, bind, Except.bind, pure, Except.pure, Expr.readIndex,
        Tape.accept?_of_ne hparen]
  | @element s g us e hp =>
    rcases hlead with _ | ⟨_, p, q, _ | @⟨_, p', q', _, t', _, hr⟩⟩
    have hlen : us.length ≤ t'.length := by
      rw [hr.length]
      exact Nat.le_add_right_of_le (List.sublist_append_left us _).length_le
    obtain ⟨mid, hready, hread, hexpect⟩ := hp.readable.enclosed hp.ne_nil hlen hr hscan
    have hread : Expr.read t' = .ok (e, mid) := hread
    simp only [readPlace, Tape.expectName, (Tape.scanned_cons _ _).ready, bind, Except.bind, pure, Except.pure,
      Expr.readIndex, Tape.accept?_cons _ p' q' hready, hread, hexpect]
    rfl

theorem readRest_colon {x : Lexeme} (hx : x.token = .colon) (again : Tape → Script) (ht : t.Scanned) :
    readRest again (.cons x t) = again t := by
  obtain ⟨x, p, q⟩ := x
  subst hx
  simp only [readRest, ht.ready]
  rfl

theorem readLoopRest_colon {x : Lexeme} (hx : x.token = .colon) (again : Tape → Script) (head : LoopHead)
    {body : List Lexeme} (h : t.untilNext head.place.name 0 = .ok (body, some rest)) :
    readLoopRest again head (.cons x t) = .ok (.loop head (readBody again body) (readRest again rest)) := by
  obtain ⟨x, p, q⟩ := x
  subst hx
  simp only [readLoopRest, h]
  rfl

theorem readStatement_verb {x : Lexeme} {v : Verb} (hx : x.token = .verb v) (again : Tape → Script) (ht : t.Scanned) :
    readStatement again (.cons x t) = ofReading (readVerb again v t) := by
  obtain ⟨x, p, q⟩ := x
  subst hx
  simp only [readStatement, ht.ready]
  rfl

/-- The head of a loop is read up to what cannot go on with its step. -/
theorem readLoop_spelled {head : LoopHead} (h : head.Spelled ts)
    (hkind : VariableKind.ofName head.place.name = .numeric) (hlead : Leads ts t rest) (hscan : rest.Scanned)
    (hstop : ∀ g, Level.disjunction.stops g rest) {again : Tape → Script} {s : Script}
    (hs : readLoopRest again head rest = .ok s) : readLoop again t = .ok s := by
  cases h with
  | mk hplace hstart hlimit hstep =>
    obtain ⟨t₁, hps, h₁⟩ := hlead.split
    rcases h₁ with _ | ⟨_, p₁, q₁, h₁⟩
    obtain ⟨t₂, hts, h₂⟩ := h₁.split
    rcases h₂ with _ | ⟨_, p₂, q₂, h₂⟩
    obtain ⟨t₃, hus, h₃⟩ := h₂.split
    rcases h₃ with _ | ⟨_, p₃, q₃, hvs⟩
    have hto := Tape.scanned_cons ⟨.keyword .upTo, p₂, q₂⟩
    have hby := Tape.scanned_cons ⟨.keyword .step, p₃, q₃⟩
    have h₀ := readPlace_spelled hplace hps (Tape.scanned_cons _ _) nofun
    have h₁ := Expr.read_phrase hstart hts (hto _) (Level.stops_of_level? (x := .keyword .upTo) rfl nofun _ _ _ _ _)
    have h₂ := Expr.read_phrase hlimit hus (hby _) (Level.stops_of_level? (x := .keyword .step) rfl nofun _ _ _ _ _)
    have h₃ := Expr.read_phrase hstep hvs hscan (hstop _)
    simp only [readLoop, h₀, bind, Except.bind, hkind, ne_eq, not_true, if_false,
      Tape.expect_cons _ p₁ q₁ (hts.scanned (hto _)), h₁, Tape.expect_cons _ p₂ q₂ (hus.scanned (hby _)), h₂,
      Tape.accept?_cons _ p₃ q₃ (hvs.scanned hscan), h₃, hs]
    rfl

theorem stops_colon {x : Lexeme} (hx : x.token = .colon) (t : Tape) (g : Edge) :
    Level.disjunction.stops g (.cons x t) := by
  obtain ⟨x, p, q⟩ := x
  subst hx
  exact Level.stops_of_level? (x := .colon) rfl nofun _ _ _ _ _

end Script

/-! ### The body -/

/-- If `opened` loops are open before the tokens, each `NEXT` closes one of them
or one among the tokens, and in the end all are closed. Neither `FOR` nor `NEXT`
stands directly behind a `NEXT`. -/
structure Balanced (opened : Nat) (ts : List Token) : Prop where
  within : ∀ us, us <+: ts → us.count (.verb .next) ≤ opened + us.count (.verb .loop)
  total : ts.count (.verb .next) = opened + ts.count (.verb .loop)
  apart : ts.IsChain fun x y => x = .verb .next → y ≠ .verb .loop ∧ y ≠ .verb .next

namespace Balanced

variable {n : Nat} {x : Token} {ts : List Token}

instance (n : Nat) (ts : List Token) : Decidable (Balanced n ts) :=
  decidable_of_iff
    ((∀ us ∈ ts.inits, us.count (.verb .next) ≤ n + us.count (.verb .loop)) ∧
      ts.count (.verb .next) = n + ts.count (.verb .loop) ∧
      ts.IsChain fun x y => x = .verb .next → y ≠ .verb .loop ∧ y ≠ .verb .next)
    ⟨fun h => ⟨fun us hus => h.1 us ((List.mem_inits us ts).2 hus), h.2.1, h.2.2⟩,
      fun h => ⟨fun us hus => h.within us ((List.mem_inits us ts).1 hus), h.total, h.apart⟩⟩

theorem nil (h : Balanced n []) : n = 0 := h.total.symm

/-- What is open behind the first token is what was open before it, and the loop
it opens or closes. -/
theorem tail (h : Balanced n (x :: ts)) {k : Nat}
    (hk : n + [x].count (.verb .loop) = k + [x].count (.verb .next)) : Balanced k ts := by
  refine ⟨?_, ?_, h.apart.tail⟩
  · intro us hus
    have hw := h.within (x :: us) (List.cons_prefix_cons.2 ⟨rfl, hus⟩)
    rw [← List.singleton_append, List.count_append, List.count_append] at hw
    omega
  · have ht := h.total
    rw [← List.singleton_append, List.count_append, List.count_append] at ht
    omega

theorem loop (h : Balanced n (.verb .loop :: ts)) : Balanced (n + 1) ts := h.tail rfl

theorem next (h : Balanced n (.verb .next :: ts)) : ∃ k, n = k + 1 ∧ Balanced k ts := by
  have hw := h.within [.verb .next] (List.cons_prefix_cons.2 ⟨rfl, List.nil_prefix⟩)
  obtain ⟨k, rfl⟩ : ∃ k, n = k + 1 := ⟨n - 1, by simp at hw; omega⟩
  exact ⟨k, rfl, h.tail rfl⟩

theorem other (h : Balanced n (x :: ts)) (hloop : x ≠ .verb .loop) (hnext : x ≠ .verb .next) : Balanced n ts :=
  h.tail (by simp [hloop, hnext])

end Balanced

namespace Tape

theorem keep_keep (xs ys : List Lexeme) (r : Except Error (List Lexeme × Option Tape)) :
    keep xs (keep ys r) = keep (xs ++ ys) r := by
  cases r with
  | error e => rfl
  | ok p => simp only [keep, Except.map, List.append_assoc]

theorem keep_nil (r : Except Error (List Lexeme × Option Tape)) : keep [] r = r := by
  cases r <;> rfl

theorem untilNext_loop (counter : String) (depth : Nat) {x : Lexeme} (hx : x.token = .verb .loop) (t : Tape) :
    untilNext counter depth (cons x t) = keep [x] (untilNext counter (depth + 1) t) := by
  obtain ⟨x, p, q⟩ := x
  subst hx
  rfl

/-- A `NEXT` inside of the body closes the latest loop. The lexeme behind it is
passed over in either way, if it does not open or close a loop. -/
theorem untilNext_next (counter : String) (depth : Nat) {x y : Lexeme} (hx : x.token = .verb .next)
    (hloop : y.token ≠ .verb .loop) (hnext : y.token ≠ .verb .next) (t : Tape) :
    untilNext counter (depth + 1) (cons x (cons y t)) = keep [x] (untilNext counter depth (cons y t)) := by
  rw [untilNext_cons counter depth hloop hnext, keep_keep]
  obtain ⟨x, p, q⟩ := x
  subst hx
  rfl

/-- Behind the body, a `NEXT` that stands alone closes the loop. -/
theorem untilNext_alone (counter : String) {x : Lexeme} (hx : x.token = .verb .next) {t : Tape} (ht : t.Scanned)
    (hname : ∀ s, t.peek? ≠ some (.name s)) : untilNext counter 0 (cons x t) = .ok ([], some t) := by
  obtain ⟨x, p, q⟩ := x
  subst hx
  cases t with
  | stop p' => rfl
  | broken e => exact absurd rfl (ht e)
  | cons y t =>
    obtain ⟨y, p', q'⟩ := y
    cases y with
    | name s => exact absurd rfl (hname s)
    | _ => rfl

/-- Behind the body, a `NEXT` with its variable closes the loop. -/
theorem untilNext_named {counter : String} {x y : Lexeme} (hx : x.token = .verb .next) (hy : y.token = .name counter)
    {t : Tape} (ht : t.Scanned) : untilNext counter 0 (cons x (cons y t)) = .ok ([], some t) := by
  obtain ⟨x, p, q⟩ := x
  obtain ⟨y, p', q'⟩ := y
  subst hx hy
  simp only [untilNext, if_true]
  cases t with
  | broken e => exact absurd rfl (ht e)
  | _ => rfl

/-- **Looking for the end of a loop passes over a balanced body.** A `NEXT` at
its end must not be followed by what opens or closes a loop, which it would take
for its variable. -/
theorem untilNext_foldr (counter : String) {opened : Nat} {xs : List Lexeme}
    (h : Balanced opened (xs.map (·.token))) {y : Lexeme} (hy : xs.getLast?.map (·.token) = some (.verb .next) →
      y.token ≠ .verb .loop ∧ y.token ≠ .verb .next) (t : Tape) :
    untilNext counter opened (xs.foldr cons (cons y t)) = keep xs (untilNext counter 0 (cons y t)) := by
  induction xs generalizing opened with
  | nil =>
    obtain rfl := h.nil
    exact (keep_nil _).symm
  | cons x xs ih =>
    have hlast (hxs : xs.getLast?.map (·.token) = some (.verb .next)) : y.token ≠ .verb .loop ∧ y.token ≠ .verb .next := by
      cases xs with
      | nil => cases hxs
      | cons z xs => exact hy (by rwa [List.getLast?_cons_cons])
    have hkeep := keep_keep [x] xs (untilNext counter 0 (cons y t))
    by_cases hloop : x.token = .verb .loop
    · rw [List.map_cons, hloop] at h
      rw [← ih h.loop hlast] at hkeep
      exact (untilNext_loop counter opened hloop _).trans hkeep
    by_cases hnext : x.token = .verb .next
    · rw [List.map_cons, hnext] at h
      obtain ⟨k, rfl, hk⟩ := h.next
      rw [← ih hk hlast] at hkeep
      -- behind the `NEXT` comes what cannot open or close a loop
      cases xs with
      | nil =>
        obtain ⟨hy, hy'⟩ := hy (congrArg some hnext)
        exact (untilNext_next counter k hnext hy hy' _).trans hkeep
      | cons z xs =>
        obtain ⟨hz, hz'⟩ := (List.isChain_cons_cons.1 h.apart).1 rfl
        exact (untilNext_next counter k hnext hz hz' _).trans hkeep
    · rw [← ih (h.other hloop hnext) hlast] at hkeep
      exact (untilNext_cons counter opened hloop hnext _).trans hkeep

/-- Looking for the end of a loop passes over a balanced body and the colon
behind it. -/
theorem untilNext_balanced (counter : String) {opened : Nat} {xs : List Lexeme}
    (h : Balanced opened (xs.map (·.token))) {colon : Lexeme} (hcolon : colon.token = .colon) (p : Position)
    (ys : List Lexeme) :
    untilNext counter opened (ofList p (xs ++ colon :: ys)) =
      keep (xs ++ [colon]) (untilNext counter 0 (ofList p ys)) := by
  have hloop : colon.token ≠ .verb .loop := by simp [hcolon]
  have hnext : colon.token ≠ .verb .next := by simp [hcolon]
  rw [ofList_append, ofList, untilNext_foldr counter h (fun _ => ⟨hloop, hnext⟩), untilNext_cons counter 0 hloop hnext,
    keep_keep]

theorem ofBody_concat {xs : List Lexeme} (hxs : xs ≠ []) {colon : Lexeme} (hcolon : colon.token = .colon) :
    ofBody (xs ++ [colon]) = some (ofList colon.start xs) := by
  simp only [ofBody, List.getLast?_concat, List.dropLast_concat, hcolon]
  rw [if_neg (by simpa using hxs)]

theorem leads_ofList (p : Position) (xs ys : List Lexeme) :
    Leads (xs.map (·.token)) (ofList p (xs ++ ys)) (ofList p ys) := by
  rw [ofList_append]
  exact leads_foldr xs _

theorem scanned_ofList (p : Position) (xs : List Lexeme) : (ofList p xs).Scanned := by
  cases xs <;> nofun

end Tape

/-! ### The line -/

/-- A line `FOR v=a TO b STEP s : B : NEXT v : R`, or one where `NEXT` stands
alone. -/
structure LoopLine where
  head : LoopHead
  /-- `FOR`. -/
  opening : Lexeme
  /-- What stands between `FOR` and the body. -/
  range : List Lexeme
  /-- The colon before the body. -/
  entry : Lexeme
  body : List Lexeme
  /-- The colon behind the body. -/
  exit : Lexeme
  /-- `NEXT`. -/
  closing : Lexeme
  /-- The variable behind `NEXT`, if it is named. -/
  counter : Option Lexeme
  /-- The colon before the rest. -/
  separator : Lexeme
  rest : List Lexeme
  /-- The end of the line. -/
  stop : Position
  opening_eq : opening.token = .verb .loop
  spelled : head.Spelled (range.map (·.token))
  numeric : VariableKind.ofName head.place.name = .numeric
  entry_eq : entry.token = .colon
  body_ne_nil : body ≠ []
  balanced : Balanced 0 (body.map (·.token))
  exit_eq : exit.token = .colon
  closing_eq : closing.token = .verb .next
  counter_eq : ∀ x ∈ counter, x.token = .name head.place.name
  separator_eq : separator.token = .colon

namespace LoopLine

variable (l : LoopLine)

/-- The line behind its body. -/
def ending : List Lexeme := l.closing :: (l.counter.toList ++ l.separator :: l.rest)

/-- The lexemes of the line. -/
def tape : Tape :=
  .ofList l.stop (l.opening :: (l.range ++ l.entry :: (l.body ++ l.exit :: l.ending)))

/-- The body as a line of its own. -/
def bodyTape : Tape := .ofList l.exit.start l.body

/-- The rest as a line of its own. -/
def restTape : Tape := .ofList l.stop l.rest

/-- Every text with these tokens is such a line. -/
theorem exists_of_tokens {t : Tape} {head : LoopHead} {range body counter rest : List Token}
    (ht : t.tokens? = some (.verb .loop :: (range ++ .colon :: (body ++ .colon :: .verb .next ::
      (counter ++ .colon :: rest)))))
    (hrange : head.Spelled range) (hkind : VariableKind.ofName head.place.name = .numeric) (hne : body ≠ [])
    (hbody : Balanced 0 body) (hcounter : counter = [] ∨ counter = [.name head.place.name]) :
    ∃ l : LoopLine, l.tape = t ∧ l.head = head ∧ l.body.map (·.token) = body ∧ l.rest.map (·.token) = rest := by
  obtain ⟨xs, p, rfl, h₀⟩ := Tape.exists_ofList ht
  obtain ⟨opening, xs, rfl, hopening, h₁⟩ := List.map_eq_cons_iff.1 h₀
  obtain ⟨ranges, xs, rfl, rfl, h₂⟩ := List.map_eq_append_iff.1 h₁
  obtain ⟨entry, xs, rfl, hentry, h₃⟩ := List.map_eq_cons_iff.1 h₂
  obtain ⟨bodies, xs, rfl, rfl, h₄⟩ := List.map_eq_append_iff.1 h₃
  obtain ⟨exit, xs, rfl, hexit, h₅⟩ := List.map_eq_cons_iff.1 h₄
  obtain ⟨closing, xs, rfl, hclosing, h₆⟩ := List.map_eq_cons_iff.1 h₅
  obtain ⟨counters, xs, rfl, rfl, h₇⟩ := List.map_eq_append_iff.1 h₆
  obtain ⟨separator, rests, rfl, hseparator, rfl⟩ := List.map_eq_cons_iff.1 h₇
  -- one lexeme or none stands between `NEXT` and the last colon
  obtain ⟨c, rfl, hc⟩ : ∃ c : Option Lexeme, counters = c.toList ∧ ∀ x ∈ c, x.token = .name head.place.name := by
    rcases hcounter with hcounter | hcounter
    · exact ⟨none, List.map_eq_nil_iff.1 hcounter, nofun⟩
    · obtain ⟨x, rfl, hx⟩ := List.map_eq_singleton_iff.1 hcounter
      exact ⟨some x, rfl, by rintro _ ⟨⟩; exact hx⟩
  exact ⟨⟨head, opening, ranges, entry, bodies, exit, closing, c, separator, rests, p, hopening, hrange, hkind, hentry,
    fun h => hne (List.map_eq_nil_iff.2 h), hbody, hexit, hclosing, hc, hseparator⟩, rfl, rfl, rfl, rfl⟩

theorem untilNext_ending :
    Tape.untilNext l.head.place.name 0 (.ofList l.stop l.ending) =
      .ok ([], some (.cons l.separator l.restTape)) := by
  unfold ending
  cases hc : l.counter with
  | none =>
    refine Tape.untilNext_alone _ l.closing_eq (Tape.scanned_cons l.separator l.restTape) ?_
    simp [Tape.ofList, Tape.peek?, l.separator_eq]
  | some x => exact Tape.untilNext_named l.closing_eq (l.counter_eq x hc) (Tape.scanned_cons _ _)

theorem readLoopRest_eq (again : Tape → Script) :
    Script.readLoopRest again l.head (.ofList l.stop (l.entry :: (l.body ++ l.exit :: l.ending))) =
      .ok (.loop l.head (again l.bodyTape) (again l.restTape)) := by
  have hbody := Tape.untilNext_balanced l.head.place.name l.balanced l.exit_eq l.stop l.ending
  rw [untilNext_ending] at hbody
  have hrest := Script.readRest_colon l.separator_eq again (t := l.restTape) (Tape.scanned_ofList l.stop l.rest)
  refine (Script.readLoopRest_colon l.entry_eq again l.head hbody).trans ?_
  rw [List.append_nil, Script.readBody, Tape.ofBody_concat l.body_ne_nil l.exit_eq, hrest]
  rfl

/-- **The line is read as one loop**, whose body and rest are lines of their
own. -/
theorem read_tape : Script.read l.tape = .loop l.head (Script.read l.bodyTape) (Script.read l.restTape) := by
  have hlead := Tape.leads_ofList l.stop l.range (l.entry :: (l.body ++ l.exit :: l.ending))
  have hloop := Script.readLoop_spelled l.spelled l.numeric hlead (Tape.scanned_ofList _ _)
    (Script.stops_colon l.entry_eq _) (l.readLoopRest_eq Script.read)
  rw [Script.read_eq_readStatement]
  refine (Script.readStatement_verb l.opening_eq Script.read (Tape.scanned_ofList _ _)).trans ?_
  exact congrArg Script.ofReading hloop

end LoopLine

end LineBasic
