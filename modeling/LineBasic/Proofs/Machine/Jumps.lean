import LineBasic.Proofs.Alike.Execute
import LineBasic.Proofs.Grammar.Loop
import LineBasic.Proofs.Line.Leading

/-!
# Conditional jumps

A conditional jump can be spelled in five ways: `IF c GOTO t`, `IF c THEN t`,
`IF c t`, `IF c THEN GOTO t` and `ON c GOTO t`, where the target begins with a
number. No expression goes on into any of the words behind the condition, nor
into a number. So all of them are read as the same branch: if the condition
holds there is a jump, then what stands behind it in the line, and if it does
not hold the rest of the line is skipped.

* `JumpForm`: the ways to spell a conditional jump.
* `JumpForm.read_eq`: they are read as the same script.
* `JumpForm.begins_text`: a line in one of the forms begins with its tokens.
* `Machine.jump_forms_alike`: the forms are interchangeable.
-/

namespace LineBasic

open Tape (Leads)

/-! ### The forms -/

/-- A way to spell a conditional jump. -/
inductive JumpForm where
  /-- `IF c GOTO t` -/
  | goto
  /-- `IF c THEN t` -/
  | thenTo
  /-- `IF c t` -/
  | bare
  /-- `IF c THEN GOTO t` -/
  | thenGoto
  /-- `ON c GOTO t` -/
  | onGoto
  deriving DecidableEq, Repr

namespace JumpForm

/-- The verb before the condition. -/
def verb : JumpForm → Verb
  | onGoto => .on
  | _ => .when

/-- The tokens between the condition and the target. -/
def link : JumpForm → List Token
  | goto | onGoto => [.verb .goto]
  | thenTo => [.keyword .thenDo]
  | bare => []
  | thenGoto => [.keyword .thenDo, .verb .goto]

/-- The tokens of the jump, of which those of the condition and the target are
given. -/
def tokens (f : JumpForm) (condition target : List Token) : List Token :=
  .verb f.verb :: (condition ++ (f.link ++ target))

/-- The word before the condition. -/
def opening : JumpForm → String
  | onGoto => "ON"
  | _ => "IF"

/-- The words between the condition and the target, with a space before each. -/
def between : JumpForm → String
  | goto | onGoto => " GOTO"
  | thenTo => " THEN"
  | bare => ""
  | thenGoto => " THEN GOTO"

/-- The line with the texts of a condition and a target, and with some text
behind them. -/
def text (f : JumpForm) (condition target tail : String) : String :=
  f.opening ++ " " ++ condition ++ f.between ++ " " ++ target ++ tail

example : thenGoto.text "A=1" "10" ": END" = "IF A=1 THEN GOTO 10: END" := by decide

end JumpForm

/-! ### Reading -/

namespace Script

theorem skip_of_leads {ts : List Token} {t rest : Tape} (h : Leads ts t rest) : skip t = skip rest := by
  induction h with
  | nil => rfl
  | cons _ _ _ _ ih => exact ih

end Script

theorem Tape.scanned_of_atStatementEnd {t : Tape} (h : t.atStatementEnd = true) : t.Scanned := by
  rintro e rfl
  cases h

theorem Level.stops_of_atStatementEnd {t : Tape} (h : t.atStatementEnd = true) (v : Level) (g : Edge) : v.stops g t := by
  rcases t with p | e | ⟨⟨x, p, q⟩, rest⟩
  · intro x hx
    cases hx
  · cases h
  · obtain rfl : x = .colon := Option.some.inj (beq_iff_eq.1 h)
    exact Level.stops_of_level? (x := .colon) rfl Token.noConfusion v g p q rest

namespace JumpForm

variable {condition target : List Token} {c e : Expr} {g g' : Edge} {n : Int64} {t rest : Tape}

/-- What follows the condition is no part of it. -/
theorem stops_link (f : JumpForm) (hlead : Leads (f.link ++ .number n :: target) t rest) (v : Level) (g : Edge) :
    v.stops g t := by
  cases f with
  | goto | onGoto =>
    cases hlead with
    | cons _ p q _ => exact Level.stops_of_level? (x := .verb .goto) rfl Token.noConfusion v g p q _
  | thenTo | thenGoto =>
    cases hlead with
    | cons _ p q _ => exact Level.stops_of_level? (x := .keyword .thenDo) rfl Token.noConfusion v g p q _
  | bare =>
    cases hlead with
    | cons _ p q _ => exact Level.stops_of_level? (x := .number n) rfl Token.noConfusion v g p q _

/-- The target of a jump, and what follows it. -/
theorem readOne_target (htarget : Phrase .disjunction g' target e) (hlead : Leads target t rest)
    (hend : rest.atStatementEnd = true) (again : Tape → Script) :
    Script.readOne again .goto t = .ok (.step (.goto e) (Script.readRest again rest)) := by
  have hread : Expr.read t = .ok (e, rest) :=
    Expr.read_phrase htarget hlead (Tape.scanned_of_atStatementEnd hend) (Level.stops_of_atStatementEnd hend _ _)
  rw [Script.readOne, hread]
  rfl

/-- What follows the condition of `IF`. -/
theorem readThen_link (f : JumpForm) (hf : f ≠ onGoto) (htarget : Phrase .disjunction g' (.number n :: target) e)
    (hlead : Leads (f.link ++ .number n :: target) t rest) (hend : rest.atStatementEnd = true) :
    Script.readThen Script.read t = .step (.goto e) (Script.readRest Script.read rest) := by
  -- wherever the target begins, it can be scanned and a jump there can be read
  have jump {u : Tape} (hu : Leads (.number n :: target) u rest) : u.ready = .ok u ∧
      Script.readOne Script.read .goto u = .ok (.step (.goto e) (Script.readRest Script.read rest)) :=
    ⟨(hu.scanned (Tape.scanned_of_atStatementEnd hend)).ready, readOne_target htarget hu hend Script.read⟩
  cases f with
  | onGoto => exact absurd rfl hf
  | goto =>
    rcases hlead with _ | ⟨_, p, q, hlead⟩
    obtain ⟨hready, hjump⟩ := jump hlead
    simp only [Script.readThen, hready, bind, Except.bind, hjump]
    rfl
  | thenTo =>
    rcases hlead with _ | ⟨_, p, q, hlead⟩
    obtain ⟨hready, hjump⟩ := jump hlead
    rcases hlead with _ | ⟨_, p', q', hlead⟩
    simp only [Script.readThen, hready, bind, Except.bind, Tape.peek?, hjump]
    rfl
  | bare =>
    obtain ⟨-, hjump⟩ := jump hlead
    rcases hlead with _ | ⟨_, p, q, hlead⟩
    simp only [Script.readThen, hjump]
    rfl
  | thenGoto =>
    rcases hlead with _ | ⟨_, p, q, hlead⟩
    rcases hlead with _ | @⟨_, p', q', _, u, _, hlead⟩
    have hscan := hlead.scanned (Tape.scanned_of_atStatementEnd hend)
    have hstatement : Script.read (.cons ⟨.verb .goto, p', q'⟩ u) =
        .step (.goto e) (Script.readRest Script.read rest) := by
      rw [Script.read_eq_readStatement, Script.readStatement_verb rfl _ hscan]
      exact congrArg Script.ofReading (jump hlead).2
    simp only [Script.readThen, (Tape.scanned_cons _ _).ready, bind, Except.bind, Tape.peek?, hstatement]
    rfl

/-- **All forms are read as the same branch.** -/
theorem read_eq (f : JumpForm) (hcondition : Phrase .disjunction g condition c)
    (htarget : Phrase .disjunction g' (.number n :: target) e)
    (hlead : Leads (f.tokens condition (.number n :: target)) t rest) (hend : rest.atStatementEnd = true) :
    Script.read t = .branch c (.step (.goto e) (Script.readRest Script.read rest)) (Script.skip rest) := by
  have hscan := Tape.scanned_of_atStatementEnd hend
  rcases hlead with _ | @⟨_, p, q, _, u, _, hlead⟩
  obtain ⟨mid, hc, hlink⟩ := hlead.split
  have hread : Expr.read u = .ok (c, mid) :=
    Expr.read_phrase hcondition hc (hlink.scanned hscan) (f.stops_link hlink _ _)
  have hskip : Script.skip mid = Script.skip rest := Script.skip_of_leads hlink
  rw [Script.read_eq_readStatement, Script.readStatement_verb rfl _ (hc.scanned (hlink.scanned hscan))]
  by_cases hf : f = onGoto
  · subst hf
    rcases hlink with _ | ⟨_, p', q', htail⟩
    have hexpect := Tape.expect_cons (.verb .goto) p' q' (htail.scanned hscan)
    have hjump := readOne_target htarget htail hend Script.read
    show Script.ofReading (Script.readOn Script.read u) = _
    simp only [Script.readOn, hread, bind, Except.bind, hexpect, behind, Except.mapError, hjump, Script.skip_of_leads htail]
    rfl
  · have hverb : f.verb = .when := by cases f <;> first | rfl | exact absurd rfl hf
    have hthen := f.readThen_link hf htarget hlink hend
    rw [hverb]
    show Script.ofReading (Script.readWhen Script.read u) = _
    simp only [Script.readWhen, hread, bind, Except.bind, hthen, hskip]
    rfl

/-- Lines in two of the forms that go on alike have scripts alike. -/
theorem read_alike (f f' : JumpForm) (hcondition : Phrase .disjunction g condition c)
    (htarget : Phrase .disjunction g' (.number n :: target) e) {t' rest' : Tape}
    (hlead : Leads (f.tokens condition (.number n :: target)) t rest)
    (hlead' : Leads (f'.tokens condition (.number n :: target)) t' rest') (halike : rest.Alike rest')
    (hend : rest.atStatementEnd = true) : (Script.read t).Alike (Script.read t') := by
  rw [f.read_eq hcondition htarget hlead hend, f'.read_eq hcondition htarget hlead' (halike.atStatementEnd ▸ hend)]
  exact .branch c (.step (.goto e) (Script.readRest_alike (fun _ _ => Script.read_alike) halike))
    (Script.skip_alike halike)

end JumpForm

/-! ### Texts -/

/-- The text of a token does not begin with `$`. -/
theorem Reads.ne_dollar {t : Token} {cs rest : List Char} (h : Reads t cs rest) : ∀ x ∈ cs.head?, x ≠ '$' := by
  obtain ⟨ch, r, rfl, -⟩ := h.head
  rintro x ⟨⟩ rfl
  have hread := (scanToken_of_reads h (c := ⟨.start, '$' :: r⟩) rfl).1
  cases hread

mutual

/-- There is no verb in an expression. -/
theorem Phrase.verb_not_mem {v : Level} {g : Edge} {ts : List Token} {e : Expr} (h : Phrase v g ts e) (w : Verb) :
    .verb w ∉ ts := by
  match h with
  | .number n => simp
  | .text s => simp
  | .scalar s => simp
  | .element s h => simp [h.verb_not_mem w]
  | .group h => simp [h.verb_not_mem w]
  | .call f h => simp [h.verb_not_mem w]
  | .sign s h => simp [h.verb_not_mem w]
  | .negation h => simp [h.verb_not_mem w]
  | .comparison (x := x) hl hx hr =>
    have hne : .verb w ≠ x := by rintro rfl; cases hx
    simp [hl.verb_not_mem w, hr.verb_not_mem w, hne]
  | .operand _ h => exact h.verb_not_mem w
  | .binary (x := x) hv hl _ hx hr =>
    have hne : .verb w ≠ x := by rintro rfl; cases v <;> cases hx
    simp [hl.verb_not_mem w, hr.verb_not_mem w, hne]

theorem ArgPhrase.verb_not_mem {slots : List Slot} {ts : List Token} {args : Args} (h : ArgPhrase slots ts args)
    (w : Verb) : .verb w ∉ ts := by
  match h with
  | .none slots => simp
  | .last slots _ h => exact h.verb_not_mem w
  | .value _ h hus => simp [h.verb_not_mem w, hus.verb_not_mem w]
  | .lastHandle slots s => simp
  | .handle s hus => simp [hus.verb_not_mem w]

end

namespace JumpForm

variable {condition target : List Token} {n : Int64}

/-- The word before the condition is a token of its own. -/
theorem begins_opening (f : JumpForm) {cs rest : List Char} {ts : List Token} (h : Begins (cs.dropWhile isBlank) ts rest)
    (hne : ts ≠ []) : Begins (f.opening.toList ++ ' ' :: cs) (.verb f.verb :: ts) rest := by
  have hdollar : ∀ x ∈ (cs.dropWhile isBlank).head?, x ≠ '$' := by
    cases h with
    | nil => exact absurd rfl hne
    | cons hr _ _ => exact hr.ne_dollar
  have hreads : Reads (wordToken f.opening.toList) (f.opening.toList ++ ' ' :: cs) (' ' :: cs) := by
    refine .word ?_ ?_ ?_ hdollar
    · cases f <;> decide
    · cases f <;> exact List.all_eq_true.1 (by decide)
    · rintro x ⟨⟩
      rfl
  have hword : wordToken f.opening.toList = .verb f.verb := by cases f <;> decide
  rw [hword] at hreads
  exact .cons hreads (by cases f <;> decide) h

/-- The words between condition and target are tokens of their own, and no
condition goes on into them. -/
theorem begins_between (f : JumpForm) {cs : List Char} (hcs : ∀ x ∈ (cs.dropWhile isBlank).head?, x.isDigit = true) :
    Begins ((f.between.toList ++ ' ' :: cs).dropWhile isBlank) f.link (cs.dropWhile isBlank) ∧
      Parts (f.between.toList ++ ' ' :: cs) := by
  have hparts : Parts (' ' :: cs) := by
    refine ⟨by rintro x ⟨⟩; rfl, fun x hx => ?_⟩
    have hdigit : x.isDigit = true := hcs x hx
    refine ⟨?_, ?_, ?_⟩ <;> rintro rfl <;> exact absurd hdigit (by decide)
  have hscans : Scans (f.between.toList.dropWhile isBlank) f.link := by
    have htokens : (Scanner.mk ⟨.start, f.between.toList.dropWhile isBlank⟩ .statement).tape.tokens? = some f.link := by
      cases f <;> decide +kernel
    exact scans_of_tape rfl htokens
  refine ⟨hscans.begins (by cases f <;> decide) hparts, ?_⟩
  cases f with
  | bare => exact hparts
  | _ =>
    refine ⟨by rintro x ⟨⟩; rfl, ?_⟩
    rintro x ⟨⟩
    decide

/-- A text that is empty or begins with a colon goes on with no token. -/
theorem parts_tail {r : List Char} (hr : ∀ x ∈ r.head?, x = ':') : Parts r ∧ r.dropWhile isBlank = r := by
  cases r with
  | nil => exact ⟨⟨by simp, by simp⟩, rfl⟩
  | cons x r =>
    obtain rfl : x = ':' := hr x rfl
    exact ⟨parts_colon r, rfl⟩

/-- **A line in one of the forms begins with its tokens.** -/
theorem begins_text (f : JumpForm) {c t r : String} (hc : Scans (c.toList.dropWhile isBlank) condition)
    (ht : Scans (t.toList.dropWhile isBlank) (.number n :: target)) (hcremark : .verb .remark ∉ condition)
    (htremark : .verb .remark ∉ .number n :: target) (hne : condition ≠ []) (hr : ∀ x ∈ r.toList.head?, x = ':') :
    Begins ((f.text c t r).toList.dropWhile isBlank) (f.tokens condition (.number n :: target)) r.toList := by
  have htext : (f.text c t r).toList.dropWhile isBlank = f.opening.toList ++
      ' ' :: (c.toList ++ (f.between.toList ++ ' ' :: (t.toList ++ r.toList))) := by
    cases f <;> simp [text, opening, isBlank]
  obtain ⟨hparts, hblank⟩ := parts_tail hr
  have htarget : Begins ((t.toList ++ r.toList).dropWhile isBlank) (.number n :: target) r.toList := by
    have h := ht.begins htremark hparts
    rwa [hblank] at h
  have hdigit : ∀ x ∈ ((t.toList ++ r.toList).dropWhile isBlank).head?, x.isDigit = true := by
    cases htarget with
    | cons hreads _ _ =>
      obtain ⟨ch, more, hch, -, hnumber⟩ := hreads.head
      rw [hch]
      rintro x ⟨⟩
      exact hnumber.2 ⟨n, rfl⟩
  obtain ⟨hlink, hbetween⟩ := f.begins_between hdigit
  have hcondition := hc.begins hcremark hbetween
  rw [htext]
  refine f.begins_opening (hcondition.append (hlink.append htarget)) ?_
  exact List.append_ne_nil_of_left_ne_nil hne _

/-- Where the rest of a line is empty or begins with a colon, the statement
ends. -/
theorem atStatementEnd_tail {c : Cursor} (hc : ∀ x ∈ c.rest.head?, x = ':') :
    (Scanner.mk c .statement).tape.atStatementEnd = true := by
  cases hrest : c.rest with
  | nil =>
    rw [Scanner.tape_eq, Scanner.next, if_neg (by simp), if_pos (by simp [hrest])]
    rfl
  | cons x r =>
    obtain rfl : x = ':' := hc x (by rw [hrest]; rfl)
    have hreads : Reads .colon c.rest r := hrest ▸ .sign rfl
    obtain ⟨stop, after, hnext, -⟩ := Scanner.next_of_reads hreads
    rw [Scanner.tape_of_next hnext]
    rfl

end JumpForm

/-! ### Executing -/

namespace Machine

variable {s : String} {v : Verb} {ts : List Token} {r : List Char}

/-- A text that begins with a verb has no line number. -/
theorem ofLine_of_begins (h : Begins (s.toList.dropWhile isBlank) (.verb v :: ts) r) :
    ∃ c : Cursor, c.rest = r ∧ Leads (.verb v :: ts) (Tape.ofLine s) (Scanner.mk c .statement).tape := by
  obtain ⟨c, hc, hleads⟩ := h.leads (c := (Cursor.ofText s.toList).skipBlanks) rfl
  refine ⟨c, hc, ?_⟩
  unfold Tape.ofLine Scanner.ofText
  rwa [Scanner.tape_start_of_not_digit h.not_isDigit_head]

theorem ofStatements_of_begins (h : Begins (s.toList.dropWhile isBlank) ts r) :
    ∃ c : Cursor, c.rest = r ∧ Leads ts (Tape.ofStatements s) (Scanner.mk c .statement).tape := by
  refine h.leads (c := (Cursor.atOffset s.toList 0).skipBlanks) ?_
  rw [Cursor.rest_skipBlanks, Cursor.atOffset, Cursor.splitBytes]

theorem execute_of_leads (run : Act Unit) {rest : Tape} (h : Leads (.verb v :: ts) (Tape.ofLine s) rest) :
    execute run s = (Script.read (Tape.ofLine s)).exec run none := by
  unfold execute
  generalize Tape.ofLine s = t at h
  cases h with
  | cons _ p q _ => rfl

section Forms

variable (run : Act Unit) (f f' : JumpForm) {condition target : List Token} {c e : Expr} {g g' : Edge} {n : Int64}
  (hcondition : Phrase .disjunction g condition c) (htarget : Phrase .disjunction g' (.number n :: target) e)

include hcondition htarget

/-- Lines that begin with the tokens of two forms, with the same text behind
them. -/
theorem alike_of_begins {s s' : String} {r : List Char} (hr : ∀ x ∈ r.head?, x = ':')
    (hs : Begins (s.toList.dropWhile isBlank) (f.tokens condition (.number n :: target)) r)
    (hs' : Begins (s'.toList.dropWhile isBlank) (f'.tokens condition (.number n :: target)) r) :
    (execute run s).Alike (execute run s') ∧ ∀ k, (executeLine run k s).Alike (executeLine run k s') := by
  have alike {t t' : Tape} {d d' : Cursor} (hd : d.rest = r) (hd' : d'.rest = r)
      (h : Leads (f.tokens condition (.number n :: target)) t (Scanner.mk d .statement).tape)
      (h' : Leads (f'.tokens condition (.number n :: target)) t' (Scanner.mk d' .statement).tape) :
      (Script.read t).Alike (Script.read t') :=
    f.read_alike f' hcondition htarget h h' (Scanner.tape_alike (hd.trans hd'.symm))
      (JumpForm.atStatementEnd_tail (hd ▸ hr))
  constructor
  · obtain ⟨d, hd, hleads⟩ := ofLine_of_begins hs
    obtain ⟨d', hd', hleads'⟩ := ofLine_of_begins hs'
    rw [execute_of_leads run hleads, execute_of_leads run hleads']
    exact Script.exec_alike run none (alike hd hd' hleads hleads')
  · intro k
    obtain ⟨d, hd, hleads⟩ := ofStatements_of_begins hs
    obtain ⟨d', hd', hleads'⟩ := ofStatements_of_begins hs'
    exact Script.exec_alike run (some k) (alike hd hd' hleads hleads')

end Forms

/-- **The spellings of a conditional jump are interchangeable.** Let the
condition and the target be expressions, the target with a number first. Two
lines that spell the jump in any of the five forms, with the same text behind it
that is empty or begins with a colon, leave the same machine and come to the
same end on every machine, but for the position of a syntax error. They do so as
texts that are executed and as lines of a program. All that counts is that the
lines begin with the tokens of the forms; in particular, the texts of condition
and target may be set into each form as they are. What stands behind the jump
need not be scannable. -/
theorem jump_forms_alike (run : Act Unit) (f f' : JumpForm) {condition target : List Token} {c e : Expr} {g g' : Edge}
    {n : Int64} (hcondition : Phrase .disjunction g condition c)
    (htarget : Phrase .disjunction g' (.number n :: target) e) :
    (∀ (s s' : String) (r : List Char), (∀ x ∈ r.head?, x = ':') →
      Begins (s.toList.dropWhile isBlank) (f.tokens condition (.number n :: target)) r →
      Begins (s'.toList.dropWhile isBlank) (f'.tokens condition (.number n :: target)) r →
      (execute run s).Alike (execute run s') ∧ ∀ k, (executeLine run k s).Alike (executeLine run k s')) ∧
    ∀ c t r : String, Scans (c.toList.dropWhile isBlank) condition →
      Scans (t.toList.dropWhile isBlank) (.number n :: target) → (∀ x ∈ r.toList.head?, x = ':') →
      (execute run (f.text c t r)).Alike (execute run (f'.text c t r)) ∧
        ∀ k, (executeLine run k (f.text c t r)).Alike (executeLine run k (f'.text c t r)) := by
  constructor
  · intro s s' r hr hs hs'
    exact alike_of_begins run f f' hcondition htarget hr hs hs'
  · intro c t r hc ht hr
    have begins (f : JumpForm) := f.begins_text hc ht (hcondition.verb_not_mem .remark) (htarget.verb_not_mem .remark)
      hcondition.ne_nil hr
    exact alike_of_begins run f f' hcondition htarget hr (begins f) (begins f')

-- The condition ends in a number and the target follows at once; behind the
-- jump the line cannot be scanned.
theorem jump_forms_alike_bare :
    (execute (pure ()) "IF A<>1 10+B: PRINT \"").Alike (execute (pure ()) "ON A<>1 GOTO 10+B: PRINT \"") ∧
    (executeLine (pure ()) 5 "IF A<>1 THEN GOTO 10+B").Alike (executeLine (pure ()) 5 "if a < > 1then 10 + b") := by
  have hcompared : Phrase .term _ [.name "A", .relation .notEqual, .number 1] _ :=
    .comparison (.operand nofun (.operand nofun (.scalar "A"))) (x := .relation .notEqual) rfl (.ofNumber 1 .sum)
  have hcondition : Phrase .disjunction _ [.name "A", .relation .notEqual, .number 1] _ :=
    .operand nofun (.operand nofun (.operand nofun hcompared))
  have hsum : Phrase .sum _ [.number 10, .sign .plus, .name "B"] _ :=
    .binary rfl (.ofNumber 10 .sum) rfl (x := .sign .plus) rfl (.operand nofun (.scalar "B"))
  have htarget : Phrase .disjunction _ [.number 10, .sign .plus, .name "B"] _ :=
    .operand nofun (.operand nofun (.operand nofun (.operand nofun hsum)))
  have hscans {cs : List Char} {ts : List Token}
      (h : (Scanner.mk ⟨.start, cs⟩ .statement).tape.tokens? = some ts) : Scans cs ts := scans_of_tape rfl h
  constructor
  · exact ((jump_forms_alike (pure ()) .bare .onGoto hcondition htarget).2 "A<>1" "10+B" ": PRINT \""
      (hscans (by decide +kernel)) (hscans (by decide +kernel)) (by rintro x ⟨⟩; rfl)).1
  · have hnil : Parts [] := ⟨by simp, by simp⟩
    have begins {cs : List Char} {ts : List Token} (h : (Scanner.mk ⟨.start, cs.dropWhile isBlank⟩ .statement).tape.tokens? =
        some ts) (hremark : .verb .remark ∉ ts) : Begins (cs.dropWhile isBlank) ts [] := by
      have hbegins := (hscans h).begins hremark hnil
      rwa [List.append_nil] at hbegins
    exact ((jump_forms_alike (pure ()) .thenGoto .thenTo hcondition htarget).1 _ _ [] (by simp)
      (begins (by decide +kernel) (by decide)) (begins (by decide +kernel) (by decide))).2 5

end Machine

end LineBasic
