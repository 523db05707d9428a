import LineBasic.Proofs.Grammar.LoopLines
import LineBasic.Proofs.Line.FinalColon
import LineBasic.Proofs.Machine.Rounds

/-!
# Loops over the rest of their line

A loop in one line without `NEXT` repeats all that stands behind its head, and
then the line is over. The body is the rest of the line as it was scanned, but
for a colon at its end. To cut the text off there and to scan it again comes to
the same, wherever the line ends: in a word, in a quoted text, in the middle of
an inner loop. Only in a comment the colon at the end is not a token, and it is
lost all the same.

* `OpenLoop`: the lines of this form.
* `OpenLoop.read_tape`: what is made of them.
* `OpenLoop.CutFrom`: the body is what is scanned once more behind the head.
* `OpenLoop.repeats_rest`: what such a line does.
-/

namespace LineBasic

/-! ### Looking for the end -/

namespace Tape

/-- Without any `NEXT` a loop goes on to the end of the line. -/
theorem untilNext_of_no_next (counter : String) (p : Position) {xs : List Lexeme}
    (h : ∀ x ∈ xs, x.token ≠ .verb .next) (depth : Nat) : untilNext counter depth (ofList p xs) = .ok (xs, none) := by
  induction xs generalizing depth with
  | nil => rfl
  | cons x xs ih =>
    have hrest := ih fun y hy => h y (List.mem_cons_of_mem x hy)
    by_cases hloop : x.token = .verb .loop
    · refine (untilNext_loop counter depth hloop _).trans ?_
      rw [hrest]
      rfl
    · refine (untilNext_cons counter depth hloop (h x List.mem_cons_self) _).trans ?_
      rw [hrest]
      rfl

/-- **The tokens of a body are those it was made of, without a final colon**,
and there is no body without tokens. -/
theorem ofBody_cases (xs : List Lexeme) :
    (ofBody xs = none ∧ Token.withoutFinalColon (xs.map (·.token)) = []) ∨
      ∃ u, ofBody xs = some u ∧ u.tokens? = some (Token.withoutFinalColon (xs.map (·.token))) ∧
        Token.withoutFinalColon (xs.map (·.token)) ≠ [] := by
  rcases List.eq_nil_or_concat' xs with rfl | ⟨xs, ⟨t, p, q⟩, rfl⟩
  · exact .inl ⟨rfl, rfl⟩
  rw [List.map_append, List.map_singleton, Token.withoutFinalColon_concat]
  simp only [ofBody, List.getLast?_concat, List.dropLast_concat]
  cases t with
  | colon =>
    by_cases hxs : xs = []
    · subst hxs
      exact .inl ⟨rfl, rfl⟩
    · right
      refine ⟨_, if_neg (by simpa using hxs), ?_, ?_⟩
      · rw [tokens?_ofList, Token.withoutColon, List.append_nil]
      · simpa [Token.withoutColon] using hxs
  | comment s =>
    right
    simp only [Token.withoutColon, commentWithoutColon]
    split
    · refine ⟨_, rfl, ?_, by simp⟩
      rw [tokens?_ofList, List.map_append]
      rfl
    · refine ⟨_, rfl, ?_, by simp⟩
      rw [tokens?_ofList, List.map_append]
      rfl
  | _ =>
    refine .inr ⟨_, rfl, ?_, by simp [Token.withoutColon]⟩
    rw [tokens?_ofList, List.map_append]
    rfl

end Tape

/-! ### Behind a colon -/

/-- The text before and behind a colon that is taken for a token. -/
theorem Scanner.split_colon {cs : List Char} {s : Scanner} (hs : s.Ready cs) {x : Lexeme} {after : Scanner}
    (hx : x.token = .colon) (hnext : s.next = (.ok (some x), after)) :
    ∃ before tail, cs = before ++ [':'] ++ tail ∧ x.stop.offset = Position.byteCount (before ++ [':']) ∧
      after.cursor.rest = tail.dropWhile isBlank ∧ after.mode = .statement := by
  rcases next_eq_some hnext with ⟨-, rfl, -⟩ | ⟨-, t, stop, hscan, rfl, rfl⟩
  · cases hx
  obtain rfl : t = .colon := hx
  have htoken : scanToken s.cursor = (.ok .colon, stop) := by
    rcases scan_cases hscan with ⟨n, h⟩ | h
    · cases h
    · exact h
  have hreads : Reads .colon s.cursor.rest stop.rest := by
    have h := reads_scanToken (congrArg Prod.fst htoken)
    rwa [htoken] at h
  obtain ⟨w, last, hrest, hextent⟩ := hreads.extent
  obtain rfl := hextent.alone rfl
  obtain rfl := hextent.colon.2 rfl
  obtain ⟨before, hbefore, -⟩ := hs.standsIn
  obtain ⟨upTo, hupTo, hposition⟩ : stop.StandsIn cs := by
    have h := hs.scan
    rwa [hscan] at h
  have hcs : cs = before ++ [':'] ++ stop.rest := by
    rw [← hbefore, hrest]
    simp
  obtain rfl : upTo = before ++ [':'] := List.append_cancel_right (hupTo.trans hcs)
  exact ⟨before, stop.rest, hcs, congrArg Position.offset hposition, Cursor.rest_skipBlanks stop, rfl⟩

/-- **What a text without its final colon is scanned to behind a colon.** -/
theorem Scans.behind_colon {tail : List Char} {ts : List Token} (h : Scans (tail.dropWhile isBlank) ts)
    (before : List Char) :
    Scans ((Cursor.atOffset (withoutFinalColon (before ++ [':'] ++ tail))
      (Position.byteCount (before ++ [':']))).rest.dropWhile isBlank) (Token.withoutFinalColon ts) := by
  by_cases htail : trimEndList tail = []
  · -- the colon itself is the final one
    have hts : ts = [] := h.eq_nil_iff.2 htail
    have hkept : withoutFinalColon (before ++ [':'] ++ tail) = before := by
      rw [List.append_assoc]
      exact withoutFinalColon_colon htail
    have hle : Position.byteCount before ≤ Position.byteCount (before ++ [':']) := by
      rw [Position.byteCount_append]
      exact Nat.le_add_right _ _
    rw [hkept, Cursor.rest_atOffset_of_le hle, hts]
    exact .nil
  · have hrest : (Cursor.atOffset (before ++ [':'] ++ withoutFinalColon tail)
        (Position.byteCount (before ++ [':']))).rest = withoutFinalColon tail := by
      rw [Cursor.atOffset, Cursor.splitBytes_byteCount]
    rw [withoutFinalColon_append htail, hrest, dropWhile_withoutFinalColon]
    exact h.shortened

/-! ### Reading -/

theorem Script.readLoopRest_open {x : Lexeme} (hx : x.token = .colon) (again : Tape → Script) (head : LoopHead) {t : Tape}
    {body : List Lexeme} (h : t.untilNext head.place.name 0 = .ok (body, none)) :
    readLoopRest again head (.cons x t) = .ok (.loop head (readBody again body) .done) := by
  obtain ⟨x, p, q⟩ := x
  subst hx
  simp only [readLoopRest, h]
  rfl

/-- A line that is nothing but a remark. -/
theorem Script.read_remark {t : Tape} {s : String} (ht : t.tokens? = some [.verb .remark, .comment s]) :
    read t = .step (.remark s) .done := by
  obtain ⟨xs, p, rfl, hxs⟩ := Tape.exists_ofList ht
  obtain ⟨⟨_, p₁, q₁⟩, ys, rfl, rfl, hys⟩ := List.map_eq_cons_iff.1 hxs
  obtain ⟨⟨_, p₂, q₂⟩, rfl, rfl⟩ := List.map_eq_singleton_iff.1 hys
  rw [read_eq_readStatement]
  rfl

/-! ### The line -/

/-- A line `FOR v=a TO b STEP s : T` without `NEXT` in `T`. -/
structure OpenLoop where
  head : LoopHead
  /-- `FOR`. -/
  opening : Lexeme
  /-- What stands between `FOR` and the colon. -/
  range : List Lexeme
  /-- The colon before the rest of the line. -/
  entry : Lexeme
  rest : List Lexeme
  /-- The end of the line. -/
  stop : Position
  opening_eq : opening.token = .verb .loop
  spelled : head.Spelled (range.map (·.token))
  numeric : VariableKind.ofName head.place.name = .numeric
  entry_eq : entry.token = .colon
  no_next : ∀ x ∈ rest, x.token ≠ .verb .next

namespace OpenLoop

variable (l : OpenLoop)

/-- The lexemes of the line. -/
def tape : Tape := .ofList l.stop (l.opening :: (l.range ++ l.entry :: l.rest))

/-- The tokens behind the head. -/
def restTokens : List Token := l.rest.map (·.token)

/-- The body as a line of its own, if there is one. -/
def body? : Option Tape := Tape.ofBody l.rest

/-- The tokens of the body. -/
def bodyTokens : List Token := Token.withoutFinalColon l.restTokens

/-- Every text with these tokens is such a line. -/
theorem exists_of_tokens {t : Tape} {head : LoopHead} {range rest : List Token}
    (ht : t.tokens? = some (.verb .loop :: (range ++ .colon :: rest))) (hrange : head.Spelled range)
    (hkind : VariableKind.ofName head.place.name = .numeric) (hrest : .verb .next ∉ rest) :
    ∃ l : OpenLoop, l.tape = t ∧ l.head = head ∧ l.restTokens = rest := by
  obtain ⟨xs, p, rfl, h₀⟩ := Tape.exists_ofList ht
  obtain ⟨opening, xs, rfl, hopening, h₁⟩ := List.map_eq_cons_iff.1 h₀
  obtain ⟨ranges, xs, rfl, rfl, h₂⟩ := List.map_eq_append_iff.1 h₁
  obtain ⟨entry, xs, rfl, hentry, rfl⟩ := List.map_eq_cons_iff.1 h₂
  have hnext : ∀ x ∈ xs, x.token ≠ .verb .next := fun x hx h => hrest (h ▸ List.mem_map_of_mem hx)
  exact ⟨⟨head, opening, ranges, entry, xs, p, hopening, hrange, hkind, hentry, hnext⟩, rfl, rfl, rfl⟩

/-- **The line is read as one loop**, with nothing behind it. -/
theorem read_tape : Script.read l.tape = .loop l.head (Script.readBody Script.read l.rest) .done := by
  have hbody := Tape.untilNext_of_no_next l.head.place.name l.stop l.no_next 0
  have hlead := Tape.leads_ofList l.stop l.range (l.entry :: l.rest)
  have hloop := Script.readLoop_spelled l.spelled l.numeric hlead (Tape.scanned_ofList _ _)
    (Script.stops_colon l.entry_eq _) (Script.readLoopRest_open l.entry_eq Script.read l.head hbody)
  rw [Script.read_eq_readStatement]
  refine (Script.readStatement_verb l.opening_eq Script.read (Tape.scanned_ofList _ _)).trans ?_
  exact congrArg Script.ofReading hloop

/-- A round of the loop: its value is written to the counter, and the body is
done as a line of its own. -/
def round (run : Act Unit) (line : Option Int64) (i start : Int64) (step : Stride) (k : Nat) : Act Unit := do
  Act.writeNumber l.head.place.name i (.integer (Loop.valueAt start step k))
  l.body?.elim (pure ()) (Tape.interpret run line)

theorem exec_readBody (run : Act Unit) (line : Option Int64) :
    (Script.readBody Script.read l.rest).exec run line = l.body?.elim (pure ()) (Tape.interpret run line) := by
  unfold Script.readBody body?
  cases Tape.ofBody l.rest <;> rfl

theorem interpret_tape_eq (run : Act Unit) (line : Option Int64) {m m₁ : Machine} {i start limit : Int64}
    {step : Stride} (hrange : Act.range l.head m = .ok (i, start, limit, step) m₁) :
    l.tape.interpret run line m =
      forM (List.range (Loop.rounds start.toInt limit.toInt step.val.toInt)) (l.round run line i start step) m₁ := by
  rw [Tape.interpret, l.read_tape]
  refine (Act.bind_ok hrange _).trans ?_
  dsimp only
  rw [Act.passes_eq_forM, exec_readBody]
  exact congrFun (bind_pure_unit (x := forM _ (l.round run line i start step))) m₁

theorem interpret_tape_error (run : Act Unit) (line : Option Int64) {m m₁ : Machine} {h : Halt}
    (hrange : Act.range l.head m = .error h m₁) : l.tape.interpret run line m = .error h m₁ := by
  rw [Tape.interpret, l.read_tape]
  exact Act.bind_error hrange _

/-! ### Cutting the body out of the text -/

/-- **The body is what is scanned behind the head** once the text was cut off
before its final colon. There is no body if nothing but spaces is left there, or
the head itself was cut. -/
structure CutFrom (text : String) : Prop where
  tokens : (Scanner.atOffset (withoutFinalColon text.toList) l.entry.stop.offset).tape.tokens? = some l.bodyTokens
  body : l.body? = none ↔
    ∀ c ∈ (Cursor.atOffset (withoutFinalColon text.toList) l.entry.stop.offset).rest, isSpace c = true

variable {l}

theorem body?_eq_none_iff : l.body? = none ↔ l.bodyTokens = [] := by
  obtain ⟨hnone, hnil⟩ | ⟨u, hu, -, hne⟩ := Tape.ofBody_cases l.rest
  · exact ⟨fun _ => hnil, fun _ => hnone⟩
  · exact ⟨fun h => absurd (hu.symm.trans h) (Option.some_ne_none u), fun h => absurd h hne⟩

theorem tokens?_of_body? {u : Tape} (h : l.body? = some u) : u.tokens? = some l.bodyTokens := by
  obtain ⟨hnone, -⟩ | ⟨v, hv, htokens, -⟩ := Tape.ofBody_cases l.rest
  · exact absurd (hnone.symm.trans h) (Option.some_ne_none u).symm
  · obtain rfl := Option.some.inj (hv.symm.trans h)
    exact htokens

/-- In whatever way a text is scanned, the body can be cut out of it. -/
theorem cutFrom_of_from {text : String} {s : Scanner} (hs : s.Ready text.toList)
    (hfrom : s.tape.From (.cons l.entry (.ofList l.stop l.rest))) : l.CutFrom text := by
  have hentry := Scanner.tape_atOffset hs hfrom (by rw [l.entry_eq]; simp) (by rw [l.entry_eq]; simp)
  have hready := Scanner.ready_atOffset text.toList l.entry.start.offset
  generalize Scanner.atOffset text.toList l.entry.start.offset = scanner at hentry hready
  obtain ⟨after, hnext, htape⟩ := Scanner.next_of_tape hentry
  obtain ⟨before, tail, htext, hoffset, hrest, hmode⟩ := Scanner.split_colon hready l.entry_eq hnext
  have htail : Scans (tail.dropWhile isBlank) l.restTokens := by
    rw [← hrest]
    exact scans_of_tape hmode (by rw [htape, Tape.tokens?_ofList]; rfl)
  have hscans := htail.behind_colon before
  rw [← htext, ← hoffset] at hscans
  constructor
  · exact hscans.tokens?_tape (Cursor.rest_skipBlanks _)
  · rw [body?_eq_none_iff, ← trimEndList_eq_nil_iff]
    exact hscans.eq_nil_iff

theorem cutFrom_of_tape {text : String} {s : Scanner} (hs : s.Ready text.toList) (htape : s.tape = l.tape) :
    l.CutFrom text := by
  refine cutFrom_of_from hs ?_
  rw [htape]
  exact .later l.opening (Tape.from_ofList l.stop l.range l.entry l.rest)

theorem cutFrom_of_numbered {text : String} {x : Lexeme} (htape : Tape.ofLine text = .cons x l.tape) :
    l.CutFrom text := by
  refine cutFrom_of_from (Scanner.ready_ofText text.toList) ?_
  rw [← Tape.ofLine, htape]
  exact .later x (.later l.opening (Tape.from_ofList l.stop l.range l.entry l.rest))

/-! ### What the line does -/

/-- The rest of the line is its body and perhaps a colon, unless it ends in a
comment that ends in one. -/
theorem restTokens_eq (h : ∀ us s, l.restTokens ≠ us ++ [.comment (s ++ ":")]) :
    l.restTokens = if l.restTokens.getLast? = some .colon then l.bodyTokens ++ [.colon] else l.bodyTokens := by
  unfold bodyTokens
  generalize l.restTokens = ts at h
  rcases List.eq_nil_or_concat' ts with rfl | ⟨us, t, rfl⟩
  · rfl
  rw [Token.withoutFinalColon_concat, List.getLast?_concat]
  cases t with
  | colon => rw [if_pos rfl, Token.withoutColon, List.append_nil]
  | comment s =>
    have hs : s.toList.getLast? ≠ some ':' := by
      intro hlast
      obtain ⟨w, hw⟩ := List.getLast?_eq_some_iff.1 hlast
      refine h us (String.ofList w) ?_
      rw [← String.ofList_toList (s := s), hw, String.ofList_append]
    rw [if_neg (by simp), Token.withoutColon, commentWithoutColon, if_neg hs]
  | _ => exact (if_neg (by simp)).symm

theorem bodyTokens_of_comment {us : List Token} {s : String} (h : l.restTokens = us ++ [.comment (s ++ ":")]) :
    l.bodyTokens = us ++ [.comment (trimEnd s)] := by
  have hs : (s ++ ":").toList = s.toList ++ [':'] := String.toList_append
  rw [bodyTokens, h, Token.withoutFinalColon_concat, Token.withoutColon, commentWithoutColon, hs, List.getLast?_concat,
    if_pos rfl, List.dropLast_concat]
  rfl

variable (l) in
/-- **A loop in one line without `NEXT` repeats the rest of its line**, and then
the line is over. Once the head has been evaluated the line is its rounds and
nothing else; if that fails, nothing is repeated. The body of a round has the
tokens that stand behind the head, all of them as they were scanned, but for a
colon at the end. It is the same to scan the text again behind the head, up to
its final colon. Only if the rest of the line ends in a comment that ends in a
colon, the comment loses it and the spaces before it. -/
theorem repeats_rest (run : Act Unit) (line : Option Int64) :
    (∀ m m₁ i start limit step, Act.range l.head m = .ok (i, start, limit, step) m₁ →
      l.tape.interpret run line m =
        forM (List.range (Loop.rounds start.toInt limit.toInt step.val.toInt)) (l.round run line i start step) m₁) ∧
      (∀ m m₁ h, Act.range l.head m = .error h m₁ → l.tape.interpret run line m = .error h m₁) ∧
      (∀ u, l.body? = some u → u.tokens? = some l.bodyTokens) ∧
      (l.body? = none ↔ l.bodyTokens = []) ∧
      ((∀ us s, l.restTokens ≠ us ++ [.comment (s ++ ":")]) →
        l.restTokens = if l.restTokens.getLast? = some .colon then l.bodyTokens ++ [.colon] else l.bodyTokens) ∧
      (∀ us s, l.restTokens = us ++ [.comment (s ++ ":")] → l.bodyTokens = us ++ [.comment (trimEnd s)]) ∧
      (∀ text, Tape.ofLine text = l.tape → Machine.execute run text = l.tape.interpret run none ∧ l.CutFrom text) ∧
      (∀ text n p q, Tape.ofLine text = .cons ⟨.lineNumber n, p, q⟩ l.tape →
        Machine.execute run text = l.tape.interpret run (some n) ∧ l.CutFrom text) ∧
      ∀ text n, Tape.ofStatements text = l.tape →
        Machine.executeLine run n text = l.tape.interpret run (some n) ∧ l.CutFrom text := by
  refine ⟨fun m m₁ i start limit step h => l.interpret_tape_eq run line h,
    fun m m₁ h hrange => l.interpret_tape_error run line hrange, fun u hu => tokens?_of_body? hu, body?_eq_none_iff,
    restTokens_eq, fun us s h => bodyTokens_of_comment h, ?_, ?_, ?_⟩
  · intro text htape
    exact ⟨Machine.execute_of_verb run l.opening_eq htape, cutFrom_of_tape (Scanner.ready_ofText text.toList) htape⟩
  · intro text n p q htape
    exact ⟨Machine.execute_of_number run htape, cutFrom_of_numbered htape⟩
  · intro text n htape
    exact ⟨by rw [Machine.executeLine_eq, htape], cutFrom_of_tape (Scanner.ready_atOffset text.toList 0) htape⟩

-- The body begins an inner loop, and a colon in quotes stands before the one at
-- the end of the line.
theorem repeats_rest_inner_loop :
    let text := "FOR I=1 TO 5 STEP 2:FOR J=1 TO 2 STEP 1:PRINT \"A:\" : "
    let step : Stride := ⟨2, by decide⟩
    let body : List Token := [.verb .loop, .name "J", .equal, .number 1, .keyword .upTo, .number 2, .keyword .step,
      .number 1, .colon, .verb .print, .quoted "A:"]
    ∃ l : OpenLoop, Tape.ofLine text = l.tape ∧ Act.range l.head {} = .ok (0, 1, 5, step) {} ∧
      l.restTokens = body ++ [.colon] ∧ l.bodyTokens = body ∧ l.CutFrom text ∧
      ∀ run, Machine.execute run text {} = forM (List.range 3) (l.round run none 0 1 step) {} := by
  intro text step body
  let range : List Token := [.name "I", .equal, .number 1, .keyword .upTo, .number 5, .keyword .step, .number 2]
  have htokens : (Tape.ofLine text).tokens? = some (.verb .loop :: (range ++ .colon :: (body ++ [.colon]))) := by
    decide +kernel
  obtain ⟨l, htape, hl, hrest⟩ :=
    exists_of_tokens htokens (LoopHead.spelled_numbers "I" 1 5 2) (by decide) (by decide)
  have hvalues : Act.range l.head {} = .ok (0, 1, 5, step) {} := by
    rw [hl]
    rfl
  have hrounds : Loop.rounds (Int64.toInt 1) (Int64.toInt 5) step.val.toInt = 3 := by decide +kernel
  have hbody : l.bodyTokens = body := by
    rw [bodyTokens, hrest]
    rfl
  obtain ⟨-, -, -, -, -, -, hcut, -, -⟩ := l.repeats_rest (pure ()) none
  refine ⟨l, htape.symm, hvalues, hrest, hbody, (hcut text htape.symm).2, fun run => ?_⟩
  obtain ⟨hline, -, -, -, -, -, htext, -, -⟩ := l.repeats_rest run none
  rw [(htext text htape.symm).1, hline {} {} 0 1 5 step hvalues, hrounds]

-- The comment of the line ends in a colon, that of the body does not.
theorem comment_loses_colon :
    let text := "FOR I=1 TO 1 STEP 1: REM A:"
    ∃ l : OpenLoop, Tape.ofLine text = l.tape ∧ l.restTokens = [.verb .remark, .comment "A:"] ∧
      l.bodyTokens = [.verb .remark, .comment "A"] ∧
      ∀ run, ∃ m, Machine.execute run text { control := { trace := true } } = .ok () m ∧
        m.console.output = "COMMENT: \"A\"\n" := by
  intro text
  let range : List Token := [.name "I", .equal, .number 1, .keyword .upTo, .number 1, .keyword .step, .number 1]
  let rest : List Token := [.verb .remark, .comment "A:"]
  let step : Stride := ⟨1, by decide⟩
  let m : Machine := { control := { trace := true } }
  have htokens : (Tape.ofLine text).tokens? = some (.verb .loop :: (range ++ .colon :: rest)) := by decide +kernel
  obtain ⟨l, htape, hl, hrest⟩ :=
    exists_of_tokens htokens (LoopHead.spelled_numbers "I" 1 1 1) (by decide) (by decide)
  have hbody : l.bodyTokens = [.verb .remark, .comment "A"] := by
    rw [bodyTokens, hrest]
    decide +kernel
  refine ⟨l, htape.symm, hrest, hbody, fun run => ?_⟩
  obtain ⟨u, hu⟩ : ∃ u, l.body? = some u := Option.ne_none_iff_exists'.1 fun h => by
    rw [body?_eq_none_iff, hbody] at h
    cases h
  have hread : Script.read u = .step (.remark "A") .done := Script.read_remark (hbody ▸ tokens?_of_body? hu)
  have hvalues : Act.range l.head m = .ok (0, 1, 1, step) m := by
    rw [hl]
    rfl
  have hrounds : Loop.rounds (Int64.toInt 1) (Int64.toInt 1) step.val.toInt = 1 := by decide +kernel
  have hfind : Memory.empty.find? "I" = none := by simp [Memory.find?, Memory.empty]
  have hroom : Memory.empty.count ≤ Memory.capacity := by simp [Memory.count, Memory.empty]
  obtain ⟨memory, hwrite⟩ := Memory.exists_write_of_missing hfind hroom (by decide) (x := .integer 1) rfl
  have hcounter : Act.writeNumber l.head.place.name 0 (.integer (Loop.valueAt 1 step 0)) m =
      .ok () { m with memory } := by
    rw [hl]
    show Act.memory (·.write .numeric "I" 0 (.integer 1)) m = _
    rw [Act.memory, hwrite]
  refine ⟨{ m with memory, console := { output := "COMMENT: \"A\"\n" } }, ?_, rfl⟩
  rw [Machine.execute_of_verb run l.opening_eq htape.symm]
  refine (l.interpret_tape_eq run none hvalues).trans ?_
  rw [hrounds, List.range_one, List.forM_cons, List.forM_nil, round, hu, Option.elim_some, Tape.interpret, hread,
    bind_pure_unit]
  exact (Act.bind_ok hcounter _).trans rfl

end OpenLoop

end LineBasic
