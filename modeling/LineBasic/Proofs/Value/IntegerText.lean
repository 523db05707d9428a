import LineBasic.Console
import LineBasic.Proofs.Grammar.Loop
import LineBasic.Proofs.Line.Joined
import LineBasic.Proofs.Listing.Changes

/-!
# Integers and their text

The text of an integer is read in four places: by the function `INT`, by a
question for an integer, by a cursor, and by the scanner, where a minus sign is
a token of its own. Each of them gets the integer back. Only the scanner cannot
get back the least one, for without its sign it does not fit.

* `Integer.read?_chars`: reading undoes writing, with the sign.
* `Cursor.readDigits_eq`: what becomes of digits.
* `Scanner.next_of_digits`: the token of some digits, or the error at the first
  of them.
* `Expr.read_chars`: the text of an integer is an expression.
* `Integer.text_survives`: all four together.
-/

namespace LineBasic

/-! ### Digits -/

namespace Integer

/-- The number that digits stand for: the last one counts once, the one before
it ten times, and so on. -/
def decimal (ds : List Char) : Nat := Nat.ofDigits 10 (ds.reverse.map fun d => d.toNat - '0'.toNat)

theorem decimal_concat (ds : List Char) (d : Char) : decimal (ds ++ [d]) = (d.toNat - '0'.toNat) + 10 * decimal ds := by
  simp [decimal, Nat.ofDigits_cons]

theorem ofDigitChars_eq_decimal (ds : List Char) : Nat.ofDigitChars 10 ds 0 = decimal ds := by
  induction ds using List.reverseRecOn with
  | nil => rfl
  | append_singleton ds d ih =>
    rw [decimal_concat, ← ih, Nat.ofDigitChars_append]
    exact Nat.add_comm _ _

theorem decimal_digits (k : Nat) : decimal (digits k) = k := by
  rw [← ofDigitChars_eq_decimal, digits, Nat.ofDigitChars_ten_toDigits]

/-- Digits are read as their number, if it fits with the sign. -/
theorem ofDigits?_eq {ds : List Char} (hne : ds ≠ []) (hd : ∀ c ∈ ds, c.isDigit = true) (negative : Bool) :
    ofDigits? negative ds = ofInt? (if negative then -(decimal ds : Int) else decimal ds) := by
  have hdigits : (ds.isEmpty || !ds.all Char.isDigit) = false := by
    rw [List.all_eq_true.2 hd, List.isEmpty_eq_false_iff.2 hne]
    rfl
  rw [ofDigits?, hdigits, ofDigitChars_eq_decimal]
  rfl

/-- The digits of an integer with its sign are read as the integer. -/
theorem ofDigits?_digits (n : Int64) : ofDigits? (decide (n.toInt < 0)) (digits n.toInt.natAbs) = some n := by
  rw [ofDigits?_eq (digits_ne_nil _) fun _ => isDigit_of_mem_digits, decimal_digits, ofInt?_eq_some_iff]
  by_cases h : n.toInt < 0
  · rw [if_pos (decide_eq_true h)]
    omega
  · rw [if_neg (by simpa using h)]
    omega

theorem ne_sign_of_isDigit {c : Char} (h : c.isDigit = true) : c ≠ '-' ∧ c ≠ '+' := by
  constructor
  · rintro rfl
    revert h
    decide
  · rintro rfl
    revert h
    decide

theorem exists_digits (k : Nat) : ∃ d ds, digits k = d :: ds ∧ d.isDigit = true := by
  obtain ⟨d, ds, hds⟩ := List.exists_cons_of_ne_nil (digits_ne_nil k)
  exact ⟨d, ds, hds, isDigit_of_mem_digits (by rw [hds]; exact List.mem_cons_self)⟩

/-- **Reading undoes writing.** -/
theorem read?_chars (n : Int64) : read? (chars n) = some n := by
  have hread := ofDigits?_digits n
  unfold chars
  split
  case isTrue h =>
    rw [decide_eq_true h] at hread
    exact hread
  case isFalse h =>
    rw [decide_eq_false h] at hread
    obtain ⟨d, ds, hds, hd⟩ := exists_digits n.toInt.natAbs
    obtain ⟨hminus, hplus⟩ := ne_sign_of_isDigit hd
    rw [hds] at hread ⊢
    unfold read?
    split
    case h_1 heq => exact absurd (List.cons.inj heq).1 hminus
    case h_2 heq => exact absurd (List.cons.inj heq).1 hplus
    case h_3 => exact hread

/-- No character of the text of an integer is a space. -/
theorem isSpace_of_mem_chars {n : Int64} {c : Char} (h : c ∈ chars n) : isSpace c = false := by
  unfold chars at h
  split at h
  · rcases List.mem_cons.1 h with rfl | h
    · rfl
    · exact isSpace_of_isDigit (isDigit_of_mem_digits h)
  · exact isSpace_of_isDigit (isDigit_of_mem_digits h)

theorem chars_ne_nil (n : Int64) : chars n ≠ [] := by
  unfold chars
  split
  · exact List.cons_ne_nil _ _
  · exact digits_ne_nil _

end Integer

/-- Spaces around a text without any are taken off. -/
theorem trimList_surrounded {before w after : List Char} (hbefore : ∀ c ∈ before, isSpace c = true)
    (hw : ∀ c ∈ w, isSpace c = false) (hne : w ≠ []) (hafter : ∀ c ∈ after, isSpace c = true) :
    trimList (before ++ w ++ after) = w := by
  have hhead : ∀ c ∈ (w ++ after).head?, isSpace c = false := by
    intro c hc
    rw [List.head?_append_of_ne_nil _ hne] at hc
    exact hw c (List.mem_of_mem_head? hc)
  have hlast : ∀ c ∈ w.reverse.head?, isSpace c = false := by
    intro c hc
    exact hw c (List.mem_reverse.1 (List.mem_of_mem_head? hc))
  rw [trimList, List.append_assoc, dropWhile_append_stop hbefore hhead, trimEndList, List.reverse_append,
    dropWhile_append_stop (fun c hc => hafter c (List.mem_reverse.1 hc)) hlast, List.reverse_reverse]

/-! ### Cursors and scanners -/

/-- **What becomes of digits**: they are an integer, or the error stands at the
first of them. Blanks behind them are passed over. -/
theorem Cursor.readDigits_eq {c : Cursor} {ds rest : List Char} (hc : c.rest = ds ++ rest) (hne : ds ≠ [])
    (hd : ∀ x ∈ ds, x.isDigit = true) (hrest : ∀ x ∈ rest.head?, x.isDigit = false) (negative : Bool) :
    ∃ after : Cursor, after.rest = rest.dropWhile isBlank ∧
      c.readDigits negative =
        ((Integer.ofDigits? negative ds).elim (.error (.numberTooLarge c.position)) .ok, after) := by
  obtain ⟨d, more, rfl⟩ := List.exists_cons_of_ne_nil hne
  have hat : c.atChar Char.isDigit = true := by
    rw [Cursor.atChar, hc]
    exact hd d List.mem_cons_self
  have htake : c.rest.takeWhile Char.isDigit = d :: more := by rw [hc, takeWhile_append_stop hd hrest]
  refine ⟨(c.skipWhile Char.isDigit).skipBlanks, ?_, ?_⟩
  · rw [Cursor.rest_skipBlanks, Cursor.rest_skipWhile, hc, dropWhile_append_stop hd hrest]
  · rw [Cursor.readDigits, if_pos hat, Cursor.readWhile, htake]
    cases h : Integer.ofDigits? negative (d :: more) <;> simp only [h] <;> rfl

/-- A cursor gets an integer back from its text, and is at the end of it. -/
theorem Cursor.readNumber_chars {n : Int64} {c : Cursor} (hc : c.rest = Integer.chars n) :
    ∃ after : Cursor, after.rest = [] ∧ c.readNumber = (.ok n, after) := by
  have hread := Integer.ofDigits?_digits n
  have hdigits : ∀ x ∈ Integer.digits n.toInt.natAbs, x.isDigit = true := fun _ => Integer.isDigit_of_mem_digits
  obtain ⟨d, ds, hds, hd⟩ := Integer.exists_digits n.toInt.natAbs
  unfold Integer.chars at hc
  split at hc
  case isTrue h =>
    rw [decide_eq_true h] at hread
    have hblank : isBlank d = false := (ne_of_isNameChar (isNameChar_of_isDigit hd)).1
    have hnext : c.next.skipBlanks.rest = Integer.digits n.toInt.natAbs ++ [] := by
      rw [Cursor.rest_skipBlanks, Cursor.rest_next hc, List.append_nil, hds,
        List.dropWhile_cons_of_neg (by simp [hblank])]
    obtain ⟨after, hrest, heq⟩ := Cursor.readDigits_eq hnext (Integer.digits_ne_nil _) hdigits (by simp) true
    rw [hread, Option.elim_some] at heq
    refine ⟨after, hrest, ?_⟩
    rw [Cursor.readNumber, if_pos (by rw [Cursor.peek?, hc]; rfl), heq]
  case isFalse h =>
    rw [decide_eq_false h] at hread
    have hrest : c.rest = Integer.digits n.toInt.natAbs ++ [] := by rw [hc, List.append_nil]
    obtain ⟨after, hrest, heq⟩ := Cursor.readDigits_eq hrest (Integer.digits_ne_nil _) hdigits (by simp) false
    rw [hread, Option.elim_some] at heq
    refine ⟨after, hrest, ?_⟩
    have hminus : c.peek? ≠ some '-' := by
      rw [Cursor.peek?, hc, hds]
      exact fun he => (Integer.ne_sign_of_isDigit hd).1 (Option.some.inj he)
    rw [Cursor.readNumber, if_neg hminus, heq]

/-- A digit begins a number. -/
theorem scanToken_of_digit {c : Cursor} {d : Char} {ds : List Char} (hc : c.rest = d :: ds) (hd : d.isDigit = true) :
    scanToken c = ((c.readDigits false).1.map .number, c.skipWhile Char.isDigit) := by
  obtain ⟨-, -, -, hg, hs, -, hsign⟩ := ne_of_isNameChar (isNameChar_of_isDigit hd)
  unfold scanToken
  simp only [hc, hsign, if_neg hs, if_neg hg, if_pos hd]

/-- **The token of some digits** inside a line, or the error at the first of
them. -/
theorem Scanner.next_of_digits {c : Cursor} {ds rest : List Char} (hc : c.rest = ds ++ rest) (hne : ds ≠ [])
    (hd : ∀ x ∈ ds, x.isDigit = true) (hrest : ∀ x ∈ rest.head?, x.isDigit = false) :
    ∃ after : Scanner, after.cursor.rest = rest.dropWhile isBlank ∧
      (Scanner.mk c .statement).next =
        ((Integer.ofDigits? false ds).elim (.error (.numberTooLarge c.position)) fun n =>
          .ok (some ⟨.number n, c.position, (c.skipWhile Char.isDigit).position⟩), after) := by
  obtain ⟨d, more, rfl⟩ := List.exists_cons_of_ne_nil hne
  obtain ⟨_, -, hread⟩ := Cursor.readDigits_eq hc hne hd hrest false
  have hscan : (Scanner.mk c .statement).scan = ((c.readDigits false).1.map .number, c.skipWhile Char.isDigit) :=
    scanToken_of_digit hc (hd d List.mem_cons_self)
  refine ⟨⟨(c.skipWhile Char.isDigit).skipBlanks, .statement⟩, ?_, ?_⟩
  · rw [Cursor.rest_skipBlanks, Cursor.rest_skipWhile, hc, dropWhile_append_stop hd hrest]
  · rw [Scanner.next, if_neg Mode.noConfusion, if_neg (by rw [hc]; exact Bool.false_ne_true), hscan, hread]
    cases Integer.ofDigits? false (d :: more) <;> rfl

/-! ### Expressions -/

/-- A number with a minus sign is an expression. -/
theorem Phrase.ofMinus (k : Int64) :
    Phrase .disjunction {} [.sign .minus, .number k] (.unary .negate (.number k)) := by
  have hfactor : Phrase .factor {} [.sign .minus, .number k] (.unary .negate (.number k)) := .sign .minus (.number k)
  have hsum : Phrase .sum {} [.sign .minus, .number k] (.unary .negate (.number k)) :=
    .operand nofun (.operand nofun hfactor)
  exact .operand nofun (.operand nofun (.operand nofun (.operand nofun hsum)))

/-- A text that is one phrase is read as the tree of the phrase. -/
theorem Expr.read_of_scans {c : Cursor} {ts : List Token} (hs : Scans c.rest ts) {g : Edge} {e : Expr}
    (hp : Phrase .disjunction g ts e) : ∃ p, Expr.read (Scanner.mk c .statement).tape = .ok (e, .stop p) := by
  obtain ⟨xs, p, htape, rfl⟩ := Tape.exists_ofList (hs.tokens?_tape rfl)
  have hlead := Tape.leads_ofList p xs []
  rw [List.append_nil, ← htape] at hlead
  exact ⟨p, Expr.read_phrase hp hlead (Tape.scanned_ofList p []) fun _ hx => nomatch hx⟩

/-- The integers but the least have a negative. -/
theorem Integer.exists_neg {n : Int64} (hn : n ≠ Int64.minValue) : ∃ k : Int64, k.toInt = -n.toInt := by
  have hmin : n.toInt ≠ -9223372036854775808 := fun h => hn (Int64.toInt_inj.1 h)
  have hle := n.le_toInt
  have hlt := n.toInt_lt
  exact ⟨Int64.ofInt (-n.toInt), Int64.toInt_ofInt_of_le (by omega) (by omega)⟩

/-- **The text of an integer is an expression** with the integer as its value,
if it fits also without its sign. -/
theorem Expr.read_chars {n : Int64} (hn : n ≠ Int64.minValue) {c : Cursor} (hc : c.rest = Integer.chars n) :
    ∃ e p, Expr.read (Scanner.mk c .statement).tape = .ok (e, .stop p) ∧
      ∀ m g, e.eval m g = .ok (.integer n) g := by
  have hdigits : ∀ x ∈ Integer.digits n.toInt.natAbs, x.isDigit = true := fun _ => Integer.isDigit_of_mem_digits
  have hnumber {k : Int64} (hk : k.toInt = n.toInt.natAbs) :
      Reads (.number k) (Integer.digits n.toInt.natAbs) [] := by
    have hread : Integer.ofDigits? false (Integer.digits n.toInt.natAbs) = some k := by
      rw [Integer.ofDigits?_eq (Integer.digits_ne_nil _) hdigits, Integer.decimal_digits, Integer.ofInt?_eq_some_iff, hk]
      rfl
    have := Reads.number (r := []) hdigits (by simp) hread
    rwa [List.append_nil] at this
  unfold Integer.chars at hc
  split at hc
  case isTrue h =>
    -- the sign is an operator, and the number behind it is that of the digits
    obtain ⟨k, hk⟩ := Integer.exists_neg hn
    obtain ⟨d, ds, hds, hd⟩ := Integer.exists_digits n.toInt.natAbs
    have hblank : isBlank d = false := (ne_of_isNameChar (isNameChar_of_isDigit hd)).1
    have hskip : (Integer.digits n.toInt.natAbs).dropWhile isBlank = Integer.digits n.toInt.natAbs := by
      rw [hds, List.dropWhile_cons_of_neg (by simp [hblank])]
    have hscans : Scans c.rest [.sign .minus, .number k] := by
      rw [hc]
      refine .cons (.sign rfl) Token.noConfusion ?_
      rw [hskip]
      exact .cons (hnumber (by omega)) Token.noConfusion .nil
    obtain ⟨p, hread⟩ := Expr.read_of_scans hscans (.ofMinus k)
    refine ⟨_, p, hread, fun m g => ?_⟩
    have hnegate : Unary.negate.apply (.integer k) = .ok (.integer n) := by
      have hfits : Integer.ofInt? (-k.toInt) = some n := Integer.ofInt?_eq_some_iff.2 (by omega)
      rw [Unary.apply, Value.exactly, hfits]
    show (liftM (Unary.negate.apply (.integer k)) : Eval Value) g = _
    rw [hnegate]
    rfl
  case isFalse h =>
    have hscans : Scans c.rest [.number n] := by
      rw [hc]
      exact .cons (hnumber (by omega)) Token.noConfusion .nil
    obtain ⟨p, hread⟩ := Expr.read_of_scans hscans (.ofNumber n .disjunction)
    exact ⟨_, p, hread, fun m g => rfl⟩

/-! ### All readers -/

namespace Integer

theorem integerOf_surrounded (n : Int64) {before after : String} (hbefore : ∀ c ∈ before.toList, isSpace c = true)
    (hafter : ∀ c ∈ after.toList, isSpace c = true) : Console.integerOf (before ++ text n ++ after) = .ok n := by
  have htrim : trimList (before ++ text n ++ after).toList = chars n := by
    rw [String.toList_append, String.toList_append, text, String.toList_ofList]
    exact trimList_surrounded hbefore (fun _ => isSpace_of_mem_chars) (chars_ne_nil n) hafter
  rw [Console.integerOf, htrim, read?_chars]

/-- `INT` reads the text of an integer. -/
theorem call_integer_text (n : Int64) (g : StdGen) :
    Builtin.integer.call [.value (.text (text n))] g = .ok (.integer n) g := by
  have htrim : trimList (text n).toList = chars n := by
    have hbare : trimList ([] ++ chars n ++ []) = chars n :=
      trimList_surrounded (by simp) (fun _ => isSpace_of_mem_chars) (chars_ne_nil n) (by simp)
    rw [List.nil_append, List.append_nil] at hbare
    rw [text, String.toList_ofList, hbare]
  have hcall (v : Value) : Builtin.integer.call [.value v] g = (liftM (Builtin.toInteger v) : Eval Value) g := rfl
  rw [hcall, Builtin.toInteger, htrim, read?_chars]
  rfl

/-- **Integers survive the trip through text.** `INT` undoes `STR$`. A question
for an integer gets it back from its text, whatever spaces stand around it. A
cursor gets it back and is then at the end. As an expression, the text has the
integer as its value, unless it is the least one. And digits inside a line are
one token, with the number they stand for, or if that is too large, an error at
the first of them. -/
theorem text_survives (n : Int64) :
    (∀ g, Builtin.text.call [.value (.integer n)] g = .ok (.text (text n)) g) ∧
    (∀ g, Builtin.integer.call [.value (.text (text n))] g = .ok (.integer n) g) ∧
    (∀ before after : String, (∀ c ∈ before.toList, isSpace c = true) → (∀ c ∈ after.toList, isSpace c = true) →
      ∀ (console : Console) (prompt : String) (later : List (Option String)),
        console.answers = some (before ++ text n ++ after) :: later → (console.inputInteger prompt).1 = .ok n) ∧
    (∀ c : Cursor, c.rest = (text n).toList → ∃ after : Cursor, after.rest = [] ∧ c.readNumber = (.ok n, after)) ∧
    (n ≠ Int64.minValue → ∀ c : Cursor, c.rest = (text n).toList →
      ∃ e p, Expr.read (Scanner.mk c .statement).tape = .ok (e, .stop p) ∧ ∀ m g, e.eval m g = .ok (.integer n) g) ∧
    ∀ (c : Cursor) (ds rest : List Char), c.rest = ds ++ rest → ds ≠ [] → (∀ x ∈ ds, x.isDigit = true) →
      (∀ x ∈ rest.head?, x.isDigit = false) →
      (decimal ds ≤ 9223372036854775807 → ∃ (k : Int64) (stop : Position) (after : Scanner),
        k.toInt = decimal ds ∧ (Scanner.mk c .statement).next = (.ok (some ⟨.number k, c.position, stop⟩), after)) ∧
      (9223372036854775807 < decimal ds → ∃ (e : Error) (after : Scanner),
        (Scanner.mk c .statement).next = (.error e, after) ∧ e.kind = .syntaxError ∧
          e.detail = "NUMBER TOO LARGE" ∧ e.position = some c.position) := by
  have hchars : (text n).toList = chars n := String.toList_ofList
  refine ⟨fun g => rfl, call_integer_text n, ?_, ?_, ?_, ?_⟩
  · intro before after hbefore hafter console prompt later hanswers
    rw [Console.inputInteger, Console.input, hanswers]
    exact integerOf_surrounded n hbefore hafter
  · intro c hc
    exact Cursor.readNumber_chars (hc.trans hchars)
  · intro hn c hc
    exact Expr.read_chars hn (hc.trans hchars)
  · intro c ds rest hc hne hd hrest
    obtain ⟨after, -, hnext⟩ := Scanner.next_of_digits hc hne hd hrest
    have hread : ofDigits? false ds = ofInt? (decimal ds) := ofDigits?_eq hne hd false
    constructor
    · intro hle
      have hfits : ofInt? (decimal ds) = some (Int64.ofInt (decimal ds)) := if_pos (by omega)
      rw [hread, hfits] at hnext
      exact ⟨_, _, after, ofInt?_eq_some_iff.1 hfits, hnext⟩
    · intro hlt
      have hlarge : ofInt? (decimal ds) = none := if_neg (by omega)
      rw [hread, hlarge] at hnext
      exact ⟨_, after, hnext, rfl, rfl, rfl⟩

-- The least integer comes back from its text between spaces, but its digits are
-- too large for a token.
theorem text_survives_least :
    (Console.inputInteger { answers := [some "\t-9223372036854775808\u3000"] } "N").1 = .ok Int64.minValue ∧
    (∃ e p, Expr.read (Tape.ofStatements "-42") = .ok (e, .stop p) ∧ ∀ m g, e.eval m g = .ok (.integer (-42)) g) ∧
    (∃ (k : Int64) (stop : Position) (after : Scanner), k.toInt = 42 ∧
      (Scanner.mk (.ofText "0042A".toList) .statement).next = (.ok (some ⟨.number k, .start, stop⟩), after)) ∧
    ∃ (e : Error) (after : Scanner),
      (Scanner.mk (.ofText "9223372036854775808".toList) .statement).next = (.error e, after) ∧
        e.kind = .syntaxError ∧ e.detail = "NUMBER TOO LARGE" ∧ e.position = some .start := by
  refine ⟨?_, ?_, ?_, ?_⟩
  · exact (text_survives Int64.minValue).2.2.1 "\t" "\u3000" (List.all_eq_true.1 (by decide +kernel))
      (List.all_eq_true.1 (by decide +kernel)) _ "N" [] (by decide +kernel)
  · exact (text_survives (-42)).2.2.2.2.1 (by decide) (Cursor.atOffset "-42".toList 0).skipBlanks (by decide +kernel)
  · exact ((text_survives 42).2.2.2.2.2 (.ofText "0042A".toList) "0042".toList "A".toList (by decide +kernel)
      (by decide +kernel) (List.all_eq_true.1 (by decide +kernel)) (by rintro x ⟨⟩; rfl)).1 (by decide +kernel)
  · exact ((text_survives 0).2.2.2.2.2 (.ofText "9223372036854775808".toList) "9223372036854775808".toList []
      (by decide +kernel) (by decide +kernel) (List.all_eq_true.1 (by decide +kernel)) (by simp)).2 (by decide +kernel)

end Integer

end LineBasic
