import LineBasic.Proofs.Listing.Typing
import LineBasic.Proofs.Machine.Step
import LineBasic.Session

/-!
# Editing a program

A line that begins with a number edits the program when it is entered. It stores
its canonical text, or deletes if it is a bare number, or fails and changes
nothing. Line by line this is all that can happen. So after any lines with
numbers the listing is the one before, except that under each number there is
what the last line with that number left.

* `Machine.Editing`: what becomes of one line; `Machine.editing` says that there
  is nothing else.
* `Machine.entered`, `Machine.accepted`: the machine after some lines, and those
  of them that succeeded.
* `Machine.find?_entered`: what is found in the listing then.
* `Machine.entered_edits_listing`: the same of all that can be asked of a
  listing, and that nothing else changes.
-/

namespace LineBasic

/-! ### Texts that begin with a number -/

namespace Line

/-- The first lexeme of the text is a line number. What comes behind it need not
be scannable. -/
def isNumbered (text : String) : Bool :=
  match Tape.ofLine text with
  | .cons ⟨.lineNumber _, _, _⟩ _ => true
  | _ => false

variable {text : String}

theorem exists_of_isNumbered (h : isNumbered text = true) :
    ∃ n p q rest, Tape.ofLine text = .cons ⟨.lineNumber n, p, q⟩ rest := by
  unfold isNumbered at h
  split at h
  case h_1 n p q rest ht => exact ⟨n, p, q, rest, ht⟩
  case h_2 => cases h

/-- A line number begins with a digit. -/
theorem beginsWithDigit_of_isNumbered (h : isNumbered text = true) : beginsWithDigit text = true := by
  obtain ⟨n, p, q, rest, ht⟩ := exists_of_isNumbered h
  by_contra hdigit
  rw [ofLine_of_no_digit (by simpa using hdigit), Scanner.tape_eq] at ht
  split at ht
  · cases ht
  · cases ht
  case h_3 x after hnext =>
    -- a scanner of statements takes no line number
    obtain rfl : x = ⟨.lineNumber n, p, q⟩ := (Tape.cons.inj ht).1
    rcases Scanner.next_eq_some hnext with ⟨hmode, -⟩ | ⟨-, t, stop, hscan, hx, -⟩
    · cases hmode
    · have htoken : t = .lineNumber n := (congrArg Lexeme.token hx).symm
      have hread : scanToken (Cursor.ofText text.toList).skipBlanks = (.ok t, stop) := hscan
      have hlegible := (reads_scanToken (congrArg Prod.fst hread)).legible
      rw [htoken] at hlegible
      exact hlegible.elim

theorem isVacant_of_isNumbered (h : isNumbered text = true) : isVacant text = false := by
  obtain ⟨x, hx, hd⟩ := (Option.any_eq_true _ _).1 (beginsWithDigit_of_isNumbered h)
  have hmem : x ∈ text.toList := (List.dropWhile_suffix isBlank).subset (List.mem_of_mem_head? hx)
  by_contra hvacant
  have hspace : isSpace x = true := List.all_eq_true.1 (by simpa [isVacant] using hvacant) x hmem
  rw [isSpace_of_isDigit hd] at hspace
  cases hspace

end Line

namespace Machine

variable {run : Act Unit} {m : Machine} {text : String} {texts : List String}

/-! ### One line -/

/-- **What becomes of a line with a number** that is entered. -/
inductive Editing (run : Act Unit) (m : Machine) (text : String) : Prop
  /-- The line cannot be scanned. -/
  | misread {e : Error} : Line.parse text = .error e → enter run text m = .error (.failed e) m → Editing run m text
  /-- The line is to be deleted, but is not there. -/
  | missing {line : Line} {n : Int64} : Line.parse text = .ok line → line.number = some n → line.isEmpty = true →
      m.listing.find? n = none → enter run text m = .error (.failed (.undefinedLine n)) m → Editing run m text
  /-- The line is stored or deleted. -/
  | done {line : Line} {n : Int64} {l : Listing} : Line.parse text = .ok line → line.number = some n →
      (line.isEmpty = true → (m.listing.find? n).isSome) → enter run text m = .ok () { m with listing := l } →
      (m.listing.Ascending → l.Ascending) →
      (∀ k, l.find? k = if k = n then line.stored else m.listing.find? k) → Editing run m text

theorem enter_of_isNumbered (h : Line.isNumbered text = true) : enter run text = Machine.edit text := by
  obtain ⟨n, p, q, rest, ht⟩ := Line.exists_of_isNumbered h
  rw [enter, Line.isVacant_of_isNumbered h, ht]
  rfl

/-- **A line with a number edits the program**, and does nothing else. -/
theorem editing (run : Act Unit) (m : Machine) (h : Line.isNumbered text = true) : Editing run m text := by
  obtain ⟨n, p, q, rest, ht⟩ := Line.exists_of_isNumbered h
  have henter : enter run text m = Machine.edit text m := congrFun (enter_of_isNumbered h) m
  cases hp : Line.parse text with
  | error e => exact .misread hp (henter.trans (Task.edit_of_parse_error hp m))
  | ok line =>
    have hn : line.number = some n := Task.number_of_parse ht hp
    have hedit : m.listing.edit line = m.listing.store n line := by rw [Listing.edit, hn]
    cases hs : m.listing.store n line with
    | error e =>
      obtain ⟨hempty, hmissing, rfl⟩ := Listing.store_eq_error hs
      exact .missing hp hn hempty hmissing (henter.trans (Task.edit_of_error hp (hedit.trans hs)))
    | ok l =>
      obtain ⟨hascending, hfind⟩ := Listing.store_eq_ok hs
      refine .done hp hn ?_ (henter.trans (Task.edit_of_ok hp (hedit.trans hs))) hascending hfind
      intro hempty
      by_contra hmissing
      rw [Listing.store, if_pos hempty, if_neg hmissing] at hs
      cases hs

/-! ### Many lines -/

/-- The machine after some lines were entered one by one, whether they failed or
not. -/
def entered (run : Act Unit) (m : Machine) (texts : List String) : Machine :=
  texts.foldl (fun m text => Session.afterwards (enter run text) m) m

/-- Those of the lines that succeed when they are entered one by one. -/
def accepted (run : Act Unit) (m : Machine) : List String → List Line
  | [] => []
  | text :: rest =>
    let later := accepted run (Session.afterwards (enter run text) m) rest
    match enter run text m, Line.parse text with
    | .ok _ _, .ok line => line :: later
    | _, _ => later

/-- What is under a number after some lines: what the last line with that number
left, or else what was held before. -/
def latest (held : Int64 → Option String) (lines : List Line) (n : Int64) : Option String :=
  (lines.reverse.find? (·.number = some n)).elim (held n) Line.stored

/-- The first line changes what is held before the others. -/
theorem latest_cons {held held' : Int64 → Option String} {line : Line} {n : Int64} (hn : line.number = some n)
    (h : ∀ k, held' k = if k = n then line.stored else held k) (lines : List Line) :
    latest held (line :: lines) = latest held' lines := by
  funext k
  rw [latest, latest, List.reverse_cons, List.find?_append]
  cases lines.reverse.find? (·.number = some k) with
  | some last => rfl
  | none =>
    rw [Option.none_or, Option.elim_none, h]
    by_cases hk : k = n
    · simp [hn, hk]
    · simp [hn, hk, Ne.symm hk]

/-- A line that fails leaves no trace. -/
theorem entered_of_error {h : Halt} (he : enter run text m = .error h m) (texts : List String) :
    entered run m (text :: texts) = entered run m texts ∧ accepted run m (text :: texts) = accepted run m texts := by
  have hafter : Session.afterwards (enter run text) m = m := by rw [Session.afterwards, he]
  constructor
  · rw [entered, List.foldl_cons, hafter, entered]
  · rw [accepted, he, hafter]

theorem entered_of_ok {m' : Machine} {line : Line} (he : enter run text m = .ok () m')
    (hp : Line.parse text = .ok line) (texts : List String) :
    entered run m (text :: texts) = entered run m' texts ∧
      accepted run m (text :: texts) = line :: accepted run m' texts := by
  have hafter : Session.afterwards (enter run text) m = m' := by rw [Session.afterwards, he]
  constructor
  · rw [entered, List.foldl_cons, hafter, entered]
  · rw [accepted, he, hp, hafter]

/-- **What is found after some lines with numbers**, in a machine that is the
same otherwise. -/
theorem find?_entered (h : ∀ text ∈ texts, Line.isNumbered text = true) :
    ∃ l, entered run m texts = { m with listing := l } ∧ (m.listing.Ascending → l.Ascending) ∧
      l.find? = latest m.listing.find? (accepted run m texts) := by
  induction texts generalizing m with
  | nil => exact ⟨m.listing, rfl, id, rfl⟩
  | cons text rest ih =>
    obtain ⟨htext, hrest⟩ := List.forall_mem_cons.1 h
    cases editing run m htext with
    | misread _ he =>
      obtain ⟨hentered, haccepted⟩ := entered_of_error he rest
      rw [hentered, haccepted]
      exact ih hrest
    | missing _ _ _ _ he =>
      obtain ⟨hentered, haccepted⟩ := entered_of_error he rest
      rw [hentered, haccepted]
      exact ih hrest
    | @done line n l₁ hp hn _ he hascending hfind =>
      obtain ⟨hentered, haccepted⟩ := entered_of_ok he hp rest
      obtain ⟨l, hmachine, hkeeps, hlatest⟩ := @ih { m with listing := l₁ } hrest
      rw [hentered, haccepted, latest_cons hn hfind]
      exact ⟨l, hmachine, fun ha => hkeeps (hascending ha), hlatest⟩

/-- **Entering lines with numbers edits the listing and nothing else.** Each
line fails and changes nothing, or is stored, or deletes. Afterwards the
listing, which was in ascending order, is told by the map that holds under each
number what the last line with that number left, of those that did not fail; the
rest of the machine is as it was. -/
theorem entered_edits_listing (run : Act Unit) {m : Machine} (hm : m.listing.Ascending) {texts : List String}
    (h : ∀ text ∈ texts, Line.isNumbered text = true) :
    (∀ before text after, texts = before ++ text :: after → Editing run (entered run m before) text) ∧
    ∃ l, entered run m texts = { m with listing := l } ∧
      l.Shows (latest m.listing.find? (accepted run m texts)) := by
  constructor
  · rintro before text after rfl
    exact editing run _ (h text (List.mem_append_right _ List.mem_cons_self))
  · obtain ⟨l, hmachine, hascending, hlatest⟩ := @find?_entered run m texts h
    exact ⟨l, hmachine, hlatest ▸ (hascending hm).shows⟩

-- A line is stored twice and one is deleted; a line that cannot be scanned and
-- one that is missing leave no trace.
theorem entered_edits_listing_twice :
    ∃ l, entered (pure ()) {} ["20 a=1", "10 end", "20 print a", "20 \"", "10", "10", "5 rem"] = { listing := l } ∧
      l.find? 20 = some "PRINT A" ∧ l.find? 10 = none ∧
      l.range (some 5) (some 19) ++ l.range (some (19 + 1)) none = l.range (some 5) none := by
  have hm : ({} : Machine).listing.Ascending := List.Pairwise.nil
  obtain ⟨-, l, hmachine, hshows⟩ := entered_edits_listing (pure ()) hm
    (show ∀ text ∈ ["20 a=1", "10 end", "20 print a", "20 \"", "10", "10", "5 rem"], Line.isNumbered text = true by
      decide +kernel)
  refine ⟨l, hmachine, ?_, ?_, hshows.range_append _ _ _ (by decide) (by decide)⟩
  · exact (hshows.find?_eq 20).trans (by decide +kernel)
  · exact (hshows.find?_eq 10).trans (by decide +kernel)

end Machine

end LineBasic
