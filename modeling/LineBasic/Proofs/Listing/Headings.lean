import LineBasic.Proofs.Line.Joined
import LineBasic.Proofs.Machine.Editing
import LineBasic.Proofs.Machine.Labels

/-!
# The labels of lines as they were typed

A program keeps the canonical texts of its lines without their numbers. To find
the labels each text is scanned again, as a line of its own. A number that comes
first is then taken for the number of that line, and the label behind it counts:
the line `10 5 TOP: END` has the label `TOP`, although it begins with `5`. Zero
is no line number, so nothing behind it counts. All other lines have the label
they begin with, if any.

* `Scans.tokens?_start_number`: a number that comes first is the number of the
  line.
* `Line.heading`, `Line.labelOf_text`: the label that a line has once it is
  stored.
* `Listing.find?_edited`: what is under each number after some lines were stored
  or deleted.
* `Listing.labels_of_edits`: the labels then, told by the lines as they were
  typed.
-/

namespace LineBasic

/-! ### One line -/

/-- The text of a number: digits, as many as there are. -/
theorem Reads.digits_of_number {k : Int64} {cs rest : List Char} (h : Reads (.number k) cs rest) :
    Integer.ofDigits? false (cs.takeWhile Char.isDigit) = some k ∧ cs.dropWhile Char.isDigit = rest := by
  generalize ht : Token.number k = t at h
  cases h with
  | @number ds r n hds hr hn =>
    obtain rfl := Token.number.inj ht
    rw [takeWhile_append_stop hds hr, dropWhile_append_stop hds hr]
    exact ⟨hn, rfl⟩
  | sign hs =>
    subst ht
    unfold Token.ofSign? at hs
    split at hs <;> cases hs
  | @word w => exact absurd ht.symm ((wordToken_ne w).1 k)
  | @dollar w => exact absurd ht.symm ((wordToken_ne _).1 k)
  | _ => cases ht

/-- **A number that comes first is the number of the line**, and zero is
none. -/
theorem Scans.tokens?_start_number {c : Cursor} {k : Int64} {us : List Token}
    (h : Scans c.rest (.number k :: us)) :
    (Scanner.mk c .start).tape.tokens? = if k = 0 then none else some (.lineNumber k :: us) := by
  generalize hcs : c.rest = cs at h
  cases h with
  | @cons _ _ rest _ hr _ hus =>
    obtain ⟨hdigits, hbehind⟩ := hr.digits_of_number
    obtain ⟨x, r, hx, -, hdigit⟩ := hr.head
    rw [← hcs] at hdigits hbehind hx
    have hfirst : x ∈ c.rest.head? := by rw [hx]; rfl
    rw [Scanner.tape_eq, Scanner.next_start_of_digit hfirst (hdigit.2 ⟨k, rfl⟩)]
    by_cases hzero : k = 0
    · rw [if_pos hzero]
      cases hread : (scanLineNumber c).1 with
      | error e => rfl
      | ok t =>
        obtain ⟨n, hn, hne, -⟩ := Scanner.scanLineNumber_ok_iff.1 hread
        rw [hdigits] at hn
        exact absurd ((Option.some.inj hn).symm.trans hzero) hne
    · have hread : (scanLineNumber c).1 = .ok (.lineNumber k) :=
        Scanner.scanLineNumber_ok_iff.2 ⟨k, hdigits, hzero, rfl⟩
      have hrest : (c.skipWhile Char.isDigit).skipBlanks.rest = rest.dropWhile isBlank := by
        rw [Cursor.rest_skipBlanks, Cursor.rest_skipWhile, hbehind]
      rw [if_neg hzero, hread]
      exact congrArg (Option.map (Token.lineNumber k :: ·)) (hus.tokens?_tape hrest)

namespace Line

/-- The label that a line has once it is stored: the one it begins with, perhaps
behind a number other than zero. -/
def heading (l : Line) : Option String :=
  match l.tokens with
  | .name s :: .colon :: _ => some s
  | .number k :: .name s :: .colon :: _ => if k = 0 then none else some s
  | _ => none

variable {s : String} {l : Line}

/-- A line with a number other than zero, then a label, has the label once it is
stored. All other lines keep the label they have. -/
theorem heading_eq_label_iff (l : Line) :
    l.heading = l.label ↔ ¬ ∃ k name us, k ≠ 0 ∧ l.tokens = .number k :: .name name :: .colon :: us := by
  unfold heading label
  split
  case h_1 name us hts =>
    simp only [hts, true_iff]
    rintro ⟨k, other, vs, -, h⟩
    cases h
  case h_2 k name us hts =>
    simp only [hts]
    by_cases hk : k = 0
    · simp [hk]
    · simp [hk]
  case h_3 h1 h2 =>
    split
    case h_1 name us hts => exact absurd hts (h1 name us)
    case h_2 =>
      simp only [true_iff]
      rintro ⟨k, name, us, -, hts⟩
      exact h2 k name us hts

theorem label_congr {l' : Line} (h : l'.tokens = l.tokens) : l'.label = l.label := by
  unfold label
  rw [h]

theorem heading_of_number {l' : Line} {k : Int64} (h : l.tokens = .number k :: l'.tokens) :
    l.heading = if k = 0 then none else l'.label := by
  unfold heading label
  rw [h]
  split
  case h_1 heq => cases heq
  case h_2 j name us heq =>
    obtain ⟨hj, hus⟩ := List.cons.inj heq
    rw [Token.number.inj hj, hus]
  case h_3 _ hlabel =>
    split
    case isTrue => rfl
    case isFalse =>
      split
      case h_1 name us hus => exact absurd (by rw [hus]) (hlabel k name us)
      case h_2 => rfl

/-- **The label of a line that is stored.** -/
theorem labelOf_text (h : parse s = .ok l) : Listing.labelOf l.text = l.heading := by
  have hlegible := legible_of_parse h
  by_cases hnumber : ∃ k us, l.tokens = .number k :: us
  · obtain ⟨k, us, hts⟩ := hnumber
    have hrest := rest_ofText fun c hc => (hlegible.head_spell c hc).1
    have hscans : Scans (Cursor.ofText l.text.toList).skipBlanks.rest (.number k :: us) :=
      hts ▸ scans_of_tape rfl (tokens?_tape_spell hlegible _ hrest)
    have htape : (Tape.ofLine l.text).tokens? = if k = 0 then none else some (.lineNumber k :: us) :=
      hscans.tokens?_start_number
    by_cases hk : k = 0
    · have herror : ∃ e, parse l.text = .error e := by
        cases hp : parse l.text with
        | error e => exact ⟨e, rfl⟩
        | ok l' =>
          rw [if_pos hk, tokens?_ofLine hp] at htape
          cases htape
      obtain ⟨e, he⟩ := herror
      have htail : l.tokens = .number k :: (Line.mk none l.lexemes.tail).tokens := by
        rw [hts, tokens, List.map_tail, ← tokens, hts]
        rfl
      rw [Listing.labelOf, he, heading_of_number htail, if_pos hk]
    · rw [if_neg hk] at htape
      obtain ⟨l', hl', -, hus⟩ := parse_numbered htape
      rw [Listing.labelOf, hl', heading_of_number (hts.trans (by rw [hus])), if_neg hk]
  · obtain ⟨l', hl', -, hts⟩ := parse_spell hlegible fun k us hts => hnumber ⟨k, us, hts⟩
    have hsame : l.heading = l.label := by
      refine (heading_eq_label_iff l).2 ?_
      rintro ⟨k, name, us, -, hts⟩
      exact hnumber ⟨k, _, hts⟩
    rw [Listing.labelOf, text, hl', hsame]
    exact label_congr hts

end Line

/-! ### Many lines -/

namespace Listing

variable {lines : List Line} {l l' : Listing} {line : Line} {name : String} {n : Int64}

/-- The line that is under a number once some lines were stored: the last one
with the number, unless it is empty. -/
def standing (lines : List Line) (n : Int64) : Option Line :=
  (lines.reverse.find? (·.number = some n)).filter (!·.isEmpty)

theorem latest_eq_map_standing (lines : List Line) (n : Int64) :
    Machine.latest (fun _ => none) lines n = (standing lines n).map Line.text := by
  unfold Machine.latest standing
  cases lines.reverse.find? (·.number = some n) with
  | none => rfl
  | some line =>
    rw [Option.elim_some, Line.stored, Option.filter_some]
    cases line.isEmpty <;> rfl

theorem mem_of_standing (h : standing lines n = some line) : line ∈ lines :=
  List.mem_reverse.1 (List.mem_of_find?_eq_some (Option.filter_eq_some_iff.1 h).1)

/-- A line that is stored has a number. Nothing changes but what is under it. -/
theorem edit_eq_ok (h : l.edit line = .ok l') :
    ∃ n, line.number = some n ∧ (l.Ascending → l'.Ascending) ∧
      ∀ k, l'.find? k = if k = n then line.stored else l.find? k := by
  unfold edit at h
  split at h
  case h_1 n hn => exact ⟨n, hn, store_eq_ok h⟩
  case h_2 => cases h

/-- **What is under each number** after some lines were stored or deleted. -/
theorem find?_edited (h : lines.foldlM edit l = .ok l') :
    (l.Ascending → l'.Ascending) ∧ l'.find? = Machine.latest l.find? lines := by
  induction lines generalizing l with
  | nil =>
    obtain rfl := Except.ok.inj h
    exact ⟨id, rfl⟩
  | cons line rest ih =>
    rw [List.foldlM_cons] at h
    cases hedit : l.edit line with
    | error e => rw [hedit] at h; cases h
    | ok l₁ =>
      rw [hedit] at h
      obtain ⟨n, hn, hascending, hfind⟩ := edit_eq_ok hedit
      obtain ⟨hkeeps, hlatest⟩ := ih h
      rw [Machine.latest_cons hn hfind]
      exact ⟨fun ha => hkeeps (hascending ha), hlatest⟩

/-- The line that is under a number once some lines were stored has the label,
which lines have in some way. -/
def Heads (label : Line → Option String) (lines : List Line) (n : Int64) (name : String) : Prop :=
  ∃ line, standing lines n = some line ∧ label line = some name

/-- The labels are those that the lines have in some way. A label means the last
line that has it. -/
structure LabelledBy (l : Listing) (label : Line → Option String) (lines : List Line) : Prop where
  mem_iff : ∀ name, name ∈ l.labels ↔ ∃ n, Heads label lines n name
  eq_some_iff : ∀ name n, l.labels[name]? = some n ↔
    Heads label lines n name ∧ ∀ k, Heads label lines k name → k ≤ n

theorem carries_iff_heads (htyped : ∀ line ∈ lines, ∃ s, Line.parse s = .ok line)
    (h : lines.foldlM edit empty = .ok l) : l.Carries n name ↔ Heads Line.heading lines n name := by
  have hfind : l.find? n = (standing lines n).map Line.text := by
    rw [(find?_edited h).2, ← latest_eq_map_standing]
    rfl
  have hlabel : ∀ line, standing lines n = some line → labelOf line.text = line.heading := by
    intro line hline
    obtain ⟨s, hs⟩ := htyped line (mem_of_standing hline)
    exact Line.labelOf_text hs
  unfold Carries Heads
  rw [hfind]
  constructor
  · rintro ⟨text, htext, hname⟩
    obtain ⟨line, hline, rfl⟩ := Option.map_eq_some_iff.1 htext
    exact ⟨line, hline, (hlabel line hline).symm.trans hname⟩
  · rintro ⟨line, hline, hname⟩
    exact ⟨line.text, by rw [hline]; rfl, (hlabel line hline).trans hname⟩

theorem mem_foldl_insert {xs : List (String × Int64)} (m : Std.ExtTreeMap String Int64) :
    name ∈ xs.foldl (fun m x => m.insert x.1 x.2) m ↔ name ∈ m ∨ ∃ n, (name, n) ∈ xs := by
  induction xs generalizing m with
  | nil => simp
  | cons x rest ih =>
    obtain ⟨other, j⟩ := x
    rw [List.foldl_cons, ih, Std.ExtTreeMap.mem_insert, Std.LawfulEqCmp.compare_eq_iff_eq]
    by_cases hname : other = name
    · subst hname
      simp
    · simp [hname, Ne.symm hname]

/-- A name is a label if some line begins with it. -/
theorem Ascending.mem_labels_iff (h : l.Ascending) : name ∈ l.labels ↔ ∃ n, l.Carries n name := by
  have hfold : name ∈ l.labels ↔ name ∈ (∅ : Std.ExtTreeMap String Int64) ∨ ∃ n, (name, n) ∈ l.labelled :=
    mem_foldl_insert ∅
  rw [hfold]
  simp [h.mem_labelled_iff]

/-- What heads the lines is the same if their labels are. -/
theorem LabelledBy.congr {f g : Line → Option String} (h : l.LabelledBy f lines)
    (hsame : ∀ n line, standing lines n = some line → f line = g line) : l.LabelledBy g lines := by
  have hheads : ∀ n name, Heads f lines n name ↔ Heads g lines n name := fun n name =>
    ⟨fun ⟨line, hline, hname⟩ => ⟨line, hline, (hsame n line hline).symm.trans hname⟩,
      fun ⟨line, hline, hname⟩ => ⟨line, hline, (hsame n line hline).trans hname⟩⟩
  constructor
  · intro name
    simp only [h.mem_iff, hheads]
  · intro name n
    simp only [h.eq_some_iff, hheads]

/-- **The labels of a program, told by its lines as they were typed.** Let some
lines be stored or deleted one after the other in an empty program. A name is a
label just if a line that is there then has it for a heading: the line begins
with the name and a colon, or it begins with a number other than zero and these
two come behind it. The label means the last such line. The two notions of a
label differ for such lines with a number only; if there is none among the lines
that are there, the labels are exactly the names with a colon that lines begin
with. -/
theorem labels_of_edits {lines : List Line} {l : Listing} (htyped : ∀ line ∈ lines, ∃ s, Line.parse s = .ok line)
    (h : lines.foldlM edit empty = .ok l) :
    l.LabelledBy Line.heading lines ∧
    (∀ line : Line, line.heading = line.label ↔
      ¬ ∃ k name us, k ≠ 0 ∧ line.tokens = .number k :: .name name :: .colon :: us) ∧
    ((∀ n line, standing lines n = some line →
        ¬ ∃ k name us, k ≠ 0 ∧ line.tokens = .number k :: .name name :: .colon :: us) →
      l.LabelledBy Line.label lines) := by
  have hascending : l.Ascending := (find?_edited h).1 List.Pairwise.nil
  have hheading : l.LabelledBy Line.heading lines := by
    constructor
    · intro name
      rw [hascending.mem_labels_iff]
      exact exists_congr fun n => carries_iff_heads htyped h
    · intro name n
      simp only [labels_eq_some_iff hascending, ← carries_iff_heads htyped h]
      exact ⟨fun hn => ⟨hn.carries, hn.le⟩, fun hn => ⟨hn.1, hn.2⟩⟩
  refine ⟨hheading, Line.heading_eq_label_iff, fun hplain => hheading.congr fun n line hline => ?_⟩
  exact (Line.heading_eq_label_iff line).2 (hplain n line hline)

-- One line is typed twice and one is deleted; a label behind a number counts,
-- one behind zero does not.
theorem labels_of_edits_numbers :
    ∃ (lines : List Line) (l : Listing), (∀ line ∈ lines, ∃ s, Line.parse s = .ok line) ∧
      lines.foldlM edit empty = .ok l ∧ l.LabelledBy Line.heading lines ∧
      l.labels.toList = [("A", 30), ("B", 20)] := by
  let lines := ["10 a: end", "20 5 b: end", "25 0 c: end", "30 print", "30 a: print", "40 a:", "40"].filterMap
    fun s => (Line.parse s).toOption
  have htyped : ∀ line ∈ lines, ∃ s, Line.parse s = .ok line := by
    intro line hline
    obtain ⟨s, -, hs⟩ := List.mem_filterMap.1 hline
    cases hp : Line.parse s with
    | error e => rw [hp] at hs; cases hs
    | ok other =>
      rw [hp] at hs
      exact ⟨s, hp.trans (congrArg _ (Option.some.inj hs))⟩
  have hedits : lines.foldlM edit empty =
      .ok ⟨[(10, "A : END"), (20, "5 B : END"), (25, "0 C : END"), (30, "A : PRINT")]⟩ := by decide +kernel
  exact ⟨lines, _, htyped, hedits, (labels_of_edits htyped hedits).1, by decide +kernel⟩

/-- A line that begins with a number has no label, but counts as labelled by the
name behind the number. -/
theorem label_behind_number_counts :
    ∃ (line : Line) (l : Listing), Line.parse "10 5 TOP: PRINT 1" = .ok line ∧ [line].foldlM edit empty = .ok l ∧
      line.label = none ∧ l.labels.toList = [("TOP", 10)] ∧ ¬ l.LabelledBy Line.label [line] := by
  obtain ⟨line, hline, hfacts⟩ := Line.exists_parse_of_map (s := "10 5 TOP: PRINT 1")
    (f := fun line => (line.label, ([line].foldlM edit empty).toOption))
    (a := (none, some ⟨[(10, "5 TOP : PRINT 1")]⟩)) (by decide +kernel)
  obtain ⟨hlabel, hedit⟩ := Prod.mk.inj hfacts
  have hlabels : (⟨[(10, "5 TOP : PRINT 1")]⟩ : Listing).labels.toList = [("TOP", 10)] := by decide +kernel
  refine ⟨line, ⟨[(10, "5 TOP : PRINT 1")]⟩, hline, ?_, hlabel, hlabels, fun h => ?_⟩
  · cases hrun : [line].foldlM edit empty with
    | error e => rw [hrun] at hedit; cases hedit
    | ok l => rw [hrun] at hedit; exact congrArg _ (Option.some.inj hedit)
  · obtain ⟨n, other, hother, hname⟩ := (h.mem_iff "TOP").1 ((Machine.mem_labels_iff hlabels "TOP").2 rfl)
    obtain rfl := List.mem_singleton.1 (mem_of_standing hother)
    rw [hlabel] at hname
    cases hname

end Listing

end LineBasic
