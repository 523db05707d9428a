import LineBasic.Listing
import LineBasic.Proofs.Line.RoundTrip
import LineBasic.Proofs.Text.Lines

/-!
# How listings come about

A listing is changed by clearing it, by entering a line, and by loading the
lines of a file. Whatever is done to it, its lines stand in the order of their
numbers, the numbers are positive, and every text is that of a line which was
entered or loaded.

* `Listing.after`: the listing after some changes.
* `Listing.Kept`: what is known of such a listing; `Kept.change` for one change,
  `kept_after` for all.
* `Listing.lines_unlines_range`, `Listing.load_range`: the lines are kept in the
  text of a file, and loading them makes the same listing.
-/

namespace LineBasic.Listing

/-- What can be done to a listing. -/
inductive Change where
  | clear
  /-- A line that is entered. -/
  | edit (text : String)
  /-- The lines of a file, in place of all others. -/
  | load (texts : List String)

/-- The texts that a change brings in. -/
def Change.texts : Change → List String
  | clear => []
  | edit text => [text]
  | load texts => texts

/-- The listing after a change. An error leaves it as it was, or as far as a
file could be loaded. -/
def change (l : Listing) : Change → Listing
  | .clear => empty
  | .edit text =>
    match Line.parse text with
    | .ok line => (l.edit line).toOption.getD l
    | .error _ => l
  | .load texts => (Listing.load texts).2

/-- The listing after some changes, one after the other. -/
def after (changes : List Change) : Listing := changes.foldl change empty

/-- The line numbers ascend. -/
def Ascending (l : Listing) : Prop := l.lines.Pairwise (·.1 < ·.1)

/-- The lines stand in order, their numbers are positive, and each is the text
of a line that was entered. -/
structure Kept (entered : String → Prop) (l : Listing) : Prop where
  ascending : l.lines.Pairwise (·.1 < ·.1)
  positive : ∀ x ∈ l.lines, 0 < x.1.toInt
  origin : ∀ x ∈ l.lines, ∃ s line, entered s ∧ Line.parse s = .ok line ∧ line.isEmpty = false ∧ x.2 = line.text

/-! ### Inserting a line -/

theorem mem_insertLine {n : Int64} {text : String} {xs : List (Int64 × String)} {x : Int64 × String}
    (h : x ∈ insertLine n text xs) : x = (n, text) ∨ x ∈ xs := by
  induction xs with
  | nil => exact Or.inl (List.mem_singleton.1 h)
  | cons y ys ih =>
    obtain ⟨k, t⟩ := y
    rw [insertLine] at h
    split at h
    · exact List.mem_cons.1 h
    split at h
    · rcases List.mem_cons.1 h with h | h
      · exact Or.inl h
      · exact Or.inr (List.mem_cons_of_mem _ h)
    · rcases List.mem_cons.1 h with rfl | h
      · exact Or.inr List.mem_cons_self
      · rcases ih h with h | h
        · exact Or.inl h
        · exact Or.inr (List.mem_cons_of_mem _ h)

theorem pairwise_insertLine (n : Int64) (text : String) {xs : List (Int64 × String)}
    (h : xs.Pairwise (·.1 < ·.1)) : (insertLine n text xs).Pairwise (·.1 < ·.1) := by
  induction xs with
  | nil => exact List.pairwise_singleton _ _
  | cons y ys ih =>
    obtain ⟨k, t⟩ := y
    obtain ⟨hk, hys⟩ := List.pairwise_cons.1 h
    rw [insertLine]
    split
    case isTrue hlt =>
      refine List.pairwise_cons.2 ⟨?_, h⟩
      intro x hx
      rcases List.mem_cons.1 hx with rfl | hx
      · exact hlt
      · exact Int64.lt_trans hlt (hk x hx)
    case isFalse hlt =>
      split
      case isTrue heq =>
        subst heq
        exact List.pairwise_cons.2 ⟨hk, hys⟩
      case isFalse hne =>
        refine List.pairwise_cons.2 ⟨?_, ih hys⟩
        intro x hx
        rcases mem_insertLine hx with rfl | hx
        · exact Int64.lt_of_le_of_ne (Int64.not_lt.1 hlt) (Ne.symm hne)
        · exact hk x hx

/-- A line with the greatest number goes to the end. -/
theorem insertLine_of_lt (n : Int64) (text : String) {xs : List (Int64 × String)} (h : ∀ x ∈ xs, x.1 < n) :
    insertLine n text xs = xs ++ [(n, text)] := by
  induction xs with
  | nil => rfl
  | cons y ys ih =>
    obtain ⟨k, t⟩ := y
    obtain ⟨hk, hys⟩ := List.forall_mem_cons.1 h
    rw [insertLine, if_neg (Int64.not_lt.2 (Int64.le_of_lt hk)), if_neg (Int64.ne_of_lt hk).symm, ih hys]
    rfl

/-- There is one line with a number. -/
theorem Ascending.find?_of_mem {l : Listing} (h : l.Ascending) {n : Int64} {text : String}
    (hmem : (n, text) ∈ l.lines) : l.find? n = some text := by
  obtain ⟨before, after, hlines⟩ := List.append_of_mem hmem
  refine List.lookup_eq_some_iff.2 ⟨before, after, hlines, fun x hx => ?_⟩
  have hsplit : (before ++ (n, text) :: after).Pairwise (·.1 < ·.1) := hlines ▸ h
  have hbefore : x.1 < n := (List.pairwise_append.1 hsplit).2.2 x hx _ List.mem_cons_self
  have hne : n ≠ x.1 := fun h => Int64.lt_irrefl (h ▸ hbefore)
  simpa using hne

/-! ### Single changes -/

/-- A line of a file has a positive number, be it its own or the next one. -/
theorem numberAfter_pos {previous n : Int64} (hprev : 0 ≤ previous.toInt) {s : String} {line : Line}
    (hp : Line.parse s = .ok line) (h : numberAfter previous line = .ok n) : 0 < n.toInt := by
  unfold numberAfter at h
  cases hn : line.number with
  | some k =>
    rw [hn] at h
    obtain rfl := Except.ok.inj h
    exact (Line.scans_of_parse hp).2.2 k hn
  | none =>
    rw [hn] at h
    cases hk : Integer.ofInt? (previous.toInt + 10) with
    | none => simp only [hk] at h; cases h
    | some k =>
      simp only [hk] at h
      obtain rfl := Except.ok.inj h
      have := Integer.ofInt?_eq_some_iff.1 hk
      omega

theorem loadLine_eq_ok {l l' : Listing} {previous n : Int64} {s : String}
    (h : l.loadLine previous s = .ok (n, l')) :
    ∃ line, Line.parse s = .ok line ∧ numberAfter previous line = .ok n ∧ l.store n line = .ok l' := by
  unfold loadLine at h
  cases hp : Line.parse s with
  | error e => rw [hp] at h; cases h
  | ok line =>
    cases hn : numberAfter previous line with
    | error e => simp [hp, hn, bind, Except.bind] at h
    | ok k =>
      cases hst : l.store k line with
      | error e => simp [hp, hn, hst, bind, Except.bind] at h
      | ok l'' =>
        simp only [hp, hn, hst, bind, Except.bind, pure, Except.pure, Except.ok.injEq, Prod.mk.injEq] at h
        obtain ⟨rfl, rfl⟩ := h
        exact ⟨line, rfl, hn, hst⟩

namespace Kept

variable {entered : String → Prop} {l l' : Listing}

theorem empty : Kept entered .empty :=
  ⟨List.Pairwise.nil, fun _ hx => absurd hx List.not_mem_nil, fun _ hx => absurd hx List.not_mem_nil⟩

theorem find?_of_mem (h : Kept entered l) {n : Int64} {text : String} (hmem : (n, text) ∈ l.lines) :
    l.find? n = some text :=
  Ascending.find?_of_mem h.ascending hmem

theorem erase (h : Kept entered l) (n : Int64) : Kept entered (l.erase n) :=
  ⟨h.ascending.filter _, fun x hx => h.positive x (List.mem_of_mem_filter hx),
    fun x hx => h.origin x (List.mem_of_mem_filter hx)⟩

theorem insert (h : Kept entered l) {n : Int64} (hn : 0 < n.toInt) {s : String} (hs : entered s) {line : Line}
    (hp : Line.parse s = .ok line) (he : line.isEmpty = false) : Kept entered (l.insert n line.text) := by
  refine ⟨pairwise_insertLine n line.text h.ascending, ?_, ?_⟩
  · intro x hx
    rcases mem_insertLine hx with rfl | hx
    · exact hn
    · exact h.positive x hx
  · intro x hx
    rcases mem_insertLine hx with rfl | hx
    · exact ⟨s, line, hs, hp, he, rfl⟩
    · exact h.origin x hx

theorem store (h : Kept entered l) {n : Int64} (hn : 0 < n.toInt) {s : String} (hs : entered s) {line : Line}
    (hp : Line.parse s = .ok line) (hst : l.store n line = .ok l') : Kept entered l' := by
  unfold Listing.store at hst
  split at hst
  · split at hst
    · obtain rfl := Except.ok.inj hst
      exact h.erase n
    · cases hst
  case isFalse he =>
    obtain rfl := Except.ok.inj hst
    exact h.insert hn hs hp (by simpa using he)

theorem edit (h : Kept entered l) {s : String} (hs : entered s) {line : Line} (hp : Line.parse s = .ok line)
    (he : l.edit line = .ok l') : Kept entered l' := by
  unfold Listing.edit at he
  cases hn : line.number with
  | none => rw [hn] at he; cases he
  | some n =>
    rw [hn] at he
    exact h.store ((Line.scans_of_parse hp).2.2 n hn) hs hp he

theorem loadLine (h : Kept entered l) {previous n : Int64} (hprev : 0 ≤ previous.toInt) {s : String}
    (hs : entered s) (hl : l.loadLine previous s = .ok (n, l')) : 0 < n.toInt ∧ Kept entered l' := by
  obtain ⟨line, hp, hn, hst⟩ := loadLine_eq_ok hl
  have hpos := numberAfter_pos hprev hp hn
  exact ⟨hpos, h.store hpos hs hp hst⟩

theorem loadFrom (h : Kept entered l) {previous : Int64} (hprev : 0 ≤ previous.toInt) {texts : List String}
    (ht : ∀ s ∈ texts, entered s) : Kept entered (l.loadFrom previous texts).2 := by
  induction texts generalizing l previous with
  | nil => exact h
  | cons s rest ih =>
    obtain ⟨hs, hrest⟩ := List.forall_mem_cons.1 ht
    rw [Listing.loadFrom]
    split
    · exact ih h hprev hrest
    · split
      case h_1 n l' hl =>
        obtain ⟨hn, hl'⟩ := h.loadLine hprev hs hl
        exact ih hl' hn.le hrest
      case h_2 => exact h

/-- **Every change keeps a listing in order.** -/
theorem change (h : Kept entered l) {c : Change} (hc : ∀ s ∈ c.texts, entered s) :
    Kept entered (l.change c) := by
  cases c with
  | clear => exact .empty
  | edit s =>
    rw [Listing.change]
    split
    case h_1 line hp =>
      cases he : l.edit line with
      | error e => exact h
      | ok l' => exact h.edit (hc s List.mem_cons_self) hp he
    case h_2 => exact h
  | load texts => exact Kept.empty.loadFrom (by decide) hc

end Kept

/-- **A listing is kept in order by all changes**, and holds nothing but what
was entered or loaded. -/
theorem kept_after (changes : List Change) : Kept (· ∈ changes.flatMap Change.texts) (after changes) := by
  have run : ∀ (cs : List Change) (l : Listing), Kept (· ∈ changes.flatMap Change.texts) l →
      (∀ c ∈ cs, ∀ s ∈ c.texts, s ∈ changes.flatMap Change.texts) →
      Kept (· ∈ changes.flatMap Change.texts) (cs.foldl change l) := by
    intro cs
    induction cs with
    | nil => exact fun l h _ => h
    | cons c cs ih =>
      intro l h hcs
      obtain ⟨hc, hcs⟩ := List.forall_mem_cons.1 hcs
      exact ih _ (h.change hc) hcs
  exact run changes .empty .empty fun c hc s hs => List.mem_flatMap.2 ⟨c, hc, hs⟩

/-! ### Loading what was listed -/

/-- A listed line begins with the digits of its number. -/
theorem toList_listed {n : Int64} (hn : 0 < n.toInt) (text : String) :
    ∃ x r, (Line.listed n text).toList = x :: r ++ ' ' :: text.toList ∧ x.isDigit = true ∧ '\n' ∉ x :: r := by
  have hdig : ∀ c ∈ Integer.chars n, c.isDigit = true := by
    rw [Integer.chars_of_nonneg hn.le]
    exact fun c hc => Integer.isDigit_of_mem_digits hc
  obtain ⟨x, r, hx⟩ : ∃ x r, Integer.chars n = x :: r := by
    rw [Integer.chars_of_nonneg hn.le]
    exact List.exists_cons_of_ne_nil (Integer.digits_ne_nil _)
  rw [hx] at hdig
  refine ⟨x, r, by simp [Line.listed, Integer.text, hx], hdig x List.mem_cons_self, ?_⟩
  intro hm
  exact absurd (hdig _ hm) (by decide)

theorem isVacant_listed {n : Int64} (hn : 0 < n.toInt) (text : String) :
    isVacant (Line.listed n text) = false := by
  obtain ⟨x, r, hx, hd, -⟩ := toList_listed hn text
  rw [isVacant, hx, List.cons_append, List.all_cons, isSpace_of_isDigit hd]
  rfl

/-- A line as it is listed is stored as it was. -/
theorem loadLine_listed (l : Listing) (previous : Int64) {n : Int64} (hn : 0 < n.toInt) {s : String}
    {line : Line} (hp : Line.parse s = .ok line) (he : line.isEmpty = false) :
    l.loadLine previous (Line.listed n line.text) = .ok (n, l.insert n line.text) := by
  obtain ⟨line', hp', hn', ht⟩ := Line.parse_listed hn (Line.legible_of_parse hp)
  have he' : line'.isEmpty = false := by
    rw [Line.isEmpty_eq, ht, ← Line.isEmpty_eq, he]
  have htext : line'.text = line.text := by rw [Line.text, ht, Line.text]
  have hstore : l.store n line' = .ok (l.insert n line.text) := by
    rw [store, he', htext]
    rfl
  simp only [loadLine, Line.text] at hstore ⊢
  simp only [hp', numberAfter, hn', hstore, bind, Except.bind, pure, Except.pure]

/-- Listed lines are loaded one behind the other. -/
theorem loadFrom_listed {entered : String → Prop} (front back : List (Int64 × String)) (previous : Int64)
    (h : Kept entered ⟨front ++ back⟩) :
    loadFrom ⟨front⟩ previous (back.map fun x => Line.listed x.1 x.2) =
      (.ok (front ++ back).length, ⟨front ++ back⟩) := by
  induction back generalizing front previous with
  | nil => simp [loadFrom, size]
  | cons x back ih =>
    obtain ⟨n, text⟩ := x
    have hmem : (n, text) ∈ front ++ (n, text) :: back := by simp
    have hn := h.positive _ hmem
    obtain ⟨s, line, -, hp, he, rfl⟩ := h.origin _ hmem
    have hlt : ∀ y ∈ front, y.1 < n := fun y hy =>
      (List.pairwise_append.1 h.ascending).2.2 y hy _ List.mem_cons_self
    have hins : Listing.insert ⟨front⟩ n line.text = ⟨front ++ [(n, line.text)]⟩ := by
      rw [insert, insertLine_of_lt n line.text hlt]
    have hsplit : front ++ (n, line.text) :: back = (front ++ [(n, line.text)]) ++ back := by simp
    rw [hsplit] at h ⊢
    rw [List.map_cons, loadFrom, isVacant_listed hn, loadLine_listed _ previous hn hp he, hins]
    exact ih _ n h

/-- Where no line feed was entered or loaded, none is stored. -/
theorem Kept.not_mem_text {entered : String → Prop} {l : Listing} (h : Kept entered l)
    (hent : ∀ s, entered s → '\n' ∉ s.toList) : ∀ x ∈ l.lines, '\n' ∉ x.2.toList := by
  intro x hx
  obtain ⟨s, line, hs, hp, -, htext⟩ := h.origin x hx
  obtain ⟨⟨cs, hcs, hscan⟩, -⟩ := Line.scans_of_parse hp
  rw [htext, Line.text]
  exact hscan.not_mem_spell fun hm => hent s hs (hcs.subset hm)

/-- A listed line is a line of a text: no line feed is in it, and no carriage
return ends it. -/
theorem Kept.listed_whole {entered : String → Prop} {l : Listing} (h : Kept entered l) {x : Int64 × String}
    (hx : x ∈ l.lines) (hfeed : '\n' ∉ x.2.toList) :
    '\n' ∉ (Line.listed x.1 x.2).toList ∧ (Line.listed x.1 x.2).toList.getLast? ≠ some '\r' := by
  obtain ⟨y, r, hy, -, hr⟩ := toList_listed (h.positive x hx) x.2
  obtain ⟨s, line, -, hp, -, htext⟩ := h.origin x hx
  rw [hy]
  constructor
  · intro hm
    rcases List.mem_append.1 hm with hm | hm
    · exact hr hm
    · rcases List.mem_cons.1 hm with hm | hm
      · cases hm
      · exact hfeed hm
  · rw [List.getLast?_append_cons]
    cases hc : x.2.toList with
    | nil => decide
    | cons c cs =>
      rw [List.getLast?_cons_cons, ← hc, htext]
      intro hlast
      have := (Line.legible_of_parse hp).getLast_spell '\r' hlast
      cases this

/-- All lines, as they are listed. -/
theorem range_none_none (l : Listing) : l.range none none = l.lines.map fun x => Line.listed x.1 x.2 := by
  simp [range]

/-- The text that a listing is saved as has the listed lines as its lines. -/
theorem lines_unlines_range {entered : String → Prop} {l : Listing} (h : Kept entered l)
    (hfeed : ∀ x ∈ l.lines, '\n' ∉ x.2.toList) :
    LineBasic.lines (unlines (l.range none none)) = l.range none none := by
  refine lines_unlines ?_
  rw [range_none_none]
  intro text ht
  obtain ⟨x, hx, rfl⟩ := List.mem_map.1 ht
  exact h.listed_whole hx (hfeed x hx)

/-- **Loading the lines as they are listed makes the same listing.** -/
theorem load_range {entered : String → Prop} {l : Listing} (h : Kept entered l) :
    load (l.range none none) = (.ok l.size, l) := by
  rw [range_none_none]
  exact loadFrom_listed [] l.lines 0 h

end LineBasic.Listing
