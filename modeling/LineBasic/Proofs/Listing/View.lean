import LineBasic.Proofs.Listing.Changes

/-!
# What a listing shows

A listing whose numbers ascend is a map from line numbers to texts. Storing and
deleting a line change it at one number. The numbers are listed in order, and so
are the lines between any bounds, which can be listed piece by piece.

* `Listing.find?_insert`, `Listing.find?_erase`: the map after a change.
* `Listing.Shows`: everything that can be asked of a listing is told by a map.
* `Listing.Ascending.shows`: a listing in ascending order is told by its own
  texts.
-/

namespace LineBasic

/-- What a line leaves in a program: its canonical text, or nothing if it is a
bare number. -/
def Line.stored (line : Line) : Option String := if line.isEmpty then none else some line.text

namespace Listing

/-- The listing is told by the map: which numbers are there, in which order, and
what is listed between two bounds, each of which may be missing. -/
structure Shows (l : Listing) (text? : Int64 → Option String) : Prop where
  find?_eq : ∀ n, l.find? n = text? n
  ascending : l.numbers.Pairwise (· < ·)
  mem_iff : ∀ n, n ∈ l.numbers ↔ (text? n).isSome
  /-- The lines whose numbers lie between the bounds are listed in ascending
  order. -/
  range_eq : ∀ first last, ∃ ns : List Int64, ns.Pairwise (· < ·) ∧
    (∀ n, n ∈ ns ↔ (text? n).isSome ∧ (∀ lo ∈ first, lo ≤ n) ∧ ∀ hi ∈ last, n ≤ hi) ∧
    l.range first last = ns.map fun n => Line.listed n ((text? n).getD "")
  range_eq_nil : ∀ lo hi, hi < lo → l.range (some lo) (some hi) = []
  /-- Two pieces that meet make up the whole. -/
  range_append : ∀ first last k, first.getD Int64.minValue ≤ k → k < last.getD Int64.maxValue →
    l.range first (some k) ++ l.range (some (k + 1)) last = l.range first last

variable {l : Listing}

/-! ### One line more or less -/

theorem isSome_find?_iff {n : Int64} : (l.find? n).isSome ↔ n ∈ l.numbers := by
  rw [find?, List.lookup_isSome_iff, numbers, List.mem_map]
  constructor
  · rintro ⟨x, hx, hn⟩
    exact ⟨x, hx, (beq_iff_eq.1 hn).symm⟩
  · rintro ⟨x, hx, hn⟩
    exact ⟨x, hx, beq_iff_eq.2 hn.symm⟩

theorem lookup_cons_eq_ite (j k : Int64) (text : String) (xs : List (Int64 × String)) :
    ((j, text) :: xs).lookup k = if k = j then some text else xs.lookup k := by
  by_cases h : k = j
  · rw [if_pos h, h, List.lookup_cons_self]
  · have hne : (k == j) = false := beq_false_of_ne h
    rw [if_neg h, List.lookup_cons, hne]

theorem lookup_insertLine (n k : Int64) (text : String) (xs : List (Int64 × String)) :
    (insertLine n text xs).lookup k = if k = n then some text else xs.lookup k := by
  induction xs with
  | nil => exact lookup_cons_eq_ite n k text []
  | cons x xs ih =>
    obtain ⟨j, t⟩ := x
    rw [insertLine]
    split
    · exact lookup_cons_eq_ite n k text _
    split
    case isTrue hj =>
      rw [lookup_cons_eq_ite, lookup_cons_eq_ite, ← hj]
      by_cases h : k = n <;> simp [h]
    case isFalse hj =>
      rw [lookup_cons_eq_ite, lookup_cons_eq_ite, ih]
      by_cases h : k = j
      · have hne : k ≠ n := fun hn => hj (hn.symm.trans h)
        rw [if_pos h, if_neg hne, if_pos h]
      · rw [if_neg h, if_neg h]

theorem find?_insert (l : Listing) (n k : Int64) (text : String) :
    (l.insert n text).find? k = if k = n then some text else l.find? k :=
  lookup_insertLine n k text l.lines

theorem lookup_filter_ne (n k : Int64) (xs : List (Int64 × String)) :
    (xs.filter (·.1 ≠ n)).lookup k = if k = n then none else xs.lookup k := by
  induction xs with
  | nil => simp
  | cons x xs ih =>
    obtain ⟨j, t⟩ := x
    by_cases hj : j = n
    · rw [List.filter_cons_of_neg (by simpa using hj), ih, lookup_cons_eq_ite, hj]
      by_cases h : k = n <;> simp [h]
    · rw [List.filter_cons_of_pos (by simpa using hj), lookup_cons_eq_ite, lookup_cons_eq_ite, ih]
      by_cases h : k = j
      · have hne : k ≠ n := fun hn => hj (h.symm.trans hn)
        rw [if_pos h, if_neg hne, if_pos h]
      · rw [if_neg h, if_neg h]

theorem find?_erase (l : Listing) (n k : Int64) : (l.erase n).find? k = if k = n then none else l.find? k :=
  lookup_filter_ne n k l.lines

theorem Ascending.insert (h : l.Ascending) (n : Int64) (text : String) : (l.insert n text).Ascending :=
  pairwise_insertLine n text h

theorem Ascending.erase (h : l.Ascending) (n : Int64) : (l.erase n).Ascending := List.Pairwise.filter _ h

/-- **What storing a line does**: what the line leaves is found under its
number, and nothing else changes. -/
theorem store_eq_ok {l' : Listing} {n : Int64} {line : Line} (h : l.store n line = .ok l') :
    (l.Ascending → l'.Ascending) ∧ ∀ k, l'.find? k = if k = n then line.stored else l.find? k := by
  unfold store at h
  split at h
  case isTrue hempty =>
    split at h
    · obtain rfl := Except.ok.inj h
      exact ⟨fun ha => ha.erase n, fun k => by rw [find?_erase, Line.stored, if_pos hempty]⟩
    · cases h
  case isFalse hline =>
    obtain rfl := Except.ok.inj h
    exact ⟨fun ha => ha.insert n line.text, fun k => by rw [find?_insert, Line.stored, if_neg hline]⟩

/-- Storing a line fails only if there is nothing to delete. -/
theorem store_eq_error {n : Int64} {line : Line} {e : Error} (h : l.store n line = .error e) :
    line.isEmpty = true ∧ l.find? n = none ∧ e = .undefinedLine n := by
  unfold store at h
  split at h
  case isTrue hempty =>
    split at h
    · cases h
    case isFalse hmissing => exact ⟨hempty, by simpa using hmissing, (Except.error.inj h).symm⟩
  case isFalse => cases h

/-! ### Ranges -/

/-- Whether a number lies between two bounds. -/
def between (first last : Option Int64) (n : Int64) : Bool := first.all (· ≤ n) && last.all (n ≤ ·)

theorem between_iff {first last : Option Int64} {n : Int64} :
    between first last n = true ↔ (∀ lo ∈ first, lo ≤ n) ∧ ∀ hi ∈ last, n ≤ hi := by
  cases first <;> cases last <;> simp [between]

theorem range_eq_map (l : Listing) (first last : Option Int64) :
    l.range first last = (l.lines.filter fun x => between first last x.1).map fun x => Line.listed x.1 x.2 := rfl

/-- Lines in ascending order are those up to a number and then those above
it. -/
theorem filter_le_append_filter_gt {xs : List (Int64 × String)} (h : xs.Pairwise (·.1 < ·.1)) (k : Int64) :
    xs.filter (·.1 ≤ k) ++ xs.filter (k < ·.1) = xs := by
  induction xs with
  | nil => rfl
  | cons x xs ih =>
    obtain ⟨hx, hxs⟩ := List.pairwise_cons.1 h
    by_cases hk : x.1 ≤ k
    · rw [List.filter_cons_of_pos (by simpa using hk), List.filter_cons_of_neg (by simpa using Int64.not_lt.2 hk),
        List.cons_append, ih hxs]
    · -- all lines that follow are above the number, too
      have hlt : k < x.1 := Int64.not_le.1 hk
      have hrest : ∀ y ∈ xs, k < y.1 := fun y hy => Int64.lt_trans hlt (hx y hy)
      have hnone : xs.filter (·.1 ≤ k) = [] :=
        List.filter_eq_nil_iff.2 fun y hy => by simpa using Int64.not_le.2 (hrest y hy)
      have hall : xs.filter (k < ·.1) = xs := List.filter_eq_self.2 fun y hy => by simpa using hrest y hy
      rw [List.filter_cons_of_neg (by simpa using hk), List.filter_cons_of_pos (by simpa using hlt), hnone, hall,
        List.nil_append]

/-- The successor of a number below another one is its successor as a whole
number. -/
theorem toInt_succ_of_lt {k hi : Int64} (h : k < hi) : (k + 1).toInt = k.toInt + 1 := by
  have hlt := Int64.lt_iff_toInt_lt.1 h
  have hhi := hi.toInt_lt
  have hlo := k.le_toInt
  rw [Int64.toInt_add, Int64.toInt_one]
  exact Int.bmod_eq_of_le (by omega) (by omega)

theorem Ascending.range_append (h : l.Ascending) {first last : Option Int64} {k : Int64}
    (hfirst : first.getD Int64.minValue ≤ k) (hlast : k < last.getD Int64.maxValue) :
    l.range first (some k) ++ l.range (some (k + 1)) last = l.range first last := by
  have hsucc := toInt_succ_of_lt hlast
  -- the lower piece is what lies between the bounds and not above `k`
  have hlow : ∀ n, between first (some k) n = (decide (n ≤ k) && between first last n) := by
    intro n
    rw [Bool.eq_iff_iff, Bool.and_eq_true, between_iff, between_iff, decide_eq_true_iff]
    constructor
    · rintro ⟨h1, h2⟩
      have hk : n ≤ k := h2 k rfl
      refine ⟨hk, h1, ?_⟩
      rintro hi rfl
      exact Int64.le_trans hk (Int64.le_of_lt hlast)
    · rintro ⟨hk, h1, -⟩
      refine ⟨h1, ?_⟩
      rintro hi hhi
      obtain rfl := Option.some.inj hhi
      exact hk
  have hhigh : ∀ n, between (some (k + 1)) last n = (decide (k < n) && between first last n) := by
    intro n
    have hiff : k + 1 ≤ n ↔ k < n := by
      rw [Int64.le_iff_toInt_le, Int64.lt_iff_toInt_lt, hsucc]
      omega
    rw [Bool.eq_iff_iff, Bool.and_eq_true, between_iff, between_iff, decide_eq_true_iff]
    constructor
    · rintro ⟨h1, h2⟩
      have hk : k < n := hiff.1 (h1 _ rfl)
      refine ⟨hk, ?_, h2⟩
      rintro lo rfl
      exact Int64.le_trans hfirst (Int64.le_of_lt hk)
    · rintro ⟨hk, -, h2⟩
      refine ⟨?_, h2⟩
      rintro lo hlo
      obtain rfl := Option.some.inj hlo
      exact hiff.2 hk
  rw [range_eq_map, range_eq_map, range_eq_map, ← List.map_append]
  simp only [hlow, hhigh]
  rw [← List.filter_filter, ← List.filter_filter,
    filter_le_append_filter_gt (List.Pairwise.filter _ h) k]

/-- **A listing in ascending order is told by its own texts.** -/
theorem Ascending.shows (h : l.Ascending) : l.Shows l.find? where
  find?_eq _ := rfl
  ascending := List.pairwise_map.2 h
  mem_iff _ := isSome_find?_iff.symm
  range_eq first last := by
    refine ⟨(l.lines.filter fun x => between first last x.1).map (·.1), ?_, ?_, ?_⟩
    · exact List.pairwise_map.2 (List.Pairwise.filter _ h)
    · intro n
      rw [← between_iff, isSome_find?_iff, numbers, List.mem_map, List.mem_map]
      constructor
      · rintro ⟨x, hx, rfl⟩
        obtain ⟨hmem, hb⟩ := List.mem_filter.1 hx
        exact ⟨⟨x, hmem, rfl⟩, hb⟩
      · rintro ⟨⟨x, hmem, rfl⟩, hb⟩
        exact ⟨x, List.mem_filter.2 ⟨hmem, hb⟩, rfl⟩
    · rw [range_eq_map, List.map_map]
      refine List.map_congr_left fun x hx => ?_
      have hfind := h.find?_of_mem (List.mem_filter.1 hx).1
      simp [hfind]
  range_eq_nil lo hi hlt := by
    rw [range_eq_map, List.map_eq_nil_iff, List.filter_eq_nil_iff]
    intro x _ hb
    obtain ⟨hlo, hhi⟩ := between_iff.1 hb
    exact Int64.not_lt.2 (Int64.le_trans (hlo lo rfl) (hhi hi rfl)) hlt
  range_append _ _ _ hfirst hlast := h.range_append hfirst hlast

end Listing

end LineBasic
