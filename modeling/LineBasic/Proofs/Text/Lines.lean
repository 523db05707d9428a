import Mathlib
import LineBasic.Text.Lines

/-!
# Lines of a text that was made of lines

* `lines_unlines`: the lines of a text are the ones that it was made of, as long
  as none of them holds a line feed or ends in a carriage return.
-/

namespace LineBasic

/-- A line is taken up to its line feed. -/
theorem linesFrom_append {line : List Char} (h : '\n' ∉ line) (taken rest : List Char) :
    linesFrom taken (line ++ '\n' :: rest) = closeLine (line.reverse ++ taken) :: linesFrom [] rest := by
  induction line generalizing taken with
  | nil => rfl
  | cons c cs ih =>
    obtain ⟨hc, hcs⟩ : '\n' ≠ c ∧ '\n' ∉ cs := by simpa using h
    rw [List.cons_append, linesFrom, if_neg (Ne.symm hc), ih hcs, List.reverse_cons, List.append_assoc]
    rfl

/-- Only a carriage return at its end is taken off a line. -/
theorem closeLine_reverse {cs : List Char} (h : cs.getLast? ≠ some '\r') :
    closeLine cs.reverse = String.ofList cs := by
  unfold closeLine
  split
  case h_1 taken he =>
    refine absurd ?_ h
    rw [← List.head?_reverse, he]
    rfl
  case h_2 => rw [List.reverse_reverse]

theorem toList_unlines_cons (l : String) (ls : List String) :
    (unlines (l :: ls)).toList = l.toList ++ '\n' :: (unlines ls).toList := by
  simp [unlines]

/-- **A text has the lines that it was made of.** -/
theorem lines_unlines {ls : List String}
    (h : ∀ l ∈ ls, '\n' ∉ l.toList ∧ l.toList.getLast? ≠ some '\r') : lines (unlines ls) = ls := by
  induction ls with
  | nil => rfl
  | cons l ls ih =>
    obtain ⟨hl, hls⟩ := List.forall_mem_cons.1 h
    have hrest : linesFrom [] (unlines ls).toList = ls := ih hls
    rw [lines, toList_unlines_cons, linesFrom_append hl.1, List.append_nil, closeLine_reverse hl.2,
      String.ofList_toList, hrest]

end LineBasic
