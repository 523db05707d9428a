/-!
# White space

Two sets of characters count as white space. Inside a line only `isBlank`
separates words: space, tab, carriage return and line feed. Where a text is
trimmed, or asked whether it holds anything at all, the 25 characters with the
Unicode property `White_Space` count (`isSpace`).

* `trimEnd`, `trim`: a text without its spaces at the end, or at both ends.
* `isVacant`: a text that is nothing but spaces.
-/

namespace LineBasic

/-- Space, tab, carriage return and line feed separate the words of a line. -/
def isBlank (c : Char) : Bool :=
  c == ' ' || c == '\t' || c == '\r' || c == '\n'

/-- The characters with the Unicode property `White_Space`. -/
def isSpace (c : Char) : Bool :=
  let n := c.toNat
  (0x09 ≤ n && n ≤ 0x0D) || n == 0x20 || n == 0x85 || n == 0xA0 || n == 0x1680 ||
    (0x2000 ≤ n && n ≤ 0x200A) || n == 0x2028 || n == 0x2029 || n == 0x202F || n == 0x205F ||
    n == 0x3000

theorem isSpace_of_isBlank {c : Char} (h : isBlank c = true) : isSpace c = true := by
  simp only [isBlank, Bool.or_eq_true, beq_iff_eq] at h
  rcases h with ((rfl | rfl) | rfl) | rfl <;> decide

/-- The characters without the spaces at their end. -/
def trimEndList (cs : List Char) : List Char :=
  (cs.reverse.dropWhile isSpace).reverse

/-- The characters without the spaces at both ends. -/
def trimList (cs : List Char) : List Char :=
  trimEndList (cs.dropWhile isSpace)

/-- A text without the spaces at its end. -/
def trimEnd (s : String) : String :=
  String.ofList (trimEndList s.toList)

/-- A text without the spaces at both ends. -/
def trim (s : String) : String :=
  String.ofList (trimList s.toList)

/-- A text that holds nothing but spaces. -/
def isVacant (s : String) : Bool :=
  s.toList.all isSpace

end LineBasic
