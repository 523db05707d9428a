/-!
# The lines of a text

A line ends at a line feed, or at a carriage return with a line feed after it. A
carriage return anywhere else belongs to its line, and the end of the text
closes the last line only if something stands there.

* `lines`: the lines of a text.
* `unlines`: each line with a line feed behind it.
-/

namespace LineBasic

/-- The line whose characters were collected in reverse and which a line feed
closes. -/
def closeLine : List Char → String
  | '\r' :: taken => String.ofList taken.reverse
  | taken => String.ofList taken.reverse

/-- The lines of the rest of a text; `taken` holds, in reverse, what the current
line has so far. -/
def linesFrom (taken : List Char) : List Char → List String
  | [] => if taken.isEmpty then [] else [String.ofList taken.reverse]
  | c :: rest =>
    if c = '\n' then closeLine taken :: linesFrom [] rest else linesFrom (c :: taken) rest

/-- The lines of a text, without their line ends. -/
def lines (s : String) : List String :=
  linesFrom [] s.toList

/-- Each line with a line feed behind it. -/
def unlines (ls : List String) : String :=
  String.join (ls.map (· ++ "\n"))

end LineBasic
