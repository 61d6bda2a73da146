/-!
# Lines of text

This module splits text into lines and finds one text inside another. A line
ends at a line feed, and one carriage return before the line feed belongs to the
line's end; no other character ends a line.
-/

namespace FieldGuide.Text

/-- Whether a text occurs inside another one. -/
def occursIn (needle : List Char) : List Char → Bool
  | [] => needle.isEmpty
  | c :: rest => needle.isPrefixOf (c :: rest) || occursIn needle rest

/-- The lines of a text, without their ends. A line end at the very end of the
text does not open another line. -/
def lines : List Char → List (List Char)
  | [] => []
  | '\r' :: '\n' :: rest => [] :: lines rest
  | '\n' :: rest => [] :: lines rest
  | c :: rest =>
      match lines rest with
      | [] => [[c]]
      | line :: others => (c :: line) :: others

end FieldGuide.Text
