/-!
The lines of a text.

A line ends at a line feed.  One carriage return right before that line feed belongs to the ending,
not to the line.  What follows the last line feed is a line only if it is not empty, so the empty
text has no line at all.
-/

namespace Dialogue.Text

/-- The lines of a list of characters, without their endings. -/
def lineChars : List Char → List (List Char)
  | [] => []
  | '\n' :: rest => [] :: lineChars rest
  | '\r' :: '\n' :: rest => [] :: lineChars rest
  | c :: rest =>
    match lineChars rest with
    | [] => [[c]]
    | line :: more => (c :: line) :: more

/-- The lines of a text, without their endings. -/
def lines (s : String) : List String :=
  (lineChars s.toList).map String.ofList

end Dialogue.Text
