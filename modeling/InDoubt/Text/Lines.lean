/-!
Text as lines. A line ends at a line feed, which takes one carriage return before it along; a last
line without a line feed counts as a line and keeps all its characters.
-/

namespace InDoubt.Text

/-- The lines of a text, without their ends. -/
def linesOf : List Char → List (List Char)
  | [] => []
  | '\n' :: rest => [] :: linesOf rest
  | '\r' :: '\n' :: rest => [] :: linesOf rest
  | c :: rest =>
      match linesOf rest with
      | [] => [[c]]
      | line :: more => (c :: line) :: more

end InDoubt.Text
