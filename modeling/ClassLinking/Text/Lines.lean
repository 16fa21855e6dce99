/-!
# Lines of a text

A line feed ends a line, and a carriage return just before it belongs to the end of the line.  What
follows the last line feed is a line of its own unless it is empty, so a text in which every line is
ended has no empty line at its end.
-/

namespace ClassLinking
namespace Text

/-- A line without the carriage return that precedes its line feed. -/
def dropReturn (line : List Char) : List Char :=
  if line.getLast? = some '\r' then line.dropLast else line

/-- The lines of a text, without the characters that end them. -/
def linesIn : List Char → List (List Char)
  | [] => []
  | c :: cs =>
    let line := (c :: cs).takeWhile (· ≠ '\n')
    let after := (c :: cs).dropWhile (· ≠ '\n')
    if after.isEmpty then [line] else dropReturn line :: linesIn after.tail
termination_by cs => cs.length
decreasing_by
  have := (List.dropWhile_sublist (fun x : Char => decide (x ≠ '\n')) (l := c :: cs)).length_le
  simp only [List.length_tail, List.length_cons] at this ⊢
  omega

/-- The lines of a text. -/
def lines (text : String) : List String := (linesIn text.toList).map String.ofList

end Text
end ClassLinking
