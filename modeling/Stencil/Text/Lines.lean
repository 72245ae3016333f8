/-!
# Lines

Text as lines: a line ends at a line feed, of which a carriage return before it is part, and text
after the last line feed is a line only if there is any.
-/

namespace Stencil.Text

/-- The lines of a text, without their ends. -/
def lines : List Char → List (List Char)
  | [] => []
  | '\r' :: '\n' :: cs => [] :: lines cs
  | '\n' :: cs => [] :: lines cs
  | c :: cs =>
    match lines cs with
    | [] => [[c]]
    | l :: ls => (c :: l) :: ls

def newlines (cs : List Char) : Nat :=
  cs.count '\n'

end Stencil.Text
